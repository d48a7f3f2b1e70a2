import Mathlib.Data.List.Nodup
import RightPart.Proofs.Automaton.Restriction
import RightPart.Proofs.Grammar.Total
import RightPart.Proofs.Grammar.Wrapping

namespace RightPart

namespace Draft

variable {d : Draft} {g : Grammar} {k : Nat} {ps : OrderedMap ProductionId Production}
  {p : Production} {vs : List Production} {l : List (String × RightSide)} {left : String}
  {r : RightSide}

def production (e : String × RightSide) : Production where
  left := e.1
  body := e.2.body.trim.setLeft e.1
  lookahead := e.2.lookahead

theorem eq_production_of_register (h : register left r = .ok p) : p = production (left, r) := by
  unfold register at h
  split at h
  · cases h
  · rename_i m hm
    obtain rfl := Automaton.eq_trim_of_checked hm
    split at h
    · cases h
    · exact (Except.ok.inj h).symm

/-- Productions under the numbers from `k` on. After the last number comes the first one again, and
drives out the production that has it. -/
def enter (ps : OrderedMap ProductionId Production) :
    Nat → List Production → OrderedMap ProductionId Production
  | _, [] => ps
  | k, p :: l => enter (ps.insert (.ofNat k) p) (k + 1) l

theorem registerAll_eq :
    registerAll (.ofNat k) l ps = (l.mapM fun e ↦ register e.1 e.2).map (enter ps k) := by
  induction l generalizing k ps with
  | nil => rfl
  | cons e l ih =>
    have hnext : UInt16.ofNat k + 1 = UInt16.ofNat (k + 1) := (UInt16.ofNat_add k 1).symm
    rw [registerAll, List.mapM_cons]
    cases register e.1 e.2 with
    | error e => rfl
    | ok p =>
      change registerAll (UInt16.ofNat k + 1) l (ps.insert (.ofNat k) p) = _
      rw [hnext, ih]
      cases l.mapM fun e ↦ register e.1 e.2 <;> rfl

theorem eq_map_production (h : (l.mapM fun e ↦ register e.1 e.2) = .ok vs) :
    vs = l.map production := by
  induction l generalizing vs with
  | nil => exact (Except.ok.inj h).symm
  | cons e l ih =>
    rw [List.mapM_cons] at h
    obtain ⟨p, hp, h⟩ := Except.bind_eq_ok.1 h
    obtain ⟨vs', hvs, h⟩ := Except.bind_eq_ok.1 h
    obtain rfl := Except.ok.inj h
    rw [List.map_cons, ← ih hvs, eq_production_of_register hp]

theorem finish_eq : d.finish =
    if d.rules.values.all (·.lookahead.isNone) then .error .missingGoal else
    (d.prepared.rules.entries.mapM fun e ↦ register e.1 e.2) >>= fun vs ↦
      (Grammar.Checked.analyze (d.prepared.unanalyzed (enter ∅ 0 vs))).mapError .algebra := by
  have hd : (if d.kind = .parser then d.wrapGoals else d) = d.prepared := rfl
  have hzero : (0 : ProductionId) = .ofNat 0 := rfl
  unfold finish
  simp only [hd, hzero, registerAll_eq]
  split
  · rfl
  · cases d.prepared.rules.entries.mapM fun e ↦ register e.1 e.2 <;> rfl

theorem eq_analyze_of_finish (h : d.finish = .ok g) :
    g = (d.prepared.unanalyzed (enter ∅ 0 (d.prepared.rules.entries.map production))).analyze := by
  rw [finish_eq] at h
  split at h
  · cases h
  · obtain ⟨vs, hvs, h⟩ := Except.bind_eq_ok.1 h
    rw [← eq_map_production hvs]
    exact analyze_eq_ok h

theorem closed_production {e : String × RightSide} (h : e.2.body.Closed) :
    (production e).body.Closed :=
  Automaton.closed_iff.2 fun i t ht ↦ by
    rw [production, Automaton.size_setLeft]
    exact Automaton.closed_iff.1 (Automaton.closed_trim h) i t
      (Automaton.transitionsFrom_setLeft ▸ ht)

theorem ne_zero_of_mem {L : Language Label} {w : List Label} (h : w ∈ L) : L ≠ 0 := fun hzero ↦
  Language.notMem_zero w (hzero ▸ h)

/-- A right part that registration does not refuse. -/
structure Registrable (m : Automaton) : Prop where
  closed : m.Closed
  ne_zero : m.language ≠ 0

theorem registrable_ofLabel (a : Label) : Registrable (.ofLabel a) :=
  ⟨Automaton.tidy_ofLabel.closed, ne_zero_of_mem (w := [a]) (Automaton.language_ofLabel ▸ rfl)⟩

theorem registrable_rightSide {l : List Clause} {n : String} (hclosed : ∀ c ∈ l, c.body.Closed)
    (h : Clause.language l n ≠ 0) : Registrable (Clause.rightSide l n).body := by
  obtain ⟨hclosed, hlanguage⟩ := Clause.language_rightSide hclosed n
  exact ⟨hclosed, hlanguage ▸ h⟩

theorem register_of_closed (h : r.body.Closed) :
    (r.body.language = 0 → register left r = .error (.emptyProduction left)) ∧
      (r.body.language ≠ 0 → register left r = .ok (production (left, r))) := by
  have hempty : r.body.trim.isEmpty ↔ r.body.language = 0 := by
    rw [Automaton.isEmpty_iff Automaton.useful_trim, Automaton.language_trim]
  rw [register, Automaton.checked_trim h]
  exact ⟨fun hlanguage ↦ if_pos (hempty.2 hlanguage),
    fun hlanguage ↦ if_neg (mt hempty.1 hlanguage)⟩

theorem mapM_register (h : ∀ e ∈ l, Registrable e.2.body) :
    (l.mapM fun e ↦ register e.1 e.2) = .ok (l.map production) := by
  induction l with
  | nil => rfl
  | cons e l ih =>
    obtain ⟨⟨hclosed, hlanguage⟩, hl⟩ := List.forall_mem_cons.1 h
    rw [List.mapM_cons, (register_of_closed hclosed).2 hlanguage, ih hl]
    rfl

theorem keySet_enter :
    (enter ps k vs).keySet = ps.keySet.extend ((List.range' k vs.length).map UInt16.ofNat) := by
  induction vs generalizing k ps with
  | nil => rfl
  | cons p vs ih =>
    rw [enter, ih, OrderedMap.insert, OrderedMap.keySet_alter]
    rfl

theorem entries_enter (hk : k + vs.length ≤ 65536) (hps : ∀ e ∈ ps.entries, e.1.toNat < k) :
    (enter ps k vs).entries = ps.entries ++ (vs.zipIdx k).map fun x ↦ (.ofNat x.2, x.1) := by
  induction vs generalizing k ps with
  | nil => exact (List.append_nil _).symm
  | cons p vs ih =>
    rw [List.length_cons] at hk
    have hnumber : (UInt16.ofNat k).toNat = k := UInt16.toNat_ofNat_of_lt' (show k < 65536 by omega)
    have hnew : UInt16.ofNat k ∉ ps.keySet := fun hmem ↦ by
      obtain ⟨e, he, heq⟩ := OrderedMap.mem_keySet_iff.1 hmem
      have hlt := hps e he
      rw [heq, hnumber] at hlt
      exact Nat.lt_irrefl _ hlt
    have hentries := OrderedMap.entries_insert_of_not_mem hnew p
    rw [enter, ih (by omega), hentries, List.append_assoc]
    · rfl
    · intro e he
      rw [hentries] at he
      rcases List.mem_append.1 he with he | he
      · exact Nat.lt_succ_of_lt (hps e he)
      · rw [List.mem_singleton.1 he, hnumber]
        exact Nat.lt_succ_self k

theorem values_enter (h : vs.length ≤ 65536) : (enter ∅ 0 vs).values = vs := by
  have hentries : (enter ∅ 0 vs).entries = _ := entries_enter ((Nat.zero_add _).trans_le h) nofun
  rw [← OrderedMap.map_snd_entries, hentries, OrderedMap.entries_empty, List.nil_append,
    List.map_map]
  exact List.zipIdx_map_fst 0 vs

theorem size_enter : (enter ∅ 0 vs).size = min vs.length 65536 := by
  have hnodup : ∀ n ≤ 65536, ((List.range' 0 n).map UInt16.ofNat).Nodup := fun n hn ↦ by
    refine List.Nodup.map_on (fun i hi j hj heq ↦ ?_) List.nodup_range'
    rw [List.mem_range'_1, Nat.zero_add] at hi hj
    have hnumbers := congrArg UInt16.toNat heq
    rwa [UInt16.toNat_ofNat_of_lt' (Nat.lt_of_lt_of_le hi.2 hn),
      UInt16.toNat_ofNat_of_lt' (Nat.lt_of_lt_of_le hj.2 hn)] at hnumbers
  rw [OrderedMap.size, keySet_enter]
  change (OrderedSet.ofList _).size = _
  rcases Nat.le_total vs.length 65536 with h | h
  · rw [Nat.min_eq_left h, ← OrderedSet.length_toList,
      OrderedSet.toList_ofList_of_nodup (hnodup _ h), List.length_map, List.length_range']
  · obtain ⟨n, hn⟩ := Nat.exists_eq_add_of_le h
    rw [Nat.min_eq_right h, hn, ← List.range'_append_1, List.map_append, OrderedSet.ofList_append,
      OrderedSet.extend_of_subset, ← OrderedSet.length_toList,
      OrderedSet.toList_ofList_of_nodup (hnodup _ (Nat.le_refl _)), List.length_map,
      List.length_range']
    intro i _
    refine OrderedSet.mem_ofList.2 (List.mem_map.2 ⟨i.toNat, ?_, UInt16.ofNat_toNat⟩)
    exact List.mem_range'_1.2 ⟨Nat.zero_le _, by simpa using i.toNat_lt⟩

theorem mem_of_mem_enter {e : ProductionId × Production} (h : e ∈ (enter ps k vs).entries) :
    e.2 ∈ vs ∨ e ∈ ps.entries ∧ ∀ i < vs.length, e.1 ≠ .ofNat (k + i) := by
  induction vs generalizing k ps with
  | nil => exact .inr ⟨h, fun i hi ↦ absurd hi (Nat.not_lt_zero i)⟩
  | cons p vs ih =>
    rcases ih h with hvs | ⟨he, hne⟩
    · exact .inl (List.mem_cons_of_mem p hvs)
    · rcases OrderedMap.mem_insert he with rfl | ⟨he, hk⟩
      · exact .inl List.mem_cons_self
      · refine .inr ⟨he, fun i hi ↦ ?_⟩
        cases i with
        | zero => exact hk
        | succ i =>
          rw [Nat.add_succ, ← Nat.succ_add]
          exact hne i (Nat.lt_of_succ_lt_succ hi)

/-- Where there are more productions than numbers, the first one is driven out. -/
theorem mem_of_mem_enter_cons {e : ProductionId × Production} (h : 65536 ≤ vs.length)
    (he : e ∈ (enter ∅ 0 (p :: vs)).entries) : e.2 ∈ vs := by
  rcases mem_of_mem_enter (k := 1) he with hvs | ⟨he, hne⟩
  · exact hvs
  · rcases OrderedMap.mem_alter he with he | rfl
    · cases he
    · exact absurd rfl (hne 65535 h)

theorem checked_analyze_enter (h : ∀ e ∈ l, e.2.body.Closed) :
    Grammar.Checked.analyze (d.unanalyzed (enter ∅ 0 (l.map production))) =
      .ok (d.unanalyzed (enter ∅ 0 (l.map production))).analyze := by
  refine Grammar.checked_analyze fun p hp ↦ ?_
  obtain ⟨id, hp⟩ := Grammar.exists_get? hp
  obtain ⟨e, he, rfl⟩ :=
    List.mem_map.1 ((mem_of_mem_enter (OrderedMap.get?_eq_some.1 hp)).resolve_right
    fun hempty ↦ List.not_mem_nil hempty.1)
  exact closed_production (h e he)

theorem all_isNone_iff :
    d.rules.values.all (·.lookahead.isNone) ↔ ¬ ∃ e ∈ d.rules.entries, e.2.lookahead.isSome := by
  rw [← OrderedMap.map_snd_entries]
  simp

theorem finish_of_closed (hd : d.HasNamedRules)
    (h : ∀ e ∈ d.rules.entries, Registrable e.2.body)
    (hgoal : ∃ e ∈ d.rules.entries, e.2.lookahead.isSome) :
    d.finish = .ok
      (d.prepared.unanalyzed (enter ∅ 0 (d.prepared.rules.entries.map production))).analyze := by
  have hprepared := forall_prepared hd h fun n ↦ registrable_ofLabel _
  rw [finish_eq, if_neg (mt all_isNone_iff.1 (not_not_intro hgoal)), mapM_register hprepared]
  exact congrArg (Except.mapError _) (checked_analyze_enter fun e he ↦ (hprepared e he).closed)

theorem isSome_productionFor? {n : String} : (g.productionFor? n).isSome ↔ n ∈ g.lefts := by
  rw [Grammar.productionFor?, List.find?_isSome, Grammar.lefts, ← OrderedMap.map_snd_entries]
  simp

theorem size_of_finish (h : d.finish = .ok g) :
    g.productions.size = min d.prepared.rules.keys.length 65536 := by
  rw [eq_analyze_of_finish h, ← OrderedMap.map_fst_entries, List.length_map]
  exact size_enter.trans (by rw [List.length_map])

theorem lefts_of_finish (h : d.finish = .ok g) (hsize : d.prepared.rules.keys.length ≤ 65536) :
    g.lefts = d.prepared.rules.keys := by
  rw [← OrderedMap.map_fst_entries] at hsize ⊢
  rw [eq_analyze_of_finish h, Grammar.lefts_analyze]
  change (enter ∅ 0 _).values.map Production.left = _
  rw [values_enter (by simpa using hsize), List.map_map]
  rfl

theorem first_not_mem_lefts (h : d.finish = .ok g) (hsize : 65536 < d.prepared.rules.keys.length)
    {n : String} (hn : d.prepared.rules.keys.head? = some n) : n ∉ g.lefts := by
  have hnodup : d.prepared.rules.keys.Nodup := d.prepared.rules.keySet.nodup
  rw [eq_analyze_of_finish h, Grammar.lefts_analyze]
  rw [← OrderedMap.map_fst_entries] at hsize hn hnodup
  cases hentries : d.prepared.rules.entries with
  | nil =>
    rw [hentries] at hn
    cases hn
  | cons e l =>
    rw [hentries, List.map_cons] at hsize hn hnodup
    obtain rfl := Option.some.inj hn
    rw [List.length_cons, List.length_map] at hsize
    intro hmem
    obtain ⟨p, hp, hleft⟩ := List.mem_map.1 hmem
    obtain ⟨id, hp⟩ := Grammar.exists_get? hp
    have hlost := mem_of_mem_enter_cons (by rw [List.length_map]; exact Nat.le_of_lt_succ hsize)
      (OrderedMap.get?_eq_some.1 hp)
    obtain ⟨e', he', rfl⟩ := List.mem_map.1 hlost
    exact (List.nodup_cons.1 hnodup).1 (List.mem_map.2 ⟨e', he', hleft⟩)

theorem keys_prepared_session {kind : Kind} {calls : List Call} :
    (session kind calls).prepared.rules.keys = names kind (clauses kind calls) := by
  rw [(collects_session kind calls).keys_prepared (consistent_session kind calls).hasNamedRules,
    kind_session]

/-- A grammar has a production for each nonterminal with alternatives, and one for each goal that
stands in for another, as long as the numbers suffice. Beyond that every number is in use, and the
production that came first cannot be found. -/
theorem productions_of_session {kind : Kind} {calls : List Call} {g : Grammar}
    (h : (session kind calls).finish = .ok g) :
    let l := clauses kind calls
    let n := (Clause.lefts l).length + (Clause.lefts l).countP (Clause.IsWrapped kind l ·)
    (n ≤ 65536 → g.productions.size = n ∧ ∀ name ∈ names kind l, (g.productionFor? name).isSome) ∧
      (65536 < n → g.productions.size = 65536 ∧ ∀ name, (Clause.lefts l).head? = some name →
        g.productionFor? name = none) := by
  intro l n
  have hlength : (session kind calls).prepared.rules.keys.length = n := by
    rw [keys_prepared_session, length_names]
  rw [size_of_finish h, hlength]
  refine ⟨fun hn ↦ ⟨Nat.min_eq_left hn, fun name hname ↦ ?_⟩,
    fun hn ↦ ⟨Nat.min_eq_right hn.le, fun name hname ↦ ?_⟩⟩
  · rw [isSome_productionFor?, lefts_of_finish h (hlength ▸ hn), keys_prepared_session]
    exact hname
  · rw [← Option.not_isSome_iff_eq_none, isSome_productionFor?]
    refine first_not_mem_lefts h (hlength ▸ hn) ?_
    rw [keys_prepared_session, head?_names, hname]

theorem finish_session_of_ne_zero {kind : Kind} {calls : List Call}
    (hclosed : ∀ c ∈ clauses kind calls, c.body.Closed)
    (hgoal : ∃ c ∈ clauses kind calls, c.lookahead.isSome)
    (h : ∀ n ∈ Clause.lefts (clauses kind calls), Clause.language (clauses kind calls) n ≠ 0) :
    ∃ g, (session kind calls).finish = .ok g := by
  have hcollects := collects_session kind calls
  refine ⟨_, finish_of_closed (consistent_session kind calls).hasNamedRules (fun e he ↦ ?_)
    (hcollects.exists_goal.2 hgoal)⟩
  obtain ⟨hleft, hbody⟩ := hcollects.mem_entries.1 he
  exact hbody ▸ registrable_rightSide hclosed (h e.1 hleft)

theorem apply_of_macros_eq_empty {c : Call} {x : Clause} (hmacros : d.macros = ∅)
    (hc : c.clause? = some x) (hleft : Text.isIdentifier x.left) (hx : x.lookahead ≠ some []) :
    ∃ d', c.apply d = .ok d' ∧ d'.macros = ∅ := by
  have hfree : d.hasMacro x.left = false := by
    rw [hasMacro, hmacros]
    exact decide_eq_false (OrderedSet.not_mem_empty _)
  have hdeclare : d.declareNonterminal x.left =
      .ok { d with nonterminals := d.nonterminals.insert x.left } := by
    rw [declareNonterminal, hleft, hfree]
    rfl
  cases c with
  | production left body =>
    obtain rfl := Option.some.inj hc
    cases h : d.addProduction left body with
    | error e =>
      rw [addProduction, hdeclare] at h
      cases h
    | ok d' =>
      obtain rfl := addProduction_eq_ok h
      exact ⟨_, h, hmacros⟩
  | goal left body lookahead =>
    obtain rfl := Option.some.inj hc
    have hlookahead : ¬ lookahead.isEmpty := fun he ↦ hx (congrArg some (List.isEmpty_iff.1 he))
    cases h : d.addGoal left body lookahead with
    | error e =>
      rw [addGoal, if_neg hlookahead, addProduction, hdeclare] at h
      cases h
    | ok d' =>
      obtain ⟨d₁, h₁, rfl⟩ := addGoal_eq_ok h
      obtain rfl := addProduction_eq_ok h₁
      exact ⟨_, h, hmacros⟩
  | nonterminal | keyword | abbreviation | action | expansion => cases hc

theorem accepted_of_macros_eq_empty {calls : List Call} (hmacros : d.macros = ∅)
    (h : ∀ c ∈ calls, ∃ x, c.clause? = some x ∧ Text.isIdentifier x.left ∧ x.lookahead ≠ some []) :
    accepted d calls = calls.filterMap Call.clause? := by
  induction calls generalizing d with
  | nil => rfl
  | cons c calls ih =>
    obtain ⟨⟨x, hx, hleft, hlookahead⟩, h⟩ := List.forall_mem_cons.1 h
    obtain ⟨d', hd, hmacros⟩ := apply_of_macros_eq_empty hmacros hx hleft hlookahead
    rw [accepted, Call.next_of_ok hd, ih hmacros h, hd, hx, List.filterMap_cons_some hx]
    rfl

namespace Letters

def more : Automaton :=
  (Automaton.ofLabel (.symbol "x" .parserTerminal)).join (.ofLabel (.symbol "L" .parserNonterminal))

def calls : List Call := [.production "L" more, .goal "L" .empty [Grammar.endOfInput]]

theorem language_ne_zero : ∀ n ∈ Clause.lefts (clauses .parser calls),
    Clause.language (clauses .parser calls) n ≠ 0 := by
  have hempty : ∀ n ∈ Clause.lefts (clauses .parser calls),
      [] ∈ Clause.language (clauses .parser calls) n := by
    decide +kernel
  exact fun n hn ↦ ne_zero_of_mem (hempty n hn)

theorem finish_letters : ∃ g, (session .parser calls).finish = .ok g :=
  finish_session_of_ne_zero (by decide +kernel) (by decide +kernel) language_ne_zero

theorem productions_of_letters :
    ∃ g, (session .parser calls).finish = .ok g ∧ g.productions.size = 2 ∧
    (g.productionFor? "L").isSome ∧ (g.productionFor? "L'").isSome := by
  obtain ⟨g, hg⟩ := finish_letters
  have hcount : (Clause.lefts (clauses .parser calls)).length +
      (Clause.lefts (clauses .parser calls)).countP
      (Clause.IsWrapped .parser (clauses .parser calls) ·) = 2 := by
    decide +kernel
  obtain ⟨hsize, hfound⟩ := (productions_of_session hg).1 (hcount ▸ by decide)
  exact ⟨g, hg, hsize.trans hcount, hfound _ (by decide +kernel), hfound _ (by decide +kernel)⟩

end Letters

namespace Crowd

/-- The four digits of a number to the base sixteen, each written as so many letters. -/
def name (i : Nat) : String :=
  .ofList ('n' :: (.replicate (i / 4096) 'a' ++ .replicate (i / 256 % 16) 'b' ++
    .replicate (i / 16 % 16) 'c' ++ .replicate (i % 16) 'd'))

def calls (n : Nat) : List Call :=
  .goal (name 0) .empty [Grammar.endOfInput] :: (List.range' 1 n).map fun i ↦
    .production (name i) .empty

theorem name_inj {i j : Nat} (h : name i = name j) : i = j := by
  have hlist := String.ofList_injective h
  have ha := congrArg (List.count 'a') hlist
  have hb := congrArg (List.count 'b') hlist
  have hc := congrArg (List.count 'c') hlist
  have hd := congrArg (List.count 'd') hlist
  simp [List.count_replicate] at ha hb hc hd
  omega

theorem isIdentifier_name (i : Nat) : Text.isIdentifier (name i) := by
  have hstarts : Text.startsIdentifier 'n' := by decide +kernel
  have hcontinues : ['a', 'b', 'c', 'd'].all Text.continuesIdentifier := by decide +kernel
  rw [Text.isIdentifier, name, String.toList_ofList]
  simp only [hstarts, Bool.true_and, List.all_eq_true, List.mem_append, List.mem_replicate]
  rw [List.all_eq_true] at hcontinues
  rintro c (((⟨-, rfl⟩ | ⟨-, rfl⟩) | ⟨-, rfl⟩) | ⟨-, rfl⟩) <;> exact hcontinues _ (by simp)

theorem clauses_calls (n : Nat) : clauses .parser (calls n) =
    { left := name 0, body := .empty, lookahead := some [Grammar.endOfInput] } ::
      (List.range' 1 n).map fun i ↦ { left := name i, body := .empty } := by
  rw [clauses, accepted_of_macros_eq_empty rfl, calls]
  · rw [List.filterMap_cons_some (f := Call.clause?) rfl, List.filterMap_map]
    exact congrArg _ (congrFun List.filterMap_eq_map' _)
  · intro c hc
    rcases List.mem_cons.1 hc with rfl | hc
    · exact ⟨_, rfl, isIdentifier_name 0, by simp⟩
    · obtain ⟨i, -, rfl⟩ := List.mem_map.1 hc
      exact ⟨_, rfl, isIdentifier_name i, by simp⟩

theorem body_of_mem {n : Nat} {c : Clause} (hc : c ∈ clauses .parser (calls n)) :
    c.body = .empty := by
  rw [clauses_calls] at hc
  rcases List.mem_cons.1 hc with rfl | hc
  · rfl
  · obtain ⟨i, -, rfl⟩ := List.mem_map.1 hc
    rfl

theorem lefts_calls (n : Nat) :
    Clause.lefts (clauses .parser (calls n)) = (List.range' 0 (n + 1)).map name := by
  have hmap : (clauses .parser (calls n)).map Clause.left = (List.range' 0 (n + 1)).map name := by
    rw [clauses_calls, List.map_cons, List.map_map, List.range'_succ]
    rfl
  rw [Clause.lefts, hmap, OrderedSet.toList_ofList_of_nodup]
  exact List.Nodup.map (fun _ _ ↦ name_inj) List.nodup_range'

theorem names_calls (n : Nat) :
    names .parser (clauses .parser (calls n)) = (List.range' 0 (n + 1)).map name := by
  have hwrapped : ∀ m, ¬ Clause.IsWrapped .parser (clauses .parser (calls n)) m := by
    rintro m ⟨-, -, c, hc, a, ha, -⟩
    rw [body_of_mem hc] at ha
    cases ha
  simp only [names, lefts_calls, if_neg (hwrapped _)]
  exact List.flatMap_singleton' _

theorem finish_calls (n : Nat) : ∃ g, (session .parser (calls n)).finish = .ok g := by
  refine finish_session_of_ne_zero (fun c hc ↦ ?_) ⟨_, clauses_calls n ▸ List.mem_cons_self, rfl⟩
    fun m hm ↦ ?_
  · rw [body_of_mem hc]
    decide
  · obtain ⟨c, hc, hleft⟩ := Clause.mem_lefts.1 hm
    have hempty : [] ∈ Automaton.empty.language := by decide +kernel
    exact ne_zero_of_mem (w := []) ⟨c, hc, hleft, body_of_mem hc ▸ hempty⟩

theorem lost_goal {n : Nat} (hn : 65536 ≤ n) : ∃ g, (session .parser (calls n)).finish = .ok g ∧
    g.productions.size = 65536 ∧ g.productionFor? (name 0) = none := by
  have hkeys :
      (session .parser (calls n)).prepared.rules.keys = (List.range' 0 (n + 1)).map name := by
    rw [keys_prepared_session, names_calls]
  have hlength : (session .parser (calls n)).prepared.rules.keys.length = n + 1 := by
    rw [hkeys, List.length_map, List.length_range']
  obtain ⟨g, hg⟩ := finish_calls n
  refine ⟨g, hg, ?_, ?_⟩
  · rw [size_of_finish hg, hlength, Nat.min_eq_right (Nat.le_succ_of_le hn)]
  · rw [← Option.not_isSome_iff_eq_none, isSome_productionFor?]
    refine first_not_mem_lefts hg (hlength ▸ Nat.lt_succ_of_le hn) ?_
    rw [hkeys, List.range'_succ, List.map_cons, List.head?_cons]

/-- There are 65537 nonterminals with closed alternatives, and a grammar is made of them. It has
65536 productions, and none for the goal. -/
theorem lost_goal_of_crowd : (∀ c ∈ clauses .parser (calls 65536), c.body.Closed) ∧
    (Clause.lefts (clauses .parser (calls 65536))).length = 65537 ∧
    name 0 ∈ Clause.lefts (clauses .parser (calls 65536)) ∧
    ∃ g, (session .parser (calls 65536)).finish = .ok g ∧ g.productions.size = 65536 ∧
      g.productionFor? (name 0) = none := by
  refine ⟨fun c hc ↦ ?_, ?_, ?_, lost_goal (Nat.le_refl _)⟩
  · rw [body_of_mem hc]
    decide
  · rw [lefts_calls, List.length_map, List.length_range']
  · rw [lefts_calls]
    exact List.mem_map_of_mem (List.mem_range'_1.2 ⟨Nat.le_refl 0, Nat.succ_pos _⟩)

end Crowd

end Draft

end RightPart
