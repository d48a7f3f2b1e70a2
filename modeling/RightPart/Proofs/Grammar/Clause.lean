import RightPart.Proofs.Automaton.Labels
import RightPart.Proofs.Grammar.Session

namespace RightPart

namespace Automaton

theorem none_union (m : Automaton) : none.union m = m := by
  have hshift : m.shift 0 = m := by
    simp [shift]
  change (⟨#[] ++ (m.shift 0).states⟩ : Automaton) = m
  rw [hshift, Array.empty_append]

theorem language_none : none.language = 0 := by
  refine Language.ext fun w ↦ iff_of_false (fun h ↦ ?_) (Language.notMem_zero w)
  obtain ⟨i, hi, -⟩ := mem_language.1 h
  exact absurd (lt_size_of_isInitialAt hi) (Nat.not_lt_zero i)

theorem closed_none : none.Closed := fun s h ↦ absurd h (Array.not_mem_empty s)

end Automaton

/-- An alternative for a nonterminal. That of a goal says what may follow. -/
structure Clause where
  left : String
  body : Automaton
  lookahead : Option (List String) := none

namespace Clause

variable {l : List Clause} {c : Clause} {n : String}

def lefts (l : List Clause) : List String := (OrderedSet.ofList (l.map left)).toList

def bodies (l : List Clause) (n : String) : List Automaton := (l.filter (·.left = n)).map body

def lookaheads (l : List Clause) (n : String) : List (List String) :=
  (l.filter (·.left = n)).filterMap lookahead

def follow? (l : List Clause) (n : String) : Option (OrderedSet String) :=
  if (lookaheads l n).isEmpty then none else some (.ofList (lookaheads l n).flatten)

def IsGoal (l : List Clause) (n : String) : Prop := lookaheads l n ≠ []

instance (l : List Clause) (n : String) : Decidable (IsGoal l n) :=
  inferInstanceAs (Decidable (lookaheads l n ≠ []))

def addTo (c : Clause) (r : RightSide) : RightSide where
  body := r.body.union c.body
  lookahead :=
    match c.lookahead with
    | none => r.lookahead
    | some x => some ((r.lookahead.getD ∅).extend x)

/-- The alternatives of a nonterminal side by side. -/
def rightSide (l : List Clause) (n : String) : RightSide where
  body := (bodies l n).foldl Automaton.union .none
  lookahead := follow? l n

theorem mem_lefts : n ∈ lefts l ↔ ∃ c ∈ l, c.left = n := by
  rw [lefts, ← OrderedSet.mem_def, OrderedSet.mem_ofList, List.mem_map]

theorem getD_follow? : (follow? l n).getD ∅ = .ofList (lookaheads l n).flatten := by
  unfold follow?
  split
  · rename_i h
    rw [List.isEmpty_iff.1 h]
    rfl
  · rfl

theorem isGoal_iff : IsGoal l n ↔ ∃ c ∈ l, c.left = n ∧ c.lookahead.isSome := by
  constructor
  · intro h
    obtain ⟨x, hx⟩ := List.exists_mem_of_ne_nil _ h
    obtain ⟨c, hc, hx⟩ := List.mem_filterMap.1 hx
    obtain ⟨hc, hn⟩ := List.mem_filter.1 hc
    exact ⟨c, hc, of_decide_eq_true hn, hx ▸ rfl⟩
  · rintro ⟨c, hc, hn, hx⟩
    obtain ⟨x, hx⟩ := Option.isSome_iff_exists.1 hx
    exact List.ne_nil_of_mem
      (List.mem_filterMap.2 ⟨c, List.mem_filter.2 ⟨hc, decide_eq_true hn⟩, hx⟩)

theorem isSome_follow? : (follow? l n).isSome ↔ IsGoal l n := by
  rw [follow?, IsGoal]
  split <;> simp_all

theorem rightSide_append_of_ne (h : c.left ≠ n) : rightSide (l ++ [c]) n = rightSide l n := by
  have hfilter : (l ++ [c]).filter (·.left = n) = l.filter (·.left = n) := by
    rw [List.filter_append, List.filter_cons_of_neg (by simpa using h), List.filter_nil,
      List.append_nil]
  rw [rightSide, follow?, bodies, lookaheads, hfilter]
  rfl

theorem rightSide_append_self (l : List Clause) (c : Clause) :
    rightSide (l ++ [c]) c.left = c.addTo (rightSide l c.left) := by
  have hfilter : (l ++ [c]).filter (·.left = c.left) = l.filter (·.left = c.left) ++ [c] := by
    rw [List.filter_append, List.filter_cons_of_pos (by simp), List.filter_nil]
  have hbody : (bodies (l ++ [c]) c.left).foldl Automaton.union .none =
      ((bodies l c.left).foldl Automaton.union .none).union c.body := by
    rw [bodies, hfilter, List.map_append, List.foldl_append]
    rfl
  have hlookaheads : lookaheads (l ++ [c]) c.left = lookaheads l c.left ++ c.lookahead.toList := by
    rw [lookaheads, hfilter, List.filterMap_append]
    cases h : c.lookahead with
    | none => rw [List.filterMap_cons_none h, List.filterMap_nil]; rfl
    | some x => rw [List.filterMap_cons_some h, List.filterMap_nil]; rfl
  have hrest : follow? (l ++ [c]) c.left = (c.addTo (rightSide l c.left)).lookahead := by
    rw [addTo, rightSide]
    dsimp only
    rw [getD_follow?, follow?, hlookaheads]
    cases c.lookahead with
    | none => rw [Option.toList_none, List.append_nil]; rfl
    | some x =>
      have hne : (lookaheads l c.left ++ [x]).isEmpty = false := by simp
      rw [Option.toList_some, hne, List.flatten_append, List.flatten_singleton,
        OrderedSet.ofList_append]
      rfl
  rw [rightSide, hbody, hrest]
  rfl

theorem mem_bodies {m : Automaton} : m ∈ bodies l n ↔ ∃ c ∈ l, c.left = n ∧ c.body = m := by
  simp only [bodies, List.mem_map, List.mem_filter, decide_eq_true_eq, and_assoc]

def language (l : List Clause) (n : String) : Language Label :=
  {w | ∃ c ∈ l, c.left = n ∧ w ∈ c.body.language}

instance (l : List Clause) (n : String) (w : List Label) : Decidable (w ∈ language l n) :=
  inferInstanceAs (Decidable (∃ c ∈ l, _))

theorem language_rightSide (h : ∀ c ∈ l, c.body.Closed) (n : String) :
    (rightSide l n).body.Closed ∧ (rightSide l n).body.language = language l n := by
  have hclosed : ∀ m ∈ bodies l n, m.Closed := fun m hm ↦ by
    obtain ⟨c, hc, -, rfl⟩ := mem_bodies.1 hm
    exact h c hc
  obtain ⟨hbody, hlanguage⟩ :=
    Automaton.language_foldl_union id Automaton.closed_union Automaton.closed_none hclosed
  refine ⟨hbody, Language.ext fun w ↦ ?_⟩
  rw [rightSide, hlanguage, Automaton.language_none, zero_add, Automaton.mem_sum_language]
  constructor
  · rintro ⟨m, hm, hw⟩
    obtain ⟨c, hc, hn, rfl⟩ := mem_bodies.1 hm
    exact ⟨c, hc, hn, hw⟩
  · rintro ⟨c, hc, hn, hw⟩
    exact ⟨c.body, mem_bodies.2 ⟨c, hc, hn, rfl⟩, hw⟩

theorem mem_labels_rightSide {a : Label} :
    a ∈ (rightSide l n).body.labels ↔ ∃ c ∈ l, c.left = n ∧ a ∈ c.body.labels := by
  have hnone : a ∉ Automaton.none.labels := List.not_mem_nil
  rw [rightSide, Automaton.mem_labels_foldl_union, or_iff_right hnone]
  simp only [mem_bodies]
  constructor
  · rintro ⟨m, ⟨c, hc, hn, rfl⟩, ha⟩
    exact ⟨c, hc, hn, ha⟩
  · rintro ⟨c, hc, hn, ha⟩
    exact ⟨c.body, ⟨c, hc, hn, rfl⟩, ha⟩

def Mentions (l : List Clause) (n : String) : Prop :=
  ∃ c ∈ l, ∃ a ∈ c.body.labels, a.isAction = false ∧ a.name = n

instance (l : List Clause) (n : String) : Decidable (Mentions l n) :=
  inferInstanceAs (Decidable (∃ c ∈ l, _))

def IsWrapped (kind : Kind) (l : List Clause) (n : String) : Prop :=
  kind = .parser ∧ IsGoal l n ∧ Mentions l n

instance (kind : Kind) (l : List Clause) (n : String) : Decidable (IsWrapped kind l n) :=
  inferInstanceAs (Decidable (_ ∧ _))

end Clause

namespace Draft

def Call.clause? : Call → Option Clause
  | production left body => some { left, body }
  | goal left body lookahead => some { left, body, lookahead := some lookahead }
  | _ => none

/-- The alternatives that calls give which succeed one after another. -/
def accepted (d : Draft) : List Call → List Clause
  | [] => []
  | c :: l => (if (c.apply d).isOk then c.clause?.toList else []) ++ accepted (c.next d) l

def clauses (kind : Kind) (calls : List Call) : List Clause := accepted { kind } calls

/-- The rules of a draft are the alternatives given for it, put together under their
nonterminals. -/
structure Collects (d : Draft) (l : List Clause) : Prop where
  keySet_eq : d.rules.keySet = .ofList (l.map Clause.left)
  getD_eq : ∀ n, (d.rules.get? n).getD { body := .none } = Clause.rightSide l n

variable {d d' : Draft} {l : List Clause} {left : String} {m : Automaton} {lookahead : List String}

structure Adds (c : Clause) (d d' : Draft) : Prop where
  kind_eq : d'.kind = d.kind
  keySet_eq : d'.rules.keySet = d.rules.keySet.insert c.left
  get?_eq : ∀ n, d'.rules.get? n =
    if n = c.left then some (c.addTo ((d.rules.get? n).getD { body := .none })) else d.rules.get? n

theorem adds_of_addProduction (hd : d.addProduction left m = .ok d') :
    Adds { left, body := m } d d' := by
  obtain rfl := addProduction_eq_ok hd
  refine ⟨rfl, OrderedMap.keySet_alter _ _ _, fun n ↦ ?_⟩
  rw [OrderedMap.get?_alter]
  split
  · rename_i hn
    subst hn
    cases d.rules.get? n with
    | none => simp [Clause.addTo, Automaton.none_union]
    | some r => rfl
  · rfl

theorem adds_of_addGoal (hd : d.addGoal left m lookahead = .ok d') :
    Adds { left, body := m, lookahead := some lookahead } d d' := by
  obtain ⟨d₁, h₁, rfl⟩ := addGoal_eq_ok hd
  obtain ⟨hkind, hkeySet, hget?⟩ := adds_of_addProduction h₁
  refine ⟨hkind, ?_, fun n ↦ ?_⟩
  · rw [OrderedMap.keySet_alter, hkeySet,
      OrderedSet.insert_of_mem (OrderedSet.mem_insert.2 (.inr rfl))]
  · rw [OrderedMap.get?_alter, hget?, hget?, if_pos rfl]
    split
    · rename_i hn
      subst hn
      rfl
    · rfl

theorem adds_of_clause? {c : Call} {x : Clause} (hc : c.apply d = .ok d')
    (hx : c.clause? = some x) : Adds x d d' := by
  cases c with
  | production left body =>
    obtain rfl := Option.some.inj hx
    exact adds_of_addProduction hc
  | goal left body lookahead =>
    obtain rfl := Option.some.inj hx
    exact adds_of_addGoal hc
  | nonterminal | keyword | abbreviation | action | expansion => cases hx

theorem rules_of_clause? {c : Call} (hc : c.apply d = .ok d') (hx : c.clause? = none) :
    d'.kind = d.kind ∧ d'.rules = d.rules := by
  cases c with
  | nonterminal name =>
    obtain rfl := declareNonterminal_eq_ok hc
    exact ⟨rfl, rfl⟩
  | keyword name =>
    obtain rfl := Except.ok.inj hc
    exact ⟨rfl, rfl⟩
  | abbreviation name m =>
    obtain rfl := defineMacro_eq_ok hc
    exact ⟨rfl, rfl⟩
  | action name arguments buildsTree =>
    obtain rfl := eq_of_map_eq_ok hc
    exact ⟨rfl, rfl⟩
  | expansion name =>
    obtain rfl := eq_of_map_eq_ok hc
    exact ⟨rfl, rfl⟩
  | production | goal => cases hx

theorem collects_nil (kind : Kind) : Collects { kind } [] where
  keySet_eq := rfl
  getD_eq n :=
    congrArg (fun r : Option RightSide ↦ r.getD { body := .none }) (OrderedMap.get?_empty n)

namespace Collects

theorem next (h : d.Collects l) (c : Call) :
    (c.next d).Collects (l ++ if (c.apply d).isOk then c.clause?.toList else []) := by
  cases hc : c.apply d with
  | error e =>
    rw [Call.next_of_error hc]
    exact (List.append_nil l).symm ▸ h
  | ok d' =>
    rw [Call.next_of_ok hc]
    cases hclause : c.clause? with
    | none =>
      obtain ⟨-, hrules⟩ := rules_of_clause? hc hclause
      refine ⟨?_, ?_⟩ <;> rw [hrules]
      · exact h.keySet_eq.trans (by simp)
      · simpa using h.getD_eq
    | some x =>
      obtain ⟨-, hkeySet, hget?⟩ := adds_of_clause? hc hclause
      refine ⟨?_, fun n ↦ ?_⟩
      · rw [hkeySet, h.keySet_eq]
        simp [Except.isOk, Except.toBool, OrderedSet.ofList_append]
      · rw [hget?]
        change _ = Clause.rightSide (l ++ [x]) n
        split
        · rename_i hn
          subst hn
          rw [Option.getD_some, h.getD_eq, Clause.rightSide_append_self]
        · rename_i hn
          rw [h.getD_eq, Clause.rightSide_append_of_ne (Ne.symm hn)]

theorem foldl_next (h : d.Collects l) (calls : List Call) :
    (calls.foldl Call.next d).Collects (l ++ accepted d calls) := by
  induction calls generalizing d l with
  | nil => exact (List.append_nil l).symm ▸ h
  | cons c calls ih =>
    rw [accepted, ← List.append_assoc]
    exact ih (h.next c)

theorem entries_eq (h : d.Collects l) :
    d.rules.entries = (Clause.lefts l).map fun n ↦ (n, Clause.rightSide l n) := by
  rw [OrderedMap.entries_eq_map (f := Clause.rightSide l), OrderedMap.keys, h.keySet_eq,
    Clause.lefts]
  intro k hk
  obtain ⟨r, hr⟩ := Option.isSome_iff_exists.1 (OrderedMap.isSome_get?.2 hk)
  rw [← h.getD_eq, hr, Option.getD_some]

end Collects

theorem kind_apply {c : Call} (hc : c.apply d = .ok d') : d'.kind = d.kind := by
  cases hx : c.clause? with
  | none => exact (rules_of_clause? hc hx).1
  | some x => exact (adds_of_clause? hc hx).kind_eq

theorem kind_session (kind : Kind) (calls : List Call) : (session kind calls).kind = kind :=
  List.foldlRecOn (motive := fun d : Draft ↦ d.kind = kind) _ _ rfl fun d hd c _ ↦ by
    cases hc : c.apply d with
    | ok d' => rw [Call.next_of_ok hc, kind_apply hc, hd]
    | error e => rw [Call.next_of_error hc, hd]

theorem Collects.mem_entries (h : d.Collects l) {e : String × RightSide} :
    e ∈ d.rules.entries ↔ e.1 ∈ Clause.lefts l ∧ e.2 = Clause.rightSide l e.1 := by
  rw [h.entries_eq, List.mem_map]
  constructor
  · rintro ⟨n, hn, rfl⟩
    exact ⟨hn, rfl⟩
  · rintro ⟨hn, he⟩
    exact ⟨e.1, hn, Prod.ext rfl he.symm⟩

theorem Collects.get?_rules (h : d.Collects l) {n : String} (hn : n ∈ Clause.lefts l) :
    d.rules.get? n = some (Clause.rightSide l n) :=
  OrderedMap.get?_eq_some.2 (h.mem_entries.2 ⟨hn, rfl⟩)

theorem Collects.exists_goal (h : d.Collects l) :
    (∃ e ∈ d.rules.entries, e.2.lookahead.isSome) ↔ ∃ c ∈ l, c.lookahead.isSome := by
  constructor
  · rintro ⟨e, he, hgoal⟩
    rw [(h.mem_entries.1 he).2] at hgoal
    obtain ⟨c, hc, -, hsome⟩ := Clause.isGoal_iff.1 (Clause.isSome_follow?.1 hgoal)
    exact ⟨c, hc, hsome⟩
  · rintro ⟨c, hc, hsome⟩
    exact ⟨(c.left, Clause.rightSide l c.left),
      h.mem_entries.2 ⟨Clause.mem_lefts.2 ⟨c, hc, rfl⟩, rfl⟩,
      Clause.isSome_follow?.2 (Clause.isGoal_iff.2 ⟨c, hc, rfl, hsome⟩)⟩

theorem collects_session (kind : Kind) (calls : List Call) :
    (session kind calls).Collects (clauses kind calls) := (collects_nil kind).foldl_next calls

end Draft

end RightPart
