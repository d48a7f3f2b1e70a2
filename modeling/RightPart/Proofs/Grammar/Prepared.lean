import RightPart.Proofs.Grammar.Body
import RightPart.Proofs.Grammar.Define

namespace RightPart

theorem Text.isIdentifier_append_prime (s : String) : isIdentifier (s ++ "'") = false := by
  have hprime : continuesIdentifier '\'' = false := by decide +kernel
  have hstart : startsIdentifier '\'' = false := by decide +kernel
  have hlist : (s ++ "'").toList = s.toList ++ ['\''] := String.toList_append
  rw [isIdentifier, hlist]
  cases s.toList with
  | nil => simp [hstart]
  | cons c l => simp [hprime]

namespace Draft

variable {d d' : Draft} {g : Grammar} {kind : Kind} {l pre : List Definition} {x : Definition}
  {name left : String} {m : Automaton} {e : String × RightSide}

def HasNamedRules (d : Draft) : Prop :=
  ∀ e ∈ d.rules.entries, Text.isIdentifier e.1 ∧ e.1 ∈ d.nonterminals

theorem isIdentifier_of_declareNonterminal (h : d.declareNonterminal name = .ok d') :
    Text.isIdentifier name := by
  unfold declareNonterminal at h
  split at h
  · cases h
  · rename_i hname
    simpa using hname

theorem HasNamedRules.addProduction (h : d.HasNamedRules) (hd : d.addProduction left m = .ok d') :
    d'.HasNamedRules ∧ Text.isIdentifier left ∧ left ∈ d'.nonterminals := by
  obtain ⟨d₁, h₁, -⟩ := Except.bind_eq_ok.1 hd
  have hleft := isIdentifier_of_declareNonterminal h₁
  obtain rfl := addProduction_eq_ok hd
  have hmem : left ∈ d.nonterminals.insert left := OrderedSet.mem_insert.2 (.inr rfl)
  refine ⟨fun e he ↦ ?_, hleft, hmem⟩
  rcases OrderedMap.mem_alter he with he | rfl
  · exact ⟨(h e he).1, OrderedSet.mem_insert.2 (.inl (h e he).2)⟩
  · exact ⟨hleft, hmem⟩

theorem HasNamedRules.addGoal {lookahead : List String} (h : d.HasNamedRules)
    (hd : d.addGoal left m lookahead = .ok d') : d'.HasNamedRules := by
  obtain ⟨d₁, h₁, rfl⟩ := addGoal_eq_ok hd
  obtain ⟨hrules, hleft⟩ := h.addProduction h₁
  intro e he
  rcases OrderedMap.mem_alter he with he | rfl
  · exact hrules e he
  · exact hleft

/-- The drafts that the operations make of an empty one, with whatever automata they are given. -/
inductive Built : Draft → Prop
  | empty (kind : Kind) : Built { kind }
  | nonterminal {d d' : Draft} {name : String} :
      Built d → d.declareNonterminal name = .ok d' → Built d'
  | keyword {d : Draft} (name : String) : Built d → Built (d.declareKeyword name)
  | abbreviation {d d' : Draft} {name : String} {m : Automaton} :
      Built d → d.defineMacro name m = .ok d' → Built d'
  | production {d d' : Draft} {left : String} {m : Automaton} :
      Built d → d.addProduction left m = .ok d' → Built d'
  | goal {d d' : Draft} {left : String} {m : Automaton} {lookahead : List String} :
      Built d → d.addGoal left m lookahead = .ok d' → Built d'

theorem Built.hasNamedRules (h : d.Built) : d.HasNamedRules := by
  induction h with
  | empty => exact fun _ he ↦ absurd he List.not_mem_nil
  | nonterminal _ hd ih =>
    obtain rfl := declareNonterminal_eq_ok hd
    exact fun e he ↦ ⟨(ih e he).1, OrderedSet.mem_insert.2 (.inl (ih e he).2)⟩
  | keyword _ _ ih => exact ih
  | abbreviation _ hd ih =>
    obtain rfl := defineMacro_eq_ok hd
    exact ih
  | production _ hd ih => exact (ih.addProduction hd).1
  | goal _ hd ih => exact ih.addGoal hd

theorem Built.foldl_declareKeyword (h : d.Built) (names : List String) :
    (names.foldl declareKeyword d).Built :=
  List.foldlRecOn (motive := Built) _ _ h fun _ h name _ ↦ .keyword name h

theorem Built.foldlM_declareNonterminal (h : d.Built) {names : List String}
    (hd : names.foldlM declareNonterminal d = .ok d') : d'.Built := by
  induction names generalizing d with
  | nil => exact Except.ok.inj hd ▸ h
  | cons name names ih =>
    obtain ⟨d₁, h₁, hd⟩ := Except.bind_eq_ok.1 hd
    exact ih (.nonterminal h h₁) hd

theorem Built.addTo (h : d.Built) (hd : x.addTo d = .ok d') : d'.Built := by
  cases x with
  | nonterminals names => exact Except.ok.inj hd ▸ h
  | keywords names => exact Except.ok.inj hd ▸ h.foldl_declareKeyword names
  | abbreviation name body =>
    obtain ⟨m, -, hd⟩ := Except.bind_eq_ok.1 hd
    exact .abbreviation h (Except.mapError_eq_ok.1 hd)
  | production left body =>
    obtain ⟨m, -, hd⟩ := Except.bind_eq_ok.1 hd
    exact .production h (Except.mapError_eq_ok.1 hd)
  | goal left body lookahead =>
    obtain ⟨m, -, hd⟩ := Except.bind_eq_ok.1 hd
    exact .goal h (Except.mapError_eq_ok.1 hd)

theorem Built.foldlM_addTo (h : d.Built) (hd : pre.foldlM Definition.addTo d = .ok d') :
    d'.Built := by
  induction pre generalizing d with
  | nil => exact Except.ok.inj hd ▸ h
  | cons x pre ih =>
    obtain ⟨d₁, h₁, hd⟩ := Except.bind_eq_ok.1 hd
    exact ih (h.addTo h₁) hd

theorem built_after (h : after kind l pre = .ok d) : d.Built := by
  obtain ⟨d₀, h₀, h⟩ := Except.bind_eq_ok.1 h
  exact ((Built.empty kind).foldlM_declareNonterminal (Except.mapError_eq_ok.1 h₀)).foldlM_addTo h

theorem exists_built (h : Grammar.define kind l = .ok g) :
    ∃ d : Draft, d.Built ∧ d.finish = .ok g := by
  obtain ⟨d, hd, h⟩ := exists_after h
  exact ⟨d, built_after hd, h⟩

theorem hasNamedRules_after (h : after kind l pre = .ok d) : d.HasNamedRules :=
  (built_after h).hasNamedRules

def wrap (used : OrderedSet String) (d : Draft) (e : String × RightSide) : Draft :=
  match e.2.lookahead with
  | some s =>
    if e.1 ∈ used then
      { d with
        nonterminals := d.nonterminals.insert (wrapperName e.1)
        rules := (d.rules.insert e.1 { e.2 with lookahead := none }).insert (wrapperName e.1)
          { body := d.symbol e.1, lookahead := some s } }
    else { d with rules := d.rules.insert e.1 e.2 }
  | none => { d with rules := d.rules.insert e.1 e.2 }

theorem wrapGoals_eq :
    d.wrapGoals = d.rules.entries.foldl (wrap d.references) { d with rules := ∅ } := rfl

theorem wrap_cases (used : OrderedSet String) (d : Draft) (e : String × RightSide) :
    wrap used d e = { d with rules := d.rules.insert e.1 e.2 } ∨ ∃ s, e.2.lookahead = some s ∧
      wrap used d e = { d with
        nonterminals := d.nonterminals.insert (wrapperName e.1)
        rules := (d.rules.insert e.1 { e.2 with lookahead := none }).insert (wrapperName e.1)
          { body := d.symbol e.1, lookahead := some s } } := by
  unfold wrap
  split
  · rename_i s hs
    split
    · exact .inr ⟨s, hs, rfl⟩
    · exact .inl rfl
  · exact .inl rfl

def HasDeclaredRules (d : Draft) : Prop := ∀ e ∈ d.rules.entries, e.1 ∈ d.nonterminals

theorem HasDeclaredRules.insert (h : d.HasDeclaredRules) (he : e.1 ∈ d.nonterminals) :
    HasDeclaredRules { d with rules := d.rules.insert e.1 e.2 } := by
  intro e' he'
  rcases OrderedMap.mem_alter he' with he' | rfl
  · exact h e' he'
  · exact he

theorem HasDeclaredRules.wrap (h : d.HasDeclaredRules) (used : OrderedSet String)
    (he : e.1 ∈ d.nonterminals) : (wrap used d e).HasDeclaredRules ∧
      ∀ n ∈ d.nonterminals, n ∈ (Draft.wrap used d e).nonterminals := by
  rcases wrap_cases used d e with heq | ⟨s, -, heq⟩ <;> rw [heq]
  · exact ⟨h.insert he, fun _ hn ↦ hn⟩
  · have hsub : ∀ n ∈ d.nonterminals, n ∈ d.nonterminals.insert (wrapperName e.1) := fun n hn ↦
      OrderedSet.mem_insert.2 (.inl hn)
    have hd : HasDeclaredRules { d with nonterminals := d.nonterminals.insert (wrapperName e.1) } :=
      fun e' he' ↦ hsub _ (h e' he')
    have hrule := hd.insert (e := (e.1, { e.2 with lookahead := none })) (hsub _ he)
    exact ⟨hrule.insert (e := (wrapperName e.1, ⟨d.symbol e.1, some s⟩))
      (OrderedSet.mem_insert.2 (.inr rfl)), hsub⟩

theorem HasDeclaredRules.prepared (h : d.HasDeclaredRules) : d.prepared.HasDeclaredRules := by
  unfold Draft.prepared
  split
  · have hempty : HasDeclaredRules { d with rules := ∅ } := fun _ he ↦ absurd he List.not_mem_nil
    rw [wrapGoals_eq]
    refine (List.foldlRecOn (motive := fun d' : Draft ↦
      d'.HasDeclaredRules ∧ ∀ n ∈ d.nonterminals, n ∈ d'.nonterminals) _ _
        ⟨hempty, fun _ hn ↦ hn⟩ ?_).1
    intro d' h' e he
    obtain ⟨hdeclared, hsub⟩ := h'.1.wrap d.references (h'.2 _ (h e he))
    exact ⟨hdeclared, fun n hn ↦ hsub n (h'.2 n hn)⟩
  · exact h

theorem HasTidyRules.insert (h : d.HasTidyRules) (ht : e.2.body.Tidy) :
    HasTidyRules { d with rules := d.rules.insert e.1 e.2 } := by
  intro e' he'
  rcases OrderedMap.mem_alter he' with he' | rfl
  · exact h e' he'
  · exact ht

theorem HasTidyRules.wrap (h : d.HasTidyRules) (used : OrderedSet String) (ht : e.2.body.Tidy) :
    (wrap used d e).HasTidyRules := by
  rcases wrap_cases used d e with heq | ⟨s, -, heq⟩ <;> rw [heq]
  · exact h.insert ht
  · have hrule := h.insert (e := (e.1, { e.2 with lookahead := none })) ht
    exact hrule.insert (e := (wrapperName e.1, ⟨d.symbol e.1, some s⟩)) Automaton.tidy_ofLabel

theorem HasTidyRules.prepared (h : d.HasTidyRules) : d.prepared.HasTidyRules := by
  unfold Draft.prepared
  split
  · have hempty : HasTidyRules { d with rules := ∅ } := fun _ he ↦ absurd he List.not_mem_nil
    rw [wrapGoals_eq]
    exact List.foldlRecOn (motive := HasTidyRules) _ _ hempty
      fun d' h' e he ↦ h'.wrap d.references (h e he)
  · exact h

/-- What registration relies on: the bodies are as the operators make them, and the
names are declared. -/
structure Lawful (d : Draft) : Prop where
  tidy : d.HasTidyRules
  declared : ∀ e ∈ d.rules.entries, e.1 ∈ d.nonterminals

theorem Lawful.prepared (h : d.Lawful) : d.prepared.Lawful :=
  ⟨h.tidy.prepared, HasDeclaredRules.prepared h.declared⟩

theorem lawful_after (h : after kind l l = .ok d) : d.Lawful :=
  ⟨(describes_after (List.prefix_refl l) h).2, fun e he ↦ (hasNamedRules_after h e he).2⟩

theorem mem_wrap {used : OrderedSet String} {e' : String × RightSide} (h : e' ∈ d.rules.entries)
    (hleft : e'.1 ≠ e.1) (hwrapper : e'.1 ≠ wrapperName e.1) :
    e' ∈ (wrap used d e).rules.entries := by
  rcases wrap_cases used d e with heq | ⟨s, -, heq⟩ <;> rw [heq]
  · exact OrderedMap.mem_insert_of_ne h hleft _
  · exact OrderedMap.mem_insert_of_ne (OrderedMap.mem_insert_of_ne h hleft _) hwrapper _

theorem exists_goal_wrap (used : OrderedSet String) (d : Draft) (h : e.2.lookahead.isSome) :
    ∃ e' ∈ (wrap used d e).rules.entries, e'.2.lookahead.isSome ∧
      (e'.1 = e.1 ∨ e'.1 = wrapperName e.1) := by
  rcases wrap_cases used d e with heq | ⟨s, -, heq⟩ <;> rw [heq]
  · exact ⟨_, OrderedMap.mem_insert_self _ _ _, h, .inl rfl⟩
  · exact ⟨_, OrderedMap.mem_insert_self _ _ _, rfl, .inr rfl⟩

theorem wrapperName_inj {n n' : String} (h : wrapperName n = wrapperName n') : n = n' :=
  (String.append_left_inj _).1 h

theorem exists_goal_foldl_wrap {used : OrderedSet String} {l : List (String × RightSide)}
    (hl : (l.map Prod.fst).Nodup) (hnames : ∀ e ∈ l, Text.isIdentifier e.1)
    (h : (∃ e ∈ d.rules.entries, e.2.lookahead.isSome ∧ ∀ x ∈ l, e.1 ≠ x.1 ∧
      e.1 ≠ wrapperName x.1) ∨ ∃ e ∈ l, e.2.lookahead.isSome) :
    ∃ e ∈ (l.foldl (wrap used) d).rules.entries, e.2.lookahead.isSome := by
  induction l generalizing d with
  | nil =>
    obtain ⟨e, he, hgoal, -⟩ := h.resolve_right fun ⟨_, he, _⟩ ↦ absurd he List.not_mem_nil
    exact ⟨e, he, hgoal⟩
  | cons x l ih =>
    obtain ⟨hx, hl⟩ := List.nodup_cons.1 hl
    obtain ⟨hid, hrest⟩ := List.forall_mem_cons.1 hnames
    refine ih hl hrest ?_
    have hprime : ∀ y, Text.isIdentifier y → ∀ z, y ≠ wrapperName z := fun y hy z heq ↦ by
      rw [heq, wrapperName, Text.isIdentifier_append_prime] at hy
      cases hy
    rcases h with ⟨e, he, hgoal, hne⟩ | ⟨e, he, hgoal⟩
    · obtain ⟨hex, hne⟩ := List.forall_mem_cons.1 hne
      exact .inl ⟨e, mem_wrap he hex.1 hex.2, hgoal, hne⟩
    · rcases List.mem_cons.1 he with rfl | he
      · obtain ⟨e', he', hgoal', hname⟩ := exists_goal_wrap used d hgoal
        refine .inl ⟨e', he', hgoal', fun y hy ↦ ?_⟩
        have hxy : e.1 ≠ y.1 := fun heq ↦ hx (heq ▸ List.mem_map_of_mem hy)
        rcases hname with hname | hname <;> rw [hname]
        · exact ⟨hxy, hprime _ hid _⟩
        · exact ⟨(hprime _ (hrest y hy) _).symm, fun heq ↦ hxy (wrapperName_inj heq)⟩
      · exact .inr ⟨e, he, hgoal⟩

theorem exists_goal_prepared (h : d.HasNamedRules)
    (hgoal : ∃ e ∈ d.rules.entries, e.2.lookahead.isSome) :
    ∃ e ∈ d.prepared.rules.entries, e.2.lookahead.isSome := by
  unfold prepared
  split
  · rw [wrapGoals_eq]
    refine exists_goal_foldl_wrap ?_ (fun e he ↦ (h e he).1) (.inr hgoal)
    rw [OrderedMap.map_fst_entries]
    exact d.rules.keySet.nodup
  · exact hgoal

/-- While there are numbers left, registration makes a production of every rule. -/
theorem exists_production_of_registerAll {k : Nat} {l : List (String × RightSide)}
    {ps ps' : OrderedMap ProductionId Production} (h : registerAll (.ofNat k) l ps = .ok ps')
    (hk : k + l.length ≤ 65536) (hps : ∀ e ∈ ps.entries, e.1.toNat < k) :
    (∀ e ∈ ps.entries, e ∈ ps'.entries) ∧
      ∀ x ∈ l, ∃ e ∈ ps'.entries, e.2.left = x.1 ∧ e.2.lookahead = x.2.lookahead := by
  induction l generalizing k ps with
  | nil =>
    cases h
    exact ⟨fun _ he ↦ he, fun _ hx ↦ absurd hx List.not_mem_nil⟩
  | cons x l ih =>
    obtain ⟨p, hp, h⟩ := Except.bind_eq_ok.1 h
    rw [List.length_cons] at hk
    have hcarries := carries_of_register hp
    have hnext : UInt16.ofNat k + 1 = UInt16.ofNat (k + 1) := (UInt16.ofNat_add k 1).symm
    have hnumber : (UInt16.ofNat k).toNat = k := UInt16.toNat_ofNat_of_lt' (by
      rw [UInt16.size]
      omega)
    rw [hnext] at h
    obtain ⟨hkeep, hrest⟩ := ih h (by omega) fun e he ↦ by
      rcases OrderedMap.mem_alter he with he | rfl
      · exact Nat.lt_succ_of_lt (hps e he)
      · exact Nat.lt_succ_of_le (Nat.le_of_eq hnumber)
    refine ⟨fun e he ↦ hkeep e (OrderedMap.mem_insert_of_ne he ?_ _), fun y hy ↦ ?_⟩
    · intro heq
      have hlt := hps e he
      rw [heq, hnumber] at hlt
      exact Nat.lt_irrefl _ hlt
    · rcases List.mem_cons.1 hy with rfl | hy
      · exact ⟨_, hkeep _ (OrderedMap.mem_insert_self _ _ _), hcarries.left_eq,
          hcarries.lookahead_eq⟩
      · exact hrest y hy

theorem Lawful.of_registerAll (h : d.Lawful) {ps : OrderedMap ProductionId Production}
    (hps : registerAll 0 d.rules.entries ∅ = .ok ps) {p : Production} (hp : p ∈ ps.values) :
    p.left ∈ d.nonterminals ∧ p.body.Tidy := by
  rw [← OrderedMap.map_snd_entries] at hp
  obtain ⟨e, he, rfl⟩ := List.mem_map.1 hp
  obtain ⟨r, hr, hc⟩ := (exists_of_registerAll hps e he).resolve_left List.not_mem_nil
  exact ⟨h.declared _ hr, hc.tidy (h.tidy _ hr)⟩

theorem Built.isNonterminal (hd : d.Built) (h : d.finish = .ok g) {id : ProductionId}
    {p : Production} (hp : g.productions.get? id = some p) : g.isNonterminal p.left := by
  have hdeclared : d.HasDeclaredRules := fun e he ↦ (hd.hasNamedRules e he).2
  obtain ⟨r, hr, -⟩ := exists_rule h hp
  obtain ⟨ps, -, rfl⟩ := exists_registerAll h
  exact decide_eq_true (hdeclared.prepared _ hr)

end Draft

end RightPart
