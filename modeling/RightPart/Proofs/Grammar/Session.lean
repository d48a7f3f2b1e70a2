import RightPart.Proofs.Grammar.Prepared

namespace RightPart

namespace Draft

/-- A computation that changes a draft in place. If it fails, what it has changed until
then stays. -/
abbrev Edit (α : Type) := EStateM GrammarError Draft α

namespace Edit

def nonterminal (name : String) : Edit Unit := do
  if !Text.isIdentifier name then throw (.invalidName name)
  if (← get).hasMacro name then throw (.other ("`" ++ name ++ "' is already defined as a macro"))
  modify fun d ↦ { d with nonterminals := d.nonterminals.insert name }

def keyword (name : String) : Edit Unit :=
  modify fun d ↦ { d with keywords := d.keywords.insert name }

def abbreviation (name : String) (m : Automaton) : Edit Unit := do
  if (← get).hasMacro name then throw (.duplicateMacro name)
  if (← get).isNonterminal name then
    throw (.other ("`" ++ name ++ "' is already declared as a nonterminal"))
  modify fun d ↦ { d with macros := d.macros.insert name m }

def production (left : String) (body : Automaton) : Edit Unit := do
  nonterminal left
  modify fun d ↦ { d with rules := d.rules.alter left fun
    | none => { body }
    | some r => { r with body := r.body.union body } }

def goal (left : String) (body : Automaton) (lookahead : List String) : Edit Unit := do
  if lookahead.isEmpty then throw (.emptyLookahead left)
  production left body
  modify fun d ↦ { d with rules := d.rules.alter left fun
    | none => { body, lookahead := some (.ofList lookahead) }
    | some r => { r with lookahead := some ((r.lookahead.getD ∅).extend lookahead) } }

def action (name : String) (arguments : List Argument) (buildsTree : Bool) : Edit Automaton := do
  if !Text.isIdentifier name then throw (.invalidName name)
  return .ofLabel (.action name arguments buildsTree)

def expansion (name : String) : Edit Automaton := do
  match (← get).macros.get? name with
  | some m => return m
  | none => throw (.undefinedMacro name)

/-- A change that is made as a whole or not at all. -/
def atomically (f : Draft → Except GrammarError Draft) : Edit Unit := fun d ↦
  match f d with
  | .ok d' => .ok () d'
  | .error e => .error e d

variable {d : Draft} {f : Draft → Except GrammarError Draft}

theorem atomically_of_ok {d' : Draft} (h : f d = .ok d') : atomically f d = .ok () d' := by
  rw [atomically, h]

theorem atomically_of_error {e : GrammarError} (h : f d = .error e) :
    atomically f d = .error e d := by
  rw [atomically, h]

theorem atomically_bind_modify (g : Draft → Draft) :
    (atomically f >>= fun _ ↦ modify g) = atomically fun d ↦ f d >>= fun d' ↦ .ok (g d') := by
  funext d
  cases h : f d with
  | ok d' =>
    change EStateM.bind (atomically f) _ d = _
    rw [EStateM.bind, atomically_of_ok h, atomically, h]
    rfl
  | error e =>
    change EStateM.bind (atomically f) _ d = _
    rw [EStateM.bind, atomically_of_error h, atomically, h]
    rfl

theorem get_bind_apply {α : Type} (f : Draft → Edit α) : ((get : Edit Draft) >>= f) d = f d d := rfl

theorem nonterminal_eq (name : String) :
    nonterminal name = atomically (·.declareNonterminal name) := by
  funext d
  unfold nonterminal atomically declareNonterminal
  cases Text.isIdentifier name with
  | false => rfl
  | true =>
    cases h : d.hasMacro name
    all_goals
      simp only [Bool.not_true, Bool.false_eq_true, ↓reduceIte, get_bind_apply, h]
      rfl

theorem abbreviation_eq (name : String) (m : Automaton) :
    abbreviation name m = atomically (·.defineMacro name m) := by
  funext d
  unfold abbreviation atomically defineMacro
  cases h : d.hasMacro name
  · cases h' : d.isNonterminal name
    all_goals
      simp only [get_bind_apply, h, Bool.false_eq_true, ↓reduceIte, h']
      rfl
  · simp only [get_bind_apply, h, ↓reduceIte]
    rfl

theorem production_eq (left : String) (body : Automaton) :
    production left body = atomically (·.addProduction left body) := by
  rw [production, nonterminal_eq, atomically_bind_modify]
  rfl

theorem goal_eq (left : String) (body : Automaton) (lookahead : List String) :
    goal left body lookahead = atomically (·.addGoal left body lookahead) := by
  unfold goal addGoal
  split
  · rfl
  · rw [production_eq]
    exact atomically_bind_modify _

theorem discard_action (name : String) (arguments : List Argument) (buildsTree : Bool) :
    discard (action name arguments buildsTree) =
      atomically fun d ↦ (Draft.action name arguments buildsTree).map fun _ ↦ d := by
  unfold action Draft.action
  cases Text.isIdentifier name <;> rfl

theorem discard_expansion (name : String) :
    discard (expansion name) = atomically fun d ↦ (d.expandMacro name).map fun _ ↦ d := by
  funext d
  unfold atomically expandMacro
  cases h : d.macros.get? name
  all_goals
    change EStateM.map _ (expansion name) d = _
    rw [EStateM.map, expansion]
    simp only [get_bind_apply, h]
    rfl

end Edit

/-- What may be asked of a draft while a grammar is being defined. -/
inductive Call
  | nonterminal (name : String)
  | keyword (name : String)
  | abbreviation (name : String) (m : Automaton)
  | production (left : String) (body : Automaton)
  | goal (left : String) (body : Automaton) (lookahead : List String)
  | action (name : String) (arguments : List Argument) (buildsTree : Bool)
  | expansion (name : String)

namespace Call

variable {c : Call} {d d' : Draft} {e : GrammarError}

def edit : Call → Edit Unit
  | nonterminal name => Edit.nonterminal name
  | keyword name => Edit.keyword name
  | abbreviation name m => Edit.abbreviation name m
  | production left body => Edit.production left body
  | goal left body lookahead => Edit.goal left body lookahead
  | action name arguments buildsTree => discard (Edit.action name arguments buildsTree)
  | expansion name => discard (Edit.expansion name)

def apply (d : Draft) : Call → Except GrammarError Draft
  | nonterminal name => d.declareNonterminal name
  | keyword name => .ok (d.declareKeyword name)
  | abbreviation name m => d.defineMacro name m
  | production left body => d.addProduction left body
  | goal left body lookahead => d.addGoal left body lookahead
  | action name arguments buildsTree => (Draft.action name arguments buildsTree).map fun _ ↦ d
  | expansion name => (d.expandMacro name).map fun _ ↦ d

/-- No call changes a draft before it is sure to succeed. -/
theorem edit_eq (c : Call) : c.edit = Edit.atomically c.apply := by
  cases c with
  | nonterminal name => exact Edit.nonterminal_eq name
  | keyword name => rfl
  | abbreviation name m => exact Edit.abbreviation_eq name m
  | production left body => exact Edit.production_eq left body
  | goal left body lookahead => exact Edit.goal_eq left body lookahead
  | action name arguments buildsTree => exact Edit.discard_action name arguments buildsTree
  | expansion name => exact Edit.discard_expansion name

theorem eq_of_edit_eq_error (h : c.edit d = .error e d') : d' = d := by
  rw [edit_eq] at h
  cases hc : apply d c with
  | ok d₁ =>
    rw [Edit.atomically_of_ok hc] at h
    cases h
  | error e₁ =>
    rw [Edit.atomically_of_error hc] at h
    cases h
    rfl

def next (d : Draft) (c : Call) : Draft :=
  match c.edit d with
  | .ok _ d' => d'
  | .error _ d' => d'

theorem next_of_ok (h : apply d c = .ok d') : next d c = d' := by
  rw [next, edit_eq, Edit.atomically_of_ok h]

theorem next_of_error (h : apply d c = .error e) : next d c = d := by
  rw [next, edit_eq, Edit.atomically_of_error h]

end Call

/-- The draft that calls leave of an empty one, however many of them fail. -/
def session (kind : Kind) (calls : List Call) : Draft := calls.foldl Call.next { kind }

variable {d d' : Draft} {name left : String} {m : Automaton} {lookahead : List String}

/-- What holds of a draft between any two calls: a name has one meaning, rules have nonterminals on
the left, and a goal says what follows it. -/
structure Consistent (d : Draft) : Prop where
  separate : ∀ name ∈ d.nonterminals, d.hasMacro name = false
  identifiers : ∀ name ∈ d.nonterminals, Text.isIdentifier name
  declared : d.HasDeclaredRules
  lookaheads : ∀ e ∈ d.rules.entries, ∀ s, e.2.lookahead = some s → s.isEmpty = false

theorem consistent_empty (kind : Kind) : Consistent { kind } where
  separate _ h := absurd h (OrderedSet.not_mem_empty _)
  identifiers _ h := absurd h (OrderedSet.not_mem_empty _)
  declared _ h := absurd h List.not_mem_nil
  lookaheads _ h := absurd h List.not_mem_nil

theorem hasMacro_of_declareNonterminal (h : d.declareNonterminal name = .ok d') :
    d.hasMacro name = false := by
  unfold declareNonterminal at h
  split at h
  · cases h
  · split at h
    · cases h
    · rename_i hm
      simpa using hm

theorem hasMacro_of_defineMacro (h : d.defineMacro name m = .ok d') :
    d.hasMacro name = false ∧ d.isNonterminal name = false := by
  unfold defineMacro at h
  split at h
  · cases h
  · rename_i hm
    split at h
    · cases h
    · rename_i hn
      exact ⟨by simpa using hm, by simpa using hn⟩

theorem eq_of_map_eq_ok {ε α : Type} {x : Except ε α} (h : (x.map fun _ ↦ d) = .ok d') :
    d' = d := by
  cases x with
  | ok a => exact (Except.ok.inj h).symm
  | error e => cases h

theorem ne_nil_of_addGoal (h : d.addGoal left m lookahead = .ok d') : lookahead ≠ [] := by
  unfold addGoal at h
  split at h
  · cases h
  · rename_i hl
    exact fun he ↦ hl (List.isEmpty_iff.2 he)

namespace Consistent

theorem declareNonterminal (h : d.Consistent) (hd : d.declareNonterminal name = .ok d') :
    d'.Consistent := by
  have hname := isIdentifier_of_declareNonterminal hd
  have hfree := hasMacro_of_declareNonterminal hd
  obtain rfl := declareNonterminal_eq_ok hd
  refine ⟨fun n hn ↦ ?_, fun n hn ↦ ?_, fun e he ↦ ?_, h.lookaheads⟩
  · rcases OrderedSet.mem_insert.1 hn with hn | rfl
    · exact h.separate n hn
    · exact hfree
  · rcases OrderedSet.mem_insert.1 hn with hn | rfl
    · exact h.identifiers n hn
    · exact hname
  · exact OrderedSet.mem_insert.2 (.inl (h.declared e he))

theorem defineMacro (h : d.Consistent) (hd : d.defineMacro name m = .ok d') : d'.Consistent := by
  obtain ⟨-, hnonterminal⟩ := hasMacro_of_defineMacro hd
  obtain rfl := defineMacro_eq_ok hd
  refine ⟨fun n hn ↦ ?_, h.identifiers, h.declared, h.lookaheads⟩
  have hne : n ≠ name := by
    rintro rfl
    exact of_decide_eq_false hnonterminal hn
  have hmem : n ∉ d.macros.keySet := of_decide_eq_false (h.separate n hn)
  refine decide_eq_false fun hn' ↦ ?_
  rw [OrderedMap.insert, OrderedMap.keySet_alter] at hn'
  exact (OrderedSet.mem_insert.1 hn').elim hmem hne

theorem addProduction (h : d.Consistent) (hd : d.addProduction left m = .ok d') :
    d'.Consistent := by
  obtain ⟨d₁, h₁, hd⟩ := Except.bind_eq_ok.1 hd
  have hdeclared := h.declareNonterminal h₁
  obtain rfl := Except.ok.inj hd
  obtain rfl := declareNonterminal_eq_ok h₁
  refine ⟨hdeclared.separate, hdeclared.identifiers, fun e he ↦ ?_, ?_⟩
  · rcases OrderedMap.mem_alter he with he | rfl
    · exact hdeclared.declared e he
    · exact OrderedSet.mem_insert.2 (.inr rfl)
  · exact OrderedMap.forall_alter
      (P := fun r : RightSide ↦ ∀ s, r.lookahead = some s → s.isEmpty = false)
      h.lookaheads (fun _ hs ↦ nomatch hs) fun _ hr ↦ hr

theorem addGoal (h : d.Consistent) (hd : d.addGoal left m lookahead = .ok d') : d'.Consistent := by
  obtain ⟨name, hname⟩ := List.exists_mem_of_ne_nil _ (ne_nil_of_addGoal hd)
  obtain ⟨d₁, h₁, rfl⟩ := addGoal_eq_ok hd
  have hproduction := h.addProduction h₁
  refine ⟨hproduction.separate, hproduction.identifiers, fun e he ↦ ?_, ?_⟩
  · rcases OrderedMap.mem_alter he with he | rfl
    · exact hproduction.declared e he
    · obtain rfl := addProduction_eq_ok h₁
      exact OrderedSet.mem_insert.2 (.inr rfl)
  · refine OrderedMap.forall_alter
      (P := fun r : RightSide ↦ ∀ s, r.lookahead = some s → s.isEmpty = false)
      hproduction.lookaheads (fun s hs ↦ ?_) fun r _ s hs ↦ ?_
    · obtain rfl := Option.some.inj hs
      exact OrderedSet.isEmpty_eq_false_of_mem (OrderedSet.mem_ofList.2 hname)
    · obtain rfl := Option.some.inj hs
      exact OrderedSet.isEmpty_eq_false_of_mem (OrderedSet.mem_extend.2 (.inr hname))

theorem apply (h : d.Consistent) {c : Call} (hd : c.apply d = .ok d') : d'.Consistent := by
  cases c with
  | nonterminal name => exact h.declareNonterminal hd
  | keyword name => exact Except.ok.inj hd ▸ ⟨h.separate, h.identifiers, h.declared, h.lookaheads⟩
  | abbreviation name m => exact h.defineMacro hd
  | production left body => exact h.addProduction hd
  | goal left body lookahead => exact h.addGoal hd
  | action name arguments buildsTree => exact eq_of_map_eq_ok hd ▸ h
  | expansion name => exact eq_of_map_eq_ok hd ▸ h

theorem next (h : d.Consistent) (c : Call) : (c.next d).Consistent := by
  cases hc : c.apply d with
  | ok d' => exact Call.next_of_ok hc ▸ h.apply hc
  | error e => exact (Call.next_of_error hc).symm ▸ h

theorem hasNamedRules (h : d.Consistent) : d.HasNamedRules := fun e he ↦
  ⟨h.identifiers e.1 (h.declared e he), h.declared e he⟩

end Consistent

theorem consistent_session (kind : Kind) (calls : List Call) : (session kind calls).Consistent :=
  List.foldlRecOn (motive := Consistent) _ _ (consistent_empty kind) fun _ h c _ ↦ h.next c

theorem get?_macros_apply {c : Call} {n : String} (h : d.macros.get? n = some m)
    (hd : c.apply d = .ok d') : d'.macros.get? n = some m := by
  cases c with
  | nonterminal name =>
    obtain rfl := declareNonterminal_eq_ok hd
    exact h
  | keyword name => exact Except.ok.inj hd ▸ h
  | abbreviation name m' =>
    obtain ⟨hfree, -⟩ := hasMacro_of_defineMacro hd
    obtain rfl := defineMacro_eq_ok hd
    have hne : n ≠ name := by
      rintro rfl
      exact of_decide_eq_false hfree (OrderedMap.isSome_get?.1 (h ▸ rfl))
    exact (OrderedMap.get?_alter_of_ne _ hne _).trans h
  | production left body =>
    obtain rfl := addProduction_eq_ok hd
    exact h
  | goal left body lookahead =>
    obtain ⟨d₁, h₁, rfl⟩ := addGoal_eq_ok hd
    obtain rfl := addProduction_eq_ok h₁
    exact h
  | action name arguments buildsTree => exact eq_of_map_eq_ok hd ▸ h
  | expansion name => exact eq_of_map_eq_ok hd ▸ h

theorem get?_macros_next {n : String} (h : d.macros.get? n = some m) (c : Call) :
    (c.next d).macros.get? n = some m := by
  cases hc : c.apply d with
  | ok d' => exact Call.next_of_ok hc ▸ get?_macros_apply h hc
  | error e => exact (Call.next_of_error hc).symm ▸ h

theorem get?_macros_session {kind : Kind} {before calls : List Call} (hp : before <+: calls)
    {n : String} (h : (session kind before).macros.get? n = some m) :
    (session kind calls).macros.get? n = some m := by
  obtain ⟨after, rfl⟩ := hp
  rw [session, List.foldl_append]
  exact List.foldlRecOn (motive := fun d : Draft ↦ d.macros.get? n = some m) _ _ h
    fun _ h c _ ↦ get?_macros_next h c

/-- Between any two calls, of which any may have failed, a draft is consistent, and abbreviations
are what they were defined to be. A call that fails changes nothing, although it changes the draft
in place and other calls are part of it. -/
theorem session_invariants (kind : Kind) (calls : List Call) :
    (session kind calls).Consistent ∧
      (∀ before, before <+: calls → ∀ n m, (session kind before).macros.get? n = some m →
        (session kind calls).macros.get? n = some m) ∧
      ∀ c e d, Call.edit c (session kind calls) = .error e d → d = session kind calls :=
  ⟨consistent_session kind calls, fun _ hp _ _ h ↦ get?_macros_session hp h,
    fun _ _ _ h ↦ Call.eq_of_edit_eq_error h⟩

namespace Digits

def digit : Automaton := .ofLabels [.symbol "0" .scanner, .symbol "1" .scanner]

def calls : List Call :=
  [.abbreviation "digit" digit, .goal "number" digit.plus [], .nonterminal "digit",
    .nonterminal "1st", .goal "number" digit.plus [Grammar.endOfInput],
    .abbreviation "number" .empty, .abbreviation "digit" .empty]

theorem session_invariants_digits :
    (session .scanner calls).macros.get? "digit" = some digit ∧
      (session .scanner calls).rules.keys = ["number"] ∧
      ∃ e d, Call.edit (.goal "digit" .empty [" "]) (session .scanner calls) = .error e d ∧
        d = session .scanner calls := by
  obtain ⟨-, hmacros, hedit⟩ := session_invariants .scanner calls
  have hdigit : (session .scanner (calls.take 1)).macros.get? "digit" = some digit := by
    decide +kernel
  refine ⟨hmacros _ (calls.take_prefix 1) _ _ hdigit, by decide +kernel, ?_⟩
  cases h : Call.edit (.goal "digit" .empty [" "]) (session .scanner calls) with
  | error e d => exact ⟨e, d, rfl, hedit _ _ _ h⟩
  | ok u d =>
    have hfails : (match Call.edit (.goal "digit" .empty [" "]) (session .scanner calls) with
        | .ok .. => true
        | .error .. => false) = false := by
      decide +kernel
    rw [h] at hfails
    cases hfails

end Digits

end Draft

end RightPart
