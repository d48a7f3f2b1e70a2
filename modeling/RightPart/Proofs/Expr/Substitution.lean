import RightPart.Proofs.Grammar.Define

namespace RightPart

/-- Where the first computation succeeds the second does, and their results are related. -/
def Matched {ε ε' α β : Type} (R : α → β → Prop) (x : Except ε α) (y : Except ε' β) : Prop :=
  ∀ a, x = .ok a → ∃ b, y = .ok b ∧ R a b

namespace Matched

variable {ε ε' α α' β β' : Type} {R : α → α' → Prop} {S : β → β' → Prop}

theorem ok {a : α} {b : α'} (h : R a b) : Matched R (.ok a : Except ε α) (.ok b : Except ε' α') :=
  fun _ ha ↦ ⟨b, rfl, Except.ok.inj ha ▸ h⟩

theorem error {e : ε} {y : Except ε' α'} : Matched R (.error e : Except ε α) y := nofun

theorem refl (x : Except ε α) : Matched Eq x x := fun a ha ↦ ⟨a, ha, rfl⟩

theorem mapError {δ δ' : Type} {f : ε → δ} {f' : ε' → δ'} {x : Except ε α} {y : Except ε' α'}
    (h : Matched R x y) : Matched R (x.mapError f) (y.mapError f') := by
  intro a ha
  obtain ⟨b, hb, hab⟩ := h a (Except.mapError_eq_ok.1 ha)
  exact ⟨b, Except.mapError_eq_ok.2 hb, hab⟩

theorem bind {x : Except ε α} {y : Except ε' α'} {f : α → Except ε β} {g : α' → Except ε' β'}
    (h : Matched R x y) (hf : ∀ a b, R a b → Matched S (f a) (g b)) :
    Matched S (x >>= f) (y >>= g) := by
  intro c hc
  obtain ⟨a, ha, hc⟩ := Except.bind_eq_ok.1 hc
  obtain ⟨b, hb, hab⟩ := h a ha
  obtain ⟨c', hc', hcc'⟩ := hf a b hab c hc
  exact ⟨c', Except.bind_eq_ok.2 ⟨b, hb, hc'⟩, hcc'⟩

theorem bind_eq {x : Except ε α} {y : Except ε' α} {f : α → Except ε β} {g : α → Except ε' β'}
    (h : Matched Eq x y) (hf : ∀ a, x = .ok a → Matched S (f a) (g a)) :
    Matched S (x >>= f) (y >>= g) := by
  have hx : Matched (fun a b ↦ a = b ∧ x = .ok a) x y := by
    intro a ha
    obtain ⟨b, hb, hab⟩ := h a ha
    exact ⟨b, hb, hab, ha⟩
  exact hx.bind fun a b hab ↦ hab.1 ▸ hf a hab.2

theorem bind_same {x y : Except ε α} (h : Matched Eq x y) (f : α → Except ε β) :
    Matched Eq (x >>= f) (y >>= f) :=
  h.bind_eq fun a _ ↦ refl (f a)

end Matched

namespace Expr

mutual

def symbols : Expr → List String
  | symbol n => [n]
  | range lo hi => lo.symbols ++ hi.symbols
  | sequence l => symbolsAll l
  | alternation l => symbolsAll l
  | star e => e.symbols
  | plus e => e.symbols
  | optional e => e.symbols
  | intersection a b => a.symbols ++ b.symbols
  | difference a b => a.symbols ++ b.symbols
  | attributed e _ => e.symbols
  | literal _ | code _ | action _ _ _ | reference _ | empty => []

def symbolsAll : List Expr → List String
  | [] => []
  | e :: l => e.symbols ++ symbolsAll l

end

mutual

/-- Puts expressions in the place of all symbols and of all references, at any depth. -/
def subst (f g : String → Expr) : Expr → Expr
  | symbol n => f n
  | literal s => literal s
  | code c => code c
  | range lo hi => range (lo.subst f g) (hi.subst f g)
  | sequence l => sequence (substAll f g l)
  | alternation l => alternation (substAll f g l)
  | star e => star (e.subst f g)
  | plus e => plus (e.subst f g)
  | optional e => optional (e.subst f g)
  | intersection a b => intersection (a.subst f g) (b.subst f g)
  | difference a b => difference (a.subst f g) (b.subst f g)
  | attributed e words => attributed (e.subst f g) words
  | action n l b => action n l b
  | reference n => g n
  | empty => empty

def substAll (f g : String → Expr) : List Expr → List Expr
  | [] => []
  | e :: l => e.subst f g :: substAll f g l

end

def inline (name : String) (body : Expr) : Expr → Expr :=
  subst (fun n ↦ if n = name then body else symbol n)
    (fun n ↦ if n = name then body else reference n)

mutual

theorem subst_self (e : Expr) : e.subst symbol reference = e := by
  cases e with
  | symbol | literal | code | action | reference | empty => rfl
  | range lo hi => rw [subst, lo.subst_self, hi.subst_self]
  | sequence l => rw [subst, substAll_self]
  | alternation l => rw [subst, substAll_self]
  | star e => rw [subst, e.subst_self]
  | plus e => rw [subst, e.subst_self]
  | optional e => rw [subst, e.subst_self]
  | intersection a b => rw [subst, a.subst_self, b.subst_self]
  | difference a b => rw [subst, a.subst_self, b.subst_self]
  | attributed e words => rw [subst, e.subst_self]

theorem substAll_self (l : List Expr) : substAll symbol reference l = l := by
  cases l with
  | nil => rfl
  | cons e l => rw [substAll, e.subst_self, substAll_self]

end

variable {d d' : Draft} {f g : String → Expr} {e : Expr} {m : Automaton}

theorem matched_rangeAutomaton (a : Attributes) (lower upper : Expr) :
    Matched Eq (rangeAutomaton a lower upper)
      (rangeAutomaton a (lower.subst f g) (upper.subst f g)) := by
  cases hb : rangeBounds? lower upper with
  | none =>
    rw [rangeAutomaton, hb]
    exact .error
  | some b =>
    have heq : rangeBounds? (lower.subst f g) (upper.subst f g) = some b := by
      cases lower <;> cases upper <;> first | exact hb | cases hb
    rw [rangeAutomaton, rangeAutomaton, hb, heq]
    exact .refl _

/-- What may stand in the place of the names that a draft knows, in another draft. -/
structure Replaces (d d' : Draft) (f g : String → Expr) (names : List String) : Prop where
  kind : d'.kind = d.kind
  symbol : ∀ n ∈ names, (f n).toAutomaton d' = .ok (symbolAutomaton d n)
  reference : ∀ n m, d.macros.get? n = some m → (g n).toAutomaton d' = .ok m

theorem Replaces.subset {names names' : List String} (h : Replaces d d' f g names)
    (hs : names' ⊆ names) : Replaces d d' f g names' :=
  ⟨h.kind, fun n hn ↦ h.symbol n (hs hn), h.reference⟩

mutual

/-- Where names give way to expressions of the same meaning, an expression keeps its automaton,
state for state. -/
theorem matched_subst (e : Expr) (h : Replaces d d' f g e.symbols) :
    Matched Eq (e.toAutomaton d) ((e.subst f g).toAutomaton d') := by
  cases e with
  | symbol n =>
    intro m hm
    exact ⟨m, (h.symbol n List.mem_cons_self).trans hm, rfl⟩
  | literal t => exact .ok (h.kind ▸ rfl)
  | code c =>
    rw [subst, toAutomaton, toAutomaton, h.kind]
    exact .refl _
  | range lo hi =>
    rw [subst, toAutomaton, toAutomaton, h.kind]
    exact matched_rangeAutomaton _ lo hi
  | sequence l => exact (matched_substAll l h).bind_same _
  | alternation l => exact (matched_substAll l h).bind_same _
  | star e => exact (matched_subst e h).bind_same _
  | plus e => exact (matched_subst e h).bind_same _
  | optional e => exact (matched_subst e h).bind_same _
  | intersection a b =>
    refine (matched_subst a (h.subset (List.subset_append_left _ _))).bind_eq fun m _ ↦ ?_
    exact (matched_subst b (h.subset (List.subset_append_right _ _))).bind_same _
  | difference a b =>
    refine (matched_subst a (h.subset (List.subset_append_left _ _))).bind_eq fun m _ ↦ ?_
    exact (matched_subst b (h.subset (List.subset_append_right _ _))).bind_same _
  | attributed e words => exact (matched_subst e h).bind_same _
  | action n l b => exact .refl _
  | reference n =>
    intro m hm
    rw [toAutomaton, referenceAutomaton] at hm
    split at hm
    · rename_i m' hm'
      exact ⟨m, Except.ok.inj hm ▸ h.reference n m' hm', rfl⟩
    · cases hm
  | empty => exact .refl _

theorem matched_substAll (l : List Expr) (h : Replaces d d' f g (symbolsAll l)) :
    Matched Eq (toAutomata d l) (toAutomata d' (substAll f g l)) := by
  cases l with
  | nil => exact .refl _
  | cons e l =>
    refine (matched_subst e (h.subset (List.subset_append_left _ _))).bind_eq fun m _ ↦ ?_
    exact (matched_substAll l (h.subset (List.subset_append_right _ _))).bind_same _

end

theorem matched_toAutomaton (hkind : d'.kind = d.kind)
    (hsymbol : ∀ n ∈ e.symbols, symbolAutomaton d' n = symbolAutomaton d n)
    (hmacros : ∀ n m, d.macros.get? n = some m → d'.macros.get? n = some m) :
    Matched Eq (e.toAutomaton d) (e.toAutomaton d') := by
  have h : Replaces d d' symbol reference e.symbols := by
    refine ⟨hkind, fun n hn ↦ congrArg Except.ok (hsymbol n hn), fun n m hm ↦ ?_⟩
    rw [toAutomaton, referenceAutomaton, hmacros n m hm]
  have hsubst := matched_subst e h
  rwa [subst_self] at hsubst

theorem matched_inline {name : String} {body : Expr} (hname : d.macros.get? name = some m)
    (hbody : body.toAutomaton d = .ok m) (e : Expr) :
    Matched Eq (e.toAutomaton d) ((inline name body e).toAutomaton d) := by
  refine matched_subst e ⟨rfl, fun n _ ↦ ?_, fun n m' hm' ↦ ?_⟩
  · by_cases hn : n = name
    · subst hn
      rw [if_pos rfl, hbody, symbolAutomaton, hname, Option.getD_some]
    · rw [if_neg hn, toAutomaton]
  · by_cases hn : n = name
    · subst hn
      rw [if_pos rfl, hbody, ← Option.some.inj (hname.symm.trans hm')]
    · rw [if_neg hn, toAutomaton, referenceAutomaton, hm']

end Expr

end RightPart
