import RightPart.Grammar.Basic
import RightPart.Ordered.Sorted

namespace RightPart

/-- A state of the right part of a production. -/
structure Item where
  production : ProductionId
  state : Nat
deriving DecidableEq

/-- An item together with the readahead state that holds it. -/
structure Place where
  item : Item
  readahead : Nat
deriving DecidableEq

/-- An entry of the stack: how a readahead state was entered. -/
structure StackEntry where
  label : Label
  readahead : Nat
deriving DecidableEq

namespace StackEntry

instance : Ord StackEntry where
  compare := compareLex (compareOn readahead) (compareOn label)

instance : Std.TransOrd StackEntry := inferInstanceAs (Std.TransCmp (compareLex _ _))

instance : Std.LawfulEqOrd StackEntry where
  eq_of_compare {a b} h := by
    obtain ⟨h₁, h₂⟩ :=
      compareLex_eq_eq.1 (h : compareLex (compareOn readahead) (compareOn label) a b = _)
    cases a; cases b
    cases Std.LawfulEqOrd.eq_of_compare h₁
    cases Std.LawfulEqOrd.eq_of_compare h₂
    rfl

end StackEntry

namespace Item

instance : Ord Item where
  compare := compareLex (compareOn production) (compareOn state)

instance : Std.TransOrd Item :=
  inferInstanceAs (Std.TransCmp (compareLex (compareOn production) (compareOn state)))

instance : Std.LawfulEqOrd Item where
  eq_of_compare {a b} h := by
    obtain ⟨h₁, h₂⟩ :=
      compareLex_eq_eq.1 (h : compareLex (compareOn production) (compareOn state) a b = _)
    cases a; cases b
    cases Std.LawfulEqOrd.eq_of_compare h₁
    cases Std.LawfulEqOrd.eq_of_compare h₂
    rfl

def text (i : Item) : String := tagged "P" i.production.toNat ++ ".s" ++ toString i.state

end Item

namespace Place

instance : Ord Place where
  compare := compareLex (compareOn item) (compareOn readahead)

instance : Std.TransOrd Place :=
  inferInstanceAs (Std.TransCmp (compareLex (compareOn item) (compareOn readahead)))

instance : Std.LawfulEqOrd Place where
  eq_of_compare {a b} h := by
    obtain ⟨h₁, h₂⟩ :=
      compareLex_eq_eq.1 (h : compareLex (compareOn item) (compareOn readahead) a b = _)
    cases a; cases b
    cases Std.LawfulEqOrd.eq_of_compare h₁
    cases Std.LawfulEqOrd.eq_of_compare h₂
    rfl

end Place

end RightPart
