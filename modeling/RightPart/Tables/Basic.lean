import RightPart.Tables.Item

namespace RightPart

inductive Target
  | readahead (i : Nat)
  | readback (i : Nat)
  | reduce (i : Nat)
  | semantic (i : Nat)
  | accept
deriving DecidableEq

def Target.text : Target → String
  | readahead i => "Readahead(" ++ tagged "RA" i ++ ")"
  | readback i => "Readback(" ++ tagged "RB" i ++ ")"
  | reduce i => "Reduce(" ++ tagged "RD" i ++ ")"
  | semantic i => "Semantic(" ++ tagged "SM" i ++ ")"
  | accept => "Accept"

/-- A state that moves on with the input. -/
structure ReadaheadState where
  initialItems : List Item
  finalItems : OrderedSet Item
  follow : OrderedSet String
  isStackable : Bool
  transitions : List (Label × Target)

/-- A state that goes back over the stack in search of the start of a right part. -/
structure ReadbackState where
  left : String
  initialPlaces : List Place
  finalPlaces : OrderedSet Place
  /-- The keys are stack entries, a label with a state, as no other key arises; so a row keeps every
  transition. -/
  transitions : List (StackEntry × Target)

/-- How to go on after a reduction: with `source` on top of the stack, `target` is pushed. -/
structure Restart where
  source : Nat
  label : Label
  target : Nat
deriving DecidableEq

namespace Restart

instance : Ord Restart where
  compare := compareLex (compareOn source) (compareLex (compareOn target) (compareOn label))

instance : Std.TransOrd Restart := inferInstanceAs (Std.TransCmp (compareLex _ (compareLex _ _)))

instance : Std.LawfulEqOrd Restart where
  eq_of_compare {a b} h := by
    obtain ⟨h₁, h⟩ := compareLex_eq_eq.1 (h : compareLex (compareOn source) _ a b = _)
    obtain ⟨h₂, h₃⟩ := compareLex_eq_eq.1 h
    cases a; cases b
    cases Std.LawfulEqOrd.eq_of_compare h₁
    cases Std.LawfulEqOrd.eq_of_compare h₂
    cases Std.LawfulEqOrd.eq_of_compare h₃
    rfl

end Restart

structure ReduceState where
  nonterminal : String
  restarts : List Restart

/-- A state that performs an action and goes on. -/
structure SemanticState where
  action : Label
  target : Nat
deriving DecidableEq

namespace SemanticState

instance : Ord SemanticState where
  compare := compareLex (compareOn target) (compareOn action)

instance : Std.TransOrd SemanticState := inferInstanceAs (Std.TransCmp (compareLex _ _))

instance : Std.LawfulEqOrd SemanticState where
  eq_of_compare {a b} h := by
    obtain ⟨h₁, h₂⟩ :=
      compareLex_eq_eq.1 (h : compareLex (compareOn target) (compareOn action) a b = _)
    cases a; cases b
    cases Std.LawfulEqOrd.eq_of_compare h₁
    cases Std.LawfulEqOrd.eq_of_compare h₂
    rfl

end SemanticState

inductive Conflict
  | readahead (state : Nat) (symbols : List (String × List Target))
  | reduce (state : Nat) (nonterminal : String) (sources : List (Nat × List Nat))
deriving DecidableEq

structure Tables where
  kind : Kind
  initialStates : List Nat
  readaheads : List ReadaheadState
  readbacks : List ReadbackState
  reduces : List ReduceState
  semantics : OrderedSet SemanticState
  hasAccept : Bool
  conflicts : List Conflict

def Tables.reduceFor? (t : Tables) (name : String) : Option Nat :=
  t.reduces.findIdx? (·.nonterminal = name)

end RightPart
