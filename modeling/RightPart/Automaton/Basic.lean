import RightPart.Label.Basic
import RightPart.Ordered.Set

namespace RightPart

structure Transition where
  label : Label
  target : Nat
deriving DecidableEq

namespace Transition

instance : Ord Transition where
  compare := compareLex (compareOn target) (compareOn label)

instance : Std.TransOrd Transition := inferInstanceAs (Std.TransCmp (compareLex _ _))

instance : Std.LawfulEqOrd Transition where
  eq_of_compare {a b} h := by
    obtain ⟨h₁, h₂⟩ :=
      compareLex_eq_eq.1 (h : compareLex (compareOn target) (compareOn label) a b = _)
    cases a; cases b
    cases Std.LawfulEqOrd.eq_of_compare h₁
    cases Std.LawfulEqOrd.eq_of_compare h₂
    rfl

end Transition

structure State where
  isInitial : Bool
  isFinal : Bool
  /-- The nonterminal whose right part the state belongs to, once that is known. -/
  left : Option String := none
  transitions : List Transition := []
deriving DecidableEq

/-- A nondeterministic automaton over labels. A state is named by its position. -/
structure Automaton where
  states : Array State
deriving DecidableEq

def State.withTransitions (s : State) (l : List Transition) : State :=
  { s with transitions := (OrderedSet.ofList l).toList }

def State.addTransitions (s : State) (l : List Transition) : State :=
  let present := OrderedSet.ofList s.transitions
  { s with transitions := s.transitions ++ (OrderedSet.ofList (l.filter (· ∉ present))).toList }

namespace Automaton

def none : Automaton := ⟨#[]⟩

instance : Inhabited Automaton := ⟨none⟩

def size (m : Automaton) : Nat := m.states.size

def isEmpty (m : Automaton) : Bool := m.states.isEmpty

/-- The transitions of a state; a state that does not exist has none. -/
def transitionsFrom (m : Automaton) (i : Nat) : List Transition :=
  (m.states[i]?.map State.transitions).getD []

def isInitialAt (m : Automaton) (i : Nat) : Bool := (m.states[i]?.map State.isInitial).getD false

def isFinalAt (m : Automaton) (i : Nat) : Bool := (m.states[i]?.map State.isFinal).getD false

def ids (m : Automaton) : List Nat := List.range m.size

def initials (m : Automaton) : List Nat := m.ids.filter m.isInitialAt

def finals (m : Automaton) : List Nat := m.ids.filter m.isFinalAt

def transitions (m : Automaton) : List (Nat × Transition) :=
  m.ids.flatMap fun i ↦ (m.transitionsFrom i).map (i, ·)

def hasAction (m : Automaton) : Bool := m.transitions.any (·.2.label.isAction)

def acceptsEmpty (m : Automaton) : Bool := m.states.any fun s ↦ s.isInitial && s.isFinal

def addState (m : Automaton) (isInitial isFinal : Bool) : Automaton :=
  ⟨m.states.push { isInitial, isFinal }⟩

/-- Adds a transition of a state unless it is there. Its target need not be a state. -/
def addTransition (m : Automaton) (i : Nat) (t : Transition) : Automaton :=
  ⟨m.states.modify i (·.addTransitions [t])⟩

def Closed (m : Automaton) : Prop := ∀ s ∈ m.states, ∀ t ∈ s.transitions, t.target < m.size

instance (m : Automaton) : Decidable m.Closed := inferInstanceAs (Decidable (∀ s ∈ m.states, _))

def setLeft (m : Automaton) (name : String) : Automaton :=
  ⟨m.states.map fun s ↦ { s with left := some name }⟩

def text (m : Automaton) : String :=
  String.join (m.states.toList.zipIdx.map fun (s, i) ↦
    "s" ++ toString i ++ (if s.isInitial then " (initial)" else "") ++
      (if s.isFinal then " (final)" else "") ++ "\n" ++
      String.join (s.transitions.map fun t ↦ "  " ++ t.label.text ++ " -> s" ++
        toString t.target ++ "\n"))

end Automaton

end RightPart
