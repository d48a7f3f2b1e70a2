import RightPart.Automaton.Product

namespace RightPart.Automaton

/-- Restricting an automaton renumbers the transitions of the states it keeps; one that leads
nowhere has no number. -/
def RestrictMissing (m : Automaton) (u : OrderedSet Nat) : Prop :=
  ∃ i ∈ u.toList, ∃ j ∈ m.successors i, m.size ≤ j

instance (m : Automaton) (u : OrderedSet Nat) : Decidable (m.RestrictMissing u) :=
  inferInstanceAs (Decidable (∃ i ∈ u.toList, _))

def PairMissing (m m' : Automaton) (found : Found id (IsPair m m')) : Prop :=
  ∃ d ∈ found.nodes.toList, (∃ i ∈ d.left, m.size ≤ i) ∨ ∃ i ∈ d.right, m'.size ≤ i

instance (m m' : Automaton) (found : Found id (IsPair m m')) : Decidable (PairMissing m m' found) :=
  inferInstanceAs (Decidable (∃ d ∈ found.nodes.toList, _))

namespace Checked

def addTransition (m : Automaton) (i : Nat) (t : Transition) : Except AlgebraError Automaton :=
  if i < m.size then .ok (m.addTransition i t) else .error .missingState

def trim (m : Automaton) : Except AlgebraError Automaton :=
  let u := m.useful
  if u.size = m.size then .ok m
  else if m.RestrictMissing u then .error .missingState
  else .ok (m.restrict u)

def concatenate (m m' : Automaton) : Except AlgebraError Automaton := trim (m.join m')

def combine (c : Connective) (m m' : Automaton) : Except AlgebraError Automaton :=
  if m.hasAction || m'.hasAction then .error (.incompatibleAlphabets c.operation)
  else
    let found := pairs c m m'
    if PairMissing m m' found then .error .missingState
    else .ok (pairAutomaton c m m' found).trim

def concatenateAll : List Automaton → Except AlgebraError Automaton
  | [] => .error (.emptyOperands .concatenateAll)
  | m :: l => l.foldlM concatenate m

end Checked

def orAll : List Automaton → Except AlgebraError Automaton
  | [] => .error (.emptyOperands .orAll)
  | m :: l => .ok (l.foldl union m)

end RightPart.Automaton
