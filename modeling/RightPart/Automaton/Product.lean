import RightPart.Automaton.Trim
import RightPart.Ordered.Family

namespace RightPart.Automaton

/-- The ways to combine two languages by running both automata side by side. -/
inductive Connective
  | intersect
  | difference
deriving DecidableEq

/-- The sets of states that both sides are in after the same word. -/
structure StatePair where
  left : List Nat
  right : List Nat
deriving DecidableEq

namespace StatePair

instance : Ord StatePair where
  compare := compareLex (compareOn left) (compareOn right)

instance : Std.TransOrd StatePair := inferInstanceAs (Std.TransCmp (compareLex _ _))

instance : Std.LawfulEqOrd StatePair where
  eq_of_compare {a b} h := by
    obtain ⟨h₁, h₂⟩ :=
      compareLex_eq_eq.1 (h : compareLex (compareOn left) (compareOn right) a b = _)
    cases a; cases b
    cases Std.LawfulEqOrd.eq_of_compare h₁
    cases Std.LawfulEqOrd.eq_of_compare h₂
    rfl

end StatePair

namespace Connective

def operation : Connective → Operation
  | intersect => .intersect
  | difference => .difference

/-- Whether a word can still be accepted from a pair of sets of states. -/
def isLive : Connective → StatePair → Bool
  | intersect, d => !d.left.isEmpty && !d.right.isEmpty
  | difference, d => !d.left.isEmpty

def isFinal : Connective → Bool → Bool → Bool
  | intersect, a, b => a && b
  | difference, a, b => a && !b

end Connective

def moves (m : Automaton) (states : List Nat) : Family Label Nat :=
  .gather ((states.flatMap m.transitionsFrom).map fun t ↦ (t.label, t.target))

def move (moves : Family Label Nat) (l : Label) : List Nat := sorted (moves.members l).toList

theorem move_subset (m : Automaton) (states : List Nat) (l : Label) :
    ∀ i ∈ move (m.moves states) l, i ∈ m.initials ++ m.targets := by
  intro i hi
  have := (Family.within_gather _).mem_range (mem_sorted.1 hi)
  simp only [List.map_map, List.mem_map, List.mem_flatMap, Function.comp_apply] at this
  obtain ⟨t, ⟨j, -, ht⟩, rfl⟩ := this
  exact List.mem_append_right _ (m.successors_subset j _ (List.mem_map.2 ⟨t, ht, rfl⟩))

variable (c : Connective) (m m' : Automaton)

/-- The labels that keep a pair of state sets live, each with the pair it leads to. -/
def pairMoves (d : StatePair) : List (Label × StatePair) :=
  let left := m.moves d.left
  let right := m'.moves d.right
  ((left.keySet.extend right.keys).toList.map fun l ↦ (l, ⟨move left l, move right l⟩)).filter
    (c.isLive ·.2)

def IsPair (d : StatePair) : Prop :=
  (Ascending d.left ∧ ∀ i ∈ d.left, i ∈ m.initials ++ m.targets) ∧
    (Ascending d.right ∧ ∀ i ∈ d.right, i ∈ m'.initials ++ m'.targets)

theorem atMost_isPair : AtMost (IsPair m m')
    (Nat.pow 2 (m.initials ++ m.targets).length * Nat.pow 2 (m'.initials ++ m'.targets).length) :=
  ((atMost_ascending _).map₂ StatePair.mk (atMost_ascending _)).mono fun d h ↦
    ⟨d.left, d.right, h.1, h.2, rfl⟩

theorem isPair_of_mem_pairMoves (d : StatePair) :
    ∀ e ∈ (pairMoves c m m' d).map Prod.snd, IsPair m m' e := by
  intro e he
  obtain ⟨p, hp, rfl⟩ := List.mem_map.1 he
  obtain ⟨l, -, rfl⟩ := List.mem_map.1 (List.mem_filter.1 hp).1
  exact ⟨⟨ascending_sorted _, m.move_subset d.left l⟩, ascending_sorted _, m'.move_subset d.right l⟩

def StatePair.start : StatePair := ⟨sorted m.initials, sorted m'.initials⟩

/-- The pair that a search begins with; there is none if it is not live. -/
def starts : List StatePair :=
  if c.isLive (StatePair.start m m') then [StatePair.start m m'] else []

variable {c m m'} in
theorem mem_starts {d : StatePair} : d ∈ starts c m m' ↔
    c.isLive (StatePair.start m m') ∧ d = StatePair.start m m' := by
  unfold starts
  split <;> simp_all

theorem isPair_of_mem_starts : ∀ d ∈ starts c m m', IsPair m m' (id d) := by
  intro d hd
  obtain ⟨-, rfl⟩ := mem_starts.1 hd
  exact ⟨⟨ascending_sorted _, fun i hi ↦ List.mem_append_left _ (mem_sorted.1 hi)⟩,
    ascending_sorted _, fun i hi ↦ List.mem_append_left _ (mem_sorted.1 hi)⟩

/-- The pairs of state sets that common words lead to from the initial states. -/
def pairs : Found id (IsPair m m') :=
  let found : Found id (IsPair m m') := .ofList (starts c m m') (isPair_of_mem_starts c m m')
  found.search
    (fun _ ↦ Nat.pow 2 (m.initials ++ m.targets).length *
      Nat.pow 2 (m'.initials ++ m'.targets).length)
    (atMost_isPair m m') (fun d ↦ (pairMoves c m m' d).map Prod.snd)
    (fun d _ ↦ isPair_of_mem_pairMoves c m m' d) 0

def pairAutomaton (found : Found id (IsPair m m')) : Automaton :=
  ⟨found.nodes.mapIdx fun i d ↦ {
    isInitial := i == 0
    isFinal := c.isFinal (d.left.any m.isFinalAt) (d.right.any m'.isFinalAt)
    transitions := (pairMoves c m m' d).map fun e ↦ ⟨e.1, found.indexOf e.2⟩ }⟩

/-- Accepts the words that the connective asks for; actions have no place on either side. -/
def combine : Except AlgebraError Automaton :=
  if m.hasAction || m'.hasAction then .error (.incompatibleAlphabets c.operation)
  else .ok (pairAutomaton c m m' (pairs c m m')).trim

end RightPart.Automaton
