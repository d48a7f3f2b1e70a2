import RightPart.Automaton.Algebra
import RightPart.Ordered.Search

namespace RightPart.Automaton

def successors (m : Automaton) (i : Nat) : List Nat := (m.transitionsFrom i).map Transition.target

def targets (m : Automaton) : List Nat := m.transitions.map (·.2.target)

theorem mem_transitions {m : Automaton} {i : Nat} {t : Transition} :
    (i, t) ∈ m.transitions ↔ t ∈ m.transitionsFrom i := by
  constructor
  · intro h
    obtain ⟨j, -, h⟩ := List.mem_flatMap.1 h
    obtain ⟨t', ht, h⟩ := List.mem_map.1 h
    cases h
    exact ht
  · intro h
    refine List.mem_flatMap.2 ⟨i, List.mem_range.2 ?_, List.mem_map.2 ⟨t, h, rfl⟩⟩
    refine Nat.lt_of_not_le fun hi ↦ ?_
    simp [transitionsFrom, Array.getElem?_eq_none hi] at h

theorem successors_subset (m : Automaton) (i : Nat) : ∀ j ∈ m.successors i, j ∈ m.targets := by
  intro j hj
  obtain ⟨t, ht, rfl⟩ := List.mem_map.1 hj
  exact List.mem_map.2 ⟨(i, t), mem_transitions.2 ht, rfl⟩

def sources (m : Automaton) : Array (List Nat) :=
  m.transitions.foldl (fun a p ↦ a.modify p.2.target (p.1 :: ·)) (.replicate m.size [])

theorem sources_subset (m : Automaton) (i : Nat) :
    ∀ j ∈ m.sources[i]?.getD [], j ∈ m.transitions.map Prod.fst := by
  refine List.foldlRecOn _ _
    (motive := fun a : Array (List Nat) ↦ ∀ j ∈ a[i]?.getD [], j ∈ m.transitions.map Prod.fst) ?_ ?_
  · intro j hj
    rw [Array.getElem?_replicate] at hj
    split at hj <;> cases hj
  · intro a h p hp j hj
    rw [Array.getElem?_modify] at hj
    split at hj
    · cases ha : a[i]? with
      | none => simp [ha] at hj
      | some l =>
        rw [ha] at h hj
        rcases List.mem_cons.1 hj with rfl | hj
        · exact List.mem_map.2 ⟨p, hp, rfl⟩
        · exact h j hj
    · exact h j hj

def reachable (m : Automaton) : OrderedSet Nat :=
  (OrderedSet.ofList m.initials).closure m.successors (fun _ ↦ m.targets) m.successors_subset

def coreachable (m : Automaton) : OrderedSet Nat :=
  let sources := m.sources
  (OrderedSet.ofList m.finals).closure (fun i ↦ sources[i]?.getD [])
    (fun _ ↦ m.transitions.map Prod.fst)
    m.sources_subset

/-- The states on a path from an initial to a final state. -/
def useful (m : Automaton) : OrderedSet Nat :=
  let r := m.reachable
  let c := m.coreachable
  .ofList (m.ids.filter fun i ↦ i ∈ r ∧ i ∈ c)

/-- Drops all but the given states and numbers these anew in their order. -/
def restrict (m : Automaton) (u : OrderedSet Nat) : Automaton :=
  ⟨(u.toArray.filterMap (m.states[·]?)).map fun s ↦ { s with
    transitions := s.transitions.filterMap fun t ↦
      (u.indexOf? t.target).map fun j ↦ { t with target := j } }⟩

/-- Drops the states that no accepted word passes. -/
def trim (m : Automaton) : Automaton :=
  let u := m.useful
  if u.size = m.size then m else m.restrict u

def concatenate (m m' : Automaton) : Automaton := (m.join m').trim

end RightPart.Automaton
