import RightPart.Automaton.Checked
import RightPart.Grammar.Basic
import RightPart.Ordered.Family

namespace RightPart

/-- Whether a label is passed without consuming input: an action, a look, or a name in the set. -/
def Label.isSilent (nullables : OrderedSet String) : Label → Bool
  | symbol n a => !a.read || n ∈ nullables
  | action .. => true

namespace Automaton

def silentSuccessors (m : Automaton) (nullables : OrderedSet String) (i : Nat) : List Nat :=
  ((m.transitionsFrom i).filter (·.label.isSilent nullables)).map Transition.target

theorem silentSuccessors_subset (m : Automaton) (nullables : OrderedSet String) (i : Nat) :
    ∀ j ∈ m.silentSuccessors nullables i, j ∈ m.targets := by
  intro j hj
  obtain ⟨t, ht, rfl⟩ := List.mem_map.1 hj
  exact m.successors_subset i _ (List.mem_map.2 ⟨t, (List.mem_filter.1 ht).1, rfl⟩)

def silentClosure (m : Automaton) (nullables : OrderedSet String) (states : List Nat) :
    OrderedSet Nat :=
  (OrderedSet.ofList states).closure (m.silentSuccessors nullables) (fun _ ↦ m.targets)
    (m.silentSuccessors_subset nullables)

def SilentMissing (m : Automaton) (nullables : OrderedSet String) (states : List Nat) : Prop :=
  ∃ i ∈ (m.silentClosure nullables states).toList, m.size ≤ i

instance (m : Automaton) (nullables : OrderedSet String) (states : List Nat) :
    Decidable (m.SilentMissing nullables states) :=
  inferInstanceAs (Decidable (∃ i ∈ (m.silentClosure nullables states).toList, _))

def Checked.silentClosure (m : Automaton) (nullables : OrderedSet String) (states : List Nat) :
    Except AlgebraError (OrderedSet Nat) :=
  if m.SilentMissing nullables states then .error .missingState
  else .ok (m.silentClosure nullables states)

/-- Whether a final state is met before any input is consumed. -/
def acceptsSilently (m : Automaton) (nullables : OrderedSet String) : Bool :=
  (m.silentClosure nullables m.initials).toList.any m.isFinalAt

end Automaton

namespace Grammar

def lefts (g : Grammar) : List String := g.productions.values.map Production.left

def nullablePass (g : Grammar) (s : OrderedSet String) : OrderedSet String :=
  g.productions.values.foldl (fun s p ↦ if p.body.acceptsSilently s then s.insert p.left else s) s

theorem nullablePass_subset (g : Grammar) (s : OrderedSet String) (hs : ∀ n ∈ s, n ∈ g.lefts) :
    ∀ n ∈ g.nullablePass s, n ∈ g.lefts := by
  refine List.foldlRecOn (motive := fun s : OrderedSet String ↦ ∀ n ∈ s, n ∈ g.lefts) _ _ hs ?_
  intro s hs p hp n hn
  split at hn
  · rcases OrderedSet.mem_insert.1 hn with hn | rfl
    · exact hs n hn
    · exact List.mem_map.2 ⟨p, hp, rfl⟩
  · exact hs n hn

def findNullables (g : Grammar) : OrderedSet String :=
  saturate (fun s ↦ ∀ n ∈ s, n ∈ g.lefts) OrderedSet.size (fun _ ↦ g.lefts.length) g.nullablePass
    g.nullablePass_subset (fun s hs ↦ length_le_of_nodup s.nodup hs) ∅
    (fun _ h ↦ absurd h (OrderedSet.not_mem_empty _))

end Grammar

end RightPart
