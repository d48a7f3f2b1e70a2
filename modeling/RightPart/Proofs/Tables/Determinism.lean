import Mathlib.Data.List.Nodup
import RightPart.Proofs.Ordered.Group
import RightPart.Tables.Conflict

namespace RightPart

def ReadaheadState.IsDeterministic (s : ReadaheadState) : Prop :=
  s.transitions.Pairwise fun e e' ↦ e.1.name ≠ e'.1.name

def ReadbackState.IsDeterministic (s : ReadbackState) : Prop :=
  s.transitions.Pairwise fun e e' ↦ (e.1.label.name, e.1.readahead) ≠
    (e'.1.label.name, e'.1.readahead)

def ReduceState.IsDeterministic (s : ReduceState) : Prop :=
  s.restarts.Pairwise fun r r' ↦ r.source ≠ r'.source

instance (s : ReadaheadState) : Decidable s.IsDeterministic :=
  inferInstanceAs (Decidable (s.transitions.Pairwise _))

instance (s : ReadbackState) : Decidable s.IsDeterministic :=
  inferInstanceAs (Decidable (s.transitions.Pairwise _))

instance (s : ReduceState) : Decidable s.IsDeterministic :=
  inferInstanceAs (Decidable (s.restarts.Pairwise _))

section Ambiguous

variable {κ ν : Type} [Ord κ] [Std.TransOrd κ] [Std.LawfulEqOrd κ] [DecidableEq κ]

theorem ambiguous_eq_nil {l : List (κ × ν)} : ambiguous l = [] ↔ (l.map Prod.fst).Nodup := by
  have hcount : ∀ k, (l.map Prod.fst).count k = (((OrderedMap.group l).get? k).getD []).length := by
    intro k
    rw [OrderedMap.get?_group, length_valuesAt]
  rw [List.nodup_iff_count_le_one, ambiguous, List.filter_eq_nil_iff]
  constructor
  · intro h k
    rw [hcount]
    cases hk : (OrderedMap.group l).get? k with
    | none => simp
    | some vs => simpa using h _ (OrderedMap.get?_eq_some.1 hk)
  · intro h e he
    have hk := hcount e.1
    rw [OrderedMap.get?_eq_some.2 he, Option.getD_some] at hk
    have := h e.1
    simp only [decide_eq_true_eq]
    omega

end Ambiguous

theorem ReadaheadState.conflict?_eq_none {s : ReadaheadState} {i : Nat} :
    s.conflict? i = none ↔ s.IsDeterministic := by
  have h : s.conflict? i = none ↔ ambiguous (s.transitions.map fun e ↦ (e.1.name, e.2)) = [] := by
    unfold conflict?
    split <;> simp_all
  rw [h, ambiguous_eq_nil, List.map_map, List.Nodup, List.pairwise_map]
  rfl

theorem ReduceState.conflict?_eq_none {s : ReduceState} {i : Nat} :
    s.conflict? i = none ↔ s.IsDeterministic := by
  have h : s.conflict? i = none ↔ ambiguous (s.restarts.map fun r ↦ (r.source, r.target)) = [] := by
    unfold conflict?
    split <;> simp_all
  rw [h, ambiguous_eq_nil, List.map_map, List.Nodup, List.pairwise_map]
  rfl

theorem filterMap_zipIdx_eq_nil {α : Type} {l : List α} {f : α → Nat → Option Conflict}
    {P : α → Prop} (hf : ∀ a i, f a i = none ↔ P a) :
    (l.zipIdx.filterMap fun (a, i) ↦ f a i) = [] ↔ ∀ a ∈ l, P a := by
  simp only [List.filterMap_eq_nil_iff, Prod.forall, List.mem_zipIdx_iff_getElem?, hf]
  constructor
  · intro h a ha
    obtain ⟨i, hi⟩ := List.mem_iff_getElem?.1 ha
    exact h a i hi
  · intro h a i hi
    exact h a (List.mem_of_getElem? hi)

/-- Conflicts are found just where readahead states and reduce states leave a choice. -/
theorem findConflicts_eq_nil {l : List ReadaheadState} {l' : List ReduceState} :
    findConflicts l l' = [] ↔ (∀ s ∈ l, s.IsDeterministic) ∧ ∀ s ∈ l', s.IsDeterministic := by
  have h := filterMap_zipIdx_eq_nil (l := l) (f := fun s i ↦ s.conflict? i)
    fun s i ↦ ReadaheadState.conflict?_eq_none
  have h' := filterMap_zipIdx_eq_nil (l := l') (f := fun s i ↦ s.conflict? i)
    fun s i ↦ ReduceState.conflict?_eq_none
  rw [findConflicts, List.append_eq_nil_iff, h, h']

end RightPart
