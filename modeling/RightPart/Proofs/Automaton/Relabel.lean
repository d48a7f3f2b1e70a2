import RightPart.Proofs.Automaton.Algebra

namespace RightPart.Automaton

variable {m : Automaton} {f : Label → Label} {i j : Nat} {t : Transition} {w : List Label}

theorem mem_transitionsFrom_mapLabels : t ∈ (m.mapLabels f).transitionsFrom i ↔
    ∃ t' ∈ m.transitionsFrom i, { t' with label := f t'.label } = t := by
  rw [transitionsFrom, transitionsFrom, mapLabels, Array.getElem?_map, Option.map_map]
  cases m.states[i]? with
  | none => simp
  | some s => exact State.mem_withTransitions.trans List.mem_map

@[simp] theorem size_mapLabels : (m.mapLabels f).size = m.size := Array.size_map

@[simp] theorem isInitialAt_mapLabels : (m.mapLabels f).isInitialAt i = m.isInitialAt i := by
  simp only [isInitialAt, mapLabels, Array.getElem?_map, Option.map_map]
  rfl

@[simp] theorem isFinalAt_mapLabels : (m.mapLabels f).isFinalAt i = m.isFinalAt i := by
  simp only [isFinalAt, mapLabels, Array.getElem?_map, Option.map_map]
  rfl

theorem path_mapLabels : (m.mapLabels f).Path i w j ↔ ∃ v, m.Path i v j ∧ v.map f = w := by
  constructor
  · intro h
    induction h with
    | nil i => exact ⟨[], .nil i, rfl⟩
    | cons ht _ ih =>
      obtain ⟨v, hv, rfl⟩ := ih
      obtain ⟨t', ht', rfl⟩ := mem_transitionsFrom_mapLabels.1 ht
      exact ⟨t'.label :: v, .cons ht' hv, rfl⟩
  · intro h
    obtain ⟨v, hv, rfl⟩ := h
    induction hv with
    | nil i => exact .nil i
    | @cons i j t v ht _ ih => exact .step (mem_transitionsFrom_mapLabels.2 ⟨t, ht, rfl⟩) ih

theorem language_mapLabels : (m.mapLabels f).language = Language.map f m.language := by
  refine Language.ext fun w ↦ ?_
  simp only [mem_language, isInitialAt_mapLabels, isFinalAt_mapLabels, path_mapLabels]
  constructor
  · intro h
    obtain ⟨i, hi, j, ⟨v, hv, rfl⟩, hj⟩ := h
    exact ⟨v, mem_language.2 ⟨i, hi, j, hv, hj⟩, rfl⟩
  · intro h
    obtain ⟨v, hv, rfl⟩ := h
    obtain ⟨i, hi, j, hv, hj⟩ := mem_language.1 hv
    exact ⟨i, hi, j, ⟨v, hv, rfl⟩, hj⟩

theorem tidy_mapLabels (h : m.Tidy) : (m.mapLabels f).Tidy := by
  refine ⟨closed_iff.2 fun i t ht ↦ ?_, fun i hi ↦ ?_, fun i t ht ↦ ?_⟩
  · obtain ⟨t', ht', rfl⟩ := mem_transitionsFrom_mapLabels.1 ht
    rw [size_mapLabels]
    exact closed_iff.1 h.closed i t' ht'
  · obtain ⟨⟨w, i₀, hi₀, hw⟩, v, j, hv, hj⟩ := h.useful i (size_mapLabels ▸ hi)
    refine ⟨⟨w.map f, i₀, ?_, path_mapLabels.2 ⟨w, hw, rfl⟩⟩, v.map f, j,
      path_mapLabels.2 ⟨v, hv, rfl⟩, ?_⟩
    · rwa [mem_initials, isInitialAt_mapLabels, ← mem_initials]
    · rwa [isFinalAt_mapLabels]
  · obtain ⟨t', ht', rfl⟩ := mem_transitionsFrom_mapLabels.1 ht
    rw [isInitialAt_mapLabels]
    exact h.unentered i t' ht'

end RightPart.Automaton
