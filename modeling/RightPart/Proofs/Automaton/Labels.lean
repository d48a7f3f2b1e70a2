import RightPart.Proofs.Automaton.Regular
import RightPart.Proofs.Grammar.Body

namespace RightPart.Automaton

variable {m m' : Automaton} {l : Label} {w : List Label} {name : String}

def labels (m : Automaton) : List Label := m.transitions.map (·.2.label)

theorem mem_labels : l ∈ m.labels ↔ ∃ i, ∃ t ∈ m.transitionsFrom i, t.label = l := by
  rw [labels, List.mem_map]
  constructor
  · rintro ⟨⟨i, t⟩, ht, rfl⟩
    exact ⟨i, t, mem_transitions.1 ht, rfl⟩
  · rintro ⟨i, t, ht, rfl⟩
    exact ⟨(i, t), mem_transitions.2 ht, rfl⟩

theorem transitionsFrom_union_left {i : Nat} (h : i < m.size) :
    (m.union m').transitionsFrom i = m.transitionsFrom i :=
  transitionsFrom_append_left h

theorem transitionsFrom_union_right {i : Nat} : (m.union m').transitionsFrom (m.size + i) =
    (m'.transitionsFrom i).map fun t ↦ { t with target := t.target + m.size } :=
  transitionsFrom_append_right.trans transitionsFrom_shift

theorem mem_labels_union : l ∈ (m.union m').labels ↔ l ∈ m.labels ∨ l ∈ m'.labels := by
  simp only [mem_labels]
  constructor
  · rintro ⟨i, t, ht, rfl⟩
    rcases lt_or_exists_of_lt_union (lt_size_of_mem ht) with hi | ⟨j, -, rfl⟩
    · exact .inl ⟨i, t, transitionsFrom_union_left hi ▸ ht, rfl⟩
    · rw [transitionsFrom_union_right] at ht
      obtain ⟨t', ht', rfl⟩ := List.mem_map.1 ht
      exact .inr ⟨j, t', ht', rfl⟩
  · rintro (⟨i, t, ht, rfl⟩ | ⟨j, t, ht, rfl⟩)
    · exact ⟨i, t, (transitionsFrom_union_left (lt_size_of_mem ht)).symm ▸ ht, rfl⟩
    · refine ⟨m.size + j, { t with target := t.target + m.size }, ?_, rfl⟩
      rw [transitionsFrom_union_right]
      exact List.mem_map_of_mem ht

theorem mem_labels_foldl_union {ms : List Automaton} :
    l ∈ (ms.foldl union m).labels ↔ l ∈ m.labels ∨ ∃ m' ∈ ms, l ∈ m'.labels := by
  induction ms generalizing m with
  | nil => simp
  | cons m' ms ih => rw [List.foldl_cons, ih, mem_labels_union, List.exists_mem_cons_iff, or_assoc]

theorem mem_labels_of_mem_language (h : w ∈ m.language) (hl : l ∈ w) : l ∈ m.labels := by
  obtain ⟨i, -, j, hw, -⟩ := mem_language.1 h
  obtain ⟨e, he, rfl⟩ := hw.label hl
  exact List.mem_map_of_mem he

theorem mem_labels_setLeft : l ∈ (m.setLeft name).labels ↔ l ∈ m.labels := by
  simp only [mem_labels, transitionsFrom_setLeft]

theorem mem_labels_trim (h : l ∈ m.trim.labels) : l ∈ m.labels := by
  unfold trim at h
  dsimp only at h
  split at h
  · exact h
  · obtain ⟨k, t, ht, rfl⟩ := mem_labels.1 h
    obtain ⟨i, hi, rfl⟩ := exists_useful (lt_size_of_mem ht)
    obtain ⟨j, -, -, ht⟩ := (embeds_restrict i hi t.label t.target).1 ht
    exact mem_labels.2 ⟨i, _, ht, rfl⟩

theorem mem_labels_ofLabel {l' : Label} (h : l ∈ (ofLabel l').labels) : l = l' :=
  List.mem_singleton.1 h

end RightPart.Automaton
