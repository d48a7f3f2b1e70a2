import Mathlib.Algebra.BigOperators.Group.List.Basic
import RightPart.Proofs.Automaton.Trim

namespace RightPart

theorem State.mem_addTransitions {s : State} {l : List Transition} {t : Transition} :
    t ∈ (s.addTransitions l).transitions ↔ t ∈ s.transitions ∨ t ∈ l := by
  simp only [addTransitions, List.mem_append, ← OrderedSet.mem_def, OrderedSet.mem_ofList,
    List.mem_filter, decide_eq_true_eq]
  tauto

theorem State.addTransitions_singleton {s : State} {t : Transition} (h : t ∉ s.transitions) :
    s.addTransitions [t] = { s with transitions := s.transitions ++ [t] } := by
  have hfilter : [t].filter (· ∉ OrderedSet.ofList s.transitions) = [t] :=
    List.filter_eq_self.2 fun t' ht' ↦ decide_eq_true fun hmem ↦
      h (List.mem_singleton.1 ht' ▸ OrderedSet.mem_ofList.1 hmem)
  rw [addTransitions, hfilter, OrderedSet.toList_ofList_of_nodup (List.pairwise_singleton _ t)]

theorem State.mem_withTransitions {s : State} {l : List Transition} {t : Transition} :
    t ∈ (s.withTransitions l).transitions ↔ t ∈ l := by
  rw [withTransitions, ← OrderedSet.mem_def, OrderedSet.mem_ofList]

namespace Automaton

open Computability

variable {m m' : Automaton} {i j k n : Nat} {l : Label} {t : Transition} {w : List Label}

section Append

variable {x y : Array State}

theorem transitionsFrom_append_left (h : i < x.size) :
    transitionsFrom ⟨x ++ y⟩ i = transitionsFrom ⟨x⟩ i := by
  rw [transitionsFrom, transitionsFrom, Array.getElem?_append_left h]

theorem transitionsFrom_append_right :
    transitionsFrom ⟨x ++ y⟩ (x.size + i) = transitionsFrom ⟨y⟩ i := by
  rw [transitionsFrom, transitionsFrom, Array.getElem?_append_right (Nat.le_add_right _ _),
    Nat.add_sub_cancel_left]

theorem isInitialAt_append_left (h : i < x.size) : isInitialAt ⟨x ++ y⟩ i = isInitialAt ⟨x⟩ i := by
  rw [isInitialAt, isInitialAt, Array.getElem?_append_left h]

theorem isInitialAt_append_right : isInitialAt ⟨x ++ y⟩ (x.size + i) = isInitialAt ⟨y⟩ i := by
  rw [isInitialAt, isInitialAt, Array.getElem?_append_right (Nat.le_add_right _ _),
    Nat.add_sub_cancel_left]

theorem isFinalAt_append_left (h : i < x.size) : isFinalAt ⟨x ++ y⟩ i = isFinalAt ⟨x⟩ i := by
  rw [isFinalAt, isFinalAt, Array.getElem?_append_left h]

theorem isFinalAt_append_right : isFinalAt ⟨x ++ y⟩ (x.size + i) = isFinalAt ⟨y⟩ i := by
  rw [isFinalAt, isFinalAt, Array.getElem?_append_right (Nat.le_add_right _ _),
    Nat.add_sub_cancel_left]

end Append

theorem transitionsFrom_shift :
    (m.shift n).transitionsFrom i = (m.transitionsFrom i).map fun t ↦
      { t with target := t.target + n } := by
  simp only [transitionsFrom, shift, Array.getElem?_map, Option.map_map]
  cases m.states[i]? <;> rfl

theorem mem_transitionsFrom_shift :
    ⟨l, k⟩ ∈ (m.shift n).transitionsFrom i ↔ ∃ j, n + j = k ∧ ⟨l, j⟩ ∈ m.transitionsFrom i := by
  rw [transitionsFrom_shift, List.mem_map]
  constructor
  · intro h
    obtain ⟨t, ht, he⟩ := h
    obtain ⟨rfl, rfl⟩ := Transition.mk.inj he
    exact ⟨t.target, Nat.add_comm _ _, ht⟩
  · intro h
    obtain ⟨j, rfl, hj⟩ := h
    exact ⟨⟨l, j⟩, hj, by rw [Nat.add_comm]⟩

@[simp] theorem isInitialAt_shift : (m.shift n).isInitialAt i = m.isInitialAt i := by
  simp only [isInitialAt, shift, Array.getElem?_map, Option.map_map]
  rfl

@[simp] theorem isFinalAt_shift : (m.shift n).isFinalAt i = m.isFinalAt i := by
  simp only [isFinalAt, shift, Array.getElem?_map, Option.map_map]
  rfl

theorem embeds_of_shift (hc : m.Closed)
    (h : ∀ i, m'.transitionsFrom (n + i) = (m.shift n).transitionsFrom i) :
    m.Embeds m' (· < m.size) (n + ·) := by
  intro i _ l k
  rw [h, mem_transitionsFrom_shift]
  constructor
  · intro h
    obtain ⟨j, hk, hj⟩ := h
    exact ⟨j, closed_iff.1 hc i _ hj, hk, hj⟩
  · intro h
    obtain ⟨j, -, hk, hj⟩ := h
    exact ⟨j, hk, hj⟩

theorem Embeds.path_of_closed {f : Nat → Nat} (h : m.Embeds m' (· < m.size) f) (hc : m.Closed)
    (hi : i < m.size) (hw : m.Path i w j) : m'.Path (f i) w (f j) :=
  h.path (fun i _ t _ _ _ ht _ ↦ closed_iff.1 hc i t ht) hi (hw.target_lt hc hi) hw

/-- All states of an automaton stand in another one, where `f` puts them. -/
structure Includes (m m' : Automaton) (f : Nat → Nat) : Prop where
  embeds : m.Embeds m' (· < m.size) f
  initial : ∀ i < m.size, m'.isInitialAt (f i) = m.isInitialAt i
  final : ∀ i < m.size, m'.isFinalAt (f i) = m.isFinalAt i

section Includes

variable {f : Nat → Nat} (h : m.Includes m' f)

include h

theorem Includes.mem_language_of_path (hi : i < m.size) (hinit : m'.isInitialAt (f i))
    (hw : m'.Path (f i) w k) (hk : m'.isFinalAt k) : w ∈ m.language := by
  obtain ⟨j, hj, rfl, hw'⟩ := h.embeds.exists_path hi hw
  rw [h.initial i hi] at hinit
  rw [h.final j hj] at hk
  exact mem_language.2 ⟨i, hinit, j, hw', hk⟩

theorem Includes.mem_language (hc : m.Closed) (hw : w ∈ m.language) : w ∈ m'.language := by
  obtain ⟨i, hi, j, hw, hj⟩ := Automaton.mem_language.1 hw
  have hlt := lt_size_of_isInitialAt hi
  refine Automaton.mem_language.2 ⟨f i, ?_, f j, h.embeds.path_of_closed hc hlt hw, ?_⟩
  · rwa [h.initial i hlt]
  · rwa [h.final j (lt_size_of_isFinalAt hj)]

theorem Includes.useful (hc : m.Closed) (hi : m.Useful i) : m'.Useful (f i) := by
  obtain ⟨⟨w, i₀, hi₀, hw⟩, v, j, hv, hj⟩ := id hi
  have hinit := mem_initials.1 hi₀
  have hlt := lt_size_of_isInitialAt hinit
  refine ⟨⟨w, f i₀, ?_, h.embeds.path_of_closed hc hlt hw⟩, v, f j,
    h.embeds.path_of_closed hc hi.lt_size hv, ?_⟩
  · rwa [mem_initials, h.initial i₀ hlt]
  · rwa [h.final j (lt_size_of_isFinalAt hj)]

theorem Includes.unentered (hu : m.Unentered) (hi : i < m.size)
    (ht : t ∈ m'.transitionsFrom (f i)) : m'.isInitialAt t.target = false := by
  obtain ⟨j, hj, he, hl⟩ := (h.embeds i hi t.label t.target).1 ht
  rw [← he, h.initial j hj]
  exact hu i _ hl

end Includes

@[simp] theorem size_union : (m.union m').size = m.size + m'.size := by
  simp [union, size, shift]

theorem lt_or_exists_of_lt_union (h : i < (m.union m').size) :
    i < m.size ∨ ∃ j < m'.size, m.size + j = i := by
  rw [size_union] at h
  by_cases hi : i < m.size
  · exact .inl hi
  · exact .inr ⟨i - m.size, by omega, by omega⟩

theorem includes_union_left (hc : m.Closed) : m.Includes (m.union m') id := by
  refine ⟨fun i hi l k ↦ ?_, fun i hi ↦ isInitialAt_append_left hi,
    fun i hi ↦ isFinalAt_append_left hi⟩
  have ht : (m.union m').transitionsFrom i = m.transitionsFrom i := transitionsFrom_append_left hi
  rw [id, ht]
  constructor
  · intro h
    exact ⟨k, closed_iff.1 hc i _ h, rfl, h⟩
  · intro h
    obtain ⟨j, -, rfl, hj⟩ := h
    exact hj

theorem includes_union_right (hc : m'.Closed) : m'.Includes (m.union m') (m.size + ·) :=
  ⟨embeds_of_shift hc fun _ ↦ transitionsFrom_append_right,
    fun _ _ ↦ isInitialAt_append_right.trans isInitialAt_shift,
    fun _ _ ↦ isFinalAt_append_right.trans isFinalAt_shift⟩

theorem language_union (hc : m.Closed) (hc' : m'.Closed) :
    (m.union m').language = m.language + m'.language := by
  have hleft : m.Includes (m.union m') id := includes_union_left hc
  have hright := includes_union_right (m := m) hc'
  refine Language.ext fun w ↦ ?_
  rw [Language.mem_add]
  constructor
  · intro h
    obtain ⟨i, hi, k, hw, hk⟩ := mem_language.1 h
    rcases lt_or_exists_of_lt_union (lt_size_of_isInitialAt hi) with hlt | ⟨j, hlt, rfl⟩
    · exact .inl (hleft.mem_language_of_path hlt hi hw hk)
    · exact .inr (hright.mem_language_of_path hlt hi hw hk)
  · intro h
    exact h.elim (hleft.mem_language hc) (hright.mem_language hc')

theorem closed_union (hc : m.Closed) (hc' : m'.Closed) : (m.union m').Closed := by
  rw [closed_iff]
  intro i t ht
  rw [size_union]
  rcases lt_or_exists_of_lt_union (lt_size_of_mem ht) with hi | ⟨i, hi, rfl⟩
  · obtain ⟨j, hj, he, -⟩ := ((includes_union_left hc).embeds i hi t.label t.target).1 ht
    exact he ▸ Nat.lt_add_right m'.size hj
  · obtain ⟨j, hj, he, -⟩ := ((includes_union_right hc').embeds i hi t.label t.target).1 ht
    exact he ▸ Nat.add_lt_add_left hj m.size

theorem tidy_union (h : m.Tidy) (h' : m'.Tidy) : (m.union m').Tidy := by
  have hleft : m.Includes (m.union m') id := includes_union_left h.closed
  have hright := includes_union_right (m := m) h'.closed
  refine ⟨closed_union h.closed h'.closed, fun i hi ↦ ?_, fun i t ht ↦ ?_⟩
  · rcases lt_or_exists_of_lt_union hi with hlt | ⟨j, hlt, rfl⟩
    · exact hleft.useful h.closed (h.useful i hlt)
    · exact hright.useful h'.closed (h'.useful j hlt)
  · rcases lt_or_exists_of_lt_union (lt_size_of_mem ht) with hlt | ⟨j, hlt, rfl⟩
    · exact hleft.unentered h.unentered hlt ht
    · exact hright.unentered h'.unentered hlt ht

theorem mem_openings : t ∈ m.openings ↔ ∃ i, m.isInitialAt i ∧ t ∈ m.transitionsFrom i := by
  rw [openings, List.mem_flatMap]
  constructor
  · intro h
    obtain ⟨s, hs, ht⟩ := h
    obtain ⟨hs, hinit⟩ := List.mem_filter.1 hs
    obtain ⟨i, hi⟩ := List.mem_iff_getElem?.1 hs
    rw [Array.getElem?_toList] at hi
    exact ⟨i, isInitialAt_of_state hi ▸ hinit, transitionsFrom_of_state hi ▸ ht⟩
  · intro h
    obtain ⟨i, hinit, ht⟩ := h
    obtain ⟨s, hs⟩ := exists_state (lt_size_of_mem ht)
    refine ⟨s, List.mem_filter.2 ⟨Array.mem_toList_iff.2 (Array.mem_of_getElem? hs), ?_⟩, ?_⟩
    · exact isInitialAt_of_state hs ▸ hinit
    · exact transitionsFrom_of_state hs ▸ ht

theorem mem_openings_shift : ⟨l, k⟩ ∈ (m.shift n).openings ↔
    ∃ i j, m.isInitialAt i ∧ ⟨l, j⟩ ∈ m.transitionsFrom i ∧ n + j = k := by
  simp only [mem_openings, isInitialAt_shift, mem_transitionsFrom_shift]
  constructor
  · intro h
    obtain ⟨i, hi, j, hj, ht⟩ := h
    exact ⟨i, j, hi, ht, hj⟩
  · intro h
    obtain ⟨i, j, hi, ht, hj⟩ := h
    exact ⟨i, hi, j, hj, ht⟩

theorem acceptsEmpty_iff : m.acceptsEmpty ↔ [] ∈ m.language := by
  rw [nil_mem_language, acceptsEmpty, Array.any_eq_true]
  constructor
  · intro h
    obtain ⟨i, hi, h⟩ := h
    obtain ⟨hinit, hfinal⟩ := Bool.and_eq_true_iff.1 h
    have hs := Array.getElem?_eq_getElem hi
    exact ⟨i, isInitialAt_of_state hs ▸ hinit, isFinalAt_of_state hs ▸ hfinal⟩
  · intro h
    obtain ⟨i, hinit, hfinal⟩ := h
    have hi := lt_size_of_isInitialAt hinit
    have hs := Array.getElem?_eq_getElem hi
    rw [isInitialAt_of_state hs] at hinit
    rw [isFinalAt_of_state hs] at hfinal
    exact ⟨i, hi, Bool.and_eq_true_iff.2 ⟨hinit, hfinal⟩⟩

@[simp] theorem size_join : (m.join m').size = m.size + m'.size := by
  simp [join, size, shift]

theorem lt_or_exists_of_lt_join (h : i < (m.join m').size) :
    i < m.size ∨ ∃ j < m'.size, m.size + j = i :=
  lt_or_exists_of_lt_union (size_union.symm ▸ size_join ▸ h)

theorem exists_state_join_left (m' : Automaton) (hi : i < m.size) : ∃ s, m.states[i]? = some s ∧
    (m.join m').states[i]? = some (if s.isFinal then
      { s.addTransitions (m'.shift m.size).openings with isFinal := m'.acceptsEmpty } else s) := by
  obtain ⟨s, hs⟩ := exists_state hi
  refine ⟨s, hs, ?_⟩
  rw [join, Array.getElem?_append_left (by rwa [Array.size_map]), Array.getElem?_map, hs,
    Option.map_some]

theorem mem_transitionsFrom_join_left (hi : i < m.size) : t ∈ (m.join m').transitionsFrom i ↔
    t ∈ m.transitionsFrom i ∨ m.isFinalAt i ∧ t ∈ (m'.shift m.size).openings := by
  obtain ⟨s, hs, hj⟩ := exists_state_join_left m' hi
  rw [transitionsFrom_of_state hj, transitionsFrom_of_state hs, isFinalAt_of_state hs]
  by_cases hf : s.isFinal = true
  · rw [if_pos hf, hf]
    simpa using State.mem_addTransitions
  · simp [hf]

theorem isInitialAt_join_left (hi : i < m.size) : (m.join m').isInitialAt i = m.isInitialAt i := by
  obtain ⟨s, hs, hj⟩ := exists_state_join_left m' hi
  rw [isInitialAt_of_state hj, isInitialAt_of_state hs]
  split <;> rfl

theorem isFinalAt_join_left (hi : i < m.size) :
    (m.join m').isFinalAt i = (m.isFinalAt i && m'.acceptsEmpty) := by
  obtain ⟨s, hs, hj⟩ := exists_state_join_left m' hi
  rw [isFinalAt_of_state hj, isFinalAt_of_state hs]
  by_cases hf : s.isFinal = true
  · rw [if_pos hf, hf, Bool.true_and]
  · rw [if_neg hf]
    simp [hf]

theorem getElem?_join_right : (m.join m').states[m.size + i]? =
    ((m'.shift m.size).states[i]?).map fun s ↦
    { s with isInitial := s.isInitial && m.acceptsEmpty } := by
  rw [join, Array.getElem?_append_right (by simp [size]), Array.size_map, ← Array.getElem?_map]
  simp [size]

theorem transitionsFrom_join_right :
    (m.join m').transitionsFrom (m.size + i) = (m'.shift m.size).transitionsFrom i := by
  rw [transitionsFrom, getElem?_join_right, Option.map_map]
  rfl

theorem isInitialAt_join_right :
    (m.join m').isInitialAt (m.size + i) = (m'.isInitialAt i && m.acceptsEmpty) := by
  rw [← isInitialAt_shift (m := m') (n := m.size), isInitialAt, isInitialAt, getElem?_join_right,
    Option.map_map]
  cases (m'.shift m.size).states[i]? <;> simp

theorem isFinalAt_join_right : (m.join m').isFinalAt (m.size + i) = m'.isFinalAt i := by
  rw [← isFinalAt_shift (m := m') (n := m.size), isFinalAt, getElem?_join_right, Option.map_map]
  rfl

theorem embeds_join_right (hc : m'.Closed) : m'.Embeds (m.join m') (· < m'.size) (m.size + ·) :=
  embeds_of_shift hc fun _ ↦ transitionsFrom_join_right

theorem path_join_left (m' : Automaton) (hc : m.Closed) (hi : i < m.size) (hw : m.Path i w j) :
    (m.join m').Path i w j := by
  induction hw with
  | nil => exact .nil _
  | cons ht _ ih =>
    exact .cons ((mem_transitionsFrom_join_left hi).2 (.inl ht)) (ih (closed_iff.1 hc _ _ ht))

theorem path_join_across (hc' : m'.Closed) (hj : m.isFinalAt j) (hi : m'.isInitialAt i)
    (hw : m'.Path i (l :: w) k) : (m.join m').Path j (l :: w) (m.size + k) := by
  cases hw with
  | @cons _ _ t _ ht hw =>
    have hopen : ⟨t.label, m.size + t.target⟩ ∈ (m.join m').transitionsFrom j :=
      (mem_transitionsFrom_join_left (lt_size_of_isFinalAt hj)).2
        (.inr ⟨hj, mem_openings_shift.2 ⟨i, t.target, hi, ht, rfl⟩⟩)
    exact .step hopen ((embeds_join_right hc').path_of_closed hc' (closed_iff.1 hc' _ _ ht) hw)

/-- A way that begins in the first automaton stays there, or passes from a final state of it
into the second. -/
theorem of_path_join (hc : m.Closed) (hc' : m'.Closed) (hi : i < m.size)
    (hw : (m.join m').Path i w k) :
    (k < m.size ∧ m.Path i w k) ∨ ∃ u v j i' k', w = u ++ v ∧ m.Path i u j ∧ m.isFinalAt j ∧
      m'.isInitialAt i' ∧ m'.Path i' v k' ∧ m.size + k' = k := by
  induction hw with
  | nil => exact .inl ⟨hi, .nil _⟩
  | @cons i k t w ht hw ih =>
    rcases (mem_transitionsFrom_join_left hi).1 ht with ht | ⟨hf, ht⟩
    · rcases ih (closed_iff.1 hc _ _ ht) with ⟨hk, hw⟩ | ⟨u, v, j, i', k', rfl, hu, h⟩
      · exact .inl ⟨hk, .cons ht hw⟩
      · exact .inr ⟨t.label :: u, v, j, i', k', rfl, .cons ht hu, h⟩
    · obtain ⟨i', j', hi', ht, hj⟩ := mem_openings_shift.1 ht
      have hj' : j' < m'.size := closed_iff.1 hc' _ _ ht
      obtain ⟨k', -, rfl, hv⟩ := (embeds_join_right hc').exists_path hj' (hj ▸ hw)
      exact .inr ⟨[], t.label :: w, i, i', k', rfl, .nil _, hf, hi', .step ht hv, rfl⟩

theorem mem_mul_of_mem_join (hc : m.Closed) (hc' : m'.Closed) (hw : w ∈ (m.join m').language) :
    w ∈ m.language * m'.language := by
  obtain ⟨i, hi, k, hw, hk⟩ := mem_language.1 hw
  rcases lt_or_exists_of_lt_join (lt_size_of_isInitialAt hi) with hlt | ⟨i', hlt, rfl⟩
  · rw [isInitialAt_join_left hlt] at hi
    rcases of_path_join hc hc' hlt hw with ⟨hk', hw⟩ | ⟨u, v, j, i', k', rfl, hu, hj, hi', hv, rfl⟩
    · rw [isFinalAt_join_left hk', Bool.and_eq_true] at hk
      exact ⟨w, mem_language.2 ⟨i, hi, k, hw, hk.1⟩, [], acceptsEmpty_iff.1 hk.2, List.append_nil w⟩
    · rw [isFinalAt_join_right] at hk
      exact ⟨u, mem_language.2 ⟨i, hi, j, hu, hj⟩, v, mem_language.2 ⟨i', hi', k', hv, hk⟩, rfl⟩
  -- The second automaton keeps its initial states only if the first accepts the empty word.
  · rw [isInitialAt_join_right, Bool.and_eq_true] at hi
    obtain ⟨k', -, rfl, hw'⟩ := (embeds_join_right hc').exists_path hlt hw
    rw [isFinalAt_join_right] at hk
    exact ⟨[], acceptsEmpty_iff.1 hi.2, w, mem_language.2 ⟨i', hi.1, k', hw', hk⟩, rfl⟩

theorem append_mem_join (hc : m.Closed) (hc' : m'.Closed) {u v : List Label} (hu : u ∈ m.language)
    (hv : v ∈ m'.language) : u ++ v ∈ (m.join m').language := by
  obtain ⟨i, hi, j, hu, hj⟩ := mem_language.1 hu
  have hlt := lt_size_of_isInitialAt hi
  have hu' := path_join_left m' hc hlt hu
  have hi' : (m.join m').isInitialAt i := (isInitialAt_join_left hlt).trans hi
  cases v with
  | nil =>
    refine mem_language.2 ⟨i, hi', j, by rwa [List.append_nil], ?_⟩
    rw [isFinalAt_join_left (lt_size_of_isFinalAt hj), hj, Bool.true_and]
    exact acceptsEmpty_iff.2 hv
  | cons l v =>
    obtain ⟨i', hinit, k, hv, hk⟩ := mem_language.1 hv
    exact mem_language.2 ⟨i, hi', m.size + k, hu'.append (path_join_across hc' hj hinit hv),
      isFinalAt_join_right.trans hk⟩

theorem language_join (hc : m.Closed) (hc' : m'.Closed) :
    (m.join m').language = m.language * m'.language := by
  refine Language.ext fun w ↦ ?_
  constructor
  · intro h
    exact mem_mul_of_mem_join hc hc' h
  · intro h
    obtain ⟨u, hu, v, hv, rfl⟩ := Language.mem_mul.1 h
    exact append_mem_join hc hc' hu hv

theorem target_join (hc' : m'.Closed) (ht : t ∈ (m.join m').transitionsFrom i) :
    (∃ j, t ∈ m.transitionsFrom j) ∨ ∃ j k, ⟨t.label, k⟩ ∈ m'.transitionsFrom j ∧
      m.size + k = t.target := by
  rcases lt_or_exists_of_lt_join (lt_size_of_mem ht) with hlt | ⟨j, hlt, rfl⟩
  · rcases (mem_transitionsFrom_join_left hlt).1 ht with ht | ⟨-, ht⟩
    · exact .inl ⟨i, ht⟩
    · obtain ⟨j, k, -, ht, hk⟩ := mem_openings_shift.1 ht
      exact .inr ⟨j, k, ht, hk⟩
  · obtain ⟨k, -, hk, ht⟩ := (embeds_join_right hc' j hlt t.label t.target).1 ht
    exact .inr ⟨j, k, ht, hk⟩

theorem closed_join (hc : m.Closed) (hc' : m'.Closed) : (m.join m').Closed := by
  rw [closed_iff]
  intro i t ht
  rw [size_join]
  rcases target_join hc' ht with ⟨j, ht⟩ | ⟨j, k, ht, hk⟩
  · exact Nat.lt_add_right _ (closed_iff.1 hc j t ht)
  · exact hk ▸ Nat.add_lt_add_left (closed_iff.1 hc' j _ ht) m.size

theorem unentered_join (hc : m.Closed) (hc' : m'.Closed) (hu : m.Unentered) (hu' : m'.Unentered) :
    (m.join m').Unentered := by
  intro i t ht
  rcases target_join hc' ht with ⟨j, ht⟩ | ⟨j, k, ht, hk⟩
  · rw [isInitialAt_join_left (closed_iff.1 hc j t ht)]
    exact hu j t ht
  · rw [← hk, isInitialAt_join_right, hu' j _ ht, Bool.false_and]

theorem language_concatenate (hc : m.Closed) (hc' : m'.Closed) :
    (m.concatenate m').language = m.language * m'.language :=
  language_trim.trans (language_join hc hc')

theorem closed_concatenate (hc : m.Closed) (hc' : m'.Closed) : (m.concatenate m').Closed :=
  closed_trim (closed_join hc hc')

theorem tidy_concatenate (h : m.Tidy) (h' : m'.Tidy) : (m.concatenate m').Tidy :=
  tidy_trim (closed_join h.closed h'.closed)
    (unentered_join h.closed h'.closed h.unentered h'.unentered)

theorem checked_concatenate (hc : m.Closed) (hc' : m'.Closed) :
    Checked.concatenate m m' = .ok (m.concatenate m') :=
  checked_trim (closed_join hc hc')

end Automaton

end RightPart
