import RightPart.Proofs.Automaton.Algebra

namespace RightPart.Automaton

open Computability

variable {m : Automaton} {i j k : Nat} {l : Label} {t : Transition} {v w : List Label}

theorem getElem?_ofWord :
    (ofWord w).states[i]? = if i = w.length then some ⟨w.isEmpty, true, .none, []⟩
    else w[i]?.map fun l ↦ ⟨i == 0, false, .none, [⟨l, i + 1⟩]⟩ := by
  simp only [ofWord, Array.getElem?_push, List.size_toArray, List.length_mapIdx,
    List.getElem?_toArray, List.getElem?_mapIdx]

theorem mem_transitionsFrom_ofWord :
    ⟨l, k⟩ ∈ (ofWord w).transitionsFrom i ↔ w[i]? = some l ∧ k = i + 1 := by
  rw [transitionsFrom, getElem?_ofWord]
  split
  · rename_i h
    simp [h]
  · cases w[i]? <;> simp [eq_comm]

theorem isInitialAt_ofWord : (ofWord w).isInitialAt i ↔ i = 0 := by
  rw [isInitialAt, getElem?_ofWord]
  split
  · rename_i h
    simp [h]
  · rename_i h
    cases hi : w[i]? with
    | none =>
      have := List.getElem?_eq_none_iff.1 hi
      simp only [Option.map_none, Option.getD_none, Bool.false_eq_true, false_iff]
      omega
    | some l => simp

theorem isFinalAt_ofWord : (ofWord w).isFinalAt i ↔ i = w.length := by
  rw [isFinalAt, getElem?_ofWord]
  split
  · rename_i h
    simp [h]
  · rename_i h
    cases w[i]? <;> simp [h]

theorem size_ofWord : (ofWord w).size = w.length + 1 := by
  simp [ofWord, size]

theorem path_ofWord_iff (hi : i ≤ w.length) : (ofWord w).Path i v w.length ↔ v = w.drop i := by
  constructor
  · intro h
    generalize hk : w.length = k at h
    induction h with
    | nil i => rw [← hk, List.drop_length]
    | @cons i k t v ht _ ih =>
      obtain ⟨hl, he⟩ := mem_transitionsFrom_ofWord.1 ht
      obtain ⟨hlt, hl⟩ := List.getElem?_eq_some_iff.1 hl
      rw [List.drop_eq_getElem_cons hlt, hl, ih (by omega) hk, he]
  · intro h
    subst h
    induction hn : w.length - i generalizing i with
    | zero =>
      obtain rfl : i = w.length := by omega
      rw [List.drop_length]
      exact .nil _
    | succ n ih =>
      have hlt : i < w.length := by omega
      rw [List.drop_eq_getElem_cons hlt]
      have ht := mem_transitionsFrom_ofWord.2 ⟨List.getElem?_eq_getElem hlt, rfl⟩
      exact .step ht (ih hlt (by omega))

theorem path_take_ofWord (hi : i ≤ w.length) : (ofWord w).Path 0 (w.take i) i := by
  induction i with
  | zero => exact .nil 0
  | succ i ih =>
    have ht := mem_transitionsFrom_ofWord.2 ⟨List.getElem?_eq_getElem hi, rfl⟩
    rw [← List.take_append_getElem hi]
    exact (ih (Nat.le_of_succ_le hi)).append (path_singleton.2 ht)

theorem language_ofWord : (ofWord w).language = {w} := by
  refine Language.ext fun v ↦ ?_
  rw [mem_language]
  constructor
  · intro h
    obtain ⟨i, hi, j, hv, hj⟩ := h
    rw [isInitialAt_ofWord] at hi
    rw [isFinalAt_ofWord] at hj
    subst hi hj
    exact (path_ofWord_iff (Nat.zero_le _)).1 hv
  · intro h
    obtain rfl : v = w := h
    exact ⟨0, isInitialAt_ofWord.2 rfl, v.length, (path_ofWord_iff (Nat.zero_le _)).2 rfl,
      isFinalAt_ofWord.2 rfl⟩

theorem tidy_ofWord : (ofWord w).Tidy := by
  refine ⟨closed_iff.2 fun i t ht ↦ ?_, fun i hi ↦ ?_, fun i t ht ↦ ?_⟩
  · obtain ⟨hl, he⟩ := mem_transitionsFrom_ofWord.1 ht
    obtain ⟨hlt, -⟩ := List.getElem?_eq_some_iff.1 hl
    rw [size_ofWord]
    omega
  · rw [size_ofWord] at hi
    have hi : i ≤ w.length := by omega
    exact ⟨⟨w.take i, 0, mem_initials.2 (isInitialAt_ofWord.2 rfl), path_take_ofWord hi⟩, w.drop i,
      w.length, (path_ofWord_iff hi).2 rfl, isFinalAt_ofWord.2 rfl⟩
  · obtain ⟨-, he⟩ := mem_transitionsFrom_ofWord.1 ht
    rw [Bool.eq_false_iff, Ne, isInitialAt_ofWord, he]
    omega

theorem language_empty : empty.language = 1 := language_ofWord (w := [])

theorem tidy_empty : empty.Tidy := tidy_ofWord (w := [])

section Labels

variable {labels : List Label}

theorem mem_transitionsFrom_ofLabels :
    ⟨l, k⟩ ∈ (ofLabels labels).transitionsFrom i ↔ i = 0 ∧ l ∈ labels ∧ k = 1 := by
  match i with
  | 0 => simp [ofLabels, transitionsFrom, eq_comm]
  | 1 => simp [ofLabels, transitionsFrom]
  | i + 2 => simp [ofLabels, transitionsFrom]

theorem isInitialAt_ofLabels : (ofLabels labels).isInitialAt i ↔ i = 0 := by
  match i with
  | 0 => simp [ofLabels, isInitialAt]
  | 1 => simp [ofLabels, isInitialAt]
  | i + 2 => simp [ofLabels, isInitialAt]

theorem isFinalAt_ofLabels : (ofLabels labels).isFinalAt i ↔ i = 1 := by
  match i with
  | 0 => simp [ofLabels, isFinalAt]
  | 1 => simp [ofLabels, isFinalAt]
  | i + 2 => simp [ofLabels, isFinalAt]

theorem language_ofLabels : (ofLabels labels).language = {w | ∃ l ∈ labels, w = [l]} := by
  refine Language.ext fun w ↦ ?_
  simp only [mem_language, isInitialAt_ofLabels, isFinalAt_ofLabels]
  constructor
  · intro h
    obtain ⟨i, rfl, j, hw, rfl⟩ := h
    cases hw with
    | @cons _ _ t w ht hw =>
      obtain ⟨-, hl, he⟩ := mem_transitionsFrom_ofLabels.1 ht
      rw [he] at hw
      cases hw with
      | nil => exact ⟨t.label, hl, rfl⟩
      | cons ht' => exact absurd (mem_transitionsFrom_ofLabels.1 ht').1 (by decide)
  · intro h
    obtain ⟨l, hl, rfl⟩ := h
    exact ⟨0, rfl, 1, path_singleton.2 (mem_transitionsFrom_ofLabels.2 ⟨rfl, hl, rfl⟩), rfl⟩

theorem tidy_ofLabels (h : labels ≠ []) : (ofLabels labels).Tidy := by
  obtain ⟨l, hl⟩ := List.exists_mem_of_ne_nil labels h
  have ht : (ofLabels labels).Path 0 [l] 1 :=
    path_singleton.2 (mem_transitionsFrom_ofLabels.2 ⟨rfl, hl, rfl⟩)
  have hinit : 0 ∈ (ofLabels labels).initials := mem_initials.2 (isInitialAt_ofLabels.2 rfl)
  have hfinal : (ofLabels labels).isFinalAt 1 := isFinalAt_ofLabels.2 rfl
  refine ⟨closed_iff.2 fun i t ht ↦ ?_, fun i hi ↦ ?_, fun i t ht ↦ ?_⟩
  · obtain ⟨-, -, he⟩ := mem_transitionsFrom_ofLabels.1 ht
    rw [he]
    exact Nat.one_lt_two
  · match i with
    | 0 => exact ⟨⟨[], 0, hinit, .nil 0⟩, [l], 1, ht, hfinal⟩
    | 1 => exact ⟨⟨[l], 0, hinit, ht⟩, [], 1, .nil 1, hfinal⟩
    | i + 2 => exact absurd hi (by simp [ofLabels, size])
  · obtain ⟨-, -, he⟩ := mem_transitionsFrom_ofLabels.1 ht
    rw [Bool.eq_false_iff, Ne, isInitialAt_ofLabels, he]
    exact Nat.one_ne_zero

theorem checked_addTransition_ofLabels (h : l ∉ labels) :
    Checked.addTransition (ofLabels labels) 0 ⟨l, 1⟩ = .ok (ofLabels (labels ++ [l])) := by
  have hnew : (⟨l, 1⟩ : Transition) ∉ labels.map fun l ↦ (⟨l, 1⟩ : Transition) := by
    rw [List.mem_map]
    rintro ⟨l', hl', heq⟩
    exact h ((Transition.mk.inj heq).1 ▸ hl')
  have hfirst : (⟨true, false, .none, labels.map (⟨·, 1⟩)⟩ : State).addTransitions [⟨l, 1⟩] =
      ⟨true, false, .none, labels.map (⟨·, 1⟩) ++ [⟨l, 1⟩]⟩ := State.addTransitions_singleton hnew
  have hsize : 0 < (ofLabels labels).size := Nat.zero_lt_two
  rw [Checked.addTransition, if_pos hsize, addTransition, ofLabels, ofLabels, List.map_append]
  simp [hfirst]

/-- Two states, and a transition for one label after the other. -/
theorem foldlM_addTransition {before : List Label} (h : (before ++ labels).Nodup) :
    labels.foldlM (fun m l ↦ Checked.addTransition m 0 ⟨l, 1⟩) (ofLabels before) =
      .ok (ofLabels (before ++ labels)) := by
  induction labels generalizing before with
  | nil => rw [List.append_nil]; rfl
  | cons l labels ih =>
    have hnew : l ∉ before := fun hl ↦
      (List.nodup_append.1 h).2.2 l hl l List.mem_cons_self rfl
    rw [List.append_cons] at h ⊢
    rw [List.foldlM_cons, checked_addTransition_ofLabels hnew]
    exact ih h

theorem language_ofLabel : (ofLabel l).language = {[l]} := language_ofWord (w := [l])

theorem tidy_ofLabel : (ofLabel l).Tidy := tidy_ofLabels (List.cons_ne_nil _ _)

end Labels

@[simp] theorem size_plus : m.plus.size = m.size := Array.size_map

theorem exists_state_plus (hi : i < m.size) : ∃ s, m.states[i]? = some s ∧
    m.plus.states[i]? = some (if s.isFinal then s.addTransitions m.openings else s) := by
  obtain ⟨s, hs⟩ := exists_state hi
  refine ⟨s, hs, ?_⟩
  rw [plus, Array.getElem?_map, hs, Option.map_some]

theorem mem_transitionsFrom_plus (hi : i < m.size) : t ∈ m.plus.transitionsFrom i ↔
    t ∈ m.transitionsFrom i ∨ m.isFinalAt i ∧ ∃ j, m.isInitialAt j ∧ t ∈ m.transitionsFrom j := by
  obtain ⟨s, hs, hp⟩ := exists_state_plus hi
  rw [transitionsFrom_of_state hp, transitionsFrom_of_state hs, isFinalAt_of_state hs,
    ← mem_openings]
  by_cases hf : s.isFinal = true
  · rw [if_pos hf, hf]
    simpa using State.mem_addTransitions
  · simp [hf]

@[simp] theorem isInitialAt_plus : m.plus.isInitialAt i = m.isInitialAt i := by
  rw [isInitialAt, isInitialAt, plus, Array.getElem?_map, Option.map_map]
  cases m.states[i]? with
  | none => rfl
  | some s =>
    simp only [Option.map_some, Option.getD_some, Function.comp_apply]
    split <;> rfl

@[simp] theorem isFinalAt_plus : m.plus.isFinalAt i = m.isFinalAt i := by
  rw [isFinalAt, isFinalAt, plus, Array.getElem?_map, Option.map_map]
  cases m.states[i]? with
  | none => rfl
  | some s =>
    simp only [Option.map_some, Option.getD_some, Function.comp_apply]
    split <;> rfl

theorem path_plus (h : m.Path i w j) : m.plus.Path i w j := by
  induction h with
  | nil => exact .nil _
  | cons ht _ ih => exact .cons ((mem_transitionsFrom_plus (lt_size_of_mem ht)).2 (.inl ht)) ih

theorem of_path_plus (hw : m.plus.Path i w k) (hk : m.isFinalAt k) :
    ∃ u v j, w = u ++ v ∧ m.Path i u j ∧ m.isFinalAt j ∧ v ∈ m.language∗ := by
  induction hw with
  | nil => exact ⟨[], [], _, rfl, .nil _, hk, Language.nil_mem_kstar _⟩
  | @cons i k t w ht _ ih =>
    obtain ⟨u, v, j, rfl, hu, hj, hv⟩ := ih hk
    -- A new transition begins another word, so it ends the first one where it starts.
    rcases (mem_transitionsFrom_plus (size_plus ▸ lt_size_of_mem ht)).1 ht with
      ht | ⟨hf, i', hi', ht⟩
    · exact ⟨t.label :: u, v, j, rfl, .cons ht hu, hj, hv⟩
    · have hfirst : t.label :: u ∈ m.language := mem_language.2 ⟨i', hi', j, .cons ht hu, hj⟩
      have hall : t.label :: u ++ v ∈ m.language * m.language∗ := Language.append_mem_mul hfirst hv
      refine ⟨[], t.label :: (u ++ v), i, rfl, .nil i, hf, ?_⟩
      rw [← Language.one_add_self_mul_kstar_eq_kstar]
      exact .inr hall

theorem path_plus_flatten {ws : List (List Label)} (hws : ∀ w ∈ ws, w ∈ m.language)
    (hi : m.isFinalAt i) : ∃ j, m.plus.Path i ws.flatten j ∧ m.isFinalAt j := by
  induction ws generalizing i with
  | nil => exact ⟨i, .nil i, hi⟩
  | cons w ws ih =>
    obtain ⟨hw, hrest⟩ := List.forall_mem_cons.1 hws
    cases w with
    | nil => exact ih hrest hi
    | cons l w =>
      obtain ⟨i', hi', j, hw, hj⟩ := mem_language.1 hw
      cases hw with
      | cons ht hw =>
        obtain ⟨k, hk, hfinal⟩ := ih hrest hj
        have ht' := (mem_transitionsFrom_plus (lt_size_of_isFinalAt hi)).2 (.inr ⟨hi, i', hi', ht⟩)
        exact ⟨k, .cons ht' ((path_plus hw).append hk), hfinal⟩

theorem language_plus : m.plus.language = m.language * m.language∗ := by
  refine Language.ext fun w ↦ ?_
  rw [Language.mem_mul]
  constructor
  · intro h
    obtain ⟨i, hi, k, hw, hk⟩ := mem_language.1 h
    rw [isInitialAt_plus] at hi
    rw [isFinalAt_plus] at hk
    obtain ⟨u, v, j, rfl, hu, hj, hv⟩ := of_path_plus hw hk
    exact ⟨u, mem_language.2 ⟨i, hi, j, hu, hj⟩, v, hv, rfl⟩
  · intro h
    obtain ⟨u, hu, v, hv, rfl⟩ := h
    obtain ⟨i, hi, j, hu, hj⟩ := mem_language.1 hu
    obtain ⟨ws, rfl, hws⟩ := Language.mem_kstar.1 hv
    obtain ⟨k, hk, hfinal⟩ := path_plus_flatten hws hj
    refine mem_language.2 ⟨i, ?_, k, (path_plus hu).append hk, ?_⟩
    · rwa [isInitialAt_plus]
    · rwa [isFinalAt_plus]

theorem exists_transition_of_plus (ht : t ∈ m.plus.transitionsFrom i) :
    ∃ j, t ∈ m.transitionsFrom j := by
  rcases (mem_transitionsFrom_plus (size_plus ▸ lt_size_of_mem ht)).1 ht with ht | ⟨-, j, -, ht⟩
  · exact ⟨i, ht⟩
  · exact ⟨j, ht⟩

theorem closed_plus (hc : m.Closed) : m.plus.Closed := by
  rw [closed_iff]
  intro i t ht
  obtain ⟨j, ht⟩ := exists_transition_of_plus ht
  rw [size_plus]
  exact closed_iff.1 hc j t ht

theorem tidy_plus (h : m.Tidy) : m.plus.Tidy := by
  refine ⟨closed_plus h.closed, fun i hi ↦ ?_, fun i t ht ↦ ?_⟩
  · obtain ⟨⟨w, i₀, hi₀, hw⟩, v, j, hv, hj⟩ := h.useful i (size_plus ▸ hi)
    refine ⟨⟨w, i₀, ?_, path_plus hw⟩, v, j, path_plus hv, ?_⟩
    · rwa [mem_initials, isInitialAt_plus, ← mem_initials]
    · rwa [isFinalAt_plus]
  · obtain ⟨j, ht⟩ := exists_transition_of_plus ht
    rw [isInitialAt_plus]
    exact h.unentered j t ht

theorem language_star (hc : m.Closed) : m.star.language = m.language∗ := by
  rw [star, language_union (closed_plus hc) tidy_empty.closed, language_plus, language_empty,
    add_comm, Language.one_add_self_mul_kstar_eq_kstar]

theorem tidy_star (h : m.Tidy) : m.star.Tidy := tidy_union (tidy_plus h) tidy_empty

theorem language_optional (hc : m.Closed) : m.optional.language = m.language + 1 := by
  unfold optional
  split
  · rename_i he
    refine Language.ext fun w ↦ ?_
    rw [Language.mem_add, Language.mem_one]
    refine ⟨.inl, fun h ↦ h.elim id fun hw ↦ hw ▸ acceptsEmpty_iff.1 he⟩
  · rw [language_union hc tidy_empty.closed, language_empty]

theorem tidy_optional (h : m.Tidy) : m.optional.Tidy := by
  unfold optional
  split
  · exact h
  · exact tidy_union h tidy_empty

end RightPart.Automaton
