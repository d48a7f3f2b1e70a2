import RightPart.Automaton.Checked
import RightPart.Proofs.Automaton.Path
import RightPart.Proofs.Ordered.Search

namespace RightPart.Automaton

variable {m m' : Automaton} {i j k : Nat} {l : Label} {w : List Label}

theorem mem_successors : j ∈ m.successors i ↔ ∃ l, ⟨l, j⟩ ∈ m.transitionsFrom i := by
  rw [successors, List.mem_map]
  constructor
  · intro h
    obtain ⟨t, ht, rfl⟩ := h
    exact ⟨t.label, ht⟩
  · intro h
    obtain ⟨l, hl⟩ := h
    exact ⟨⟨l, j⟩, hl, rfl⟩

theorem reflTransGen_successors :
    Relation.ReflTransGen (fun x y ↦ y ∈ m.successors x) i j ↔ ∃ w, m.Path i w j := by
  constructor
  · intro h
    induction h with
    | refl => exact ⟨[], .nil i⟩
    | tail _ h ih =>
      obtain ⟨w, hw⟩ := ih
      obtain ⟨l, hl⟩ := mem_successors.1 h
      exact ⟨w ++ [l], hw.append (path_singleton.2 hl)⟩
  · intro h
    obtain ⟨w, hw⟩ := h
    induction hw with
    | nil => exact .refl
    | cons ht _ ih => exact .head (mem_successors.2 ⟨_, ht⟩) ih

theorem mem_reachable : i ∈ m.reachable ↔ ∃ w, m.Reaches w i := by
  simp only [reachable, OrderedSet.mem_closure, OrderedSet.mem_ofList, reflTransGen_successors,
    Reaches]
  constructor
  · intro h
    obtain ⟨j, hj, w, hw⟩ := h
    exact ⟨w, j, hj, hw⟩
  · intro h
    obtain ⟨w, j, hj, hw⟩ := h
    exact ⟨j, hj, w, hw⟩

theorem mem_sources : j ∈ m.sources[i]?.getD [] ↔ i < m.size ∧ i ∈ m.successors j := by
  have hfold : ∀ (ts : List (Nat × Transition)) (a : Array (List Nat)),
      j ∈ (ts.foldl (fun a p ↦ a.modify p.2.target (p.1 :: ·)) a)[i]?.getD [] ↔
        j ∈ a[i]?.getD [] ∨ i < a.size ∧ ∃ t, (j, t) ∈ ts ∧ t.target = i := by
    intro ts
    induction ts with
    | nil => simp
    | cons p ts ih =>
      intro a
      rw [List.foldl_cons, ih, Array.size_modify, Array.getElem?_modify]
      by_cases hi : i < a.size
      · by_cases hp : p.2.target = i
        · simp only [hp, hi, if_true, Array.getElem?_eq_getElem, Option.map_some, Option.getD_some,
            List.mem_cons, true_and]
          constructor
          · rintro ((rfl | h) | ⟨t, ht, rfl⟩)
            · exact .inr ⟨p.2, .inl rfl, hp⟩
            · exact .inl h
            · exact .inr ⟨t, .inr ht, rfl⟩
          · rintro (h | ⟨t, rfl | ht, rfl⟩)
            · exact .inl (.inr h)
            · exact .inl (.inl rfl)
            · exact .inr ⟨t, ht, rfl⟩
        · simp only [hp, hi, if_false, Array.getElem?_eq_getElem, Option.getD_some, List.mem_cons,
            true_and]
          refine or_congr_right (exists_congr fun t ↦ ⟨fun h ↦ ⟨.inr h.1, h.2⟩, fun h ↦ ⟨?_, h.2⟩⟩)
          exact h.1.resolve_left fun e ↦ hp (e ▸ h.2)
      · simp [hi]
  rw [sources, hfold, Array.size_replicate, Array.getElem?_replicate, mem_successors]
  simp only [mem_transitions]
  constructor
  · rintro (h | ⟨hi, t, ht, rfl⟩)
    · split at h <;> cases h
    · exact ⟨hi, t.label, ht⟩
  · rintro ⟨hi, l, hl⟩
    exact .inr ⟨hi, ⟨l, i⟩, hl, rfl⟩

theorem mem_coreachable : i ∈ m.coreachable ↔ ∃ w j, m.Path i w j ∧ m.isFinalAt j := by
  rw [coreachable, OrderedSet.mem_closure]
  simp only [OrderedSet.mem_ofList, mem_finals, mem_sources]
  constructor
  · rintro ⟨j, hj, h⟩
    induction h with
    | refl => exact ⟨[], j, .nil j, hj⟩
    | tail _ h ih =>
      obtain ⟨w, k, hw, hk⟩ := ih
      obtain ⟨l, hl⟩ := mem_successors.1 h.2
      exact ⟨l :: w, k, .step hl hw, hk⟩
  · rintro ⟨w, j, hw, hj⟩
    refine ⟨j, hj, ?_⟩
    induction hw with
    | nil => exact .refl
    | cons ht hw ih => exact (ih hj).tail ⟨hw.lt_size hj, mem_successors.2 ⟨_, ht⟩⟩

theorem mem_useful : i ∈ m.useful ↔ m.Useful i := by
  simp only [useful, OrderedSet.mem_ofList, List.mem_filter, ids, List.mem_range, decide_eq_true_eq,
    mem_reachable, mem_coreachable]
  exact ⟨fun h ↦ ⟨h.2.1, h.2.2⟩, fun h ↦ ⟨h.lt_size, h.reached, h.finishes⟩⟩

theorem useful_of_size_eq (h : m.useful.size = m.size) (hi : i < m.size) : m.Useful i := by
  have hids : ∀ k ∈ m.useful.toList, k ∈ m.ids :=
    fun k hk ↦ List.mem_range.2 (mem_useful.1 hk).lt_size
  have hlen : m.ids.length ≤ m.useful.toList.length := by
    rw [OrderedSet.length_toList, h, ids, List.length_range]
  have hperm := (List.subperm_of_subset m.useful.nodup hids).perm_of_length_le hlen
  exact mem_useful.1 (hperm.mem_iff.2 (List.mem_range.2 hi))

section Restrict

variable {u : OrderedSet Nat} (hu : ∀ i ∈ u, i < m.size)

include hu

theorem getElem?_restrict :
    (m.restrict u).states[k]? = (u.toList[k]?.bind (m.states[·]?)).map fun s ↦
    { s with transitions := s.transitions.filterMap fun t ↦
        (u.indexOf? t.target).map fun j ↦ { t with target := j } } := by
  have hall : ∀ (l : List Nat) (k : Nat), (∀ i ∈ l, i < m.size) →
      (l.filterMap (m.states[·]?))[k]? = l[k]?.bind (m.states[·]?) := by
    intro l
    induction l with
    | nil => intro k hl; rfl
    | cons a l ih =>
      intro k hl
      obtain ⟨s, ha⟩ := exists_state (hl a List.mem_cons_self)
      rw [List.filterMap_cons_some ha]
      cases k with
      | zero => exact ha.symm
      | succ k => exact ih k fun i hi ↦ hl i (List.mem_cons_of_mem a hi)
  rw [restrict, Array.getElem?_map, ← Array.getElem?_toList, Array.toList_filterMap]
  exact congrArg _ (hall u.toList k hu)

theorem mem_transitionsFrom_restrict (hk : u.toList[k]? = some i) :
    ⟨l, j⟩ ∈ (m.restrict u).transitionsFrom k ↔
      ∃ j', u.toList[j]? = some j' ∧ ⟨l, j'⟩ ∈ m.transitionsFrom i := by
  obtain ⟨s, hs⟩ := exists_state (hu i (List.mem_of_getElem? hk))
  simp only [transitionsFrom, getElem?_restrict hu, hk, hs, Option.bind_some, Option.map_some,
    Option.getD_some, List.mem_filterMap, Option.map_eq_some_iff, OrderedSet.indexOf?_eq_some]
  constructor
  · rintro ⟨t, ht, j', hj, he⟩
    obtain ⟨rfl, rfl⟩ := Transition.mk.inj he
    exact ⟨t.target, hj, ht⟩
  · rintro ⟨j', hj, ht⟩
    exact ⟨⟨l, j'⟩, ht, j, hj, rfl⟩

theorem labels_restrict (hk : u.toList[k]? = some i) :
    List.Sublist (((m.restrict u).transitionsFrom k).map Transition.label)
      ((m.transitionsFrom i).map Transition.label) := by
  obtain ⟨s, hs⟩ := exists_state (hu i (List.mem_of_getElem? hk))
  simp only [transitionsFrom, getElem?_restrict hu, hk, hs, Option.bind_some, Option.map_some,
    Option.getD_some]
  induction s.transitions with
  | nil => exact .slnil
  | cons t l ih =>
    rw [List.filterMap_cons]
    split
    · exact ih.cons _
    · rename_i t' ht
      obtain ⟨j, -, rfl⟩ := Option.map_eq_some_iff.1 ht
      exact ih.cons_cons _

theorem isInitialAt_restrict (hk : u.toList[k]? = some i) :
    (m.restrict u).isInitialAt k = m.isInitialAt i := by
  simp only [isInitialAt, getElem?_restrict hu, hk, Option.bind_some, Option.map_map]
  rfl

theorem isFinalAt_restrict (hk : u.toList[k]? = some i) :
    (m.restrict u).isFinalAt k = m.isFinalAt i := by
  simp only [isFinalAt, getElem?_restrict hu, hk, Option.bind_some, Option.map_map]
  rfl

theorem exists_getElem?_of_lt_size_restrict (hk : k < (m.restrict u).size) :
    ∃ i, u.toList[k]? = some i := by
  obtain ⟨s, hs⟩ := exists_state hk
  rw [getElem?_restrict hu] at hs
  cases hi : u.toList[k]? with
  | none => simp [hi] at hs
  | some i => exact ⟨i, rfl⟩

theorem lt_size_restrict (hk : u.toList[k]? = some i) : k < (m.restrict u).size := by
  obtain ⟨s, hs⟩ := exists_state (hu i (List.mem_of_getElem? hk))
  by_contra hlt
  have hnone : (m.restrict u).states[k]? = Option.none :=
    Array.getElem?_eq_none (Nat.le_of_not_lt hlt)
  simp [getElem?_restrict hu, hk, hs] at hnone

end Restrict

theorem lt_size_of_mem_useful : ∀ i ∈ m.useful, i < m.size := fun _ hi ↦ (mem_useful.1 hi).lt_size

theorem getElem?_indexOf_useful (hi : m.Useful i) : m.useful.toList[m.useful.indexOf i]? = some i :=
  OrderedSet.getElem?_indexOf (mem_useful.2 hi)

theorem exists_useful (hk : k < (m.restrict m.useful).size) :
    ∃ i, m.Useful i ∧ m.useful.indexOf i = k := by
  obtain ⟨i, hi⟩ := exists_getElem?_of_lt_size_restrict lt_size_of_mem_useful hk
  exact ⟨i, mem_useful.1 (List.mem_of_getElem? hi), OrderedSet.indexOf_eq hi⟩

theorem embeds_restrict : m.Embeds (m.restrict m.useful) m.Useful m.useful.indexOf := by
  intro i hi l k
  rw [mem_transitionsFrom_restrict lt_size_of_mem_useful (getElem?_indexOf_useful hi)]
  constructor
  · rintro ⟨j, hj, ht⟩
    exact ⟨j, mem_useful.1 (List.mem_of_getElem? hj), OrderedSet.indexOf_eq hj, ht⟩
  · rintro ⟨j, hj, rfl, ht⟩
    exact ⟨j, getElem?_indexOf_useful hj, ht⟩

theorem path_restrict (hi : m.Useful i) (hj : m.Useful j) (hw : m.Path i w j) :
    (m.restrict m.useful).Path (m.useful.indexOf i) w (m.useful.indexOf j) :=
  embeds_restrict.path (fun _ _ _ _ hi hj ht hw ↦ hi.between hj ht hw) hi hj hw

theorem isInitialAt_indexOf_useful (hi : m.Useful i) :
    (m.restrict m.useful).isInitialAt (m.useful.indexOf i) = m.isInitialAt i :=
  isInitialAt_restrict lt_size_of_mem_useful (getElem?_indexOf_useful hi)

theorem isFinalAt_indexOf_useful (hi : m.Useful i) :
    (m.restrict m.useful).isFinalAt (m.useful.indexOf i) = m.isFinalAt i :=
  isFinalAt_restrict lt_size_of_mem_useful (getElem?_indexOf_useful hi)

theorem language_restrict : (m.restrict m.useful).language = m.language := by
  refine Language.ext fun w ↦ ?_
  rw [mem_language, mem_language]
  constructor
  · rintro ⟨k, hk, k', hw, hk'⟩
    obtain ⟨i, hi, rfl⟩ := exists_useful (lt_size_of_isInitialAt hk)
    obtain ⟨j, hj, rfl, hw'⟩ := embeds_restrict.exists_path hi hw
    rw [isInitialAt_indexOf_useful hi] at hk
    rw [isFinalAt_indexOf_useful hj] at hk'
    exact ⟨i, hk, j, hw', hk'⟩
  · rintro ⟨i, hi, j, hw, hj⟩
    obtain ⟨hiu, hju⟩ := useful_of_isInitialAt hi hw hj
    refine ⟨_, ?_, _, path_restrict hiu hju hw, ?_⟩
    · rwa [isInitialAt_indexOf_useful hiu]
    · rwa [isFinalAt_indexOf_useful hju]

theorem useful_restrict (hk : k < (m.restrict m.useful).size) : (m.restrict m.useful).Useful k := by
  obtain ⟨i, hi, rfl⟩ := exists_useful hk
  obtain ⟨w, i₀, hi₀, hw⟩ := hi.reached
  obtain ⟨v, j, hv, hj⟩ := hi.finishes
  have hinit := mem_initials.1 hi₀
  obtain ⟨hiu, hju⟩ := useful_of_isInitialAt hinit (hw.append hv) hj
  refine ⟨⟨w, m.useful.indexOf i₀, ?_, path_restrict hiu hi hw⟩, v, _, path_restrict hi hju hv, ?_⟩
  · rwa [mem_initials, isInitialAt_indexOf_useful hiu]
  · rwa [isFinalAt_indexOf_useful hju]

theorem language_trim : m.trim.language = m.language := by
  unfold trim
  dsimp only
  split
  · rfl
  · exact language_restrict

theorem useful_trim : ∀ i < m.trim.size, m.trim.Useful i := by
  unfold trim
  dsimp only
  split
  · rename_i h
    intro i hi
    exact useful_of_size_eq h hi
  · intro i hi
    exact useful_restrict hi

theorem Deterministic.trim (h : m.Deterministic) : m.trim.Deterministic := by
  unfold Automaton.trim
  dsimp only
  split
  · exact h
  · constructor
    · intro k k' hk hk'
      obtain ⟨i, hi, rfl⟩ := exists_useful (lt_size_of_isInitialAt hk)
      obtain ⟨j, hj, rfl⟩ := exists_useful (lt_size_of_isInitialAt hk')
      rw [isInitialAt_indexOf_useful hi] at hk
      rw [isInitialAt_indexOf_useful hj] at hk'
      rw [h.start i j hk hk']
    · intro k
      by_cases hk : k < (m.restrict m.useful).size
      · obtain ⟨i, hi, rfl⟩ := exists_useful hk
        exact (h.label i).sublist
          (labels_restrict lt_size_of_mem_useful (getElem?_indexOf_useful hi))
      · rw [transitionsFrom, Array.getElem?_eq_none (Nat.le_of_not_lt hk)]
        exact List.nodup_nil

theorem closed_restrict : (m.restrict m.useful).Closed := by
  rw [closed_iff]
  intro k t ht
  obtain ⟨i, hi, rfl⟩ := exists_useful (lt_size_of_mem ht)
  obtain ⟨j, hj, hk, -⟩ := (embeds_restrict i hi t.label t.target).1 ht
  rw [← hk]
  exact lt_size_restrict lt_size_of_mem_useful (getElem?_indexOf_useful hj)

theorem unentered_restrict (h : m.Unentered) : (m.restrict m.useful).Unentered := by
  intro k t ht
  obtain ⟨i, hi, rfl⟩ := exists_useful (lt_size_of_mem ht)
  obtain ⟨j, hj, hk, hl⟩ := (embeds_restrict i hi t.label t.target).1 ht
  rw [← hk, isInitialAt_indexOf_useful hj]
  exact h i _ hl

theorem closed_trim (hc : m.Closed) : m.trim.Closed := by
  unfold trim
  dsimp only
  split
  · exact hc
  · exact closed_restrict

theorem tidy_trim (hc : m.Closed) (hu : m.Unentered) : m.trim.Tidy := by
  refine ⟨closed_trim hc, useful_trim, ?_⟩
  unfold trim
  dsimp only
  split
  · exact hu
  · exact unentered_restrict hu

theorem checked_trim (hc : m.Closed) : Checked.trim m = .ok m.trim := by
  have hmissing : ¬ m.RestrictMissing m.useful := by
    rintro ⟨i, -, j, hj, hle⟩
    obtain ⟨l, hl⟩ := mem_successors.1 hj
    exact Nat.not_le_of_lt (closed_iff.1 hc i _ hl) hle
  unfold Checked.trim trim
  dsimp only
  rw [if_neg hmissing]
  split <;> rfl

theorem eq_trim_of_checked (h : Checked.trim m = .ok m') : m' = m.trim := by
  unfold Checked.trim at h
  dsimp only at h
  unfold trim
  dsimp only
  split at h
  · rename_i he
    rw [if_pos he]
    exact (Except.ok.inj h).symm
  · rename_i he
    split at h
    · cases h
    · rw [if_neg he]
      exact (Except.ok.inj h).symm

end RightPart.Automaton
