import Mathlib.Data.List.Induction
import Mathlib.Data.List.Nodup
import Mathlib.Data.List.Perm.Basic
import RightPart.Ordered.Map

namespace RightPart

universe u v w

section

variable {κ : Type u} {ν ν' : Type v} {β : Type w} [Ord κ] [Std.TransOrd κ]

theorem OrderedMap.entries_mapValues (f : ν → ν') (m : OrderedMap κ ν) :
    (m.mapValues f).entries = m.entries.map fun e ↦ (e.1, f e.2) := by
  change m.keySet.toList.zip (m.valueArray.map f).toList = _
  rw [Array.toList_map, List.zip_map_right]
  rfl

theorem OrderedMap.values_mapValues (f : ν → ν') (m : OrderedMap κ ν) :
    (m.mapValues f).values = m.values.map f := Array.toList_map

theorem OrderedMap.get?_mapValues (f : ν → ν') (m : OrderedMap κ ν) (k : κ) :
    (m.mapValues f).get? k = (m.get? k).map f := by
  unfold get? mapValues
  cases m.keySet.indexOf? k with
  | none => rfl
  | some i => exact Array.getElem?_map ..

theorem OrderedMap.entries_eq_map {m : OrderedMap κ ν} {f : κ → ν}
    (h : ∀ k ∈ m.keySet, m.get? k = some (f k)) : m.entries = m.keys.map fun k ↦ (k, f k) := by
  have hfst : m.keys.map (fun k ↦ (k, f k)) = m.entries.map fun e ↦ (e.1, f e.1) := by
    rw [← map_fst_entries, List.map_map]
    rfl
  rw [hfst, List.map_congr_left (g := id), List.map_id]
  intro e he
  have hsome := get?_eq_some.2 he
  rw [h e.1 (isSome_get?.1 (hsome ▸ rfl))] at hsome
  exact Prod.ext rfl (Option.some.inj hsome)

theorem OrderedMap.nodup_flatMap_entries {m : OrderedMap κ β} {f : β → List ν}
    (h : ∀ e ∈ m.entries, (f e.2).Nodup) :
    (m.entries.flatMap fun e ↦ (f e.2).map (e.1, ·)).Nodup := by
  have hkeys : (m.entries.map Prod.fst).Nodup := m.map_fst_entries ▸ m.keySet.nodup
  refine List.nodup_flatMap.2 ⟨fun e he ↦ ?_, ?_⟩
  · exact (h e he).map fun _ _ h ↦ (Prod.mk.inj h).2
  · refine (List.pairwise_map.1 hkeys).imp fun {e e'} h x hx hx' ↦ ?_
    obtain ⟨a, -, rfl⟩ := List.mem_map.1 hx
    obtain ⟨b, -, hb⟩ := List.mem_map.1 hx'
    exact h (Prod.mk.inj hb).1.symm

variable [Std.LawfulEqOrd κ]

theorem OrderedMap.keySet_foldl_alter {key : β → κ} {f : β → Option ν → ν} {l : List β}
    {m : OrderedMap κ ν} :
    (l.foldl (fun m b ↦ m.alter (key b) (f b)) m).keySet = m.keySet.extend (l.map key) := by
  induction l generalizing m with
  | nil => rfl
  | cons b l ih => rw [List.foldl_cons, ih, keySet_alter, List.map_cons, OrderedSet.extend_cons]

theorem OrderedSet.ofList_append (l l' : List κ) : ofList (l ++ l') = (ofList l).extend l' :=
  List.foldl_append

theorem eraseDups_concat {α : Type w} [BEq α] [LawfulBEq α] (l : List α) (a : α) :
    (l ++ [a]).eraseDups = if a ∈ l then l.eraseDups else l.eraseDups ++ [a] := by
  rw [List.eraseDups_append]
  by_cases ha : a ∈ l <;> simp [ha, List.removeAll, List.eraseDups_cons]

theorem eraseDups_map {α : Type u} {β : Type v} [BEq α] [LawfulBEq α] [BEq β] [LawfulBEq β]
    {f : α → β} (hf : Function.Injective f) (l : List α) :
    (l.map f).eraseDups = l.eraseDups.map f := by
  induction l using List.reverseRecOn with
  | nil => rfl
  | append_singleton l a ih =>
    rw [List.map_append, List.map_singleton, eraseDups_concat, eraseDups_concat, ih]
    simp only [List.mem_map_of_injective hf, apply_ite (List.map f), List.map_append,
      List.map_singleton]

theorem OrderedSet.toList_ofList [DecidableEq κ] (l : List κ) :
    (ofList l).toList = l.eraseDups := by
  induction l using List.reverseRecOn with
  | nil => rfl
  | append_singleton l k ih =>
    rw [ofList_append, extend_cons, extend_nil, toList_insert, ih, eraseDups_concat]
    simp

theorem nodup_eraseDups [DecidableEq κ] (l : List κ) : l.eraseDups.Nodup :=
  OrderedSet.toList_ofList l ▸ (OrderedSet.ofList l).nodup

end

section

variable {κ : Type u} {ν : Type v} {β : Type w} [DecidableEq κ]

def valuesAt (l : List (κ × ν)) (k : κ) : List ν := (l.filter (·.1 = k)).map Prod.snd

theorem mem_valuesAt {l : List (κ × ν)} {k : κ} {v : ν} : v ∈ valuesAt l k ↔ (k, v) ∈ l := by
  simp [valuesAt]

theorem length_valuesAt (l : List (κ × ν)) (k : κ) :
    (valuesAt l k).length = (l.map Prod.fst).count k := by
  rw [valuesAt, List.length_map, List.count_eq_countP, List.countP_map,
    List.countP_eq_length_filter]
  congr 2

theorem valuesAt_append (l l' : List (κ × ν)) (k : κ) :
    valuesAt (l ++ l') k = valuesAt l k ++ valuesAt l' k := by
  rw [valuesAt, List.filter_append, List.map_append]
  rfl

theorem valuesAt_eq_nil {l : List (κ × ν)} {k : κ} (h : k ∉ l.map Prod.fst) :
    valuesAt l k = [] := by
  rw [← List.length_eq_zero_iff, length_valuesAt, List.count_eq_zero]
  exact h

theorem valuesAt_flatMap (g : β → List (κ × ν)) (l : List β) (k : κ) :
    valuesAt (l.flatMap g) k = l.flatMap fun b ↦ valuesAt (g b) k := by
  rw [valuesAt, List.filter_flatMap, List.map_flatMap]
  rfl

theorem valuesAt_map_mk (vs : List ν) (k k' : κ) :
    valuesAt (vs.map (k', ·)) k = if k' = k then vs else [] := by
  split
  · subst k'
    simp [valuesAt, List.filter_map, Function.comp_def]
  · rename_i h
    refine valuesAt_eq_nil fun hk ↦ h ?_
    obtain ⟨e, he, rfl⟩ := List.mem_map.1 hk
    obtain ⟨v, -, rfl⟩ := List.mem_map.1 he
    rfl

/-- Every entry stands under its key, and no entry stands under two. -/
theorem perm_flatMap_valuesAt {l : List (κ × ν)} {ks : List κ} (hks : ks.Nodup)
    (h : ∀ e ∈ l, e.1 ∈ ks) : (ks.flatMap fun k ↦ (valuesAt l k).map (k, ·)).Perm l := by
  induction ks generalizing l with
  | nil => rw [List.eq_nil_iff_forall_not_mem.2 fun e he ↦ absurd (h e he) List.not_mem_nil]; rfl
  | cons k ks ih =>
    obtain ⟨hk, hks⟩ := List.nodup_cons.1 hks
    have hfirst : (valuesAt l k).map (k, ·) = l.filter (·.1 = k) := by
      rw [valuesAt, List.map_map]
      conv_rhs => rw [← List.map_id (l.filter _)]
      refine List.map_congr_left fun e he ↦ ?_
      have hek : e.1 = k := of_decide_eq_true (List.mem_filter.1 he).2
      exact Prod.ext hek.symm rfl
    have hrest : ks.flatMap (fun k' ↦ (valuesAt l k').map (k', ·)) =
        ks.flatMap fun k' ↦ (valuesAt (l.filter fun e ↦ !decide (e.1 = k)) k').map (k', ·) := by
      refine List.flatMap_congr fun k' hk' ↦ ?_
      have hne : k' ≠ k := fun e ↦ hk (e ▸ hk')
      rw [valuesAt, valuesAt, List.filter_filter]
      congr 2
      refine List.filter_congr fun e _ ↦ ?_
      by_cases he : e.1 = k' <;> simp [he, hne]
    rw [List.flatMap_cons, hfirst, hrest]
    refine ((ih hks ?_).append_left _).trans
      (List.filter_append_perm (fun e : κ × ν ↦ decide (e.1 = k)) l)
    intro e he
    obtain ⟨hel, hek⟩ := List.mem_filter.1 he
    exact (List.mem_cons.1 (h e hel)).resolve_left (by simpa using hek)

end

namespace OrderedMap

variable {κ : Type u} {ν : Type v} {β : Type w} [Ord κ] [Std.TransOrd κ] [DecidableEq κ]

theorem valuesAt_entries (m : OrderedMap κ ν) (k : κ) :
    valuesAt m.entries k = (m.get? k).toList := by
  cases hk : m.get? k with
  | none =>
    refine valuesAt_eq_nil fun hmem ↦ ?_
    have hsome := isSome_get?.2 (m.map_fst_entries ▸ hmem)
    rw [hk] at hsome
    cases hsome
  | some v =>
    have hv : v ∈ valuesAt m.entries k := mem_valuesAt.2 (get?_eq_some.1 hk)
    have hkeys : (m.entries.map Prod.fst).Nodup := m.map_fst_entries ▸ m.keySet.nodup
    have hone : (valuesAt m.entries k).length ≤ 1 := by
      rw [length_valuesAt]
      exact List.nodup_iff_count_le_one.1 hkeys k
    obtain ⟨w, hw⟩ := List.length_eq_one_iff.1 (Nat.le_antisymm hone (List.length_pos_of_mem hv))
    rw [hw, List.mem_singleton] at hv
    rw [hw, hv]
    rfl

theorem valuesAt_flatMap_entries (m : OrderedMap κ ν) (f : ν → List β) (k : κ) :
    valuesAt (m.entries.flatMap fun e ↦ (f e.2).map (e.1, ·)) k = (m.get? k).toList.flatMap f := by
  rw [valuesAt_flatMap, ← valuesAt_entries]
  simp only [valuesAt_map_mk]
  induction m.entries with
  | nil => rfl
  | cons e l ih => by_cases he : e.1 = k <;> simp_all [valuesAt]

variable [Std.LawfulEqOrd κ] {l : List (κ × ν)} {k : κ} {v : ν}

theorem get?_group (l : List (κ × ν)) (k : κ) : ((group l).get? k).getD [] = valuesAt l k := by
  have hfold : ∀ m : OrderedMap κ (List ν),
      ((l.foldl (fun m p ↦ m.alter p.1 fun vs ↦ p.2 :: vs.getD []) m).get? k).getD [] =
        (valuesAt l k).reverse ++ (m.get? k).getD [] := by
    unfold valuesAt
    induction l with
    | nil => simp
    | cons p l ih =>
      intro m
      rw [List.foldl_cons, ih, get?_alter]
      by_cases hk : k = p.1
      · simp [hk]
      · simp [hk, Ne.symm hk]
  have h := congrArg List.reverse (hfold ∅)
  rw [get?_empty, Option.getD_none, List.append_nil, List.reverse_reverse] at h
  rw [group, get?_mapValues, ← h]
  cases OrderedMap.get? _ k <;> rfl

theorem keys_group (l : List (κ × ν)) : (group l).keys = (l.map Prod.fst).eraseDups := by
  rw [← OrderedSet.toList_ofList]
  exact congrArg OrderedSet.toList keySet_foldl_alter

/-- Grouping gives each key once, in the order in which the keys first come, with all its values
in their order. -/
theorem entries_group (l : List (κ × ν)) :
    (group l).entries = (l.map Prod.fst).eraseDups.map fun k ↦ (k, valuesAt l k) := by
  rw [← keys_group]
  refine entries_eq_map fun k hk ↦ ?_
  obtain ⟨vs, hvs⟩ := Option.isSome_iff_exists.1 (isSome_get?.2 hk)
  rw [← get?_group, hvs, Option.getD_some]

theorem mem_entries_group {vs : List ν} :
    (k, vs) ∈ (group l).entries ↔ k ∈ l.map Prod.fst ∧ vs = valuesAt l k := by
  rw [entries_group, List.mem_map]
  constructor
  · intro h
    obtain ⟨k', hk, heq⟩ := h
    obtain ⟨rfl, rfl⟩ := Prod.mk.inj heq
    exact ⟨List.mem_eraseDups.1 hk, rfl⟩
  · intro h
    obtain ⟨hk, rfl⟩ := h
    exact ⟨k, List.mem_eraseDups.2 hk, rfl⟩

theorem mem_of_mem_group {vs : List ν} (h : (k, vs) ∈ (group l).entries) (hv : v ∈ vs) :
    (k, v) ∈ l :=
  mem_valuesAt.1 ((mem_entries_group.1 h).2 ▸ hv)

theorem exists_mem_group (h : (k, v) ∈ l) : ∃ v' vs, (k, v' :: vs) ∈ (group l).entries := by
  obtain ⟨v', vs, hvs⟩ := List.exists_cons_of_ne_nil (List.ne_nil_of_mem (mem_valuesAt.2 h))
  exact ⟨v', vs, mem_entries_group.2 ⟨List.mem_map_of_mem h, hvs.symm⟩⟩

theorem exists_of_mem_group {e : κ × List ν} (h : e ∈ (group l).entries) : ∃ v, (e.1, v) ∈ l := by
  obtain ⟨⟨k, v⟩, he, hk⟩ := List.mem_map.1 (mem_entries_group.1 h).1
  exact ⟨v, hk ▸ he⟩

end OrderedMap

end RightPart
