import Mathlib.Logic.Relation
import RightPart.Ordered.Search

namespace RightPart

universe u v

variable {α κ : Type u} {ν : Type v}

theorem OrderedSet.getElem?_indexOf [Ord α] [Std.TransOrd α] {s : OrderedSet α} {a : α}
    (h : a ∈ s) : s.toList[s.indexOf a]? = some a := by
  obtain ⟨i, hi⟩ := Option.isSome_iff_exists.1 (isSome_indexOf?.2 h)
  rw [indexOf, hi, Option.getD_some]
  exact indexOf?_eq_some.1 hi

theorem OrderedSet.indexOf_eq [Ord α] [Std.TransOrd α] {s : OrderedSet α} {a : α} {i : Nat}
    (h : s.toList[i]? = some a) : s.indexOf a = i := by
  rw [indexOf, indexOf?_eq_some.2 h, Option.getD_some]

namespace Found

variable [Ord κ] [Std.TransOrd κ] {key : ν → κ} {P : κ → Prop}

theorem mem_keys {s : Found key P} {k : κ} : k ∈ s.keys ↔ ∃ x ∈ s.nodes.toList, key x = k := by
  rw [OrderedSet.mem_def, s.keys_eq, List.mem_map]

theorem key_mem_keys {s : Found key P} {x : ν} (h : x ∈ s.nodes.toList) : key x ∈ s.keys :=
  mem_keys.2 ⟨x, h, rfl⟩

theorem getElem?_indexOf {s : Found key P} {k : κ} (h : k ∈ s.keys) :
    ∃ x, s.nodes[s.indexOf k]? = some x ∧ key x = k := by
  have hk := OrderedSet.getElem?_indexOf h
  rw [s.keys_eq, List.getElem?_map, Option.map_eq_some_iff] at hk
  obtain ⟨x, hx, hk⟩ := hk
  exact ⟨x, by rwa [← Array.getElem?_toList], hk⟩

theorem indexOf_key {s : Found key P} {i : Nat} {x : ν} (h : s.nodes[i]? = some x) :
    s.indexOf (key x) = i :=
  OrderedSet.indexOf_eq (by rw [s.keys_eq, List.getElem?_map, Array.getElem?_toList, h,
    Option.map_some])

theorem getElem?_extended {s t : Found key P} (h : s.nodes.toList <+: t.nodes.toList)
    {i : Nat} {x : ν} (hx : s.nodes[i]? = some x) : t.nodes[i]? = some x := by
  obtain ⟨r, hr⟩ := h
  rw [← Array.getElem?_toList] at hx ⊢
  rw [← hr, List.getElem?_append_left (List.getElem?_eq_some_iff.1 hx).1, hx]

theorem indexOf_extended {s t : Found key P} (h : s.nodes.toList <+: t.nodes.toList) {k : κ}
    (hk : k ∈ s.keys) : t.indexOf k = s.indexOf k := by
  obtain ⟨x, hx, rfl⟩ := getElem?_indexOf hk
  exact indexOf_key (getElem?_extended h hx)

theorem mem_keys_extended {s t : Found key P} (h : s.nodes.toList <+: t.nodes.toList) {k : κ}
    (hk : k ∈ s.keys) : k ∈ t.keys := by
  obtain ⟨x, hx, rfl⟩ := mem_keys.1 hk
  exact key_mem_keys (h.subset hx)

variable [Std.LawfulEqOrd κ]

theorem prefix_add (s : Found key P) (x : ν) (hx : P (key x)) :
    s.nodes.toList <+: (s.add x hx).nodes.toList := by
  unfold add
  split
  · exact List.prefix_rfl
  · simp

theorem add_of_mem {s : Found key P} {x : ν} (hx : P (key x)) (h : key x ∈ s.keys) :
    s.add x hx = s :=
  dif_pos h

theorem nodes_add_of_not_mem {s : Found key P} {x : ν} (hx : P (key x)) (h : key x ∉ s.keys) :
    (s.add x hx).nodes = s.nodes.push x := by
  rw [add, dif_neg h]

theorem mem_keys_add (s : Found key P) (x : ν) (hx : P (key x)) : key x ∈ (s.add x hx).keys := by
  unfold add
  split
  · assumption
  · simp

theorem mem_add {s : Found key P} {x y : ν} {hx : P (key x)} (h : y ∈ (s.add x hx).nodes.toList) :
    y ∈ s.nodes.toList ∨ y = x := by
  unfold add at h
  split at h
  · exact .inl h
  · simpa using h

theorem prefix_addAll (s : Found key P) (l : List ν) (hl : ∀ x ∈ l, P (key x)) :
    s.nodes.toList <+: (s.addAll l hl).nodes.toList := by
  induction l generalizing s with
  | nil => exact List.prefix_rfl
  | cons x l ih => exact (s.prefix_add x _).trans (ih _ _)

theorem mem_keys_addAll (s : Found key P) (l : List ν) (hl : ∀ x ∈ l, P (key x)) :
    ∀ x ∈ l, key x ∈ (s.addAll l hl).keys := by
  induction l generalizing s with
  | nil => simp
  | cons x l ih =>
    intro y hy
    rcases List.mem_cons.1 hy with rfl | hy
    · have hk := s.mem_keys_add y (hl y List.mem_cons_self)
      exact mem_keys_extended (prefix_addAll _ l fun z hz ↦ hl z (List.mem_cons_of_mem _ hz)) hk
    · exact ih _ _ y hy

theorem mem_addAll {s : Found key P} {l : List ν} {hl : ∀ x ∈ l, P (key x)} {y : ν}
    (h : y ∈ (s.addAll l hl).nodes.toList) : y ∈ s.nodes.toList ∨ y ∈ l := by
  induction l generalizing s with
  | nil => exact .inl h
  | cons x l ih =>
    rcases ih h with h | h
    · rcases mem_add h with h | rfl
      · exact .inl h
      · exact .inr List.mem_cons_self
    · exact .inr (List.mem_cons_of_mem _ h)

theorem mem_ofList {l : List ν} {hl : ∀ x ∈ l, P (key x)} {y : ν}
    (h : y ∈ (ofList l hl).nodes.toList) : y ∈ l :=
  (mem_addAll h).resolve_left (by simp [empty])

theorem getElem?_ofList_zero {l : List ν} {hl : ∀ x ∈ l, P (key x)} {x : ν} (h : l.head? = some x) :
    (ofList l hl).nodes[0]? = some x := by
  cases l with
  | nil => cases h
  | cons y l =>
    obtain rfl := Option.some.inj h
    have hadd : (empty.add y (hl y List.mem_cons_self)).nodes.toList = [y] := by
      simp [empty, add]
    obtain ⟨r, hr⟩ := prefix_addAll (empty.add y (hl y List.mem_cons_self)) l
      fun z hz ↦ hl z (List.mem_cons_of_mem _ hz)
    rw [← Array.getElem?_toList]
    change (addAll _ l _).nodes.toList[0]? = some y
    rw [← hr, hadd]
    rfl

variable {bound : Unit → Nat} {atMost : AtMost P (bound ())} {next : ν → List ν}
  {closed : ∀ x, P (key x) → ∀ y ∈ next x, P (key y)}

theorem prefix_search (s : Found key P) (i : Nat) :
    s.nodes.toList <+: (s.search bound atMost next closed i).nodes.toList := by
  fun_induction search bound atMost next closed s i with
  | case1 s i h ih => exact (s.prefix_addAll _ _).trans ih
  | case2 s i h => exact List.prefix_rfl

theorem getElem?_search {s : Found key P} {i j : Nat} {x : ν} (h : s.nodes[j]? = some x) :
    (s.search bound atMost next closed i).nodes[j]? = some x :=
  getElem?_extended (prefix_search s i) h

theorem mem_keys_search {s : Found key P} {i : Nat} {k : κ} (h : k ∈ s.keys) :
    k ∈ (s.search bound atMost next closed i).keys :=
  mem_keys_extended (prefix_search s i) h

/-- A property of the first nodes that `next` keeps is one of all nodes. -/
theorem search_induction {Q : ν → Prop} {s : Found key P} (hs : ∀ x ∈ s.nodes.toList, Q x)
    (hnext : ∀ x, Q x → ∀ y ∈ next x, Q y) (i : Nat) :
    ∀ x ∈ (s.search bound atMost next closed i).nodes.toList, Q x := by
  fun_induction search bound atMost next closed s i with
  | case1 s i h ih =>
    refine ih fun x hx ↦ ?_
    rcases mem_addAll hx with hx | hx
    · exact hs x hx
    · exact hnext _ (hs _ (Array.getElem_mem_toList h)) x hx
  | case2 s i h => exact hs

theorem next_search_aux {s : Found key P} {i : Nat}
    (hs : ∀ x ∈ s.nodes.toList.take i, ∀ y ∈ next x, key y ∈ s.keys) :
    ∀ x ∈ (s.search bound atMost next closed i).nodes.toList,
      ∀ y ∈ next x, key y ∈ (s.search bound atMost next closed i).keys := by
  fun_induction search bound atMost next closed s i with
  | case1 s i h ih =>
    refine ih fun x hx y hy ↦ ?_
    obtain ⟨t, ht⟩ := s.prefix_addAll (next s.nodes[i]) (closed _ (s.key_mem h))
    have hlen : i < s.nodes.toList.length := by simpa using h
    rw [← ht, List.take_append_of_le_length hlen, List.take_add_one, List.mem_append] at hx
    rcases hx with hx | hx
    · obtain ⟨z, hz, he⟩ := mem_keys.1 (hs x hx y hy)
      exact mem_keys.2 ⟨z, ht ▸ List.mem_append_left _ hz, he⟩
    · obtain rfl : x = s.nodes[i] := by simpa [Array.getElem?_eq_getElem h] using hx
      exact mem_keys_addAll _ _ _ y hy
  | case2 s i h =>
    have hi : s.nodes.toList.take i = s.nodes.toList := List.take_of_length_le (by simpa using h)
    exact hi ▸ hs

/-- The search ends when `next` leads to nothing new. -/
theorem next_search {s : Found key P} :
    ∀ x ∈ (s.search bound atMost next closed 0).nodes.toList,
      ∀ y ∈ next x, key y ∈ (s.search bound atMost next closed 0).keys :=
  next_search_aux (by simp)

end Found

namespace OrderedSet

variable [Ord α] [Std.TransOrd α] [Std.LawfulEqOrd α]

/-- The closure holds exactly what `next` leads to in any number of steps. -/
theorem mem_closure {next : α → List α} {range : Unit → List α}
    {h : ∀ x, ∀ y ∈ next x, y ∈ range ()} {start : OrderedSet α} {b : α} :
    b ∈ start.closure next range h ↔
      ∃ a ∈ start, Relation.ReflTransGen (fun x y ↦ y ∈ next x) a b := by
  constructor
  · intro hb
    obtain ⟨x, hx, rfl⟩ := Found.mem_keys.1 hb
    refine Found.search_induction
      (Q := fun b ↦ ∃ a ∈ start, Relation.ReflTransGen (fun x y ↦ y ∈ next x) a b) ?_ ?_ 0 x hx
    · intro a ha
      exact ⟨a, ha, .refl⟩
    · rintro x ⟨a, ha, hax⟩ y hy
      exact ⟨a, ha, hax.tail hy⟩
  · intro h
    obtain ⟨a, ha, hab⟩ := h
    induction hab with
    | refl => exact Found.mem_keys_search ha
    | tail _ hy ih =>
      obtain ⟨z, hz, rfl⟩ := Found.mem_keys.1 ih
      exact Found.next_search _ hz _ hy

theorem mem_closure_of_mem {next : α → List α} {range : Unit → List α}
    {h : ∀ x, ∀ y ∈ next x, y ∈ range ()} {start : OrderedSet α} {a : α} (ha : a ∈ start) :
    a ∈ start.closure next range h :=
  mem_closure.2 ⟨a, ha, .refl⟩

end OrderedSet

end RightPart
