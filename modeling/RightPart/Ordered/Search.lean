import RightPart.Ordered.Set
import RightPart.Ordered.Sorted

namespace RightPart

universe u v

variable {α κ : Type u} {ν : Type v}

/-- A list of length `n` holds all values with `P`. -/
def AtMost (P : κ → Prop) (n : Nat) : Prop := ∃ u : List κ, u.length = n ∧ ∀ k, P k → k ∈ u

theorem atMost_mem (u : List κ) : AtMost (· ∈ u) u.length := ⟨u, rfl, fun _ ↦ id⟩

theorem length_le_of_nodup {l u : List κ} (hl : l.Nodup) (hu : ∀ k ∈ l, k ∈ u) :
    l.length ≤ u.length := by
  classical
  induction l generalizing u with
  | nil => exact Nat.zero_le _
  | cons a l ih =>
    have ha : a ∈ u := hu a List.mem_cons_self
    have hl' := List.nodup_cons.1 hl
    have := ih (u := u.erase a) hl'.2 fun k hk ↦
      (List.mem_erase_of_ne fun e : k = a ↦ hl'.1 (e ▸ hk)).2 (hu k (List.mem_cons_of_mem _ hk))
    rw [List.length_erase_of_mem ha] at this
    have := List.length_pos_of_mem ha
    simp only [List.length_cons]
    omega

theorem AtMost.length_le {P : κ → Prop} {n : Nat} (h : AtMost P n) {l : List κ} (hl : l.Nodup)
    (hp : ∀ k ∈ l, P k) : l.length ≤ n := by
  obtain ⟨u, rfl, hu⟩ := h
  exact length_le_of_nodup hl fun k hk ↦ hu k (hp k hk)

theorem AtMost.mono {P Q : κ → Prop} {n : Nat} (h : AtMost P n) (hq : ∀ k, Q k → P k) :
    AtMost Q n := by
  obtain ⟨u, hn, hu⟩ := h
  exact ⟨u, hn, fun k hk ↦ hu k (hq k hk)⟩

theorem AtMost.map₂ {β : Type u} {P : κ → Prop} {Q : α → Prop} {n m : Nat} (f : κ → α → β)
    (hp : AtMost P n) (hq : AtMost Q m) :
    AtMost (fun b ↦ ∃ k a, P k ∧ Q a ∧ f k a = b) (n * m) := by
  obtain ⟨u, rfl, hu⟩ := hp
  obtain ⟨v, rfl, hv⟩ := hq
  refine ⟨u.flatMap fun k ↦ v.map (f k), ?_, fun b ⟨k, a, hk, ha, e⟩ ↦ ?_⟩
  · clear hu
    induction u with
    | nil => simp
    | cons a u ih => simp [ih, Nat.add_mul, Nat.add_comm]
  · exact List.mem_flatMap.2 ⟨k, hu _ hk, List.mem_map.2 ⟨a, hv _ ha, e⟩⟩

theorem atMost_ascending [Ord κ] [Std.LawfulEqOrd κ] [Std.TransOrd κ] (u : List κ) :
    AtMost (fun k : List κ ↦ Ascending k ∧ ∀ x ∈ k, x ∈ u) (Nat.pow 2 u.length) := by
  classical
  induction u with
  | nil =>
    refine ⟨[[]], rfl, fun k hk ↦
      List.mem_singleton.2 (List.eq_nil_iff_forall_not_mem.2 fun x hx ↦ ?_)⟩
    exact absurd (hk.2 x hx) List.not_mem_nil
  | cons a u ih =>
    obtain ⟨w, hw, hu⟩ := ih
    refine ⟨w ++ w.map (insertSorted a), by simp [hw, Nat.pow_succ, Nat.mul_two],
      fun k ⟨hk, hm⟩ ↦ ?_⟩
    rw [List.mem_append]
    by_cases ha : a ∈ k
    · refine .inr (List.mem_map.2 ⟨k.filter (· ≠ a), hu _ ⟨hk.sublist List.filter_sublist, ?_⟩, ?_⟩)
      · intro x hx
        have := List.mem_filter.1 hx
        exact (List.mem_cons.1 (hm x this.1)).resolve_left (by simpa using this.2)
      · refine (ascending_insertSorted a (hk.sublist List.filter_sublist)).eq_of_mem_iff hk
          fun x ↦ ?_
        by_cases hx : x = a <;> simp [hx, ha]
    · refine .inl
        (hu k ⟨hk, fun x hx ↦ (List.mem_cons.1 (hm x hx)).resolve_left fun e ↦ ha (e ▸ hx)⟩)

/-- What a search has found so far: nodes with different keys, all of which satisfy `P`. -/
structure Found [Ord κ] [Std.TransOrd κ] (key : ν → κ) (P : κ → Prop) where
  nodes : Array ν
  keys : OrderedSet κ
  keys_eq : keys.toList = nodes.toList.map key
  keys_mem : ∀ k ∈ keys, P k

namespace Found

variable [Ord κ] [Std.TransOrd κ] {key : ν → κ} {P : κ → Prop}

theorem size_le {n : Nat} (s : Found key P) (h : AtMost P n) : s.nodes.size ≤ n := by
  have := h.length_le s.keys.nodup s.keys_mem
  rwa [s.keys_eq, List.length_map, Array.length_toList] at this

theorem key_mem (s : Found key P) {i : Nat} (h : i < s.nodes.size) : P (key s.nodes[i]) := by
  refine s.keys_mem _ ?_
  rw [OrderedSet.mem_def, s.keys_eq]
  exact List.mem_map_of_mem (Array.getElem_mem_toList h)

def indexOf (s : Found key P) (k : κ) : Nat := s.keys.indexOf k

def empty : Found key P := ⟨#[], ∅, rfl, nofun⟩

variable [Std.LawfulEqOrd κ]

def add (s : Found key P) (x : ν) (hx : P (key x)) : Found key P :=
  if h : key x ∈ s.keys then s
  else {
    nodes := s.nodes.push x
    keys := s.keys.insert (key x)
    keys_eq := by
      rw [OrderedSet.toList_insert, if_neg h, s.keys_eq, Array.toList_push, List.map_append]
      rfl
    keys_mem := fun k hk ↦ (OrderedSet.mem_insert.1 hk).elim (s.keys_mem k) (· ▸ hx) }

def addAll (s : Found key P) : (l : List ν) → (∀ x ∈ l, P (key x)) → Found key P
  | [], _ => s
  | x :: l, h =>
    (s.add x (h x List.mem_cons_self)).addAll l fun y hy ↦ h y (List.mem_cons_of_mem _ hy)

def ofList (l : List ν) (h : ∀ x ∈ l, P (key x)) : Found key P := empty.addAll l h

/-- Breadth-first search from the nodes found so far, of which the first `i` are done with. It ends
because no more than `bound` keys satisfy `P`. -/
def search (bound : Unit → Nat) (atMost : AtMost P (bound ())) (next : ν → List ν)
    (closed : ∀ x, P (key x) → ∀ y ∈ next x, P (key y)) (s : Found key P) (i : Nat) : Found key P :=
  if h : i < s.nodes.size then
    search bound atMost next closed (s.addAll (next s.nodes[i]) (closed _ (s.key_mem h))) (i + 1)
  else s
termination_by bound () - i
decreasing_by
  have := s.size_le atMost
  omega

end Found

/-- The members of `start` and all that `next` leads to from them, in breadth-first order. The list
`range` only bounds the search. -/
def OrderedSet.closure [Ord α] [Std.TransOrd α] [Std.LawfulEqOrd α] (next : α → List α)
    (range : Unit → List α) (h : ∀ x, ∀ y ∈ next x, y ∈ range ()) (start : OrderedSet α) :
    OrderedSet α :=
  let found : Found id (· ∈ start.toList ++ range ()) :=
    ⟨start.toArray, start, (List.map_id _).symm, fun _ hx ↦ List.mem_append_left _ hx⟩
  (found.search (fun _ ↦ (start.toList ++ range ()).length) (atMost_mem _) next
    (fun x _ y hy ↦ List.mem_append_right _ (h x y hy)) 0).keys

end RightPart
