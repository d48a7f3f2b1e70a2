import RightPart.Proofs.Ordered.Triples

namespace RightPart

universe u v

namespace Found

variable {κ : Type u} {ν : Type v} [Ord κ] [Std.TransOrd κ] {key : ν → κ} {P : κ → Prop}

theorem size_keys (s : Found key P) : s.keys.size = s.nodes.size := by
  rw [← OrderedSet.length_toList, s.keys_eq, List.length_map, Array.length_toList]

variable [Std.LawfulEqOrd κ]

theorem keys_add (s : Found key P) (x : ν) (hx : P (key x)) :
    (s.add x hx).keys = s.keys.insert (key x) := by
  unfold add
  split
  · exact (OrderedSet.insert_of_mem ‹_›).symm
  · rfl

theorem keys_addAll (s : Found key P) (l : List ν) (hl : ∀ x ∈ l, P (key x)) :
    (s.addAll l hl).keys = s.keys.extend (l.map key) := by
  induction l generalizing s with
  | nil => rfl
  | cons x l ih => rw [addAll, ih, keys_add, List.map_cons, OrderedSet.extend_cons]

end Found

variable {α : Type u} [Ord α] [Std.TransOrd α] [Std.LawfulEqOrd α]

theorem OrderedSet.prefix_extend (s : OrderedSet α) (l : List α) :
    s.toList <+: (s.extend l).toList := by
  induction l generalizing s with
  | nil => exact List.prefix_rfl
  | cons a l ih =>
    refine List.IsPrefix.trans ?_ (ih (s.insert a))
    rw [toList_insert]
    split
    · exact List.prefix_rfl
    · exact List.prefix_append ..

/-- The members of a list and all that they lead to along `R`, each once, and the members of the
list before all others. -/
structure IsClosure [DecidableEq α] (R : α → α → Prop) (l : List α) (s : OrderedSet α) : Prop where
  nodup : s.toList.Nodup
  first : l.eraseDups <+: s.toList
  mem_iff : ∀ b, b ∈ s ↔ ∃ a ∈ l, Relation.ReflTransGen R a b

/-- A set that grows while a loop goes through it, and the place that the loop has come to. -/
structure Sweep (α : Type u) [Ord α] [Std.TransOrd α] where
  found : OrderedSet α
  place : Nat

namespace Sweep

variable {next : α → List α}

def step (next : α → List α) (w : Sweep α) : Option (Sweep α) :=
  w.found.toList[w.place]?.map fun a ↦ ⟨w.found.extend (next a), w.place + 1⟩

inductive Runs (next : α → List α) : Nat → Sweep α → Sweep α → Prop
  | zero (w : Sweep α) : Runs next 0 w w
  | cons {n : Nat} {w w₁ w₂ : Sweep α} : w.step next = some w₁ → Runs next n w₁ w₂ →
      Runs next (n + 1) w w₂

/-- The loop that starts with the members of a list comes to an end with the set `s`, of which each
member had one round. -/
def Ends (next : α → List α) (l : List α) (s : OrderedSet α) : Prop :=
  ∃ w, Runs next s.size ⟨.ofList l, 0⟩ w ∧ w.step next = none ∧ w.found = s

theorem Runs.prefix_found {n : Nat} {w w' : Sweep α} (h : Runs next n w w') :
    w.found.toList <+: w'.found.toList := by
  induction h with
  | zero => exact List.prefix_rfl
  | cons hround _ ih =>
    obtain ⟨a, -, rfl⟩ := Option.map_eq_some_iff.1 hround
    exact (OrderedSet.prefix_extend _ _).trans ih

theorem Ends.prefix_found {l : List α} {s : OrderedSet α} (h : Ends next l s) :
    (OrderedSet.ofList l).toList <+: s.toList := by
  obtain ⟨w, hruns, -, rfl⟩ := h
  exact hruns.prefix_found

theorem step_keys {P : α → Prop} {s : Found id P} {i : Nat} (hi : i < s.nodes.size)
    (hl : ∀ x ∈ next s.nodes[i], P (id x)) :
    step next ⟨s.keys, i⟩ = some ⟨(s.addAll (next s.nodes[i]) hl).keys, i + 1⟩ := by
  rw [step, s.keys_eq, List.map_id, Array.getElem?_toList, Array.getElem?_eq_getElem hi,
    Option.map_some, Found.keys_addAll, List.map_id]

/-- The rounds of the loop are those of the search. -/
theorem runs_search {P : α → Prop} {bound : Unit → Nat} {atMost : AtMost P (bound ())}
    {closed : ∀ x, P (id x) → ∀ y ∈ next x, P (id y)} (s : Found id P) {i : Nat}
    (hi : i ≤ s.nodes.size) :
    ∃ n, i + n = (s.search bound atMost next closed i).keys.size ∧
      Runs next n ⟨s.keys, i⟩ ⟨(s.search bound atMost next closed i).keys, i + n⟩ := by
  fun_induction Found.search bound atMost next closed s i with
  | case1 s i hlt ih =>
    have hprefix := s.prefix_addAll (next s.nodes[i]) (closed _ (s.key_mem hlt))
    obtain ⟨n, hn, hruns⟩ := ih (Nat.lt_of_lt_of_le hlt hprefix.length_le)
    rw [Nat.add_right_comm] at hn hruns
    exact ⟨n + 1, hn, .cons (step_keys hlt _) hruns⟩
  | case2 s i hlt => exact ⟨0, by rw [s.size_keys]; omega, .zero _⟩

end Sweep

namespace OrderedSet

variable {next : α → List α} {range : Unit → List α} {h : ∀ x, ∀ y ∈ next x, y ∈ range ()}

theorem ends_closure (l : List α) : Sweep.Ends next l ((ofList l).closure next range h) := by
  obtain ⟨n, hn, hruns⟩ : ∃ n, 0 + n = ((ofList l).closure next range h).size ∧
      Sweep.Runs next n ⟨ofList l, 0⟩ ⟨(ofList l).closure next range h, 0 + n⟩ :=
    Sweep.runs_search _ (Nat.zero_le _)
  rw [Nat.zero_add] at hn hruns
  subst hn
  refine ⟨_, hruns, ?_, rfl⟩
  rw [Sweep.step, ← length_toList, List.getElem?_length, Option.map_none]

theorem isClosure_closure [DecidableEq α] (l : List α) :
    IsClosure (fun a b ↦ b ∈ next a) l ((ofList l).closure next range h) where
  nodup := nodup _
  first := toList_ofList l ▸ (ends_closure l).prefix_found
  mem_iff b := by simp only [mem_closure, mem_ofList]

end OrderedSet

namespace Relation

variable {ρ : Type v} [Ord ρ] [Std.TransOrd ρ]

theorem isClosure_star [DecidableEq α] (r : Relation α ρ) (l : List α) :
    IsClosure (fun a b ↦ ∃ k, (a, k, b) ∈ r.triples) l (r.star l) := by
  simp only [mem_triples, ← mem_successors]
  exact OrderedSet.isClosure_closure l

theorem mem_star_inverted [Std.LawfulEqOrd ρ] {r : Relation α ρ} {a b : α} :
    b ∈ r.star [a] ↔ a ∈ r.inverted.star [b] := by
  have hback : (fun x y ↦ ∃ k, y ∈ r.inverted.image x k) = Function.swap fun x y ↦
      ∃ k, y ∈ r.image x k := by
    funext x y
    simp only [Function.swap, ← mem_triples, mem_triples_inverted]
  rw [mem_star, mem_star, hback]
  simp only [List.mem_singleton, exists_eq_left]
  exact Relation.reflTransGen_swap.symm

end Relation

end RightPart
