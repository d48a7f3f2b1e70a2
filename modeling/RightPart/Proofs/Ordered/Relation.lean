import RightPart.Ordered.Relation
import RightPart.Proofs.Ordered.Search

namespace RightPart

universe u v

namespace Family

variable {κ : Type u} {α : Type v} [Ord κ] [Std.TransOrd κ] [Ord α] [Std.TransOrd α]

theorem members_of_mem_entries {f : Family κ α} {k : κ} {s : OrderedSet α}
    (h : (k, s) ∈ f.entries) : f.members k = s := by
  rw [members, OrderedMap.get?_eq_some.2 h, Option.getD_some]

theorem mem_entries_of_mem_members {f : Family κ α} {k : κ} {a : α} (h : a ∈ f.members k) :
    (k, f.members k) ∈ f.entries := by
  unfold members at h ⊢
  cases hk : f.get? k with
  | none => simp [hk] at h
  | some s => exact OrderedMap.get?_eq_some.1 hk

variable [Std.LawfulEqOrd κ] [Std.LawfulEqOrd α]

theorem mem_members_enlarge {f : Family κ α} {k k' : κ} {l : List α} {a : α} :
    a ∈ (f.enlarge k l).members k' ↔ a ∈ f.members k' ∨ k' = k ∧ a ∈ l := by
  unfold members enlarge
  by_cases h : k' = k
  · subst h
    simp [OrderedMap.get?_alter_self]
  · simp [OrderedMap.get?_alter_of_ne _ h, h]

theorem mem_members_foldl_enlarge {β : Type u} {key : β → κ} {values : β → List α} {l : List β}
    {f : Family κ α} {k : κ} {a : α} :
      a ∈ (l.foldl (fun f b ↦ f.enlarge (key b) (values b)) f).members k ↔
      a ∈ f.members k ∨ ∃ b ∈ l, key b = k ∧ a ∈ values b := by
  induction l generalizing f with
  | nil => simp
  | cons b l ih =>
    simp only [List.foldl_cons, ih, mem_members_enlarge, or_assoc, List.mem_cons, or_and_right,
      exists_or, exists_eq_left, eq_comm (a := k)]

theorem mem_members_gather {l : List (κ × α)} {k : κ} {a : α} :
    a ∈ (gather l).members k ↔ (k, a) ∈ l := by
  have hfold : ∀ f : Family κ α,
      a ∈ (l.foldl (fun f p ↦ f.enlarge p.1 [p.2]) f).members k ↔ a ∈ f.members k ∨ (k, a) ∈ l := by
    induction l with
    | nil => simp
    | cons p l ih =>
      intro f
      rw [List.foldl_cons, ih, mem_members_enlarge]
      simp [or_assoc, Prod.ext_iff]
  have he : a ∉ (∅ : Family κ α).members k := by simp [members]
  simpa [he, gather] using hfold ∅

theorem mem_of_mem_gather {l : List (κ × α)} {k : κ} {s : OrderedSet α}
    (h : (k, s) ∈ (gather l).entries) {a : α} : a ∈ s ↔ (k, a) ∈ l := by
  rw [← members_of_mem_entries h]
  exact mem_members_gather

theorem exists_mem_gather {l : List (κ × α)} {k : κ} {a : α} (h : (k, a) ∈ l) :
    ∃ s, (k, s) ∈ (gather l).entries ∧ a ∈ s :=
  ⟨_, mem_entries_of_mem_members (mem_members_gather.2 h), mem_members_gather.2 h⟩

theorem exists_mem_of_mem_gather {l : List (κ × α)} {k : κ} {s : OrderedSet α}
    (h : (k, s) ∈ (gather l).entries) : ∃ a, a ∈ s := by
  obtain ⟨⟨_, a⟩, ha, rfl⟩ := List.mem_map.1 (within_gather l _ h).1
  exact ⟨a, (mem_of_mem_gather h).2 ha⟩

end Family

namespace Relation

variable {α : Type u} {ρ : Type v} [Ord α] [Std.TransOrd α] [Ord ρ] [Std.TransOrd ρ]

theorem mem_pairs {f : Family ρ α} {l : ρ} {b : α} : (l, b) ∈ pairs f ↔ b ∈ f.members l := by
  unfold pairs
  simp only [List.mem_flatMap, List.mem_map, Prod.mk.injEq]
  constructor
  · intro h
    obtain ⟨⟨k, s⟩, he, b', hb, rfl, rfl⟩ := h
    rw [Family.members_of_mem_entries he]
    exact hb
  · intro h
    exact ⟨_, Family.mem_entries_of_mem_members h, b, h, rfl, rfl⟩

theorem image_eq (r : Relation α ρ) (a : α) (l : ρ) :
    r.image a l = ((r.edges.get? a).getD ∅).members l := by
  unfold image Family.members
  cases r.edges.get? a with
  | none => simp
  | some f => rfl

theorem mem_leaving {r : Relation α ρ} {a b : α} {l : ρ} :
    (l, b) ∈ r.leaving a ↔ b ∈ r.image a l := by
  rw [image_eq, ← mem_pairs]
  unfold leaving
  cases r.edges.get? a with
  | none => simp [pairs]
  | some f => rfl

theorem mem_successors {r : Relation α ρ} {a b : α} :
    b ∈ r.successors a ↔ ∃ l, b ∈ r.image a l := by
  unfold successors
  simp only [List.mem_map, Prod.exists, mem_leaving, exists_eq_right]

theorem mem_triples {r : Relation α ρ} {a b : α} {l : ρ} :
    (a, l, b) ∈ r.triples ↔ b ∈ r.image a l := by
  rw [image_eq, ← mem_pairs]
  unfold triples
  simp only [List.mem_flatMap, List.mem_map, Prod.exists, Prod.mk.injEq]
  constructor
  · intro h
    obtain ⟨a, f, he, l, b, h, rfl, rfl, rfl⟩ := h
    rwa [OrderedMap.get?_eq_some.2 he, Option.getD_some]
  · intro h
    cases hf : r.edges.get? a with
    | none => simp [hf, pairs] at h
    | some f =>
      rw [hf, Option.getD_some] at h
      exact ⟨a, f, OrderedMap.get?_eq_some.1 hf, l, b, h, rfl, rfl, rfl⟩

variable [Std.LawfulEqOrd α]

theorem mem_step {r : Relation α ρ} {l : List α} {b : α} :
    b ∈ r.step l ↔ ∃ a ∈ l, ∃ k, b ∈ r.image a k := by
  rw [step, OrderedSet.mem_ofList, List.mem_flatMap]
  simp only [mem_successors]

theorem mem_star {r : Relation α ρ} {l : List α} {b : α} :
    b ∈ r.star l ↔ ∃ a ∈ l, Relation.ReflTransGen (fun x y ↦ ∃ k, y ∈ r.image x k) a b := by
  rw [star, OrderedSet.mem_closure]
  simp only [OrderedSet.mem_ofList, mem_successors]

variable [Std.LawfulEqOrd ρ]

theorem mem_image_add {r : Relation α ρ} {a a' b b' : α} {l l' : ρ} :
    b' ∈ (r.add a l b).1.image a' l' ↔ b' ∈ r.image a' l' ∨ (a', l', b') = (a, l, b) := by
  unfold add
  split
  · rename_i h
    have hb : b ∈ r.image a l := by simpa [contains] using h
    refine ⟨.inl, fun h ↦ h.elim id fun e ↦ ?_⟩
    obtain ⟨rfl, rfl, rfl⟩ : a' = a ∧ l' = l ∧ b' = b := by simpa using e
    exact hb
  · simp only [image_eq]
    by_cases ha : a' = a
    · subst ha
      simp [OrderedMap.get?_alter_self, Family.mem_members_enlarge]
    · simp [OrderedMap.get?_alter_of_ne _ ha, ha]

theorem mem_image_extend {r : Relation α ρ} {t : List (α × ρ × α)} {a b : α} {l : ρ} :
    b ∈ (r.extend t).image a l ↔ b ∈ r.image a l ∨ (a, l, b) ∈ t := by
  induction t generalizing r with
  | nil => simp [extend]
  | cons e t ih =>
    change b ∈ ((r.add e.1 e.2.1 e.2.2).1.extend t).image a l ↔ _
    rw [ih, mem_image_add, List.mem_cons, or_assoc]

theorem mem_image_ofList {t : List (α × ρ × α)} {a b : α} {l : ρ} :
    b ∈ (ofList t).image a l ↔ (a, l, b) ∈ t := by
  have he : b ∉ (∅ : Relation α ρ).image a l := by
    change b ∉ (((∅ : OrderedMap α (Family ρ α)).get? a).bind (·.get? l)).getD ∅
    simp
  rw [ofList, mem_image_extend, or_iff_right he]

theorem mem_image_filtered {r : Relation α ρ} {p : ρ → Bool} {a b : α} {l : ρ} :
    b ∈ (r.filtered p).image a l ↔ b ∈ r.image a l ∧ p l := by
  rw [filtered, mem_image_ofList, List.mem_filter, mem_triples]

theorem mem_of_mem_partition {r : Relation α ρ} {l : List α} {k : ρ} {s : OrderedSet α}
    (h : (k, s) ∈ (r.partition l).entries) {b : α} : b ∈ s ↔ ∃ a ∈ l, b ∈ r.image a k := by
  rw [Family.mem_of_mem_gather h, List.mem_flatMap]
  simp only [mem_leaving]

theorem exists_mem_partition {r : Relation α ρ} {l : List α} {k : ρ} {a b : α} (ha : a ∈ l)
    (hb : b ∈ r.image a k) : ∃ s, (k, s) ∈ (r.partition l).entries ∧ b ∈ s :=
  Family.exists_mem_gather (List.mem_flatMap.2 ⟨a, ha, mem_leaving.2 hb⟩)

end Relation

end RightPart
