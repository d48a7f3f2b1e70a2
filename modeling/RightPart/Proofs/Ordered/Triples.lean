import RightPart.Proofs.Ordered.Saturate

namespace RightPart

universe u v

namespace Family

variable {κ : Type u} {α : Type v} [Ord κ] [Std.TransOrd κ] [Ord α] [Std.TransOrd α]
  [Std.LawfulEqOrd κ] [Std.LawfulEqOrd α]

theorem gather_concat (l : List (κ × α)) (p : κ × α) :
    gather (l ++ [p]) = (gather l).enlarge p.1 [p.2] :=
  List.foldl_concat ..

variable [DecidableEq κ]

theorem members_gather (l : List (κ × α)) (k : κ) :
    (gather l).members k = .ofList (valuesAt l k) := by
  induction l using List.reverseRecOn with
  | nil => simp [gather, members, valuesAt, OrderedSet.ofList]
  | append_singleton l p ih =>
    rw [gather_concat, members_enlarge, Function.update_apply, valuesAt_append,
      OrderedSet.ofList_append, ← ih]
    by_cases hk : k = p.1
    · subst hk
      simp [valuesAt]
    · simp [valuesAt, hk, Ne.symm hk]

theorem keys_gather (l : List (κ × α)) : (gather l).keys = (l.map Prod.fst).eraseDups := by
  rw [← OrderedSet.toList_ofList]
  exact congrArg OrderedSet.toList OrderedMap.keySet_foldl_alter

theorem entries_gather (l : List (κ × α)) :
    (gather l).entries = (l.map Prod.fst).eraseDups.map fun k ↦ (k, .ofList (valuesAt l k)) := by
  rw [← keys_gather]
  refine OrderedMap.entries_eq_map fun k hk ↦ ?_
  obtain ⟨s, hs⟩ := Option.isSome_iff_exists.1 (OrderedMap.isSome_get?.2 hk)
  rw [← members_gather, members, hs, Option.getD_some]

end Family

namespace Relation

variable {α : Type u} {ρ : Type v} [Ord α] [Std.TransOrd α] [Ord ρ] [Std.TransOrd ρ]
  {r : Relation α ρ} {a b : α} {k : ρ} {l : List α} {t : α × ρ × α}

theorem nodup_triples (r : Relation α ρ) : r.triples.Nodup :=
  OrderedMap.nodup_flatMap_entries fun e _ ↦ Family.nodup_pairs e.2

/-- The size that is kept beside the triples is their number. -/
def Counted (r : Relation α ρ) : Prop := r.size = r.triples.length

theorem counted_empty : (∅ : Relation α ρ).Counted := rfl

theorem contains_iff : r.contains a k b ↔ (a, k, b) ∈ r.triples := by
  rw [contains, decide_eq_true_eq, mem_triples]

theorem leaving_eq [DecidableEq α] (r : Relation α ρ) (a : α) :
    r.leaving a = valuesAt r.triples a := by
  rw [triples, OrderedMap.valuesAt_flatMap_entries, leaving]
  cases r.edges.get? a <;> simp

theorem valuesAt_pairs [DecidableEq ρ] (f : Family ρ α) (k : ρ) :
    valuesAt (pairs f) k = (f.members k).toList := by
  rw [pairs, OrderedMap.valuesAt_flatMap_entries, Family.members]
  cases f.get? k <;> simp

theorem valuesAt_leaving [DecidableEq ρ] (r : Relation α ρ) (a : α) (k : ρ) :
    valuesAt (r.leaving a) k = (r.image a k).toList := by
  rw [image_eq, ← valuesAt_pairs, leaving]
  cases r.edges.get? a <;> rfl

variable [Std.LawfulEqOrd α]

theorem mem_stepOn : b ∈ r.stepOn l k ↔ ∃ a ∈ l, (a, k, b) ∈ r.triples := by
  rw [stepOn, OrderedSet.mem_ofList, List.mem_flatMap]
  simp only [mem_triples]
  rfl

variable [Std.LawfulEqOrd ρ]

/-- Grouped by relationship, the targets are in the order in which one step along it gives them. -/
theorem entries_partition [DecidableEq ρ] (r : Relation α ρ) (l : List α) :
    (r.partition l).entries =
      ((l.flatMap r.leaving).map Prod.fst).eraseDups.map fun k ↦ (k, r.stepOn l k) := by
  rw [partition, Family.entries_gather]
  simp only [valuesAt_flatMap, valuesAt_leaving]
  rfl

theorem mem_keys_partition : k ∈ (r.partition l).keys ↔ ∃ a ∈ l, ∃ b, (a, k, b) ∈ r.triples := by
  simp only [← OrderedMap.map_fst_entries, List.mem_map, mem_triples]
  constructor
  · intro h
    obtain ⟨⟨k, s⟩, he, rfl⟩ := h
    obtain ⟨b, hb⟩ := Family.exists_mem_of_mem_gather he
    obtain ⟨a, ha, hab⟩ := (mem_of_mem_partition he).1 hb
    exact ⟨a, ha, b, hab⟩
  · intro h
    obtain ⟨a, ha, b, hab⟩ := h
    obtain ⟨s, he, -⟩ := exists_mem_partition ha hab
    exact ⟨_, he, rfl⟩

theorem mem_step_iff_partition : b ∈ r.step l ↔ ∃ e ∈ (r.partition l).entries, b ∈ e.2 := by
  rw [mem_step]
  constructor
  · intro h
    obtain ⟨a, ha, k, hb⟩ := h
    obtain ⟨s, he, hs⟩ := exists_mem_partition ha hb
    exact ⟨_, he, hs⟩
  · intro h
    obtain ⟨⟨k, s⟩, he, hb⟩ := h
    obtain ⟨a, ha, hab⟩ := (mem_of_mem_partition he).1 hb
    exact ⟨a, ha, k, hab⟩

theorem add_eq_true_iff : (r.add a k b).2 = true ↔ (a, k, b) ∉ r.triples := by
  rw [← contains_iff, add]
  split <;> simp_all

theorem mem_triples_add : t ∈ (r.add a k b).1.triples ↔ t ∈ r.triples ∨ t = (a, k, b) := by
  rw [mem_triples, mem_triples, mem_image_add]

theorem mem_triples_extend {ts : List (α × ρ × α)} :
    t ∈ (r.extend ts).triples ↔ t ∈ r.triples ∨ t ∈ ts := by
  rw [mem_triples, mem_triples, mem_image_extend]

theorem mem_triples_ofList {ts : List (α × ρ × α)} : t ∈ (ofList ts).triples ↔ t ∈ ts := by
  rw [mem_triples, mem_image_ofList]

theorem mem_triples_inverted : (b, k, a) ∈ r.inverted.triples ↔ (a, k, b) ∈ r.triples := by
  rw [inverted, mem_triples_ofList, List.mem_map]
  constructor
  · intro h
    obtain ⟨⟨a, k, b⟩, ht, heq⟩ := h
    cases heq
    exact ht
  · intro h
    exact ⟨_, h, rfl⟩

theorem mem_triples_filtered {p : ρ → Bool} :
    (a, k, b) ∈ (r.filtered p).triples ↔ (a, k, b) ∈ r.triples ∧ p k := by
  rw [mem_triples, mem_image_filtered, mem_triples]

theorem Counted.add (h : r.Counted) (a : α) (k : ρ) (b : α) : (r.add a k b).1.Counted := by
  by_cases ht : (a, k, b) ∈ r.triples
  · rwa [Relation.add, if_pos (contains_iff.2 ht)]
  · have hperm : (r.add a k b).1.triples.Perm ((a, k, b) :: r.triples) := by
      refine (List.perm_ext_iff_of_nodup (nodup_triples _)
        (List.nodup_cons.2 ⟨ht, r.nodup_triples⟩)).2 fun t ↦ ?_
      rw [mem_triples_add, List.mem_cons, or_comm]
    rw [Counted, hperm.length_eq, List.length_cons, ← h, Relation.add,
      if_neg (mt contains_iff.1 ht)]

theorem Counted.extend (h : r.Counted) (ts : List (α × ρ × α)) : (r.extend ts).Counted :=
  List.foldlRecOn (motive := Counted) _ _ h fun _ h t _ ↦ h.add t.1 t.2.1 t.2.2

inductive Edit (α : Type u) (ρ : Type v)
  | add (a : α) (k : ρ) (b : α)
  | extend (ts : List (α × ρ × α))
  | invert
  | filter (p : ρ → Bool)

def edit (r : Relation α ρ) : Edit α ρ → Relation α ρ
  | .add a k b => (r.add a k b).1
  | .extend ts => r.extend ts
  | .invert => r.inverted
  | .filter p => r.filtered p

def ofEdits (edits : List (Edit α ρ)) : Relation α ρ := edits.foldl edit ∅

theorem Counted.edit (h : r.Counted) (e : Edit α ρ) : (r.edit e).Counted := by
  cases e with
  | add a k b => exact h.add a k b
  | extend ts => exact h.extend ts
  | invert => exact counted_empty.extend _
  | filter p => exact counted_empty.extend _

theorem counted_ofEdits (edits : List (Edit α ρ)) : (ofEdits edits).Counted :=
  List.foldlRecOn (motive := Counted) _ _ counted_empty fun _ h e _ ↦ h.edit e

/-- However a relation has come about, it is a set of triples, each of which is listed once, counted
once, and found from its source. Grouping what leaves some values gives for each relationship on the
way what one step along it gives, in the same order. -/
theorem triples_ofEdits [DecidableEq α] [DecidableEq ρ] {edits : List (Edit α ρ)}
    (h : ofEdits edits = r) :
    r.size = r.triples.length ∧ r.triples.Nodup ∧
      (∀ a, r.leaving a = valuesAt r.triples a ∧ ∀ k b, r.contains a k b ↔ (a, k, b) ∈ r.triples) ∧
      (∀ a k b, ((r.add a k b).2 = true ↔ (a, k, b) ∉ r.triples) ∧
        ∀ t, t ∈ (r.add a k b).1.triples ↔ t ∈ r.triples ∨ t = (a, k, b)) ∧
      (∀ ts t, t ∈ (r.extend ts).triples ↔ t ∈ r.triples ∨ t ∈ ts) ∧
      (∀ a k b, (b, k, a) ∈ r.inverted.triples ↔ (a, k, b) ∈ r.triples) ∧
      (∀ p a k b, (a, k, b) ∈ (r.filtered p).triples ↔ (a, k, b) ∈ r.triples ∧ p k) ∧
      ∀ l, (r.partition l).entries =
          ((l.flatMap r.leaving).map Prod.fst).eraseDups.map (fun k ↦ (k, r.stepOn l k)) ∧
        (∀ k, k ∈ (r.partition l).keys ↔ ∃ a ∈ l, ∃ b, (a, k, b) ∈ r.triples) ∧
        (∀ k b, b ∈ r.stepOn l k ↔ ∃ a ∈ l, (a, k, b) ∈ r.triples) ∧
        ∀ b, b ∈ r.step l ↔ ∃ e ∈ (r.partition l).entries, b ∈ e.2 := by
  have hcounted : r.Counted := h ▸ counted_ofEdits edits
  exact ⟨hcounted, r.nodup_triples, fun a ↦ ⟨r.leaving_eq a, fun _ _ ↦ contains_iff⟩,
    fun _ _ _ ↦ ⟨add_eq_true_iff, fun _ ↦ mem_triples_add⟩, fun _ _ ↦ mem_triples_extend,
    fun _ _ _ ↦ mem_triples_inverted, fun _ _ _ _ ↦ mem_triples_filtered,
    fun l ↦ ⟨r.entries_partition l, fun _ ↦ mem_keys_partition, fun _ _ ↦ mem_stepOn,
      fun _ ↦ mem_step_iff_partition⟩⟩

namespace Circle

def edits : List (Edit Nat Char) :=
  [.extend [(1, 'a', 2), (2, 'b', 3), (3, 'a', 1), (3, 'c', 4), (5, 'a', 6)], .add 1 'a' 2, .invert,
    .add 3 'd' 3, .invert, .filter (· ≠ 'c')]

theorem triples_ofEdits_circle :
    (ofEdits edits).triples = [(1, 'a', 2), (2, 'b', 3), (3, 'd', 3), (3, 'a', 1), (5, 'a', 6)] ∧
      (ofEdits edits).size = 5 ∧ (ofEdits edits).leaving 3 = [('d', 3), ('a', 1)] ∧
      ((ofEdits edits).add 5 'a' 6).2 = false ∧
      ((ofEdits edits).partition [1, 3, 1]).entries =
        [('a', .ofList [2, 1]), ('d', .ofList [3])] := by
  have htriples : (ofEdits edits).triples =
      [(1, 'a', 2), (2, 'b', 3), (3, 'd', 3), (3, 'a', 1), (5, 'a', 6)] := by decide +kernel
  obtain ⟨hsize, -, hleaving, hadd, -, -, -, hpartition⟩ := triples_ofEdits (r := ofEdits edits) rfl
  have hthree : (ofEdits edits).leaving 3 = [('d', 3), ('a', 1)] := by
    rw [(hleaving 3).1, htriples]
    rfl
  have hold : ((ofEdits edits).add 5 'a' 6).2 ≠ true :=
    fun h ↦ (hadd 5 'a' 6).1.1 h (by simp [htriples])
  refine ⟨htriples, by rw [hsize, htriples]; rfl, hthree, Bool.eq_false_iff.2 hold, ?_⟩
  rw [(hpartition _).1]
  decide +kernel

end Circle

end Relation

end RightPart
