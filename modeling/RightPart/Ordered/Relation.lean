import RightPart.Ordered.Family

namespace RightPart

universe u v

/-- A finite set of triples `(source, relationship, target)`, grouped by source and then by
relationship, each group in the order in which it came in. -/
structure Relation (α : Type u) (ρ : Type v) [Ord α] [Std.TransOrd α] [Ord ρ] [Std.TransOrd ρ] where
  edges : OrderedMap α (Family ρ α)
  size : Nat

namespace Relation

variable {α : Type u} {ρ : Type v} [Ord α] [Std.TransOrd α] [Ord ρ] [Std.TransOrd ρ]

def empty : Relation α ρ := ⟨∅, 0⟩

instance : EmptyCollection (Relation α ρ) := ⟨empty⟩

instance : Inhabited (Relation α ρ) := ⟨∅⟩

def isEmpty (r : Relation α ρ) : Bool := r.size == 0

def pairs (f : Family ρ α) : List (ρ × α) := f.entries.flatMap fun e ↦ e.2.toList.map (e.1, ·)

def triples (r : Relation α ρ) : List (α × ρ × α) :=
  r.edges.entries.flatMap fun e ↦ (pairs e.2).map (e.1, ·)

def targets (r : Relation α ρ) : List α := r.triples.map (·.2.2)

def leaving (r : Relation α ρ) (a : α) : List (ρ × α) := ((r.edges.get? a).map pairs).getD []

def successors (r : Relation α ρ) (a : α) : List α := (r.leaving a).map Prod.snd

theorem successors_subset (r : Relation α ρ) (a : α) : ∀ b ∈ r.successors a, b ∈ r.targets := by
  intro b hb
  obtain ⟨p, hp, rfl⟩ := List.mem_map.1 hb
  unfold leaving at hp
  cases h : r.edges.get? a with
  | none => simp [h] at hp
  | some m =>
    rw [h] at hp
    refine List.mem_map.2 ⟨(a, p), List.mem_flatMap.2 ⟨(a, m), OrderedMap.get?_eq_some.1 h, ?_⟩,
      rfl⟩
    exact List.mem_map.2 ⟨p, hp, rfl⟩

def image (r : Relation α ρ) (a : α) (l : ρ) : OrderedSet α :=
  ((r.edges.get? a).bind (·.get? l)).getD ∅

def contains (r : Relation α ρ) (a : α) (l : ρ) (b : α) : Bool := b ∈ r.image a l

variable [Std.LawfulEqOrd α] [Std.LawfulEqOrd ρ]

/-- The flag tells whether the triple was absent. -/
def add (r : Relation α ρ) (a : α) (l : ρ) (b : α) : Relation α ρ × Bool :=
  if r.contains a l b then (r, false)
  else (⟨r.edges.alter a fun f ↦ (f.getD ∅).enlarge l [b], r.size + 1⟩, true)

def extend (r : Relation α ρ) (l : List (α × ρ × α)) : Relation α ρ :=
  l.foldl (fun r t ↦ (r.add t.1 t.2.1 t.2.2).1) r

def ofList (l : List (α × ρ × α)) : Relation α ρ := (∅ : Relation α ρ).extend l

def step (r : Relation α ρ) (l : List α) : OrderedSet α := .ofList (l.flatMap r.successors)

def stepOn (r : Relation α ρ) (l : List α) (rel : ρ) : OrderedSet α :=
  .ofList (l.flatMap fun a ↦ (r.image a rel).toList)

def star (r : Relation α ρ) (l : List α) : OrderedSet α :=
  (OrderedSet.ofList l).closure r.successors (fun _ ↦ r.targets) r.successors_subset

/-- The targets of the triples leaving the given values, grouped by relationship. -/
def partition (r : Relation α ρ) (l : List α) : Family ρ α := .gather (l.flatMap r.leaving)

theorem partition_subset (r : Relation α ρ) (l : List α) :
    ∀ e ∈ (r.partition l).entries, ∀ b ∈ e.2, b ∈ r.targets := by
  intro e he b hb
  obtain ⟨p, hp, rfl⟩ := List.mem_map.1 ((Family.within_gather _ e he).2 b hb)
  obtain ⟨a, -, hp⟩ := List.mem_flatMap.1 hp
  exact r.successors_subset a _ (List.mem_map.2 ⟨p, hp, rfl⟩)

def inverted (r : Relation α ρ) : Relation α ρ :=
  .ofList (r.triples.map fun t ↦ (t.2.2, t.2.1, t.1))

def filtered (r : Relation α ρ) (p : ρ → Bool) : Relation α ρ :=
  .ofList (r.triples.filter (p ·.2.1))

end Relation

end RightPart
