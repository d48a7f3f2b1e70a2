import RightPart.Proofs.Grammar.Derivation
import RightPart.Proofs.Ordered.Relation
import RightPart.Tables.Readahead

namespace RightPart

namespace Grammar

variable {g : Grammar}

theorem mem_initialItems {id : ProductionId} {m : Automaton} {i : Item} :
    i ∈ initialItems id m ↔ i.production = id ∧ m.isInitialAt i.state := by
  unfold initialItems
  rw [List.mem_map]
  constructor
  · intro h
    obtain ⟨k, hk, rfl⟩ := h
    exact ⟨rfl, Automaton.mem_initials.1 hk⟩
  · intro h
    obtain ⟨rfl, hi⟩ := h
    exact ⟨i.state, Automaton.mem_initials.2 hi, rfl⟩

theorem mem_steps {i j : Item} {l : Label} :
    j ∈ g.steps.image i l ↔ j.production = i.production ∧ ∃ p,
      g.productions.get? i.production = some p ∧ ⟨l, j.state⟩ ∈ p.body.transitionsFrom i.state := by
  obtain ⟨id, s⟩ := i
  obtain ⟨id', s'⟩ := j
  simp only [steps, Relation.mem_image_ofList, List.mem_flatMap, List.mem_map, Prod.exists,
    Prod.mk.injEq, Item.mk.injEq]
  constructor
  · intro h
    obtain ⟨id, p, hp, s, t, ht, ⟨rfl, rfl⟩, rfl, rfl, rfl⟩ := h
    exact ⟨rfl, p, OrderedMap.get?_eq_some.2 hp, Automaton.mem_transitions.1 ht⟩
  · intro h
    obtain ⟨rfl, p, hp, ht⟩ := h
    exact ⟨id', p, OrderedMap.get?_eq_some.1 hp, s, ⟨l, s'⟩, Automaton.mem_transitions.2 ht,
      ⟨rfl, rfl⟩, rfl, rfl, rfl⟩

theorem mem_expansions {i j : Item} {l : Label} :
    j ∈ g.expansions.image i l ↔ g.isNonterminalLabel l ∧ (∃ k, k ∈ g.steps.image i l) ∧
      ∃ q, g.productionFor? l.name = some (j.production, q) ∧ q.body.isInitialAt j.state := by
  simp only [expansions, Relation.mem_image_ofList, List.mem_flatMap, List.mem_filter, Prod.exists]
  constructor
  · intro h
    obtain ⟨id, p, hp, s, t, ⟨ht, hl⟩, h⟩ := h
    cases hq : g.productionFor? t.label.name with
    | none => simp [hq] at h
    | some e =>
      obtain ⟨k, hk, h⟩ := List.mem_map.1 (hq ▸ h)
      obtain ⟨rfl, rfl, rfl⟩ : i = ⟨id, s⟩ ∧ l = t.label ∧ j = k := by simpa [eq_comm] using h
      obtain ⟨he, hj⟩ := mem_initialItems.1 hk
      refine ⟨hl, ⟨⟨id, t.target⟩, mem_steps.2 ⟨rfl, p, ?_, ?_⟩⟩, e.2, he ▸ hq, hj⟩
      · exact OrderedMap.get?_eq_some.2 hp
      · exact Automaton.mem_transitions.1 ht
  · intro h
    obtain ⟨hl, ⟨k, hk⟩, q, hq, hj⟩ := h
    obtain ⟨-, p, hp, ht⟩ := mem_steps.1 hk
    refine ⟨i.production, p, OrderedMap.get?_eq_some.1 hp, i.state, ⟨l, k.state⟩,
      ⟨Automaton.mem_transitions.2 ht, hl⟩, ?_⟩
    rw [hq]
    exact List.mem_map.2 ⟨j, mem_initialItems.2 ⟨rfl, hj⟩, rfl⟩

theorem mem_kernelExits {kernel k : List Item} {l : Label}
    (h : (l, k) ∈ g.kernelExits g.itemGraph kernel) {j : Item} :
    j ∈ k ↔ ∃ i ∈ g.expansions.star kernel, j ∈ g.steps.image i l := by
  obtain ⟨e, he, h⟩ := List.mem_map.1 h
  obtain ⟨rfl, rfl⟩ : e.1 = l ∧ sorted e.2.toList = k := by simpa using h
  rw [mem_sorted]
  exact Relation.mem_of_mem_partition (List.mem_filter.1 he).1

theorem exists_mem_of_mem_kernelExits {kernel k : List Item} {l : Label}
    (h : (l, k) ∈ g.kernelExits g.itemGraph kernel) : ∃ j, j ∈ k := by
  obtain ⟨e, he, h⟩ := List.mem_map.1 h
  obtain ⟨-, rfl⟩ : e.1 = l ∧ sorted e.2.toList = k := by simpa using h
  obtain ⟨j, hj⟩ := Family.exists_mem_of_mem_gather (List.mem_filter.1 he).1
  exact ⟨j, mem_sorted.2 hj⟩

theorem isStep_of_mem_kernelExits {kernel k : List Item} {l : Label}
    (h : (l, k) ∈ g.kernelExits g.itemGraph kernel) : g.isStep l := by
  obtain ⟨e, he, h⟩ := List.mem_map.1 h
  obtain ⟨rfl, -⟩ : e.1 = l ∧ sorted e.2.toList = k := by simpa using h
  exact (List.mem_filter.1 he).2

theorem exists_mem_kernelExits {kernel : List Item} {i j : Item} {l : Label}
    (hi : i ∈ g.expansions.star kernel) (hj : j ∈ g.steps.image i l) (hl : g.isStep l) :
    ∃ k, (l, k) ∈ g.kernelExits g.itemGraph kernel := by
  obtain ⟨s, hs, -⟩ := Relation.exists_mem_partition hi hj
  exact ⟨sorted s.toList, List.mem_map.2 ⟨(l, s), List.mem_filter.2 ⟨hs, hl⟩, rfl⟩⟩

end Grammar

namespace ReadaheadAutomaton

def Edge (a : ReadaheadAutomaton) (n : Nat) (l : Label) (m : Nat) : Prop :=
  ∃ s, a.nodes[n]? = some s ∧ (l, m) ∈ s.exits

/-- The items that the last step into a state has entered. -/
def Enters (a : ReadaheadAutomaton) (n : Nat) (i : Item) : Prop :=
  ∃ s, a.nodes[n]? = some s ∧ i ∈ s.kernel

/-- The items in which a right part can be in a state. -/
def Holds (a : ReadaheadAutomaton) (n : Nat) (i : Item) : Prop :=
  ∃ s, a.nodes[n]? = some s ∧ i ∈ s.items

theorem edge_iff {a : ReadaheadAutomaton} {n m : Nat} {s : ReadaheadNode} {l : Label}
    (h : a.nodes[n]? = some s) : a.Edge n l m ↔ (l, m) ∈ s.exits := by
  simp [Edge, h]

theorem enters_iff {a : ReadaheadAutomaton} {n : Nat} {s : ReadaheadNode} {i : Item}
    (h : a.nodes[n]? = some s) : a.Enters n i ↔ i ∈ s.kernel := by
  simp [Enters, h]

theorem holds_iff {a : ReadaheadAutomaton} {n : Nat} {s : ReadaheadNode} {i : Item}
    (h : a.nodes[n]? = some s) : a.Holds n i ↔ i ∈ s.items := by
  simp [Holds, h]

theorem mem_edges {a : ReadaheadAutomaton} {n m : Nat} {l : Label} :
    (n, l, m) ∈ a.edges ↔ a.Edge n l m := by
  unfold edges Edge
  simp only [List.mem_flatMap, List.mem_map, Prod.exists, Prod.mk.injEq,
    List.mem_zipIdx_iff_getElem?, Array.getElem?_toList]
  constructor
  · intro h
    obtain ⟨s, n, hs, l, m, he, rfl, rfl, rfl⟩ := h
    exact ⟨s, hs, he⟩
  · intro h
    obtain ⟨s, hs, he⟩ := h
    exact ⟨s, n, hs, l, m, he, rfl, rfl, rfl⟩

theorem mem_stackable {a : ReadaheadAutomaton} {n : Nat} :
    n ∈ a.stackable ↔ (∃ e ∈ a.seeds, e.1 = n) ∨ ∃ m l, a.Edge m l n ∧ l.isRead := by
  unfold stackable
  simp only [OrderedSet.mem_ofList, List.mem_append, List.mem_map, List.mem_filter, Prod.exists,
    mem_edges]
  refine or_congr .rfl ⟨?_, ?_⟩
  · intro h
    obtain ⟨m, l, k, ⟨he, hl⟩, rfl⟩ := h
    exact ⟨m, l, he, hl⟩
  · intro h
    obtain ⟨m, l, he, hl⟩ := h
    exact ⟨m, l, n, ⟨he, hl⟩, rfl⟩

end ReadaheadAutomaton

end RightPart
