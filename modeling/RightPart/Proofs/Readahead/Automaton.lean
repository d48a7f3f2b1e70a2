import Mathlib.Data.List.Nodup
import RightPart.Proofs.Readahead.Graph

namespace RightPart

namespace Grammar

abbrev automaton (g : Grammar) : ReadaheadAutomaton := g.readaheadAutomaton g.itemGraph

/-- One item calls for another: it stands before a nonterminal that the other begins. -/
def Calls (g : Grammar) (i j : Item) : Prop := ∃ l, j ∈ g.expansions.image i l

variable {g : Grammar}

theorem mem_labels_of_mem_steps {i j : Item} {l : Label} (h : j ∈ g.steps.image i l) :
    l ∈ g.labels := by
  obtain ⟨-, p, hp, ht⟩ := mem_steps.1 h
  exact mem_labels hp ht

theorem getElem?_nodes {n : Nat} {s : ReadaheadNode} (h : g.automaton.nodes[n]? = some s) :
    (g.kernels g.itemGraph).nodes[n]? = some s.kernel ∧ s.items = g.expansions.star s.kernel ∧
      s.exits = (g.kernelExits g.itemGraph s.kernel).map fun e ↦
        (e.1, (g.kernels g.itemGraph).indexOf e.2) := by
  simp only [automaton, readaheadAutomaton, Array.getElem?_map, Option.map_eq_some_iff] at h
  obtain ⟨k, hk, rfl⟩ := h
  exact ⟨hk, rfl, rfl⟩

theorem exists_node {k : List Item} (h : k ∈ (g.kernels g.itemGraph).keys) :
    ∃ s, g.automaton.nodes[(g.kernels g.itemGraph).indexOf k]? = some s ∧ s.kernel = k := by
  obtain ⟨k', hk, he⟩ := Found.getElem?_indexOf h
  obtain rfl : k' = k := he
  exact ⟨_, (Array.getElem?_map ..).trans (congrArg _ hk), rfl⟩

theorem exit_mem_keys {n : Nat} {s : ReadaheadNode} (h : g.automaton.nodes[n]? = some s)
    {e : Label × List Item} (he : e ∈ g.kernelExits g.itemGraph s.kernel) :
    e.2 ∈ (g.kernels g.itemGraph).keys := by
  have hs : s.kernel ∈ (g.kernels g.itemGraph).nodes.toList :=
    List.mem_of_getElem? ((Array.getElem?_toList ..).trans (getElem?_nodes h).1)
  exact Found.next_search _ hs _ (List.mem_map.2 ⟨e, he, rfl⟩)

theorem goalKernel_mem_keys {k : List Item} (h : k ∈ g.goalKernels) :
    k ∈ (g.kernels g.itemGraph).keys :=
  Found.mem_keys_search (Found.mem_keys_addAll _ _ _ _ h)

theorem holds_iff {n : Nat} {i : Item} :
    g.automaton.Holds n i ↔ ∃ k, g.automaton.Enters n k ∧ Relation.ReflTransGen g.Calls k i := by
  have hstar : ∀ {s : ReadaheadNode}, g.automaton.nodes[n]? = some s →
      (i ∈ s.items ↔ ∃ k ∈ s.kernel, Relation.ReflTransGen g.Calls k i) := fun hs ↦ by
    rw [(getElem?_nodes hs).2.1]
    exact Relation.mem_star
  constructor
  · intro h
    obtain ⟨s, hs, hi⟩ := h
    obtain ⟨k, hk, hki⟩ := (hstar hs).1 hi
    exact ⟨k, ⟨s, hs, hk⟩, hki⟩
  · intro h
    obtain ⟨k, ⟨s, hs, hk⟩, hki⟩ := h
    exact ⟨s, hs, (hstar hs).2 ⟨k, hk, hki⟩⟩

theorem holds_of_enters {n : Nat} {i : Item} (h : g.automaton.Enters n i) : g.automaton.Holds n i :=
  holds_iff.2 ⟨i, h, .refl⟩

theorem holds_of_calls {n : Nat} {i j : Item} (h : g.automaton.Holds n i) (hj : g.Calls i j) :
    g.automaton.Holds n j := by
  obtain ⟨k, hk, hki⟩ := holds_iff.1 h
  exact holds_iff.2 ⟨k, hk, hki.tail hj⟩

theorem enters_or_calls {n : Nat} {i : Item} (h : g.automaton.Holds n i) :
    g.automaton.Enters n i ∨ ∃ c, g.automaton.Holds n c ∧ g.Calls c i := by
  obtain ⟨k, hk, hki⟩ := holds_iff.1 h
  rcases Relation.ReflTransGen.cases_tail hki with rfl | ⟨c, hkc, hci⟩
  · exact .inl hk
  · exact .inr ⟨c, holds_iff.2 ⟨k, hk, hkc⟩, hci⟩

/-- A step enters exactly the items one transition after those that its source holds. -/
theorem enters_of_edge {n m : Nat} {l : Label} (h : g.automaton.Edge n l m) {j : Item} :
    g.automaton.Enters m j ↔ ∃ i, g.automaton.Holds n i ∧ j ∈ g.steps.image i l := by
  obtain ⟨s, hs, he⟩ := h
  obtain ⟨-, hitems, hexits⟩ := getElem?_nodes hs
  rw [hexits, List.mem_map] at he
  obtain ⟨e, he, hl⟩ := he
  obtain ⟨rfl, rfl⟩ := Prod.mk.inj hl
  obtain ⟨s', hs', hk⟩ := exists_node (exit_mem_keys hs he)
  have hj : j ∈ s'.kernel ↔ ∃ i ∈ s.items, j ∈ g.steps.image i e.1 := by
    rw [hk, hitems]
    exact mem_kernelExits he
  rw [ReadaheadAutomaton.enters_iff hs', hj]
  simp only [ReadaheadAutomaton.holds_iff hs]

theorem exists_edge {n : Nat} {i j : Item} {l : Label} (h : g.automaton.Holds n i)
    (hj : j ∈ g.steps.image i l) (hl : g.isStep l) : ∃ m, g.automaton.Edge n l m := by
  obtain ⟨s, hs, hi⟩ := h
  obtain ⟨-, hitems, hexits⟩ := getElem?_nodes hs
  obtain ⟨k, hk⟩ := exists_mem_kernelExits (hitems ▸ hi) hj hl
  exact ⟨_, s, hs, hexits ▸ List.mem_map.2 ⟨_, hk, rfl⟩⟩

theorem isStep_of_kind (hk : g.kind = .parser) (l : Label) : g.isStep l := by
  simp [isStep, hk, Kind.isScanner]

theorem exists_mem_steps_of_edge {n m : Nat} {l : Label} (h : g.automaton.Edge n l m) :
    ∃ i j, g.automaton.Holds n i ∧ j ∈ g.steps.image i l := by
  obtain ⟨s, hs, he⟩ := h
  obtain ⟨-, hitems, hexits⟩ := getElem?_nodes hs
  rw [hexits, List.mem_map] at he
  obtain ⟨e, he, hl⟩ := he
  obtain ⟨rfl, rfl⟩ := Prod.mk.inj hl
  obtain ⟨j, hj⟩ := exists_mem_of_mem_kernelExits he
  obtain ⟨i, hi, hij⟩ := (mem_kernelExits he).1 hj
  exact ⟨i, j, ⟨s, hs, hitems ▸ hi⟩, hij⟩

theorem mem_labels_of_edge {n m : Nat} {l : Label} (h : g.automaton.Edge n l m) : l ∈ g.labels := by
  obtain ⟨i, j, -, hij⟩ := exists_mem_steps_of_edge h
  exact mem_labels_of_mem_steps hij

theorem exists_node_of_edge {n m : Nat} {l : Label} (h : g.automaton.Edge n l m) :
    ∃ s, g.automaton.nodes[m]? = some s := by
  obtain ⟨s, hs, he⟩ := h
  rw [(getElem?_nodes hs).2.2, List.mem_map] at he
  obtain ⟨e, he, hl⟩ := he
  obtain ⟨rfl, rfl⟩ := Prod.mk.inj hl
  obtain ⟨s', hs', -⟩ := exists_node (exit_mem_keys hs he)
  exact ⟨s', hs'⟩

theorem enters_seed {n : Nat} {id : ProductionId} (h : (n, id) ∈ g.automaton.seeds) :
    ∃ p, (id, p) ∈ g.goals ∧
      ∀ i, g.automaton.Enters n i ↔ i.production = id ∧ p.body.isInitialAt i.state := by
  obtain ⟨⟨id', p⟩, hp, he⟩ := List.mem_map.1 h
  obtain ⟨rfl, rfl⟩ := Prod.mk.inj he
  have hm : sorted (initialItems id' p.body) ∈ g.goalKernels := List.mem_map.2 ⟨(id', p), hp, rfl⟩
  obtain ⟨s, hs, hk⟩ := exists_node (goalKernel_mem_keys hm)
  refine ⟨p, hp, fun i ↦ ?_⟩
  rw [ReadaheadAutomaton.enters_iff hs, hk, mem_sorted, mem_initialItems]

theorem exists_node_of_seed {n : Nat} {id : ProductionId} (h : (n, id) ∈ g.automaton.seeds) :
    ∃ s, g.automaton.nodes[n]? = some s := by
  obtain ⟨⟨id', p⟩, hp, he⟩ := List.mem_map.1 h
  obtain ⟨rfl, rfl⟩ := Prod.mk.inj he
  obtain ⟨s, hs, -⟩ := exists_node (goalKernel_mem_keys (List.mem_map.2 ⟨(id', p), hp, rfl⟩))
  exact ⟨s, hs⟩

/-- What holds of the seeds and is kept by every step holds of all states. -/
theorem node_induction {Q : Nat → Prop} (hseed : ∀ n id, (n, id) ∈ g.automaton.seeds → Q n)
    (hedge : ∀ n l m, Q n → g.automaton.Edge n l m → Q m) {n : Nat} {s : ReadaheadNode}
    (hs : g.automaton.nodes[n]? = some s) : Q n := by
  let found := g.kernels g.itemGraph
  have hall : ∀ k ∈ found.nodes.toList, k ∈ found.keys ∧ Q (found.indexOf k) := by
    refine Found.search_induction ?_ ?_ 0
    · intro k hk
      have hk := Found.mem_ofList hk
      refine ⟨goalKernel_mem_keys hk, ?_⟩
      obtain ⟨⟨id, p⟩, hp, rfl⟩ := List.mem_map.1 hk
      exact hseed _ id (List.mem_map.2 ⟨(id, p), hp, rfl⟩)
    · intro k hk k' hk'
      obtain ⟨hkeys, hq⟩ := hk
      obtain ⟨e, he, rfl⟩ := List.mem_map.1 hk'
      obtain ⟨s, hs, rfl⟩ := exists_node hkeys
      refine ⟨exit_mem_keys hs he, hedge _ e.1 _ hq ⟨s, hs, ?_⟩⟩
      rw [(getElem?_nodes hs).2.2]
      exact List.mem_map.2 ⟨e, he, rfl⟩
  have hk := (getElem?_nodes hs).1
  have hn : found.indexOf s.kernel = n := Found.indexOf_key hk
  exact hn ▸ (hall s.kernel (Array.mem_toList_iff.2 (Array.mem_of_getElem? hk))).2

theorem ascending_node {n : Nat} {s : ReadaheadNode} (hs : g.automaton.nodes[n]? = some s) :
    Ascending s.kernel :=
  ((g.kernels g.itemGraph).keys_mem _
    (Found.key_mem_keys (Array.mem_toList_iff.2 (Array.mem_of_getElem? (getElem?_nodes hs).1)))).1

theorem node_inj {n m : Nat} {s s' : ReadaheadNode} (hs : g.automaton.nodes[n]? = some s)
    (hs' : g.automaton.nodes[m]? = some s') (h : s.kernel = s'.kernel) : n = m := by
  have hn := Found.indexOf_key (getElem?_nodes hs).1
  have hm := Found.indexOf_key (getElem?_nodes hs').1
  rw [← hn, ← hm, h]

theorem nodup_exits {n : Nat} {s : ReadaheadNode} (hs : g.automaton.nodes[n]? = some s) :
    (s.exits.map Prod.fst).Nodup := by
  rw [(getElem?_nodes hs).2.2, kernelExits, List.map_map, List.map_map]
  have hkeys :
      (g.itemGraph.steps.partition (g.itemGraph.expansions.star s.kernel).toList).entries.map
      Prod.fst |>.Nodup := by
    rw [OrderedMap.map_fst_entries]
    exact OrderedSet.nodup _
  exact hkeys.sublist (List.filter_sublist.map Prod.fst)

theorem edge_unique {n m m' : Nat} {l : Label} (h : g.automaton.Edge n l m)
    (h' : g.automaton.Edge n l m') : m = m' := by
  obtain ⟨s, hs, he⟩ := h
  rw [ReadaheadAutomaton.edge_iff hs] at h'
  exact (Prod.mk.inj (List.inj_on_of_nodup_map (nodup_exits hs) he h' rfl)).2

theorem seed_of_mem_zip {n : Nat} {e : ProductionId × Production}
    (h : (e, n) ∈ g.goals.zip (g.automaton.seeds.map Prod.fst)) :
    e ∈ g.goals ∧ (n, e.1) ∈ g.automaton.seeds := by
  have hz : g.goals.zip (g.automaton.seeds.map Prod.fst) = g.goals.map fun e ↦
      (e, (g.kernels g.itemGraph).indexOf (sorted (initialItems e.1 e.2.body))) := by
    rw [← List.zip_map']
    simp [automaton, readaheadAutomaton, Function.comp_def]
  rw [hz, List.mem_map] at h
  obtain ⟨e', he, h⟩ := h
  obtain ⟨rfl, rfl⟩ := Prod.mk.inj h
  exact ⟨he, List.mem_map.2 ⟨e', he, rfl⟩⟩

end Grammar

end RightPart
