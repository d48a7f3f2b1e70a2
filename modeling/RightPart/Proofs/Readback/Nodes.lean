import RightPart.Proofs.Readback.Completion

namespace RightPart

abbrev Grammar.readbackNodes (g : Grammar) :=
  g.backGraph.nodes (g.readbackStarts g.automaton) (g.ascending_readbackStarts g.automaton)

/-- A readback state goes back over the right part of one nonterminal, which is no goal. -/
structure ReadbackNode.Reads (n : ReadbackNode) (g : Grammar) (id : ProductionId) (p : Production) :
    Prop where
  production : g.productions.get? id = some p
  not_goal : p.isGoal = false
  left : n.left = p.left
  nonempty : ∃ q, q ∈ n.kernel
  kernel : ∀ q ∈ n.kernel, q.item.production = id

namespace Grammar

variable {g : Grammar}

theorem trails_production {p q : Place} (h : Relation.ReflTransGen (Place.Trails g) p q) :
    q.item.production = p.item.production := by
  induction h with
  | refl => rfl
  | tail _ h ih => exact h.production.trans ih

theorem reads_closure {n : ReadbackNode} {id : ProductionId} {p : Production} (h : n.Reads g id p)
    {q : Place} (hq : q ∈ g.backGraph.closure n) : q.item.production = id := by
  obtain ⟨k, hk, hkq⟩ := mem_closure.1 hq
  exact (trails_production hkq).trans (h.kernel k hk)

theorem reads_exits {n m : ReadbackNode} {id : ProductionId} {p : Production} (h : n.Reads g id p)
    {e : StackEntry} (he : (e, m) ∈ g.backGraph.exits n) : m.Reads g id p := by
  refine ⟨h.production, h.not_goal, (left_of_mem_exits he).trans h.left,
    exists_mem_kernel_of_mem_exits he, fun q hq ↦ ?_⟩
  obtain ⟨i, hi, hf, -⟩ := (mem_kernel_of_mem_exits he).1 hq
  exact hf.production.trans (reads_closure h hi)

theorem reads_start (hg : g.Registered) {i : Nat} {s : ReadaheadNode}
    (hs : g.automaton.nodes[i]? = some s) {c : String × Production × OrderedSet Place}
    (hc : c ∈ g.completions i s) (hgoal : c.2.1.isGoal = false) :
    ∃ id, ReadbackNode.Reads ⟨c.1, sorted c.2.2.toList⟩ g id c.2.1 := by
  obtain ⟨id, hp, hl, hk, q, hq⟩ := of_mem_completions hg hs hc
  refine ⟨id, hp, hgoal, hl, ⟨q, mem_sorted.2 hq⟩, fun q hq ↦ ?_⟩
  exact ((hk q).1 (mem_sorted.1 hq)).2.2.1

theorem mem_readbackStarts {n : ReadbackNode} : n ∈ g.readbackStarts g.automaton ↔
    ∃ i s c, g.automaton.nodes[i]? = some s ∧ c ∈ g.completions i s ∧ c.2.1.isGoal = false ∧
      n = ⟨c.1, sorted c.2.2.toList⟩ := by
  unfold readbackStarts
  simp only [List.mem_flatMap, List.mem_map, List.mem_filter, Prod.exists,
    List.mem_zipIdx_iff_getElem?, Array.getElem?_toList, Bool.not_eq_true']
  constructor
  · intro h
    obtain ⟨s, i, hs, a, b, c, ⟨hc, hgoal⟩, rfl⟩ := h
    exact ⟨i, s, a, b, c, hs, hc, hgoal, rfl⟩
  · intro h
    obtain ⟨i, s, a, b, c, hs, hc, hgoal, rfl⟩ := h
    exact ⟨s, i, hs, a, b, c, ⟨hc, hgoal⟩, rfl⟩

theorem exists_reads (hg : g.Registered) {k : Nat} {n : ReadbackNode}
    (h : g.readbackNodes.nodes[k]? = some n) : ∃ id p, n.Reads g id p := by
  have hn : n ∈ g.readbackNodes.nodes.toList := Array.mem_toList_iff.2 (Array.mem_of_getElem? h)
  refine Found.search_induction (Q := fun n : ReadbackNode ↦ ∃ id p, n.Reads g id p) ?_ ?_ 0 n hn
  · intro m hm
    obtain ⟨i, s, c, hs, hc, hgoal, rfl⟩ := mem_readbackStarts.1 (Found.mem_ofList hm)
    obtain ⟨id, h⟩ := reads_start hg hs hc hgoal
    exact ⟨id, _, h⟩
  · intro m hm m' hm'
    obtain ⟨id, p, h⟩ := hm
    obtain ⟨e, he, rfl⟩ := List.mem_map.1 hm'
    exact ⟨id, p, reads_exits h he⟩

theorem holds_kernel (hg : g.Registered) {k : Nat} {n : ReadbackNode}
    (h : g.readbackNodes.nodes[k]? = some n) {q : Place} (hq : q ∈ n.kernel) :
    g.automaton.Holds q.readahead q.item := by
  have hn : n ∈ g.readbackNodes.nodes.toList := Array.mem_toList_iff.2 (Array.mem_of_getElem? h)
  refine Found.search_induction
    (Q := fun n : ReadbackNode ↦ ∀ q ∈ n.kernel, g.automaton.Holds q.readahead q.item) ?_ ?_ 0
      n hn q hq
  · intro m hm q hq
    obtain ⟨i, s, c, hs, hc, -, rfl⟩ := mem_readbackStarts.1 (Found.mem_ofList hm)
    obtain ⟨id, -, -, hk, -⟩ := of_mem_completions hg hs hc
    obtain ⟨hi, hholds, -⟩ := (hk q).1 (mem_sorted.1 hq)
    exact hi ▸ hholds
  · intro m _ m' hm' q hq
    obtain ⟨e, he, rfl⟩ := List.mem_map.1 hm'
    obtain ⟨i, -, hf, -⟩ := (mem_kernel_of_mem_exits he).1 hq
    exact hf.2.1

theorem holds_closure (hg : g.Registered) {k : Nat} {n : ReadbackNode}
    (h : g.readbackNodes.nodes[k]? = some n) {q : Place} (hq : q ∈ g.backGraph.closure n) :
    g.automaton.Holds q.readahead q.item := by
  obtain ⟨p, hp, hpq⟩ := mem_closure.1 hq
  exact holds_of_trails hpq (holds_kernel hg h hp)

theorem start_mem_keys {i : Nat} {s : ReadaheadNode} (hs : g.automaton.nodes[i]? = some s)
    {c : String × Production × OrderedSet Place} (hc : c ∈ g.completions i s)
    (hgoal : c.2.1.isGoal = false) : sorted c.2.2.toList ∈ g.readbackNodes.keys := by
  have hm := mem_readbackStarts.2 ⟨i, s, c, hs, hc, hgoal, rfl⟩
  exact Found.mem_keys_search (Found.mem_keys_addAll _ _ _ _ hm)

theorem exists_readbackNode (hg : g.Registered) {i : Nat} {item : Item} {p : Production}
    (hi : g.automaton.Holds i item) (hp : g.Ends item p) (hgoal : p.isGoal = false) :
    ∃ (k : Nat) (m : ReadbackNode), g.readbackNodes.nodes[k]? = some m ∧
      g.IsCompletion i item.production p m.kernel ∧ ⟨item, i⟩ ∈ m.kernel := by
  obtain ⟨s, hs, -⟩ := id hi
  obtain ⟨c, hc, rfl⟩ := exists_mem_completions hg hs hi hp
  obtain ⟨id, hid, -, hk, -⟩ := of_mem_completions hg hs hc
  obtain rfl : item.production = id := (hg.id_inj hp.1 hid rfl).1
  obtain ⟨m, hm, hkernel⟩ := Found.getElem?_indexOf (start_mem_keys hs hc hgoal)
  have hk' : g.IsCompletion i item.production c.2.1 m.kernel := by
    intro q
    rw [hkernel, mem_sorted]
    exact hk q
  exact ⟨_, m, hm, hk', (hk' _).2 ⟨rfl, hi, rfl, hp⟩⟩

theorem exits_mem_keys {k : Nat} {n m : ReadbackNode} (h : g.readbackNodes.nodes[k]? = some n)
    {e : StackEntry} (he : (e, m) ∈ g.backGraph.exits n) : m.kernel ∈ g.readbackNodes.keys := by
  have hn : n ∈ g.readbackNodes.nodes.toList := Array.mem_toList_iff.2 (Array.mem_of_getElem? h)
  exact Found.next_search n hn m (List.mem_map.2 ⟨_, he, rfl⟩)

end Grammar

end RightPart
