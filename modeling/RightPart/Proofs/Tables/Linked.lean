import RightPart.Proofs.Machine.Parser
import RightPart.Proofs.Tables.Scanner

namespace RightPart

inductive StateKind
  | readahead
  | readback
  | reduce
  | semantic
  | accept
deriving DecidableEq

def Target.kind : Target → StateKind
  | readahead _ => .readahead
  | readback _ => .readback
  | reduce _ => .reduce
  | semantic _ => .semantic
  | accept => .accept

namespace Tables

def Has (t : Tables) : Target → Prop
  | .readahead i => i < t.readaheads.length
  | .readback i => i < t.readbacks.length
  | .reduce i => i < t.reduces.length
  | .semantic i => i < t.semantics.size
  | .accept => t.hasAccept

/-- Every state that the tables name is there, and it is of a kind that can go on where
it is named. -/
structure Linked (t : Tables) : Prop where
  initial : ∀ i ∈ t.initialStates, t.Has (.readahead i)
  ahead : ∀ s ∈ t.readaheads, ∀ e ∈ s.transitions, t.Has e.2 ∧ e.2.kind ≠ .reduce
  stacked : ∀ s ∈ t.readbacks, ∀ e ∈ s.transitions, t.Has (.readahead e.1.readahead)
  back : ∀ s ∈ t.readbacks, ∀ e ∈ s.transitions, t.Has e.2 ∧
    (e.2.kind = .readback ∨ e.2.kind = .reduce)
  source : ∀ s ∈ t.reduces, ∀ r ∈ s.restarts, t.Has (.readahead r.source)
  restart : ∀ s ∈ t.reduces, ∀ r ∈ s.restarts, t.Has (.readahead r.target)
  semantic : ∀ s ∈ t.semantics, t.Has (.readahead s.target)

end Tables

namespace Grammar

variable {g : Grammar} {n m k : Nat} {l : Label} {id : ProductionId} {target : Target} {t : Tables}

theorem source_lt_of_edge (h : g.automaton.Edge n l m) : n < g.automaton.nodes.size := by
  obtain ⟨s, hs, -⟩ := h
  exact (Array.getElem?_eq_some_iff.1 hs).1

theorem target_lt_of_edge (h : g.automaton.Edge n l m) : m < g.automaton.nodes.size := by
  obtain ⟨s, hs⟩ := exists_node_of_edge h
  exact (Array.getElem?_eq_some_iff.1 hs).1

theorem lt_of_seed (h : (n, id) ∈ g.automaton.seeds) : n < g.automaton.nodes.size := by
  obtain ⟨s, hs⟩ := exists_node_of_seed h
  exact (Array.getElem?_eq_some_iff.1 hs).1

theorem lt_of_mem_semantics {s : SemanticState} (h : s ∈ g.automaton.semantics) :
    s.target < g.automaton.nodes.size := by
  obtain ⟨-, n, he⟩ := mem_semantics.1 h
  exact target_lt_of_edge he

theorem lt_size_semantics {s : SemanticState} (h : g.automaton.semantics.toList[k]? = some s) :
    k < g.automaton.semantics.size := by
  rw [← OrderedSet.length_toList]
  exact (List.getElem?_eq_some_iff.1 h).1

theorem lt_of_mem_stackable (h : n ∈ g.automaton.stackable) : n < g.automaton.nodes.size := by
  rcases ReadaheadAutomaton.mem_stackable.1 h with ⟨e, he, rfl⟩ | ⟨m, l, he, -⟩
  · exact lt_of_seed he
  · exact target_lt_of_edge he

theorem restartOf_lt (h : g.goals ≠ []) : g.automaton.restartOf id < g.automaton.nodes.size := by
  unfold ReadaheadAutomaton.restartOf
  split
  · rename_i s hs
    exact lt_of_seed (List.mem_of_find?_eq_some hs)
  · have hseeds : g.automaton.seeds ≠ [] := by simpa [automaton, readaheadAutomaton] using h
    obtain ⟨s, l, hs⟩ := List.exists_cons_of_ne_nil hseeds
    rw [hs, List.head?_cons]
    exact lt_of_seed (hs ▸ List.mem_cons_self)

theorem length_readaheads (ht : g.construct = .ok t) :
    t.readaheads.length = g.automaton.nodes.size := by
  rw [construct_eq_ok ht]
  split <;> simp [scannerTables, parserTables, ReadaheadAutomaton.states]

theorem has_readahead (ht : g.construct = .ok t) (hn : n < g.automaton.nodes.size) :
    t.Has (.readahead n) := by
  rw [Tables.Has, length_readaheads ht]
  exact hn

theorem goals_ne_nil (ht : g.construct = .ok t) : g.goals ≠ [] := by
  intro h
  simp [construct, h] at ht

theorem eq_scannerTables (ht : g.construct = .ok t) (hk : g.kind.isScanner) :
    t = g.scannerTables g.automaton := by
  rw [construct_eq_ok ht, if_pos hk]

theorem initialStates_eq (ht : g.construct = .ok t) :
    t.initialStates = g.automaton.seeds.map Prod.fst := by
  rw [construct_eq_ok ht]
  split <;> rfl

theorem semantics_eq (ht : g.construct = .ok t) : t.semantics = g.automaton.semantics := by
  rw [construct_eq_ok ht]
  split <;> rfl

theorem has_semantic (ht : g.construct = .ok t) {s : SemanticState}
    (h : g.automaton.semantics.toList[k]? = some s) : t.Has (.semantic k) := by
  rw [Tables.Has, semantics_eq ht]
  exact lt_size_semantics h

theorem of_mem_exitTransitions (he : g.automaton.Edge n l m) {l' : Label}
    (h : (l', target) ∈ ReadaheadAutomaton.exitTransitions g.automaton.semantics
      (ReadaheadAutomaton.followAt (g.automaton.follows g)) (l, m)) :
    target = .readahead m ∨
      ∃ k, target = .semantic k ∧ g.automaton.semantics.toList[k]? = some ⟨l, m⟩ := by
  unfold ReadaheadAutomaton.exitTransitions at h
  split at h
  · rename_i hact
    obtain ⟨name, -, heq⟩ := List.mem_map.1 h
    obtain ⟨-, rfl⟩ := Prod.mk.inj heq
    exact .inr ⟨_, rfl, OrderedSet.getElem?_indexOf (mem_semantics.2 ⟨hact, n, he⟩)⟩
  · obtain ⟨-, rfl⟩ := Prod.mk.inj (List.mem_singleton.1 h)
    exact .inl rfl

theorem has_of_mem_scannerState (ht : g.construct = .ok t) {s : ReadaheadNode}
    (hs : g.automaton.nodes[n]? = some s) (h : (l, target) ∈ (g.scannerState s n).transitions) :
    t.Has target ∧ (target.kind = .readahead ∨ target.kind = .semantic) := by
  rcases List.mem_append.1 h with h | h
  · obtain ⟨⟨l', m⟩, he, h⟩ := List.mem_flatMap.1 h
    have he : g.automaton.Edge n l' m := ⟨s, hs, he⟩
    rcases of_mem_exitTransitions he h with rfl | ⟨k, rfl, hk⟩
    · exact ⟨has_readahead ht (target_lt_of_edge he), .inl rfl⟩
    · exact ⟨has_semantic ht hk, .inr rfl⟩
  · obtain ⟨y, k, i, -, -, rfl, hy, -⟩ := ReadaheadAutomaton.of_mem_bridges h
    obtain ⟨p, -, -, rfl, -⟩ := ReadaheadAutomaton.mem_itemBridges.1 hy
    exact ⟨has_readahead ht (restartOf_lt (goals_ne_nil ht)), .inl rfl⟩

theorem linked_scannerTables (ht : g.construct = .ok t) (hk : g.kind.isScanner) : t.Linked := by
  have heq := eq_scannerTables ht hk
  have hback : t.readbacks = [] := heq ▸ rfl
  have hreduce : t.reduces = [] := heq ▸ rfl
  refine ⟨fun i hi ↦ ?_, fun s hs e he ↦ ?_, by simp [hback], by simp [hback], by simp [hreduce],
    by simp [hreduce], fun s hs ↦ ?_⟩
  · obtain ⟨e, he, rfl⟩ := List.mem_map.1 (initialStates_eq ht ▸ hi)
    exact has_readahead ht (lt_of_seed he)
  · obtain ⟨n, hn⟩ := List.mem_iff_getElem?.1 hs
    rw [heq, getElem?_scannerReadaheads, Option.map_eq_some_iff] at hn
    obtain ⟨node, hnode, rfl⟩ := hn
    obtain ⟨hhas, hkind⟩ := has_of_mem_scannerState ht hnode he
    exact ⟨hhas, by rcases hkind with h | h <;> rw [h] <;> decide⟩
  · exact has_readahead ht (lt_of_mem_semantics (semantics_eq ht ▸ hs))

theorem lt_length_readbacks (ht : t = g.parserTables g.automaton g.itemGraph) {m : ReadbackNode}
    (h : g.readbackNodes.nodes[k]? = some m) : k < t.readbacks.length := by
  obtain ⟨s, hs, -⟩ := exists_readback ht h
  exact (List.getElem?_eq_some_iff.1 hs).1

theorem lt_length_reduces (ht : t = g.parserTables g.automaton g.itemGraph) {name : String}
    (h : g.reduceFor? name = some k) : k < t.reduces.length := by
  obtain ⟨s, hs, -⟩ := exists_reduce ht (reduced_of_reduceFor? h)
  exact (List.getElem?_eq_some_iff.1 hs).1

/-- The flag for the accepting state agrees with the transitions that lead there. -/
theorem hasAccept_of_mem_completions (ht : t = g.parserTables g.automaton g.itemGraph)
    {s : ReadaheadNode} (hs : g.automaton.nodes[n]? = some s)
    {c : String × Production × OrderedSet Place} (hc : c ∈ g.completions n s)
    (hgoal : c.2.1.isGoal) : t.hasAccept := by
  subst ht
  refine List.any_eq_true.2 ⟨(s, n), ?_, List.any_eq_true.2 ⟨c, hc, hgoal⟩⟩
  exact List.mem_zipIdx_iff_getElem?.2 ((Array.getElem?_toList ..).trans hs)

theorem hasAccept_of_ends (hg : g.Registered) (ht : t = g.parserTables g.automaton g.itemGraph)
    {i : Item} {p : Production} (hi : g.automaton.Holds n i) (hp : g.Ends i p) (hgoal : p.isGoal) :
    t.hasAccept := by
  obtain ⟨s, hs, -⟩ := id hi
  obtain ⟨c, hc, rfl⟩ := exists_mem_completions hg hs hi hp
  exact hasAccept_of_mem_completions ht hs hc hgoal

theorem has_of_mem_completionTransitions (ht : t = g.parserTables g.automaton g.itemGraph)
    {s : ReadaheadNode} (hs : g.automaton.nodes[n]? = some s)
    (h : (l, target) ∈ g.completionTransitions g.readbackNodes.indexOf n s) :
    t.Has target ∧ target.kind ≠ .reduce := by
  obtain ⟨c, hc, h⟩ := List.mem_flatMap.1 h
  cases hlookahead : c.2.1.lookahead with
  | some names =>
    have hgoal : c.2.1.isGoal := by rw [Production.isGoal, hlookahead, Option.isSome_some]
    simp only [hlookahead, List.mem_map, Prod.mk.injEq] at h
    obtain ⟨-, -, -, rfl⟩ := h
    exact ⟨hasAccept_of_mem_completions ht hs hc hgoal, by rintro ⟨⟩⟩
  | none =>
    have hgoal : c.2.1.isGoal = false := by rw [Production.isGoal, hlookahead, Option.isSome_none]
    obtain ⟨m, hm, -⟩ := Found.getElem?_indexOf (start_mem_keys hs hc hgoal)
    simp only [hlookahead, List.mem_map, Prod.mk.injEq] at h
    obtain ⟨-, -, -, rfl⟩ := h
    exact ⟨lt_length_readbacks ht hm, by rintro ⟨⟩⟩

theorem has_of_mem_aheadTransitions (ht : g.construct = .ok t) (hk : g.kind = .parser)
    {s : ReadaheadNode} (hs : g.automaton.nodes[n]? = some s)
    (h : (l, target) ∈ g.aheadTransitions n s) : t.Has target ∧ target.kind ≠ .reduce := by
  rcases List.mem_append.1 h with h | h
  · obtain ⟨⟨l', m⟩, he, h⟩ := List.mem_flatMap.1 h
    have he : g.automaton.Edge n l' m := ⟨s, hs, (List.mem_filter.1 he).1⟩
    rcases of_mem_exitTransitions he h with rfl | ⟨k, rfl, hk⟩
    · exact ⟨has_readahead ht (target_lt_of_edge he), by rintro ⟨⟩⟩
    · exact ⟨has_semantic ht hk, by rintro ⟨⟩⟩
  · exact has_of_mem_completionTransitions (eq_parserTables ht hk) hs h

theorem has_of_backMove (ht : g.construct = .ok t) (hk : g.kind = .parser) {m : ReadbackNode}
    {e : StackEntry} (h : g.BackMove m e target) : t.Has (.readahead e.readahead) ∧ t.Has target ∧
      (target.kind = .readback ∨ target.kind = .reduce) := by
  have heq := eq_parserTables ht hk
  cases h with
  | back he hm =>
    obtain ⟨i, q, hq, -⟩ := exists_follows_of_mem_exits he
    exact ⟨has_readahead ht (target_lt_of_edge hq.1), lt_length_readbacks heq hm, .inl rfl⟩
  | found hr he =>
    exact ⟨has_readahead ht (lt_of_mem_stackable he.mem_stackable), lt_length_reduces heq hr,
      .inr rfl⟩

theorem lt_of_mem_restarts {name : String} {r : Restart}
    (h : r ∈ g.automaton.restarts g g.automaton.stackable g.automaton.silentBack name) :
    r.source < g.automaton.nodes.size ∧ r.target < g.automaton.nodes.size := by
  obtain ⟨n, he, -, -, hr⟩ := ReadaheadAutomaton.mem_restarts.1 h
  refine ⟨?_, target_lt_of_edge he⟩
  rcases hr with hr | ⟨-, -, hr⟩
  · exact hr ▸ source_lt_of_edge he
  · exact lt_of_mem_stackable hr

theorem linked_parserTables (ht : g.construct = .ok t) (hk : g.kind = .parser) : t.Linked := by
  have heq := eq_parserTables ht hk
  have hback : ∀ s ∈ t.readbacks, ∀ e ∈ s.transitions, ∃ m, g.BackMove m e.1 e.2 := by
    intro s hs e he
    obtain ⟨k, hk⟩ := List.mem_iff_getElem?.1 hs
    obtain ⟨m, -, hm⟩ := (mem_readback heq).1 ⟨s, hk, he⟩
    exact ⟨m, hm⟩
  have hrestart : ∀ s ∈ t.reduces, ∀ r ∈ s.restarts,
      r.source < g.automaton.nodes.size ∧ r.target < g.automaton.nodes.size := fun s hs r hr ↦ by
    obtain ⟨j, hj⟩ := List.mem_iff_getElem?.1 hs
    exact lt_of_mem_restarts ((mem_reduce heq).1 ⟨s, hj, rfl, hr⟩).2
  refine ⟨fun i hi ↦ ?_, fun s hs e he ↦ ?_, fun s hs e he ↦ ?_, fun s hs e he ↦ ?_,
    fun s hs r hr ↦ has_readahead ht (hrestart s hs r hr).1,
    fun s hs r hr ↦ has_readahead ht (hrestart s hs r hr).2, fun s hs ↦ ?_⟩
  · obtain ⟨e, he, rfl⟩ := List.mem_map.1 (initialStates_eq ht ▸ hi)
    exact has_readahead ht (lt_of_seed he)
  · obtain ⟨n, hn⟩ := List.mem_iff_getElem?.1 hs
    rw [heq, getElem?_readaheads, Option.map_eq_some_iff] at hn
    obtain ⟨node, hnode, rfl⟩ := hn
    exact has_of_mem_aheadTransitions ht hk hnode he
  · obtain ⟨m, hm⟩ := hback s hs e he
    exact (has_of_backMove ht hk hm).1
  · obtain ⟨m, hm⟩ := hback s hs e he
    exact (has_of_backMove ht hk hm).2
  · exact has_readahead ht (lt_of_mem_semantics (semantics_eq ht ▸ hs))

theorem linked_of_construct (ht : g.construct = .ok t) : t.Linked := by
  cases hk : g.kind with
  | parser => exact linked_parserTables ht hk
  | scanner | superScanner => exact linked_scannerTables ht (by rw [hk]; rfl)

end Grammar

end RightPart
