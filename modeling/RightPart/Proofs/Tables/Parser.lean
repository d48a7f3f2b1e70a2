import RightPart.Proofs.Readahead.Restart
import RightPart.Proofs.Readback.Nodes
import RightPart.Tables.Construct

namespace RightPart.Grammar

/-- The terminals that may come next in a readahead state. -/
def Next (g : Grammar) (n : Nat) (name : String) : Prop :=
  ∃ i, g.automaton.Holds n i ∧ name ∈ g.itemFollow i

inductive Move (g : Grammar) (n : Nat) : Label → Target → Prop
  | step {m : Nat} {l : Label} :
      g.automaton.Edge n l m → g.isNonterminalLabel l = false → l.isAction = false →
      Move g n l (.readahead m)
  | action {m k : Nat} {l : Label} {name : String} :
      g.automaton.Edge n l m → l.isAction → g.automaton.semantics.toList[k]? = some ⟨l, m⟩ →
      g.Next m name → Move g n (.look name) (.semantic k)
  | accept {i : Item} {p : Production} {names : OrderedSet String} {name : String} :
      g.automaton.Holds n i → g.Ends i p → p.lookahead = some names → name ∈ names →
      Move g n (.look name) .accept
  | complete {id : ProductionId} {p : Production} {k : Nat} {m : ReadbackNode} {name : String} :
      g.productions.get? id = some p → p.isGoal = false → g.readbackNodes.nodes[k]? = some m →
      g.IsCompletion n id p m.kernel → (∃ q, q ∈ m.kernel) → name ∈ p.follow →
      Move g n (.look name) (.readback k)

/-- An entry that may lie below the right parts that begin among the places of a readback state. -/
def Below (g : Grammar) (n : ReadbackNode) (e : StackEntry) : Prop :=
  ∃ s ∈ g.backGraph.closure n, g.isInitialItem s.item ∧ ∃ c i, s.CalledFrom g c ∧
    Relation.ReflTransGen (Place.Under g) c ⟨i, e.readahead⟩ ∧
    ((∃ l q, Place.Follows g ⟨i, e.readahead⟩ l q ∧ l.isRead ∧ e.label = l.asLook) ∨
      (∃ id, (e.readahead, id) ∈ g.automaton.seeds) ∧ g.automaton.Enters e.readahead i ∧
        e.label = .look endOfInput)

inductive BackMove (g : Grammar) (n : ReadbackNode) : StackEntry → Target → Prop
  | back {m m' : ReadbackNode} {k : Nat} {e : StackEntry} :
      (e, m) ∈ g.backGraph.exits n → g.readbackNodes.nodes[k]? = some m' → m'.kernel = m.kernel →
      BackMove g n e (.readback k)
  | found {k : Nat} {e : StackEntry} :
      g.reduceFor? n.left = some k → g.Below n e → BackMove g n e (.reduce k)

variable {g : Grammar}

theorem Below.mem_stackable {n : ReadbackNode} {e : StackEntry} (h : g.Below n e) :
    e.readahead ∈ g.automaton.stackable := by
  obtain ⟨-, -, -, -, i, -, -, hentry⟩ := h
  rcases hentry with ⟨l, q, hf, hl, -⟩ | ⟨⟨id, hseed⟩, -, -⟩
  · exact ReadaheadAutomaton.mem_stackable.2 (.inr ⟨q.readahead, l, hf.1, hl⟩)
  · exact ReadaheadAutomaton.mem_stackable.2 (.inl ⟨_, hseed, rfl⟩)

theorem construct_eq_ok {t : Tables} (h : g.construct = .ok t) :
    t = if g.kind.isScanner then g.scannerTables g.automaton
      else g.parserTables g.automaton g.itemGraph := by
  rw [construct] at h
  split at h
  · cases h
  · dsimp only at h
    split at h
    · cases h
    · exact (Except.ok.inj h).symm

theorem eq_parserTables {t : Tables} (h : g.construct = .ok t) (hk : g.kind = .parser) :
    t = g.parserTables g.automaton g.itemGraph := by
  rw [construct_eq_ok h, hk]
  rfl

theorem mem_itemsFollow {s : ReadaheadNode} {n : Nat} (hs : g.automaton.nodes[n]? = some s)
    {name : String} : name ∈ g.itemsFollow s.items ↔ g.Next n name := by
  unfold itemsFollow Next
  simp only [OrderedSet.mem_ofList, List.mem_flatMap, ReadaheadAutomaton.holds_iff hs]
  rfl

theorem mem_followAt {n : Nat} {name : String} :
    name ∈ ReadaheadAutomaton.followAt (g.automaton.follows g) n ↔ g.Next n name := by
  unfold ReadaheadAutomaton.followAt ReadaheadAutomaton.follows
  rw [Array.getElem?_map]
  cases hs : g.automaton.nodes[n]? with
  | none => simp [Next, ReadaheadAutomaton.Holds, hs]
  | some s => exact mem_itemsFollow hs

theorem mem_semantics {l : Label} {m : Nat} :
    (⟨l, m⟩ : SemanticState) ∈ g.automaton.semantics ↔
      l.isAction ∧ ∃ n, g.automaton.Edge n l m := by
  unfold ReadaheadAutomaton.semantics
  simp only [OrderedSet.mem_ofList, List.mem_flatMap, List.mem_map, List.mem_filter, Prod.exists,
    SemanticState.mk.injEq]
  constructor
  · intro h
    obtain ⟨s, hs, l, m, ⟨he, hl⟩, rfl, rfl⟩ := h
    obtain ⟨n, hn⟩ := List.mem_iff_getElem?.1 hs
    rw [Array.getElem?_toList] at hn
    exact ⟨hl, n, s, hn, he⟩
  · intro h
    obtain ⟨hl, n, s, hs, he⟩ := h
    exact ⟨s, Array.mem_toList_iff.2 (Array.mem_of_getElem? hs), l, m, ⟨he, hl⟩, rfl, rfl⟩

theorem move_of_mem_exitTransitions {n m : Nat} {l l' : Label} {target : Target}
    (he : g.automaton.Edge n l' m) (hl' : g.isNonterminalLabel l' = false)
    (h : (l, target) ∈ ReadaheadAutomaton.exitTransitions g.automaton.semantics
      (ReadaheadAutomaton.followAt (g.automaton.follows g)) (l', m)) : g.Move n l target := by
  unfold ReadaheadAutomaton.exitTransitions at h
  split at h
  · rename_i hact
    obtain ⟨name, hn, heq⟩ := List.mem_map.1 h
    obtain ⟨rfl, rfl⟩ := Prod.mk.inj heq
    refine .action he hact ?_ (mem_followAt.1 hn)
    exact OrderedSet.getElem?_indexOf (mem_semantics.2 ⟨hact, n, he⟩)
  · rename_i hact
    obtain ⟨rfl, rfl⟩ := Prod.mk.inj (List.mem_singleton.1 h)
    exact .step he hl' (by simpa using hact)

theorem move_of_mem_completionTransitions (hg : g.Registered) {n : Nat} {s : ReadaheadNode}
    (hs : g.automaton.nodes[n]? = some s) {l : Label} {target : Target}
    (h : (l, target) ∈ g.completionTransitions g.readbackNodes.indexOf n s) :
    g.Move n l target := by
  obtain ⟨c, hc, h⟩ := List.mem_flatMap.1 h
  obtain ⟨id, hid, hl, hk, q, hq⟩ := of_mem_completions hg hs hc
  have hqn := (hk q).1 hq
  cases hla : c.2.1.lookahead with
  | some names =>
    simp only [hla, List.mem_map, Prod.mk.injEq] at h
    obtain ⟨name, hn, rfl, rfl⟩ := h
    exact .accept hqn.2.1 hqn.2.2.2 hla hn
  | none =>
    have hgoal : c.2.1.isGoal = false := by simp [Production.isGoal, hla]
    simp only [hla, List.mem_map, Prod.mk.injEq] at h
    obtain ⟨name, hn, rfl, rfl⟩ := h
    obtain ⟨m, hm, hkm⟩ := Found.getElem?_indexOf (start_mem_keys hs hc hgoal)
    refine .complete hid hgoal hm (fun p ↦ ?_) ⟨q, ?_⟩ hn
    · rw [hkm, mem_sorted]
      exact hk p
    · rw [hkm, mem_sorted]
      exact hq

theorem ascending_kernel {k : Nat} {m : ReadbackNode} (h : g.readbackNodes.nodes[k]? = some m) :
    Ascending m.kernel := by
  have hm : m ∈ g.readbackNodes.nodes.toList := Array.mem_toList_iff.2 (Array.mem_of_getElem? h)
  exact (g.readbackNodes.keys_mem _ (Found.key_mem_keys hm)).1

theorem mem_completionTransitions_of_complete (hg : g.Registered) {n : Nat} {s : ReadaheadNode}
    (hs : g.automaton.nodes[n]? = some s) {id : ProductionId} {p : Production} {k : Nat}
    {m : ReadbackNode} {name : String} (hgoal : p.isGoal = false)
    (hm : g.readbackNodes.nodes[k]? = some m) (hk : g.IsCompletion n id p m.kernel)
    (hq : ∃ q, q ∈ m.kernel) (hn : name ∈ p.follow) :
    (.look name, .readback k) ∈ g.completionTransitions g.readbackNodes.indexOf n s := by
  obtain ⟨q, hq⟩ := hq
  obtain ⟨-, hi, hid, he⟩ := (hk q).1 hq
  obtain ⟨c, hc, rfl⟩ := exists_mem_completions hg hs hi he
  obtain ⟨id', hid', -, hk', -⟩ := of_mem_completions hg hs hc
  obtain rfl : id = id' := hid ▸ (hg.id_inj he.1 hid' rfl).1
  have hkernel : sorted c.2.2.toList = m.kernel :=
    (ascending_sorted _).eq_of_mem_iff (ascending_kernel hm) fun q ↦ by rw [mem_sorted, hk' q, hk q]
  have hla : c.2.1.lookahead = none := by simpa [Production.isGoal] using hgoal
  have hidx : g.readbackNodes.indexOf m.kernel = k := Found.indexOf_key hm
  refine List.mem_flatMap.2 ⟨c, hc, ?_⟩
  simp only [hla, List.mem_map, Prod.mk.injEq]
  exact ⟨name, hn, rfl, by rw [hkernel, hidx]⟩

theorem mem_completionTransitions_of_accept (hg : g.Registered) {n : Nat} {s : ReadaheadNode}
    (hs : g.automaton.nodes[n]? = some s) {i : Item} {p : Production} {names : OrderedSet String}
    {name : String} (hi : g.automaton.Holds n i) (he : g.Ends i p) (hla : p.lookahead = some names)
    (hn : name ∈ names) :
    (.look name, .accept) ∈ g.completionTransitions g.readbackNodes.indexOf n s := by
  obtain ⟨c, hc, rfl⟩ := exists_mem_completions hg hs hi he
  refine List.mem_flatMap.2 ⟨c, hc, ?_⟩
  simp only [hla, List.mem_map]
  exact ⟨name, hn, rfl⟩

def aheadTransitions (g : Grammar) (n : Nat) (s : ReadaheadNode) : List (Label × Target) :=
  (s.exits.filter (!g.isNonterminalLabel ·.1)).flatMap (ReadaheadAutomaton.exitTransitions
    g.automaton.semantics (ReadaheadAutomaton.followAt (g.automaton.follows g))) ++
    g.completionTransitions g.readbackNodes.indexOf n s

theorem mem_aheadTransitions (hg : g.Registered) {n : Nat} {s : ReadaheadNode}
    (hs : g.automaton.nodes[n]? = some s) {l : Label} {target : Target} :
    (l, target) ∈ g.aheadTransitions n s ↔ g.Move n l target := by
  unfold aheadTransitions
  rw [List.mem_append, List.mem_flatMap]
  constructor
  · intro h
    rcases h with h | h
    · obtain ⟨⟨l', m⟩, he, h⟩ := h
      obtain ⟨he, hl⟩ := List.mem_filter.1 he
      exact move_of_mem_exitTransitions ⟨s, hs, he⟩ (by simpa using hl) h
    · exact move_of_mem_completionTransitions hg hs h
  · intro h
    cases h with
    | step he hl hact =>
      refine .inl ⟨_, List.mem_filter.2 ⟨(ReadaheadAutomaton.edge_iff hs).1 he,
        by simpa using hl⟩, ?_⟩
      simp [ReadaheadAutomaton.exitTransitions, hact]
    | action he hact hk hn =>
      refine .inl ⟨_, List.mem_filter.2 ⟨(ReadaheadAutomaton.edge_iff hs).1 he, ?_⟩, ?_⟩
      · simp [isNonterminalLabel, hact]
      · rw [ReadaheadAutomaton.exitTransitions, if_pos hact, OrderedSet.indexOf_eq hk]
        exact List.mem_map.2 ⟨_, mem_followAt.2 hn, rfl⟩
    | accept hi he hla hn => exact .inr (mem_completionTransitions_of_accept hg hs hi he hla hn)
    | complete hp hgoal hm hk hq hn =>
      exact .inr (mem_completionTransitions_of_complete hg hs hgoal hm hk hq hn)

def starts (g : Grammar) (n : ReadbackNode) : List Place :=
  (g.backGraph.closure n).toList.filter fun p ↦ g.isInitialItem p.item

theorem mem_lookback_starts {n : ReadbackNode} {e : StackEntry} :
    e ∈ g.backGraph.lookback g.automaton (g.starts n) ↔ g.Below n e := by
  rw [mem_lookback]
  simp only [mem_callers, starts, List.mem_filter]
  constructor
  · intro h
    obtain ⟨i, ⟨s, ⟨hs, hi⟩, c, hc, h⟩, he⟩ := h
    exact ⟨s, hs, hi, c, i, hc, h, he⟩
  · intro h
    obtain ⟨s, hs, hi, c, i, hc, h, he⟩ := h
    exact ⟨i, ⟨s, ⟨hs, hi⟩, c, hc, h⟩, he⟩

theorem starts_ne_nil {n : ReadbackNode} {e : StackEntry} (h : g.Below n e) : g.starts n ≠ [] := by
  obtain ⟨s, hs, hi, -⟩ := h
  exact List.ne_nil_of_mem (List.mem_filter.2 ⟨hs, hi⟩)

/-- The nonterminal that a readback state reduces to, if its right part can begin there. -/
def foundAt (g : Grammar) (n : ReadbackNode) : Option Nat :=
  if (g.starts n).isEmpty then none else g.reduceFor? n.left

theorem mem_foundAt {n : ReadbackNode} {k : Nat} :
    k ∈ g.foundAt n ↔ g.starts n ≠ [] ∧ g.reduceFor? n.left = some k := by
  rw [foundAt, Option.mem_def]
  by_cases h : g.starts n = []
  · simp [h]
  · simp [h, List.isEmpty_iff]

theorem transitions_readbackState (n : ReadbackNode) :
    (g.readbackState g.automaton g.backGraph g.readbackNodes.indexOf n).transitions =
      (g.backGraph.exits n).map (fun e ↦ (e.1, .readback (g.readbackNodes.indexOf e.2.kernel))) ++
        (g.foundAt n).toList.flatMap fun k ↦
          (g.backGraph.lookback g.automaton (g.starts n)).toList.map fun e ↦ (e, .reduce k) := by
  have hfound : (if (g.starts n).isEmpty then none else g.reduceFor? n.left) = g.foundAt n := rfl
  unfold starts at hfound
  simp only [readbackState, starts, hfound]
  cases g.foundAt n with
  | none => rfl
  | some k => simp

theorem mem_readbackState {k : Nat} {n : ReadbackNode} (hn : g.readbackNodes.nodes[k]? = some n)
    {e : StackEntry} {target : Target} :
    (e, target) ∈ (g.readbackState g.automaton g.backGraph g.readbackNodes.indexOf n).transitions ↔
      g.BackMove n e target := by
  rw [transitions_readbackState, List.mem_append, List.mem_map]
  constructor
  · intro h
    rcases h with h | h
    · obtain ⟨⟨e', m⟩, he, heq⟩ := h
      obtain ⟨rfl, rfl⟩ := Prod.mk.inj heq
      obtain ⟨m', hm, hk⟩ := Found.getElem?_indexOf (exits_mem_keys hn he)
      exact .back he hm hk
    · obtain ⟨k, hk, h⟩ := List.mem_flatMap.1 h
      obtain ⟨-, hk⟩ := mem_foundAt.1 (Option.mem_toList.1 hk)
      obtain ⟨e', he, heq⟩ := List.mem_map.1 h
      obtain ⟨rfl, rfl⟩ := Prod.mk.inj heq
      exact .found hk (mem_lookback_starts.1 he)
  · intro h
    cases h with
    | back he hm hk => exact .inl ⟨_, he, by rw [← hk, Found.indexOf_key hm]⟩
    | found hk he =>
      have hk' := Option.mem_toList.2 (mem_foundAt.2 ⟨starts_ne_nil he, hk⟩)
      exact .inr (List.mem_flatMap.2 ⟨_, hk', List.mem_map.2 ⟨e, mem_lookback_starts.2 he, rfl⟩⟩)

theorem exists_back {k : Nat} {n m : ReadbackNode} (hn : g.readbackNodes.nodes[k]? = some n)
    {e : StackEntry} (he : (e, m) ∈ g.backGraph.exits n) : ∃ j, g.BackMove n e (.readback j) := by
  obtain ⟨m', hm', hk⟩ := Found.getElem?_indexOf (exits_mem_keys hn he)
  exact ⟨_, .back he hm' hk⟩

theorem reduced_of_reduceFor? {name : String} {k : Nat} (h : g.reduceFor? name = some k) :
    g.reduced[k]? = some name := by
  obtain ⟨hk, he, -⟩ := List.findIdx?_eq_some_iff_getElem.1 h
  exact List.getElem?_eq_some_iff.2 ⟨hk, by simpa using he⟩

theorem exists_reduceFor? {id : ProductionId} {p : Production} (hp : g.productions.get? id = some p)
    (hgoal : p.isGoal = false) : ∃ k, g.reduceFor? p.left = some k := by
  have hv : p ∈ g.productions.values := OrderedMap.snd_mem_values (OrderedMap.get?_eq_some.1 hp)
  have hm : p.left ∈ g.reduced :=
    List.mem_map.2 ⟨p, List.mem_filter.2 ⟨hv, by simp [hgoal]⟩, rfl⟩
  exact Option.isSome_iff_exists.1 (List.isSome_idxOf?.2 hm)

theorem exists_found (hg : g.Registered) {k : Nat} {n : ReadbackNode}
    (hn : g.readbackNodes.nodes[k]? = some n) {e : StackEntry} (he : g.Below n e) :
    ∃ j, g.BackMove n e (.reduce j) := by
  obtain ⟨id, p, hr⟩ := exists_reads hg hn
  obtain ⟨j, hj⟩ := exists_reduceFor? hr.production hr.not_goal
  exact ⟨j, .found (hr.left ▸ hj) he⟩

def aheadState (g : Grammar) (s : ReadaheadNode) (n : Nat) : ReadaheadState where
  initialItems := s.kernel
  finalItems := s.items
  follow := ReadaheadAutomaton.followAt (g.automaton.follows g) n
  isStackable := n ∈ g.automaton.stackable
  transitions := g.aheadTransitions n s

theorem getElem?_readaheads (n : Nat) :
    (g.parserTables g.automaton g.itemGraph).readaheads[n]? =
      g.automaton.nodes[n]?.map (g.aheadState · n) := by
  change (g.automaton.nodes.toList.zipIdx.map fun e ↦ g.aheadState e.1 e.2)[n]? = _
  rw [List.getElem?_map, List.getElem?_zipIdx, Array.getElem?_toList, Option.map_map, Nat.zero_add]
  rfl

theorem getElem?_readbacks (k : Nat) :
    (g.parserTables g.automaton g.itemGraph).readbacks[k]? =
      g.readbackNodes.nodes[k]?.map
        (g.readbackState g.automaton g.backGraph g.readbackNodes.indexOf) := by
  change (g.readbackNodes.nodes.toList.map _)[k]? = _
  rw [List.getElem?_map, Array.getElem?_toList]

theorem getElem?_reduces (k : Nat) :
    (g.parserTables g.automaton g.itemGraph).reduces[k]? =
      g.reduced[k]?.map (g.automaton.reduceState g g.automaton.stackable g.automaton.silentBack) :=
  List.getElem?_map ..

end RightPart.Grammar
