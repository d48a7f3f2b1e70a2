import RightPart.Proofs.Grammar.Total
import RightPart.Proofs.Tables.Row

namespace RightPart

namespace Grammar

def HasItem (g : Grammar) (i : Item) : Prop :=
  ∃ p, g.productions.get? i.production = some p ∧ i.state < p.body.size

def HasClosedBodies (g : Grammar) : Prop := ∀ id p, g.productions.get? id = some p → p.body.Closed

variable {g : Grammar} {i j : Item} {l : Label} {n : Nat}

theorem hasItem_of_step (hc : g.HasClosedBodies) (h : j ∈ g.steps.image i l) : g.HasItem j := by
  obtain ⟨hid, p, hp, ht⟩ := mem_steps.1 h
  exact ⟨p, hid ▸ hp, Automaton.closed_iff.1 (hc _ p hp) _ _ ht⟩

theorem hasItem_of_calls (h : g.Calls i j) : g.HasItem j := by
  obtain ⟨l, h⟩ := h
  obtain ⟨-, -, p, hp, hj⟩ := mem_expansions.1 h
  exact ⟨p, (productionFor?_eq_some hp).1, Automaton.lt_size_of_isInitialAt hj⟩

theorem hasItem_of_enters (hc : g.HasClosedBodies) (h : g.automaton.Enters n i) : g.HasItem i := by
  obtain ⟨s, hs, -⟩ := id h
  refine node_induction (Q := fun n ↦ ∀ i, g.automaton.Enters n i → g.HasItem i) ?_ ?_ hs i h
  · intro n id hseed i hi
    obtain ⟨p, hp, henters⟩ := enters_seed hseed
    obtain ⟨rfl, hinit⟩ := (henters i).1 hi
    exact ⟨p, (mem_goals.1 hp).1, Automaton.lt_size_of_isInitialAt hinit⟩
  · intro n l m _ hedge j hj
    obtain ⟨i, -, hij⟩ := (enters_of_edge hedge).1 hj
    exact hasItem_of_step hc hij

theorem hasItem_of_holds (hc : g.HasClosedBodies) (h : g.automaton.Holds n i) : g.HasItem i := by
  rcases enters_or_calls h with h | ⟨c, -, h⟩
  · exact hasItem_of_enters hc h
  · exact hasItem_of_calls h

theorem lt_of_holds (h : g.automaton.Holds n i) : n < g.automaton.nodes.size := by
  obtain ⟨s, hs, -⟩ := h
  exact (Array.getElem?_eq_some_iff.1 hs).1

theorem not_followMissing (hc : g.HasClosedBodies) (h : g.HasItem i) : ¬ g.FollowMissing i := by
  intro hmissing
  obtain ⟨p, hp, hlt⟩ := h
  obtain ⟨p', hp', hmissing⟩ := hmissing
  rw [hp, Option.mem_toList] at hp'
  obtain rfl := Option.some.inj hp'
  exact Automaton.not_silentMissing (hc _ p hp) (fun k hk ↦ List.mem_singleton.1 hk ▸ hlt) hmissing

/-- Tables can be made of a grammar with a goal. -/
theorem exists_construct (hc : g.HasClosedBodies) (hgoals : g.goals ≠ []) :
    ∃ t, g.construct = .ok t := by
  have hmissing :
      ¬ (g.automaton.nodes.any fun s ↦ s.items.toList.any fun i ↦ g.FollowMissing i) = true := by
    intro h
    obtain ⟨n, hn, h⟩ := Array.any_eq_true.1 h
    obtain ⟨i, hi, h⟩ := List.any_eq_true.1 h
    have hholds : g.automaton.Holds n i := ⟨_, Array.getElem?_eq_getElem hn, hi⟩
    exact not_followMissing hc (hasItem_of_holds hc hholds) (of_decide_eq_true h)
  rw [construct, if_neg (by simpa using hgoals)]
  exact ⟨_, if_neg hmissing⟩

theorem exists_construct_iff (hc : g.HasClosedBodies) :
    (∃ t, g.construct = .ok t) ↔ g.goals ≠ [] := by
  constructor
  · rintro ⟨t, ht⟩
    exact goals_ne_nil ht
  · exact exists_construct hc

section Edits

variable {name : String} {f : Production → Production}

theorem HasClosedBodies.updateProduction (hc : g.HasClosedBodies)
    (hf : ∀ p, p.body.Closed → (f p).body.Closed) :
    (g.updateProduction name f).HasClosedBodies := by
  intro id p hp
  rw [Grammar.updateProduction, OrderedMap.get?_mapValues, Option.map_eq_some_iff] at hp
  obtain ⟨p₀, hp₀, rfl⟩ := hp
  split
  · exact hf p₀ (hc id p₀ hp₀)
  · exact hc id p₀ hp₀

theorem HasClosedBodies.removeProduction (hc : g.HasClosedBodies) :
    (g.removeProduction name).HasClosedBodies := by
  intro id p hp
  rw [Grammar.removeProduction, OrderedMap.get?_eq_some, OrderedMap.entries_filter] at hp
  exact hc id p (OrderedMap.get?_eq_some.2 (List.mem_filter.1 hp).1)

theorem goals_removeProduction :
    (g.removeProduction name).goals = g.goals.filter (·.2.left ≠ name) := by
  rw [goals, goals, Grammar.removeProduction, OrderedMap.entries_filter, List.filter_filter,
    List.filter_filter]
  exact List.filter_congr fun e _ ↦ Bool.and_comm ..

theorem goals_updateProduction :
    (g.updateProduction name fun p ↦ { p with lookahead := none }).goals =
      g.goals.filter (·.2.left ≠ name) := by
  have hgoal : ∀ e : ProductionId × Production,
      (if e.2.left = name then { e.2 with lookahead := none } else e.2).isGoal =
        (decide (e.2.left ≠ name) && e.2.isGoal) := by
    intro e
    by_cases he : e.2.left = name
    · simp [he, Production.isGoal]
    · simp [he]
  rw [goals, goals, Grammar.updateProduction, OrderedMap.entries_mapValues, List.filter_map,
    List.filter_filter]
  simp only [Function.comp_def, hgoal]
  refine (List.map_congr_left (g := id) fun e he ↦ ?_).trans (List.map_id _)
  have hname : e.2.left ≠ name := by simpa using (Bool.and_eq_true_iff.1 (List.mem_filter.1 he).2).1
  rw [if_neg hname, id_eq]

/-- Without one of its productions a grammar has tables if another goal is left. -/
theorem exists_construct_removeProduction (hc : g.HasClosedBodies) :
    (∃ t, (g.removeProduction name).construct = .ok t) ↔ ∃ e ∈ g.goals, e.2.left ≠ name := by
  rw [exists_construct_iff hc.removeProduction, goals_removeProduction]
  simp [List.filter_eq_nil_iff]

theorem exists_construct_updateProduction (hc : g.HasClosedBodies) :
    (∃ t, (g.updateProduction name fun p ↦ { p with lookahead := none }).construct = .ok t) ↔
      ∃ e ∈ g.goals, e.2.left ≠ name := by
  have hclosed : (g.updateProduction name fun p ↦ { p with lookahead := none }).HasClosedBodies :=
    hc.updateProduction fun _ ↦ id
  rw [exists_construct_iff hclosed, goals_updateProduction]
  simp [List.filter_eq_nil_iff]

end Edits

end Grammar

/-- Whatever is looked up while the tables of a grammar are made is there: the productions of
items, the readahead states of places, also of those around a right part, and the states that
restarts may come from. -/
structure Tables.Grounded (t : Tables) (g : Grammar) : Prop where
  items : ∀ s ∈ t.readaheads, ∀ i, i ∈ s.initialItems ∨ i ∈ s.finalItems → g.HasItem i
  places : ∀ s ∈ t.readbacks, ∀ q, q ∈ s.initialPlaces ∨ q ∈ s.finalPlaces →
    g.HasItem q.item ∧ t.Has (.readahead q.readahead)
  callers : ∀ s ∈ t.readbacks,
    ∀ q ∈ g.backGraph.callers (s.finalPlaces.toList.filter (g.isInitialItem ·.item)),
      g.HasItem q.item ∧ t.Has (.readahead q.readahead)
  sources : ∀ s ∈ t.reduces, ∀ r ∈ s.restarts, ∀ n ∈ g.automaton.silentBack.star [r.source],
    t.Has (.readahead n)

namespace Grammar

variable {g : Grammar} {t : Tables} {kind : Kind} {l : List Definition} {d : Draft}

theorem exists_node_of_mem_readaheads (ht : g.construct = .ok t) {s : ReadaheadState}
    (hs : s ∈ t.readaheads) :
    ∃ (n : Nat) (node : ReadaheadNode), g.automaton.nodes[n]? = some node ∧
      s.initialItems = node.kernel ∧ s.finalItems = node.items := by
  obtain ⟨n, hn⟩ := List.mem_iff_getElem?.1 hs
  rw [construct_eq_ok ht] at hn
  split at hn
  · rw [getElem?_scannerReadaheads, Option.map_eq_some_iff] at hn
    obtain ⟨node, hnode, rfl⟩ := hn
    exact ⟨n, node, hnode, rfl, rfl⟩
  · rw [getElem?_readaheads, Option.map_eq_some_iff] at hn
    obtain ⟨node, hnode, rfl⟩ := hn
    exact ⟨n, node, hnode, rfl, rfl⟩

theorem exists_node_of_mem_readbacks (ht : g.construct = .ok t) {s : ReadbackState}
    (hs : s ∈ t.readbacks) :
    ∃ (k : Nat) (m : ReadbackNode), g.readbackNodes.nodes[k]? = some m ∧
      s.initialPlaces = m.kernel ∧ s.finalPlaces = g.backGraph.closure m := by
  obtain ⟨k, hk⟩ := List.mem_iff_getElem?.1 hs
  rw [construct_eq_ok ht] at hk
  split at hk
  · cases hk
  · rw [getElem?_readbacks, Option.map_eq_some_iff] at hk
    obtain ⟨m, hm, rfl⟩ := hk
    exact ⟨k, m, hm, rfl, rfl⟩

theorem lt_of_star_silentBack {n m : Nat} (h : n ∈ g.automaton.silentBack.star [m])
    (hm : m < g.automaton.nodes.size) : n < g.automaton.nodes.size := by
  rcases Relation.ReflTransGen.cases_head (ReadaheadAutomaton.mem_star_silentBack.1 h) with
    rfl | ⟨r, hr, -⟩
  · exact hm
  · obtain ⟨l, he, -⟩ := hr
    exact source_lt_of_edge he

theorem grounded_of_construct (hg : g.Registered) (hc : g.HasClosedBodies)
    (ht : g.construct = .ok t) : t.Grounded g := by
  have hplace : ∀ {q : Place}, g.automaton.Holds q.readahead q.item →
      g.HasItem q.item ∧ t.Has (.readahead q.readahead) := fun hq ↦
    ⟨hasItem_of_holds hc hq, has_readahead ht (lt_of_holds hq)⟩
  refine ⟨fun s hs i hi ↦ ?_, fun s hs q hq ↦ ?_, fun s _ q hq ↦ hplace (holds_callers hq),
    fun s hs r hr n hn ↦ ?_⟩
  · obtain ⟨n, node, hnode, hinitial, hfinal⟩ := exists_node_of_mem_readaheads ht hs
    rcases hi with hi | hi
    · exact hasItem_of_enters hc (n := n) ⟨node, hnode, hinitial ▸ hi⟩
    · exact hasItem_of_holds hc (n := n) ⟨node, hnode, hfinal ▸ hi⟩
  · obtain ⟨k, m, hm, hinitial, hfinal⟩ := exists_node_of_mem_readbacks ht hs
    rcases hq with hq | hq
    · exact hplace (holds_kernel hg hm (hinitial ▸ hq))
    · exact hplace (holds_closure hg hm (hfinal ▸ hq))
  · have hsource := (linked_of_construct ht).source s hs r hr
    rw [Tables.Has, length_readaheads ht] at hsource
    exact has_readahead ht (lt_of_star_silentBack hn hsource)

theorem hasClosedBodies_of_finish (hd : d.Lawful) (h : d.finish = .ok g) : g.HasClosedBodies := by
  obtain ⟨ps, hps, rfl⟩ := Draft.exists_registerAll h
  intro id p hp
  obtain ⟨p₀, hp₀, -, hbody, -⟩ := get?_analyze hp
  have hmem : p₀ ∈ ps.values := OrderedMap.snd_mem_values (OrderedMap.get?_eq_some.1 hp₀)
  rw [hbody]
  exact (hd.prepared.of_registerAll hps hmem).2.closed

theorem exists_goal_of_finish (h : d.finish = .ok g) :
    ∃ e ∈ d.rules.entries, e.2.lookahead.isSome := by
  by_contra hnone
  have hall : d.rules.values.all (·.lookahead.isNone) = true := by
    rw [← OrderedMap.map_snd_entries, List.all_map, List.all_eq_true]
    intro e he
    simpa using fun hgoal ↦ hnone ⟨e, he, hgoal⟩
  rw [Draft.finish, if_pos hall] at h
  cases h

theorem goals_ne_nil_of_finish (hn : d.HasNamedRules) (hsize : d.prepared.rules.size ≤ 65536)
    (h : d.finish = .ok g) : g.goals ≠ [] := by
  obtain ⟨x, hx, hgoal⟩ := Draft.exists_goal_prepared hn (exists_goal_of_finish h)
  obtain ⟨ps, hps, rfl⟩ := Draft.exists_registerAll h
  have hlength : d.prepared.rules.entries.length = d.prepared.rules.size :=
    (List.length_map Prod.fst).symm.trans (congrArg List.length (OrderedMap.map_fst_entries _))
  obtain ⟨-, hrest⟩ := Draft.exists_production_of_registerAll (k := 0) hps (by omega)
    fun _ he ↦ absurd he List.not_mem_nil
  obtain ⟨e, he, -, hlookahead⟩ := hrest x hx
  have hproduction : ∃ p : Production,
      (e.1, p) ∈ (d.prepared.unanalyzed ps).analyze.productions.entries ∧
      p.lookahead = e.2.lookahead := by
    rw [analyze, OrderedMap.entries_mapValues]
    exact ⟨_, List.mem_map_of_mem he, rfl⟩
  obtain ⟨p, hp, hp'⟩ := hproduction
  refine List.ne_nil_of_mem (List.mem_filter.2 ⟨hp, ?_⟩)
  rw [Production.isGoal, hp', hlookahead]
  exact hgoal

/-- A list of definitions is refused or made into tables, and nothing is looked up on the way that
is not there. The errors tell of the definitions, never of a state that is missing; what two
automata are combined into can always be renumbered; and each round of the analysis finds its states
and sets. A grammar that is not refused has tables, as long as its productions can be told apart by
their numbers. Whatever is looked up to make them is there, and so is every state that they and
their rows name. -/
theorem define_total (hsize : ∀ d, Draft.after kind l l = .ok d → d.prepared.rules.size ≤ 65536) :
    (∀ e, Grammar.define kind l = .error e → ¬ e.IsMissing) ∧
      (∀ c m m', Automaton.Checked.trim (Automaton.product c m m') =
        .ok (Automaton.product c m m').trim) ∧
      (∀ d ps, Draft.after kind l l = .ok d →
        Draft.registerAll 0 d.prepared.rules.entries ∅ = .ok ps →
        (d.prepared.unanalyzed ps).AnalysisFound) ∧
      ∀ g, Grammar.define kind l = .ok g → ∃ t, g.construct = .ok t ∧ t.Grounded g ∧ t.Linked ∧
        ∀ r ∈ t.rows, ∀ e ∈ r.references, t.Refers e := by
  refine ⟨avoids_define, fun c m m' ↦ Automaton.checked_trim Automaton.closed_product,
    fun d ps hd hps ↦ ?_, fun g h ↦ ?_⟩
  · refine analysisFound fun p hp ↦ ?_
    obtain ⟨hleft, hbody⟩ := (Draft.lawful_after hd).prepared.of_registerAll hps hp
    exact ⟨hleft, hbody.closed⟩
  · obtain ⟨d, hd, hfinish⟩ := Draft.exists_after h
    have hg := Draft.registered_of_finish hfinish
    have hclosed := hasClosedBodies_of_finish (Draft.lawful_after hd) hfinish
    have hgoals := goals_ne_nil_of_finish (Draft.hasNamedRules_after hd) (hsize d hd) hfinish
    obtain ⟨t, ht⟩ := exists_construct hclosed hgoals
    have hlinked := linked_of_construct ht
    exact ⟨t, ht, grounded_of_construct hg hclosed ht, hlinked,
      fun r hr e he ↦ hlinked.refers hr he⟩

end Grammar

namespace Nested

def definitions : List Definition :=
  [.goal "S" (.alternation [.literal "x", .sequence [.literal "(", .symbol "S", .literal ")"]])
    [Grammar.endOfInput]]

def grammar : Grammar := (Grammar.define .parser definitions).toOption.get (by decide +kernel)

theorem define_definitions : Grammar.define .parser definitions = .ok grammar :=
  eq_ok_of_toOption (Option.some_get _).symm

theorem size_prepared (d : Draft) (h : Draft.after .parser definitions definitions = .ok d) :
    d.prepared.rules.size ≤ 65536 := by
  have hsize : (Draft.after .parser definitions definitions).toOption.all
      (·.prepared.rules.size ≤ 65536) := by
    decide +kernel
  rw [h] at hsize
  exact of_decide_eq_true hsize

theorem define_total_nested : grammar.goals.map (·.2.left) = ["S'"] ∧
    ∃ t, grammar.construct = .ok t ∧ t.Grounded grammar ∧ t.Linked := by
  obtain ⟨-, -, -, htotal⟩ := Grammar.define_total size_prepared
  obtain ⟨t, ht, hgrounded, hlinked, -⟩ := htotal grammar define_definitions
  exact ⟨by decide +kernel, t, ht, hgrounded, hlinked⟩

end Nested

end RightPart
