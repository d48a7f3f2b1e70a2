import RightPart.Proofs.Grammar.Prepared
import RightPart.Proofs.Machine.Progress
import RightPart.Proofs.Tables.Semantic

namespace RightPart

namespace Grammar

variable {g : Grammar} {d : Draft} {t : Tables} {n m j : Nat} {l : Label} {name : String}

theorem isNonterminalLabel_and_name_iff (hn : g.isNonterminal name) :
    g.isNonterminalLabel l ∧ l.name = name ↔ ∃ a, l = .symbol name a := by
  constructor
  · intro h
    obtain ⟨hl, rfl⟩ := h
    cases l with
    | symbol n a => exact ⟨a, rfl⟩
    | action => simp [isNonterminalLabel, Label.isAction] at hl
  · intro h
    obtain ⟨a, rfl⟩ := h
    simpa [isNonterminalLabel, Label.isAction, Label.name] using hn

theorem nodup_reduced (hr : g.Registered) : g.reduced.Nodup := by
  have hentries : g.productions.entries.Nodup := by
    refine List.Nodup.of_map Prod.fst ?_
    rw [OrderedMap.map_fst_entries]
    exact g.productions.keySet.nodup
  have hlefts : (g.productions.values.map Production.left).Nodup := by
    rw [← OrderedMap.map_snd_entries, List.map_map]
    exact hentries.map_on hr.left_inj
  exact hlefts.sublist (List.filter_sublist.map Production.left)

section Tables

variable (ht : t = g.parserTables g.automaton g.itemGraph)

include ht

theorem isStackable_iff :
    (∃ u, t.readaheads[n]? = some u ∧ u.isStackable) ↔ n ∈ g.automaton.stackable := by
  subst ht
  rw [getElem?_readaheads]
  constructor
  · intro h
    obtain ⟨u, hu, hstack⟩ := h
    obtain ⟨s, -, rfl⟩ := Option.map_eq_some_iff.1 hu
    exact of_decide_eq_true hstack
  · intro h
    have hlt := lt_of_mem_stackable h
    exact ⟨g.aheadState g.automaton.nodes[n] n, by simp [hlt], decide_eq_true h⟩

theorem map_nonterminal_reduces : t.reduces.map ReduceState.nonterminal = g.reduced := by
  subst ht
  change (g.reduced.map _).map ReduceState.nonterminal = _
  rw [List.map_map]
  exact List.map_id _

/-- The reduce state of a nonterminal restarts after each step over it, from the source of the step
and from every state of the stack that leads there without reading. -/
theorem mem_restarts_reduce {s : ReduceState} (hs : s ∈ t.reduces)
    (hn : g.isNonterminal s.nonterminal) {r : Restart} :
      r ∈ s.restarts ↔ (∃ a, r.label = .symbol s.nonterminal a) ∧
      ∃ n, g.automaton.Edge n r.label r.target ∧ (r.source = n ∨
        (∃ u, t.readaheads[r.source]? = some u ∧ u.isStackable) ∧
          Relation.TransGen g.automaton.Silent r.source n) := by
  obtain ⟨j, hj⟩ := List.mem_iff_getElem?.1 hs
  have hrestarts : r ∈ s.restarts ↔
      r ∈ g.automaton.restarts g g.automaton.stackable g.automaton.silentBack s.nonterminal := by
    subst ht
    rw [getElem?_reduces] at hj
    obtain ⟨name, -, rfl⟩ := Option.map_eq_some_iff.1 hj
    rfl
  rw [hrestarts, ReadaheadAutomaton.mem_restarts, isStackable_iff ht,
    ← isNonterminalLabel_and_name_iff hn]
  constructor
  · intro h
    obtain ⟨n, he, hl, hname, h⟩ := h
    refine ⟨⟨hl, hname⟩, n, he, h.imp_right fun h ↦ ⟨h.2.2, ?_⟩⟩
    exact (Relation.reflTransGen_iff_eq_or_transGen.1 h.1).resolve_left (Ne.symm h.2.1)
  · intro h
    obtain ⟨⟨hl, hname⟩, n, he, h⟩ := h
    refine ⟨n, he, hl, hname, ?_⟩
    by_cases hsource : r.source = n
    · exact .inl hsource
    · obtain ⟨hstack, hsilent⟩ := h.resolve_left hsource
      exact .inr ⟨hsilent.to_reflTransGen, hsource, hstack⟩

theorem not_isNonterminalLabel_of_mem (hr : g.Registered) {u : ReadaheadState}
    (hu : u ∈ t.readaheads) (hmem : (l, .readahead m) ∈ u.transitions) :
    g.isNonterminalLabel l = false := by
  obtain ⟨n, hn⟩ := List.mem_iff_getElem?.1 hu
  cases (mem_readahead hr ht).1 ⟨u, hn, hmem⟩ with
  | step _ hl _ => exact hl

theorem exists_restart_of_mem (hr : g.Registered) (hk : g.kind = .parser) {b : ReadbackState}
    (hb : b ∈ t.readbacks) {e : StackEntry} (he : (e, .reduce j) ∈ b.transitions) :
    ∃ s, t.reduces[j]? = some s ∧ ∃ r ∈ s.restarts, r.source = e.readahead := by
  obtain ⟨k, hb⟩ := List.mem_iff_getElem?.1 hb
  obtain ⟨n, hn, hmove⟩ := (mem_readback ht).1 ⟨b, hb, he⟩
  cases hmove with
  | found hj hbelow => exact exists_reduce_restart hr hk ht hn hj hbelow

end Tables

/-- There is a reduce state for each production that is not that of a goal. It restarts after every
step over its nonterminal, read or looked at, from the source of the step and from every state of
the stack from which the source is reached without reading; for each entry that sends a readback
state to it there is a restart. No such step is left in the readahead states. -/
theorem restarts_cover_lookback (hd : d.Built) (h : d.finish = .ok g) (hk : g.kind = .parser)
    (ht : g.construct = .ok t) :
    t.reduces.map ReduceState.nonterminal =
      (g.productions.values.filter (!·.isGoal)).map Production.left ∧
    (t.reduces.map ReduceState.nonterminal).Nodup ∧
    (∀ s ∈ t.reduces, s.restarts.Nodup ∧ ∀ r, r ∈ s.restarts ↔
      (∃ a, r.label = .symbol s.nonterminal a) ∧
      ∃ n, g.automaton.Edge n r.label r.target ∧ (r.source = n ∨
        (∃ u, t.readaheads[r.source]? = some u ∧ u.isStackable) ∧
          Relation.TransGen g.automaton.Silent r.source n)) ∧
    (∀ u ∈ t.readaheads, ∀ l m, (l, .readahead m) ∈ u.transitions →
      g.isNonterminalLabel l = false) ∧
    ∀ b ∈ t.readbacks, ∀ e j, (e, .reduce j) ∈ b.transitions →
      ∃ s, t.reduces[j]? = some s ∧ ∃ r ∈ s.restarts, r.source = e.readahead := by
  have hr := Draft.registered_of_finish h
  have htables := eq_parserTables ht hk
  have hreduces := map_nonterminal_reduces htables
  refine ⟨hreduces, hreduces ▸ nodup_reduced hr,
    fun s hs ↦ ⟨?_, fun r ↦ mem_restarts_reduce htables hs ?_⟩,
    fun u hu l m ↦ not_isNonterminalLabel_of_mem htables hr hu,
    fun b hb e j ↦ exists_restart_of_mem htables hr hk hb⟩
  · subst htables
    obtain ⟨name, -, rfl⟩ := List.mem_map.1 hs
    exact OrderedSet.nodup _
  · have hname : s.nonterminal ∈ g.reduced := hreduces ▸ List.mem_map_of_mem hs
    obtain ⟨p, hp, hleft⟩ := List.mem_map.1 hname
    obtain ⟨id, hp⟩ := exists_get? (List.mem_filter.1 hp).1
    exact hleft ▸ hd.isNonterminal h hp

end Grammar

theorem Marks.mem_restarts_marks :
    ∃ s ∈ tables.reduces, s.nonterminal = "L" ∧ ⟨2, call, 4⟩ ∈ s.restarts := by
  obtain ⟨d, hd, h⟩ := Draft.exists_built define_definitions
  obtain ⟨-, -, hrestarts, -⟩ :=
    Grammar.restarts_cover_lookback hd h (by decide +kernel) construct_grammar
  have hreduce : "L" ∈ tables.reduces.map ReduceState.nonterminal := by decide +kernel
  obtain ⟨s, hs, hname⟩ := List.mem_map.1 hreduce
  have hmark : (2, mark, 3) ∈ grammar.automaton.edges := by decide +kernel
  have hcall : (3, call, 4) ∈ grammar.automaton.edges := by decide +kernel
  have hstack : (tables.readaheads[2]?).any ReadaheadState.isStackable := by decide +kernel
  obtain ⟨u, hu, hstack⟩ := (Option.any_eq_true _ _).1 hstack
  have hsilent : grammar.automaton.Silent 2 3 := ⟨mark, ReadaheadAutomaton.mem_edges.1 hmark, rfl⟩
  have hlabel : call = .symbol s.nonterminal .parserNonterminal := by rw [hname, call]
  refine ⟨s, hs, hname, ((hrestarts s hs).2 _).2 ⟨⟨_, hlabel⟩, 3, ?_, .inr ⟨⟨u, hu, hstack⟩, ?_⟩⟩⟩
  · exact ReadaheadAutomaton.mem_edges.1 hcall
  · exact .single hsilent

end RightPart
