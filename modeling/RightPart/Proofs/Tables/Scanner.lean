import RightPart.Proofs.Readahead.Lexical
import RightPart.Proofs.Tables.Determinism

namespace RightPart

namespace ReadaheadAutomaton

variable {a : ReadaheadAutomaton} {g : Grammar} {n k : Nat} {i : Item} {s : ReadaheadNode}
  {y : String} {l : Label} {target : Target} {moves : List (Label × Target)}

theorem mem_itemBridges :
    (y, k) ∈ a.itemBridges g n i ↔ ∃ p, g.productions.get? i.production = some p ∧
    p.body.isFinalAt i.state ∧ a.restartOf i.production = k ∧ k ≠ n ∧ y ∈ p.follow := by
  unfold itemBridges
  cases hp : g.productions.get? i.production with
  | none => simp
  | some p =>
    simp only [Option.some.injEq, exists_eq_left']
    split
    · rename_i h
      simp only [Bool.and_eq_true, decide_eq_true_eq] at h
      simp only [List.mem_map, Prod.mk.injEq, ← OrderedSet.mem_def]
      constructor
      · intro hy
        obtain ⟨_, hy, rfl, rfl⟩ := hy
        exact ⟨h.1, rfl, h.2, hy⟩
      · intro hy
        obtain ⟨-, rfl, -, hy⟩ := hy
        exact ⟨y, hy, rfl, rfl⟩
    · rename_i h
      refine ⟨fun hy ↦ absurd hy List.not_mem_nil, fun hy ↦ absurd ?_ h⟩
      obtain ⟨hf, rfl, hk, -⟩ := hy
      simp [hf, hk]

theorem of_mem_bridges (h : (l, target) ∈ a.bridges g n s moves) :
    ∃ y k, ∃ i ∈ s.items, l = .look y ∧
    target = .readahead k ∧ (y, k) ∈ a.itemBridges g n i ∧ ∀ e ∈ moves, e.1.name ≠ y := by
  obtain ⟨⟨y, vs⟩, he, h⟩ := List.mem_filterMap.1 h
  obtain ⟨k, hk, heq⟩ := Option.map_eq_some_iff.1 h
  obtain ⟨rfl, rfl⟩ := Prod.mk.inj heq
  have hfresh := OrderedMap.mem_of_mem_group he (List.mem_of_mem_head? hk)
  obtain ⟨hmem, htaken⟩ := List.mem_filter.1 hfresh
  obtain ⟨i, hi, hy⟩ := List.mem_flatMap.1 hmem
  refine ⟨y, k, i, hi, rfl, rfl, hy, fun e he hn ↦ ?_⟩
  simp only [decide_eq_true_eq, OrderedSet.mem_ofList] at htaken
  exact htaken (List.mem_map.2 ⟨e, he, hn⟩)

theorem exists_mem_bridges (hi : i ∈ s.items) (hy : (y, k) ∈ a.itemBridges g n i)
    (hmoves : ∀ e ∈ moves, e.1.name ≠ y) : ∃ k', ∃ i' ∈ s.items, (y, k') ∈ a.itemBridges g n i' ∧
      (.look y, .readahead k') ∈ a.bridges g n s moves := by
  have htaken : y ∉ OrderedSet.ofList (moves.map (·.1.name)) := by
    rw [OrderedSet.mem_ofList, List.mem_map]
    intro h
    obtain ⟨e, he, hn⟩ := h
    exact hmoves e he hn
  have hfresh : (y, k) ∈ (s.items.toList.flatMap (a.itemBridges g n)).filter
      (·.1 ∉ OrderedSet.ofList (moves.map (·.1.name))) :=
    List.mem_filter.2 ⟨List.mem_flatMap.2 ⟨i, hi, hy⟩, decide_eq_true htaken⟩
  obtain ⟨k', vs, hgroup⟩ := OrderedMap.exists_mem_group hfresh
  have hk' := (List.mem_filter.1 (OrderedMap.mem_of_mem_group hgroup List.mem_cons_self)).1
  obtain ⟨i', hi', hy'⟩ := List.mem_flatMap.1 hk'
  exact ⟨k', i', hi', hy', List.mem_filterMap.2 ⟨_, hgroup, rfl⟩⟩

end ReadaheadAutomaton

namespace Grammar

variable {g : Grammar} {d : Draft} {e : ProductionId × Production} {n m k : Nat} {w : List Label}
  {l : Label} {target : Target} {s : ReadaheadNode}

def scannerMoves (g : Grammar) (s : ReadaheadNode) : List (Label × Target) :=
  s.exits.flatMap (ReadaheadAutomaton.exitTransitions g.automaton.semantics
    (ReadaheadAutomaton.followAt (g.automaton.follows g)))

def scannerState (g : Grammar) (s : ReadaheadNode) (n : Nat) : ReadaheadState where
  initialItems := s.kernel
  finalItems := s.items
  follow := ReadaheadAutomaton.followAt (g.automaton.follows g) n
  isStackable := n ∈ g.automaton.stackable
  transitions := g.scannerMoves s ++ g.automaton.bridges g n s (g.scannerMoves s)

theorem getElem?_scannerReadaheads (n : Nat) : (g.scannerTables g.automaton).readaheads[n]? =
    g.automaton.nodes[n]?.map (g.scannerState · n) := by
  change (g.automaton.nodes.toList.zipIdx.map fun e ↦ g.scannerState e.1 e.2)[n]? = _
  rw [List.getElem?_map, List.getElem?_zipIdx, Array.getElem?_toList, Option.map_map, Nat.zero_add]
  rfl

theorem restartOf_seed (he : e ∈ g.goals) (hseed : (n, e.1) ∈ g.automaton.seeds) :
    g.automaton.restartOf e.1 = n := by
  obtain ⟨n', hn'⟩ := exists_seed he
  obtain rfl := (hn' n).1 hseed
  unfold ReadaheadAutomaton.restartOf
  cases hfind : g.automaton.seeds.find? (·.2 = e.1) with
  | none => simpa using List.find?_eq_none.1 hfind _ hseed
  | some x =>
    obtain ⟨k, id⟩ := x
    obtain rfl : id = e.1 := by simpa using List.find?_some hfind
    exact (hn' k).1 (List.mem_of_find?_eq_some hfind)

/-- The moves after a word from the seed `n` of a goal: reading a symbol, or leaving a complete
token before a symbol that may follow it and that it cannot go on with. -/
inductive TokenMove (g : Grammar) (e : ProductionId × Production) (n : Nat) (w : List Label)
    (m : Nat) :
    Label → Target → Prop
  | read {l : Label} {k : Nat} : g.automaton.Edge m l k → TokenMove g e n w m l (.readahead k)
  | leave {y : String} : w ∈ e.2.body.language → m ≠ n → y ∈ e.2.lookahead.getD ∅ →
      (∀ l k, g.automaton.Edge m l k → l.name ≠ y) → TokenMove g e n w m (.look y) (.readahead n)

section Lexical

variable (h : g.IsLexical)

include h

theorem IsLexical.isReadTerminal_of_edge (hedge : g.automaton.Edge m l k) : g.isReadTerminal l := by
  obtain ⟨i, j, -, hij⟩ := exists_mem_steps_of_edge hedge
  obtain ⟨-, p, hp, ht⟩ := mem_steps.1 hij
  exact h.isReadTerminal hp ht

theorem IsLexical.mem_scannerMoves (hs : g.automaton.nodes[m]? = some s) :
    (l, target) ∈ g.scannerMoves s ↔ ∃ k, g.automaton.Edge m l k ∧ target = .readahead k := by
  have hexit : ∀ x ∈ s.exits, ReadaheadAutomaton.exitTransitions g.automaton.semantics
      (ReadaheadAutomaton.followAt (g.automaton.follows g)) x = [(x.1, .readahead x.2)] := by
    intro x hx
    have hread := isRead_of_isReadTerminal (h.isReadTerminal_of_edge ⟨s, hs, hx⟩)
    rw [ReadaheadAutomaton.exitTransitions, Label.isAction_of_isRead hread]
    rfl
  unfold scannerMoves
  rw [List.mem_flatMap]
  constructor
  · intro hm
    obtain ⟨x, hx, hm⟩ := hm
    rw [hexit x hx] at hm
    obtain ⟨rfl, rfl⟩ := Prod.mk.inj (List.mem_singleton.1 hm)
    exact ⟨x.2, ⟨s, hs, hx⟩, rfl⟩
  · intro hm
    obtain ⟨k, hk, rfl⟩ := hm
    have hx := (ReadaheadAutomaton.edge_iff hs).1 hk
    exact ⟨(l, k), hx, by rw [hexit _ hx]; exact List.mem_singleton_self _⟩

theorem IsLexical.mem_itemBridges (hd : d.finish = .ok g) (he : e ∈ g.goals)
    (hseed : (n, e.1) ∈ g.automaton.seeds) (hw : g.automaton.Leads n w m) {y : String} :
    (∃ i, g.automaton.Holds m i ∧ (y, k) ∈ g.automaton.itemBridges g m i) ↔
      w ∈ e.2.body.language ∧ k = n ∧ m ≠ n ∧ y ∈ e.2.lookahead.getD ∅ := by
  have hp := (mem_goals.1 he).1
  simp only [h.holds_iff he hseed hw, ReadaheadAutomaton.mem_itemBridges, ← h.mem_follow hd he]
  constructor
  · intro hy
    obtain ⟨i, ⟨hid, hreach⟩, p, hp', hf, rfl, hne, hy⟩ := hy
    rw [hid, hp] at hp'
    obtain rfl := Option.some.inj hp'
    rw [hid, restartOf_seed he hseed] at hne ⊢
    exact ⟨Automaton.mem_language_iff_reaches.2 ⟨i.state, hreach, hf⟩, rfl, hne.symm, hy⟩
  · intro hy
    obtain ⟨hlang, rfl, hne, hy⟩ := hy
    obtain ⟨i, hreach, hf⟩ := Automaton.mem_language_iff_reaches.1 hlang
    exact ⟨⟨e.1, i⟩, ⟨rfl, hreach⟩, e.2, hp, hf, restartOf_seed he hseed, hne.symm, hy⟩

theorem IsLexical.mem_scannerState (hd : d.finish = .ok g) (he : e ∈ g.goals)
    (hseed : (n, e.1) ∈ g.automaton.seeds) (hw : g.automaton.Leads n w m)
    (hs : g.automaton.nodes[m]? = some s) :
    (l, target) ∈ (g.scannerState s m).transitions ↔ g.TokenMove e n w m l target := by
  have hbridge := fun y k ↦ h.mem_itemBridges hd he hseed hw (y := y) (k := k)
  simp only [ReadaheadAutomaton.holds_iff hs] at hbridge
  have hname : ∀ y, (∀ x ∈ g.scannerMoves s, x.1.name ≠ y) ↔
      ∀ l k, g.automaton.Edge m l k → l.name ≠ y := by
    intro y
    constructor
    · intro hy l k hk
      exact hy (l, .readahead k) ((h.mem_scannerMoves hs).2 ⟨k, hk, rfl⟩)
    · intro hy x hx
      obtain ⟨k, hk, -⟩ := (h.mem_scannerMoves hs).1 hx
      exact hy x.1 k hk
  rw [scannerState, List.mem_append, h.mem_scannerMoves hs]
  constructor
  · intro hm
    rcases hm with ⟨k, hk, rfl⟩ | hm
    · exact .read hk
    · obtain ⟨y, k, i, hi, rfl, rfl, hy, hfree⟩ := ReadaheadAutomaton.of_mem_bridges hm
      obtain ⟨hlang, rfl, hne, hy⟩ := (hbridge y k).1 ⟨i, hi, hy⟩
      exact .leave hlang hne hy ((hname y).1 hfree)
  · intro hm
    cases hm with
    | read hk => exact .inl ⟨_, hk, rfl⟩
    | @leave y hlang hne hy hfree =>
      obtain ⟨i, hi, hy⟩ := (hbridge y n).2 ⟨hlang, rfl, hne, hy⟩
      obtain ⟨k, i', hi', hy', hm⟩ :=
        ReadaheadAutomaton.exists_mem_bridges hi hy ((hname y).2 hfree)
      obtain ⟨-, rfl, -⟩ := (hbridge y k).1 ⟨i', hi', hy'⟩
      exact .inr hm

end Lexical

end Grammar

end RightPart
