import RightPart.Proofs.Tables.Choice
import RightPart.Proofs.Tables.Linked

namespace RightPart

section Repeated

variable {κ ν : Type} [DecidableEq κ] {l l' : List (κ × ν)}

/-- The keys that come more than once, in the order in which they first come, each with all its
values in their order. -/
def repeated (l : List (κ × ν)) : List (κ × List ν) :=
  ((l.map Prod.fst).eraseDups.filter fun k ↦ 2 ≤ (l.map Prod.fst).count k).map fun k ↦
    (k, valuesAt l k)

theorem ambiguous_eq [Ord κ] [Std.TransOrd κ] [Std.LawfulEqOrd κ] (l : List (κ × ν)) :
    ambiguous l = repeated l := by
  rw [ambiguous, OrderedMap.entries_group, List.filter_map, repeated]
  refine congrArg _ (List.filter_congr fun k _ ↦ ?_)
  rw [Function.comp_apply, length_valuesAt]
  rfl

theorem repeated_append (hnew : ∀ k ∈ l'.map Prod.fst, k ∉ l.map Prod.fst)
    (hnodup : (l'.map Prod.fst).Nodup) : repeated (l ++ l') = repeated l := by
  have hold : ∀ k ∈ (l.map Prod.fst).eraseDups, k ∉ l'.map Prod.fst := fun k hk hk' ↦
    hnew k hk' (List.mem_eraseDups.1 hk)
  have hleft : (l.map Prod.fst).eraseDups.filter (fun k ↦ 2 ≤ ((l ++ l').map Prod.fst).count k) =
      (l.map Prod.fst).eraseDups.filter fun k ↦ 2 ≤ (l.map Prod.fst).count k := by
    refine List.filter_congr fun k hk ↦ ?_
    rw [List.map_append, List.count_append, List.count_eq_zero.2 (hold k hk), Nat.add_zero]
  have hright : ((l'.map Prod.fst).removeAll (l.map Prod.fst)).eraseDups.filter
      (fun k ↦ 2 ≤ ((l ++ l').map Prod.fst).count k) = [] := by
    refine List.filter_eq_nil_iff.2 fun k hk ↦ ?_
    have hk' : k ∈ l'.map Prod.fst := (List.mem_filter.1 (List.mem_eraseDups.1 hk)).1
    have hone := List.nodup_iff_count_le_one.1 hnodup k
    rw [List.map_append, List.count_append, List.count_eq_zero.2 (hnew k hk'), Nat.zero_add,
      decide_eq_true_eq]
    omega
  rw [repeated, List.map_append, List.eraseDups_append, ← List.map_append, List.filter_append,
    hleft, hright, List.append_nil, repeated]
  refine List.map_congr_left fun k hk ↦ ?_
  rw [valuesAt_append, valuesAt_eq_nil (hold k (List.mem_filter.1 hk).1), List.append_nil]

end Repeated

def ReadaheadState.report (i : Nat) (s : ReadaheadState) : Conflict :=
  .readahead i (repeated (s.transitions.map fun e ↦ (e.1.name, e.2)))

def ReduceState.report (i : Nat) (s : ReduceState) : Conflict :=
  .reduce i s.nonterminal (repeated (s.restarts.map fun r ↦ (r.source, r.target)))

theorem eq_unless {α : Type} {o : Option α} {a : α} {p : Prop} [Decidable p] (hnone : o = none ↔ p)
    (h : o = none ∨ o = some a) : o = if p then none else some a := by
  split
  · exact hnone.2 ‹_›
  · exact h.resolve_left (mt hnone.1 ‹_›)

theorem ReadaheadState.conflict?_eq (s : ReadaheadState) (i : Nat) :
    s.conflict? i = if s.IsDeterministic then none else some (s.report i) := by
  refine eq_unless conflict?_eq_none ?_
  rw [conflict?, ambiguous_eq]
  split
  · exact .inl rfl
  · exact .inr rfl

theorem ReduceState.conflict?_eq (s : ReduceState) (i : Nat) :
    s.conflict? i = if s.IsDeterministic then none else some (s.report i) := by
  refine eq_unless conflict?_eq_none ?_
  rw [conflict?, ambiguous_eq]
  split
  · exact .inl rfl
  · exact .inr rfl

theorem filterMap_unless {α β : Type} (p : α → Prop) [DecidablePred p] (f : α → β) (l : List α) :
    (l.filterMap fun a ↦ if p a then none else some (f a)) = (l.filter fun a ↦ ¬ p a).map f := by
  induction l with
  | nil => rfl
  | cons a l ih => by_cases h : p a <;> simp [h, ih]

/-- The states that leave a choice are reported, and no others, in their order. -/
theorem findConflicts_eq (l : List ReadaheadState) (l' : List ReduceState) :
    findConflicts l l' =
      (l.zipIdx.filter fun e ↦ ¬ e.1.IsDeterministic).map (fun e ↦ e.1.report e.2) ++
        (l'.zipIdx.filter fun e ↦ ¬ e.1.IsDeterministic).map fun e ↦ e.1.report e.2 := by
  simp only [findConflicts, ReadaheadState.conflict?_eq, ReduceState.conflict?_eq]
  rw [filterMap_unless fun e : ReadaheadState × Nat ↦ e.1.IsDeterministic,
    filterMap_unless fun e : ReduceState × Nat ↦ e.1.IsDeterministic]

namespace Grammar

variable {g : Grammar} {t : Tables} {a : ReadaheadAutomaton} {node : ReadaheadNode} {n : Nat}
  {moves : List (Label × Target)}

theorem nodup_bridges : ((a.bridges g n node moves).map (·.1.name)).Nodup := by
  rw [ReadaheadAutomaton.bridges, List.Nodup, List.pairwise_map]
  refine List.Pairwise.filterMap _ (R := fun e e' ↦ e.1 ≠ e'.1) ?_ ?_
  · intro e e' hne b hb b' hb'
    obtain ⟨k, -, rfl⟩ := Option.map_eq_some_iff.1 hb
    obtain ⟨k', -, rfl⟩ := Option.map_eq_some_iff.1 hb'
    exact hne
  · rw [← List.pairwise_map, OrderedMap.map_fst_entries]
    exact OrderedSet.nodup _

/-- The readahead states of a scanner before they are let go on after a token. -/
def unbridged (g : Grammar) : List ReadaheadState :=
  g.automaton.states (g.automaton.follows g) fun _ s ↦ g.scannerMoves s

def bridge (g : Grammar) (n : Nat) (s : ReadaheadState) : ReadaheadState :=
  { s with transitions := s.transitions ++
      g.automaton.bridges g n ⟨s.initialItems, s.finalItems, []⟩ s.transitions }

theorem conflict?_bridge (s : ReadaheadState) : (g.bridge n s).conflict? n = s.conflict? n := by
  have hrepeated : repeated ((g.bridge n s).transitions.map fun e ↦ (e.1.name, e.2)) =
      repeated (s.transitions.map fun e ↦ (e.1.name, e.2)) := by
    rw [bridge, List.map_append]
    refine repeated_append (fun k hk hk' ↦ ?_) ?_
    · simp only [List.map_map, List.mem_map, Function.comp_apply] at hk hk'
      obtain ⟨⟨l, target⟩, hbridge, rfl⟩ := hk
      obtain ⟨e, he, hname⟩ := hk'
      obtain ⟨y, k, i, -, rfl, -, -, hfresh⟩ := ReadaheadAutomaton.of_mem_bridges hbridge
      exact hfresh e he hname
    · rw [List.map_map]
      exact nodup_bridges
  simp only [ReadaheadState.conflict?, ambiguous_eq, hrepeated]

theorem readaheads_scannerTables :
    (g.scannerTables g.automaton).readaheads = g.unbridged.zipIdx.map fun e ↦ g.bridge e.2 e.1 := by
  refine List.ext_getElem? fun n ↦ ?_
  rw [getElem?_scannerReadaheads, List.getElem?_map, List.getElem?_zipIdx, unbridged,
    ReadaheadAutomaton.states, List.getElem?_map, List.getElem?_zipIdx, Array.getElem?_toList]
  simp only [Option.map_map, Nat.zero_add]
  rfl

theorem findConflicts_bridge (l : List ReadaheadState) :
    findConflicts (l.zipIdx.map fun e ↦ g.bridge e.2 e.1) [] = findConflicts l [] := by
  have hzip : (l.zipIdx.map fun e ↦ g.bridge e.2 e.1).zipIdx = l.zipIdx.map fun e ↦
      (g.bridge e.2 e.1, e.2) := by
    refine List.ext_getElem? fun n ↦ ?_
    simp only [List.getElem?_zipIdx, List.getElem?_map, Option.map_map, Nat.zero_add]
    rfl
  rw [findConflicts, findConflicts, hzip, List.filterMap_map]
  refine congrArg (· ++ _) (List.filterMap_congr fun e _ ↦ ?_)
  exact conflict?_bridge e.1

/-- The conflicts are the reports of the states that leave a choice, each reported once, the
readahead states before the reduce states. A scanner has the conflicts that it had before it was let
go on after a token. -/
theorem conflicts_exact (ht : g.construct = .ok t) :
    t.conflicts = (t.readaheads.zipIdx.filter fun e ↦ ¬ e.1.IsDeterministic).map
        (fun e ↦ e.1.report e.2) ++
        (t.reduces.zipIdx.filter fun e ↦ ¬ e.1.IsDeterministic).map (fun e ↦ e.1.report e.2) ∧
      (g.kind.isScanner → t.readaheads = (g.unbridged.zipIdx.map fun e ↦ g.bridge e.2 e.1) ∧
        t.conflicts = (g.unbridged.zipIdx.filter fun e ↦ ¬ e.1.IsDeterministic).map
          fun e ↦ e.1.report e.2) := by
  refine ⟨(conflicts_eq ht).trans (findConflicts_eq ..), fun hk ↦ ?_⟩
  obtain rfl := eq_scannerTables ht hk
  refine ⟨readaheads_scannerTables, ?_⟩
  have hbefore : (g.scannerTables g.automaton).conflicts = findConflicts g.unbridged [] := by
    rw [← findConflicts_bridge, ← readaheads_scannerTables]
    rfl
  rw [hbefore, findConflicts_eq, List.zipIdx_nil, List.filter_nil, List.map_nil, List.append_nil]

end Grammar

namespace Clash

def definitions : List Definition :=
  [.production "E" (.literal "e"),
    .goal "S" (.alternation [
      .sequence [.symbol "E", .literal "x"],
      .sequence [.attributed (.symbol "E") ["noNode"], .literal "y"],
      .sequence [.literal "a", .literal "b"],
      .sequence [.attributed (.literal "a") ["keep"], .literal "c"]]) [Grammar.endOfInput]]

def grammar : Grammar := (Grammar.define .parser definitions).toOption.get (by decide +kernel)

def tables : Tables := grammar.construct.toOption.get (by decide +kernel)

theorem construct_grammar : grammar.construct = .ok tables :=
  eq_ok_of_toOption (Option.some_get _).symm

end Clash

namespace Twins

def definitions : List Definition :=
  [.production "A" (.literal "a"),
    .goal "T"
    (.alternation [.symbol "A", .literal "a", .attributed (.literal "a") ["noKeep"]]) ["b"]]

def grammar : Grammar := (Grammar.define .scanner definitions).toOption.get (by decide +kernel)

def tables : Tables := grammar.construct.toOption.get (by decide +kernel)

theorem construct_grammar : grammar.construct = .ok tables :=
  eq_ok_of_toOption (Option.some_get _).symm

theorem conflicts_exact_clash :
    Clash.tables.conflicts =
        [.readahead 0 [("a", [.readahead 3, .readahead 4])], .reduce 0 "E" [(0, [1, 2])]] ∧
      tables.conflicts = [.readahead 0 [("a", [.readahead 1, .readahead 2])]] ∧
      (tables.readaheads.map fun s ↦ s.transitions.filter (·.1.name = "b")) =
        [[], [(.look "b", .readahead 0)], [(.look "b", .readahead 0)]] := by
  obtain ⟨hclash, -⟩ := Grammar.conflicts_exact Clash.construct_grammar
  obtain ⟨-, htwins⟩ := Grammar.conflicts_exact construct_grammar
  obtain ⟨hreadaheads, hconflicts⟩ := htwins (by decide +kernel)
  refine ⟨hclash.trans (by decide +kernel), hconflicts.trans (by decide +kernel), ?_⟩
  rw [hreadaheads]
  decide +kernel

end Twins

end RightPart
