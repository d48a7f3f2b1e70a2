import RightPart.Proofs.Machine.Basic
import RightPart.Proofs.Tables.Parser

namespace RightPart

namespace Grammar

/-- What the machine of a parser does, told by the automata that its tables are made from. -/
inductive Step (g : Grammar) : Configuration → Configuration → Prop
  | look {n m : Nat} {l : Label} {σ : List Frame} {x f : List String} :
      g.automaton.Edge n l m → g.isNonterminalLabel l = false → l.isAction = false →
      l.isRead = false →
      Step g ⟨.readahead n, σ, l.name :: x, f⟩ ⟨.readahead m, σ, l.name :: x, f⟩
  | read {n m : Nat} {l : Label} {σ : List Frame} {x f : List String} :
      g.automaton.Edge n l m → g.isNonterminalLabel l = false → l.isRead →
      Step g ⟨.readahead n, σ, l.name :: x, f⟩ ⟨.readahead m, ⟨l.name, m⟩ :: σ, x, f⟩
  | action {n m k : Nat} {l : Label} {name : String} {σ : List Frame} {x f : List String} :
      g.automaton.Edge n l m → l.isAction → g.automaton.semantics.toList[k]? = some ⟨l, m⟩ →
      g.Next m name → Step g ⟨.readahead n, σ, name :: x, f⟩ ⟨.semantic k, σ, name :: x, f⟩
  | perform {m k : Nat} {l : Label} {σ : List Frame} {x f : List String} :
      g.automaton.semantics.toList[k]? = some ⟨l, m⟩ →
      Step g ⟨.semantic k, σ, x, f⟩ ⟨.readahead m, σ, x, f ++ [l.name]⟩
  | accept {n : Nat} {i : Item} {p : Production} {names : OrderedSet String} {name : String}
      {σ : List Frame} {x f : List String} :
      g.automaton.Holds n i → g.Ends i p → p.lookahead = some names → name ∈ names →
      Step g ⟨.readahead n, σ, name :: x, f⟩ ⟨.accept, σ, name :: x, f⟩
  | complete {n k : Nat} {id : ProductionId} {p : Production} {m : ReadbackNode} {name : String}
      {σ : List Frame} {x f : List String} :
      g.productions.get? id = some p → p.isGoal = false → g.readbackNodes.nodes[k]? = some m →
      g.IsCompletion n id p m.kernel → (∃ q, q ∈ m.kernel) → name ∈ p.follow →
      Step g ⟨.readahead n, σ, name :: x, f⟩ ⟨.readback k, σ, name :: x, f⟩
  | back {k j : Nat} {n m m' : ReadbackNode} {l : Label} {i : Nat} {σ : List Frame}
      {x f : List String} :
      g.readbackNodes.nodes[k]? = some n → (⟨l, i⟩, m) ∈ g.backGraph.exits n →
      g.readbackNodes.nodes[j]? = some m' → m'.kernel = m.kernel → σ ≠ [] →
      Step g ⟨.readback k, ⟨l.name, i⟩ :: σ, x, f⟩ ⟨.readback j, σ, x, f⟩
  | found {k j : Nat} {n : ReadbackNode} {l : Label} {i : Nat} {σ : List Frame}
      {x f : List String} :
      g.readbackNodes.nodes[k]? = some n → g.reduceFor? n.left = some j → g.Below n ⟨l, i⟩ →
      Step g ⟨.readback k, ⟨l.name, i⟩ :: σ, x, f⟩ ⟨.reduce j, ⟨l.name, i⟩ :: σ, x, f⟩
  | restart {j : Nat} {name y : String} {r : Restart} {σ : List Frame} {x f : List String} :
      g.reduced[j]? = some name →
      r ∈ g.automaton.restarts g g.automaton.stackable g.automaton.silentBack name →
      Step g ⟨.reduce j, ⟨y, r.source⟩ :: σ, x, f⟩
        ⟨.readahead r.target, ⟨name, r.target⟩ :: ⟨y, r.source⟩ :: σ, x, f⟩

variable {g : Grammar}

theorem Move.exists_node {n : Nat} {l : Label} {target : Target} (h : g.Move n l target) :
    ∃ s, g.automaton.nodes[n]? = some s := by
  cases h with
  | step he | action he =>
    obtain ⟨s, hs, -⟩ := he
    exact ⟨s, hs⟩
  | accept hi =>
    obtain ⟨s, hs, -⟩ := hi
    exact ⟨s, hs⟩
  | complete hp hgoal hm hk hq hn =>
    obtain ⟨q, hq⟩ := hq
    obtain ⟨s, hs, -⟩ := ((hk q).1 hq).2.1
    exact ⟨s, hs⟩

section Tables

variable {t : Tables} (hg : g.Registered) (ht : t = g.parserTables g.automaton g.itemGraph)

include hg ht

theorem exists_readahead {n : Nat} {s : ReadaheadNode} (hs : g.automaton.nodes[n]? = some s) :
    ∃ s', t.readaheads[n]? = some s' ∧
      ∀ l target, (l, target) ∈ s'.transitions ↔ g.Move n l target := by
  subst ht
  refine ⟨g.aheadState s n, ?_, fun l target ↦ mem_aheadTransitions hg hs⟩
  rw [getElem?_readaheads, hs, Option.map_some]

theorem mem_readahead {n : Nat} {l : Label} {target : Target} :
    (∃ s, t.readaheads[n]? = some s ∧ (l, target) ∈ s.transitions) ↔ g.Move n l target := by
  constructor
  · intro h
    obtain ⟨s', hs', h⟩ := h
    rw [ht, getElem?_readaheads, Option.map_eq_some_iff] at hs'
    obtain ⟨s, hs, rfl⟩ := hs'
    exact (mem_aheadTransitions hg hs).1 h
  · intro h
    obtain ⟨s, hs⟩ := h.exists_node
    obtain ⟨s', hs', hm⟩ := exists_readahead hg ht hs
    exact ⟨s', hs', (hm l target).2 h⟩

omit hg in
theorem exists_readback {k : Nat} {n : ReadbackNode} (hn : g.readbackNodes.nodes[k]? = some n) :
    ∃ s, t.readbacks[k]? = some s ∧ ∀ e target, (e, target) ∈ s.transitions ↔
      g.BackMove n e target := by
  subst ht
  refine ⟨_, ?_, fun e target ↦ mem_readbackState hn⟩
  rw [getElem?_readbacks, hn, Option.map_some]

omit hg in
theorem mem_readback {k : Nat} {e : StackEntry} {target : Target} :
    (∃ s, t.readbacks[k]? = some s ∧ (e, target) ∈ s.transitions) ↔
      ∃ n, g.readbackNodes.nodes[k]? = some n ∧ g.BackMove n e target := by
  subst ht
  rw [getElem?_readbacks]
  constructor
  · intro h
    obtain ⟨s, hs, h⟩ := h
    obtain ⟨n, hn, rfl⟩ := Option.map_eq_some_iff.1 hs
    exact ⟨n, hn, (mem_readbackState hn).1 h⟩
  · intro h
    obtain ⟨n, hn, h⟩ := h
    obtain ⟨s, hs, hm⟩ := exists_readback rfl hn
    exact ⟨s, getElem?_readbacks (g := g) k ▸ hs, (hm e target).2 h⟩

omit hg in
theorem exists_reduce {j : Nat} {name : String} (hj : g.reduced[j]? = some name) :
    ∃ s, t.reduces[j]? = some s ∧ s.nonterminal = name ∧ ∀ r, r ∈ s.restarts ↔
      r ∈ g.automaton.restarts g g.automaton.stackable g.automaton.silentBack name := by
  subst ht
  refine ⟨g.automaton.reduceState g g.automaton.stackable g.automaton.silentBack name, ?_, rfl,
    fun r ↦ .rfl⟩
  rw [getElem?_reduces, hj, Option.map_some]

omit hg in
theorem mem_reduce {j : Nat} {name : String} {r : Restart} :
    (∃ s, t.reduces[j]? = some s ∧ s.nonterminal = name ∧ r ∈ s.restarts) ↔
      g.reduced[j]? = some name ∧
      r ∈ g.automaton.restarts g g.automaton.stackable g.automaton.silentBack name := by
  subst ht
  rw [getElem?_reduces]
  constructor
  · intro h
    obtain ⟨s, hs, rfl, h⟩ := h
    obtain ⟨name, hn, rfl⟩ := Option.map_eq_some_iff.1 hs
    exact ⟨hn, h⟩
  · intro h
    obtain ⟨s, hs, hn, hm⟩ := exists_reduce rfl h.1
    exact ⟨s, getElem?_reduces (g := g) j ▸ hs, hn, (hm r).2 h.2⟩

theorem step_of_tables_step {c c' : Configuration} (h : t.Step c c') : g.Step c c' := by
  cases h with
  | look hs he hl =>
    cases (mem_readahead hg ht).1 ⟨_, hs, he⟩ with
    | step he hn ha => exact .look he hn ha hl
  | read hs he hl =>
    cases (mem_readahead hg ht).1 ⟨_, hs, he⟩ with
    | step he hn ha => exact .read he hn hl
  | action hs he =>
    cases (mem_readahead hg ht).1 ⟨_, hs, he⟩ with
    | action hedge ha hk hn => exact .action hedge ha hk hn
  | complete hs he =>
    cases (mem_readahead hg ht).1 ⟨_, hs, he⟩ with
    | complete hp hgoal hm hk hq hn => exact .complete hp hgoal hm hk hq hn
  | accept hs he =>
    cases (mem_readahead hg ht).1 ⟨_, hs, he⟩ with
    | accept hi hend hla hn => exact .accept hi hend hla hn
  | perform hs =>
    subst ht
    exact .perform hs
  | @back i j s e f' σ x f hs he hf hσ =>
    obtain ⟨l, i⟩ := e
    obtain ⟨y, i'⟩ := f'
    obtain ⟨rfl, rfl⟩ : l.name = y ∧ i = i' := by simpa [StackEntry.fits] using hf
    obtain ⟨n, hn, h⟩ := (mem_readback ht).1 ⟨s, hs, he⟩
    cases h with
    | back he hm hk => exact .back hn he hm hk hσ
  | @found i j s e f' σ x f hs he hf =>
    obtain ⟨l, i⟩ := e
    obtain ⟨y, i'⟩ := f'
    obtain ⟨rfl, rfl⟩ : l.name = y ∧ i = i' := by simpa [StackEntry.fits] using hf
    obtain ⟨n, hn, h⟩ := (mem_readback ht).1 ⟨s, hs, he⟩
    cases h with
    | found hk he => exact .found hn hk he
  | restart hs hr =>
    obtain ⟨hn, hr⟩ := (mem_reduce ht).1 ⟨_, hs, rfl, hr⟩
    exact .restart hn hr

theorem tables_step_of_step {c c' : Configuration} (h : g.Step c c') : t.Step c c' := by
  cases h with
  | look he hn ha hl =>
    obtain ⟨s, hs, h⟩ := (mem_readahead hg ht).2 (.step he hn ha)
    exact .look hs h hl
  | @read n m l σ x f he hn hl =>
    obtain ⟨s, hs, h⟩ := (mem_readahead hg ht).2 (.step he hn (Label.isAction_of_isRead hl))
    exact .read hs h hl
  | action he ha hk hn =>
    obtain ⟨s, hs, h⟩ := (mem_readahead hg ht).2 (.action he ha hk hn)
    exact .action hs h
  | @perform m k l σ x f hk =>
    subst ht
    exact Tables.Step.perform (s := ⟨l, m⟩) hk
  | accept hi he hla hn =>
    obtain ⟨s, hs, h⟩ := (mem_readahead hg ht).2 (.accept hi he hla hn)
    exact .accept hs h
  | complete hp hgoal hm hk hq hn =>
    obtain ⟨s, hs, h⟩ := (mem_readahead hg ht).2 (.complete hp hgoal hm hk hq hn)
    exact .complete hs h
  | back hn he hm hk hσ =>
    obtain ⟨s, hs, h⟩ := (mem_readback ht).2 ⟨_, hn, .back he hm hk⟩
    exact .back hs h (by simp [StackEntry.fits]) hσ
  | found hn hk he =>
    obtain ⟨s, hs, h⟩ := (mem_readback ht).2 ⟨_, hn, .found hk he⟩
    exact .found hs h (by simp [StackEntry.fits])
  | restart hn hr =>
    obtain ⟨s, hs, rfl, hr'⟩ := (mem_reduce ht).2 ⟨hn, hr⟩
    exact .restart hs hr'

theorem step_iff {c c' : Configuration} : t.Step c c' ↔ g.Step c c' :=
  ⟨step_of_tables_step hg ht, tables_step_of_step hg ht⟩

theorem run_iff {c c' : Configuration} : t.Run c c' ↔ Relation.ReflTransGen g.Step c c' := by
  have hs : t.Step = g.Step := funext₂ fun _ _ ↦ propext (step_iff hg ht)
  rw [Tables.Run, hs]

end Tables

end Grammar

namespace Sum

/-- The grammar of sums: `G → E`, `E → E + T | T` and `T → x`. -/
def draft : Draft :=
  let read (name : String) : Automaton := .ofLabel (.symbol name .parserTerminal)
  let call (name : String) : Automaton := .ofLabel (.symbol name .parserNonterminal)
  { kind := .parser
    nonterminals := .ofList ["E", "T", "G"]
    rules := .ofList [
      ("E",
        { body := (((call "E").concatenate (read "+")).concatenate (call "T")).union (call "T") }),
      ("T", { body := read "x" }),
      ("G", { body := call "E", lookahead := some (.ofList [Grammar.endOfInput]) })] }

def grammar : Grammar := draft.finish.toOption.get (by decide +kernel)

def tables : Tables := grammar.construct.toOption.get (by decide +kernel)

theorem finish_draft : draft.finish = .ok grammar := eq_ok_of_toOption (Option.some_get _).symm

theorem construct_grammar : grammar.construct = .ok tables :=
  eq_ok_of_toOption (Option.some_get _).symm

theorem exists_goal : ∃ e names, (e, 0) ∈ grammar.goals.zip tables.initialStates ∧ e.2.left = "G" ∧
    e.2.lookahead = some names ∧ names.toList = [Grammar.endOfInput] := by
  have h : ("G", some [Grammar.endOfInput], 0) ∈
      (grammar.goals.zip tables.initialStates).map fun x ↦
      (x.1.2.left, x.1.2.lookahead.map OrderedSet.toList, x.2) := by
    decide +kernel
  obtain ⟨⟨e, i⟩, he, h⟩ := List.mem_map.1 h
  obtain ⟨hleft, h⟩ := Prod.mk.inj h
  obtain ⟨hnames, rfl⟩ := Prod.mk.inj h
  obtain ⟨names, hnames, hlist⟩ := Option.map_eq_some_iff.1 hnames
  exact ⟨e, names, he, hleft, hnames, hlist⟩

end Sum

end RightPart
