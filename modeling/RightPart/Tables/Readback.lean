import RightPart.Tables.Basic
import RightPart.Tables.Readahead

namespace RightPart

/-- The readahead automaton seen from behind. -/
structure BackGraph where
  back : Relation Place Label
  /-- From an initial place of a nonterminal to the places that may begin with that nonterminal. -/
  up : Relation Place Label
  /-- The part of `back` that consumed input. -/
  visible : Relation Place Label
  /-- The part of `back` that did not. -/
  invisible : Relation Place Label

/-- A right part that has been gone back over as far as some places. -/
structure ReadbackNode where
  left : String
  kernel : List Place
deriving DecidableEq

namespace ReadaheadAutomaton

def back (a : ReadaheadAutomaton) (items : ItemGraph) : Relation Place Label :=
  .ofList <| a.nodes.toList.zipIdx.flatMap fun (s, i) ↦ s.exits.flatMap fun (l, j) ↦
    s.items.toList.flatMap fun pred ↦
      (items.steps.image pred l).toList.map fun succ ↦ (⟨succ, j⟩, l, ⟨pred, i⟩)

def up (a : ReadaheadAutomaton) (items : ItemGraph) : Relation Place Label :=
  .ofList <| a.nodes.toList.zipIdx.flatMap fun (s, i) ↦ s.items.toList.flatMap fun caller ↦
    (items.expansions.leaving caller).map fun (l, callee) ↦ (⟨callee, i⟩, l, ⟨caller, i⟩)

def backGraph (a : ReadaheadAutomaton) (items : ItemGraph) : BackGraph :=
  let back := a.back items
  { back
    up := a.up items
    visible := back.filtered Label.isRead
    invisible := back.filtered (!·.isRead) }

end ReadaheadAutomaton

namespace Grammar

variable (g : Grammar)

def isInitialItem (i : Item) : Bool :=
  ((g.productions.get? i.production).map (·.body.isInitialAt i.state)).getD false

def completed? (i : Item) : Option String := do
  let p ← g.productions.get? i.production
  let s ← p.body.states[i.state]?
  if s.isFinal then s.left else none

/-- The right parts that are complete in a state, each with the places where it is. -/
def completions (i : Nat) (s : ReadaheadNode) : List (String × Production × OrderedSet Place) :=
  let all := Family.gather <| s.items.toList.filterMap fun item ↦
    (g.completed? item).map (·, ⟨item, i⟩)
  all.entries.filterMap fun e ↦ (g.productionFor? e.1).map fun p ↦ (e.1, p.2, e.2)

def reduced : List String := (g.productions.values.filter (!·.isGoal)).map Production.left

def reduceFor? (name : String) : Option Nat := g.reduced.idxOf? name

def readbackStarts (a : ReadaheadAutomaton) : List ReadbackNode :=
  a.nodes.toList.zipIdx.flatMap fun (s, i) ↦
    ((g.completions i s).filter (!·.2.1.isGoal)).map fun c ↦ ⟨c.1, sorted c.2.2.toList⟩

end Grammar

namespace BackGraph

variable (b : BackGraph)

/-- The places that can be gone back to without passing a stack entry. -/
def closure (n : ReadbackNode) : OrderedSet Place := b.invisible.star n.kernel

def exits (n : ReadbackNode) : List (StackEntry × ReadbackNode) :=
  let all := Family.gather <| (b.closure n).toList.flatMap fun p ↦
    (b.visible.leaving p).map fun (l, pred) ↦ ((⟨l, p.readahead⟩ : StackEntry), pred)
  all.entries.map fun e ↦ (e.1, ⟨n.left, sorted e.2.toList⟩)

def enterable (starts : List ReadbackNode) : List Place :=
  starts.flatMap ReadbackNode.kernel ++ b.visible.targets

def IsKernel (starts : List ReadbackNode) (kernel : List Place) : Prop :=
  Ascending kernel ∧ ∀ p ∈ kernel, p ∈ b.enterable starts

theorem isKernel_exits (starts : List ReadbackNode) (n : ReadbackNode) :
    ∀ m ∈ (b.exits n).map Prod.snd, b.IsKernel starts m.kernel := by
  intro m hm
  obtain ⟨e, he, rfl⟩ := List.mem_map.1 hm
  obtain ⟨f, hf, rfl⟩ := List.mem_map.1 he
  refine ⟨ascending_sorted _, fun p hp ↦ List.mem_append_right _ ?_⟩
  obtain ⟨q, hq, rfl⟩ := List.mem_map.1 ((Family.within_gather _ f hf).2 p (mem_sorted.1 hp))
  obtain ⟨r, -, hq⟩ := List.mem_flatMap.1 hq
  obtain ⟨t, ht, rfl⟩ := List.mem_map.1 hq
  exact b.visible.successors_subset r _ (List.mem_map.2 ⟨t, ht, rfl⟩)

/-- All readback states, in breadth-first order. A state is known by its kernel. -/
def nodes (starts : List ReadbackNode) (h : ∀ n ∈ starts, Ascending n.kernel) :
    Found ReadbackNode.kernel (b.IsKernel starts) :=
  (Found.ofList starts fun n hn ↦ ⟨h n hn, fun _ hp ↦
    List.mem_append_left _ (List.mem_flatMap.2 ⟨n, hn, hp⟩)⟩).search
    (fun _ ↦ Nat.pow 2 (b.enterable starts).length) (atMost_ascending _)
    (fun n ↦ (b.exits n).map Prod.snd) (fun n _ ↦ b.isKernel_exits starts n) 0

/-- The places that call for what begins at the given places, at once or after other beginnings and
steps that consumed nothing. -/
def callers (starts : List Place) : OrderedSet Place :=
  (b.up.step starts).closure (fun p ↦ b.up.successors p ++ b.invisible.successors p)
    (fun _ ↦ b.up.targets ++ b.invisible.targets) fun _ q hq ↦ by
      rcases List.mem_append.1 hq with hq | hq
      · exact List.mem_append_left _ (b.up.successors_subset _ q hq)
      · exact List.mem_append_right _ (b.invisible.successors_subset _ q hq)

/-- The stack entries that may lie below what begins at the given places. -/
def lookback (a : ReadaheadAutomaton) (starts : List Place) : OrderedSet StackEntry :=
  .ofList <| (b.callers starts).toList.flatMap fun p ↦
    ((b.visible.leaving p).map fun e ↦ (⟨e.1.asLook, p.readahead⟩ : StackEntry)) ++
      if a.isSeed p.readahead &&
        ((a.nodes[p.readahead]?.map ReadaheadNode.kernel).getD []).contains p.item
      then [⟨.look Grammar.endOfInput, p.readahead⟩] else []

end BackGraph

theorem Grammar.ascending_readbackStarts (g : Grammar) (a : ReadaheadAutomaton) :
    ∀ n ∈ g.readbackStarts a, Ascending n.kernel := by
  intro n hn
  obtain ⟨s, -, hn⟩ := List.mem_flatMap.1 hn
  obtain ⟨c, -, rfl⟩ := List.mem_map.1 hn
  exact ascending_sorted _

variable (g : Grammar) (a : ReadaheadAutomaton) (b : BackGraph)

def Grammar.completionTransitions (position : List Place → Nat) (i : Nat) (s : ReadaheadNode) :
    List (Label × Target) :=
  (g.completions i s).flatMap fun c ↦
    match c.2.1.lookahead with
    | some names => names.toList.map (.look ·, .accept)
    | none => c.2.1.follow.toList.map (.look ·, .readback (position (sorted c.2.2.toList)))

def Grammar.readbackState (position : List Place → Nat) (n : ReadbackNode) : ReadbackState :=
  let closure := b.closure n
  let starts := closure.toList.filter fun p ↦ g.isInitialItem p.item
  let reduce := if starts.isEmpty then none else g.reduceFor? n.left
  { left := n.left
    initialPlaces := n.kernel
    finalPlaces := closure
    transitions := ((b.exits n).map fun e ↦ (e.1, .readback (position e.2.kernel))) ++
      match reduce with
      | none => []
      | some k => (b.lookback a starts).toList.map (·, .reduce k) }

end RightPart
