import RightPart.Ordered.Relation
import RightPart.Tables.Item

namespace RightPart

/-- The items of a grammar and how they hang together. -/
structure ItemGraph where
  steps : Relation Item Label
  /-- From an item before a nonterminal to the initial items of that nonterminal. -/
  expansions : Relation Item Label

structure ReadaheadNode where
  /-- The items entered by the step into the state. -/
  kernel : List Item
  /-- The kernel and the initial items of all nonterminals that may begin there. -/
  items : OrderedSet Item
  exits : List (Label × Nat)

/-- The readahead automaton: what is known of the items of all right parts after some labels. -/
structure ReadaheadAutomaton where
  /-- The state in which each goal begins. -/
  seeds : List (Nat × ProductionId)
  nodes : Array ReadaheadNode

namespace Grammar

variable (g : Grammar)

def initialItems (id : ProductionId) (body : Automaton) : List Item := body.initials.map (⟨id, ·⟩)

def steps : Relation Item Label :=
  .ofList <| g.productions.entries.flatMap fun (id, p) ↦
    p.body.transitions.map fun (i, t) ↦ (⟨id, i⟩, t.label, ⟨id, t.target⟩)

def expansions : Relation Item Label :=
  .ofList <| g.productions.entries.flatMap fun (id, p) ↦
    (p.body.transitions.filter (g.isNonterminalLabel ·.2.label)).flatMap fun (i, t) ↦
      match g.productionFor? t.label.name with
      | none => []
      | some (callee, q) => (initialItems callee q.body).map fun j ↦ (⟨id, i⟩, t.label, j)

def itemGraph : ItemGraph := ⟨g.steps, g.expansions⟩

/-- Whether the readahead automaton steps over a label. A scanner never meets a nonterminal. -/
def isStep (l : Label) : Bool := !(g.kind.isScanner && g.isNonterminalLabel l)

def kernelExits (items : ItemGraph) (kernel : List Item) : List (Label × List Item) :=
  let all := items.steps.partition (items.expansions.star kernel).toList
  (all.entries.filter (g.isStep ·.1)).map fun e ↦ (e.1, sorted e.2.toList)

def goalKernels : List (List Item) := g.goals.map fun (id, p) ↦ sorted (initialItems id p.body)

def enterable (items : ItemGraph) : List Item := g.goalKernels.flatten ++ items.steps.targets

def IsKernel (items : ItemGraph) (kernel : List Item) : Prop :=
  Ascending kernel ∧ ∀ i ∈ kernel, i ∈ g.enterable items

theorem isKernel_kernelExits (items : ItemGraph) (kernel : List Item) :
    ∀ k ∈ (g.kernelExits items kernel).map Prod.snd, g.IsKernel items k := by
  intro k hk
  obtain ⟨e, he, rfl⟩ := List.mem_map.1 hk
  obtain ⟨e', he', rfl⟩ := List.mem_map.1 he
  exact ⟨ascending_sorted _, fun i hi ↦ List.mem_append_right _
    (items.steps.partition_subset _ e' (List.mem_filter.1 he').1 i (mem_sorted.1 hi))⟩

theorem isKernel_goalKernels (items : ItemGraph) : ∀ k ∈ g.goalKernels, g.IsKernel items k := by
  intro k hk
  refine ⟨?_, fun i hi ↦ List.mem_append_left _ (List.mem_flatten.2 ⟨k, hk, hi⟩)⟩
  obtain ⟨e, -, rfl⟩ := List.mem_map.1 hk
  exact ascending_sorted _

/-- All kernels that the goals lead to, in breadth-first order. -/
def kernels (items : ItemGraph) : Found id (g.IsKernel items) :=
  (Found.ofList g.goalKernels (g.isKernel_goalKernels items)).search
    (fun _ ↦ Nat.pow 2 (g.enterable items).length) (atMost_ascending _)
    (fun k ↦ (g.kernelExits items k).map Prod.snd)
    (fun k _ ↦ g.isKernel_kernelExits items k) 0

def readaheadAutomaton (items : ItemGraph) : ReadaheadAutomaton :=
  let found := g.kernels items
  { seeds := g.goals.map fun (id, p) ↦ (found.indexOf (sorted (initialItems id p.body)), id)
    nodes := found.nodes.map fun k ↦ {
      kernel := k
      items := items.expansions.star k
      exits := (g.kernelExits items k).map fun e ↦ (e.1, found.indexOf e.2) } }

end Grammar

namespace ReadaheadAutomaton

variable (a : ReadaheadAutomaton)

def isSeed (i : Nat) : Bool := a.seeds.any (·.1 = i)

def edges : List (Nat × Label × Nat) :=
  a.nodes.toList.zipIdx.flatMap fun (s, i) ↦ s.exits.map (i, ·)

/-- The states that go on the stack: a goal begins there, or consuming input leads there. -/
def stackable : OrderedSet Nat :=
  .ofList (a.seeds.map Prod.fst ++ (a.edges.filter (·.2.1.isRead)).map (·.2.2))

end ReadaheadAutomaton

end RightPart
