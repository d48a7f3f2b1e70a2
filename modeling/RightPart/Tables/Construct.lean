import RightPart.Tables.Bridge
import RightPart.Tables.Conflict
import RightPart.Tables.Lookahead
import RightPart.Tables.Readback
import RightPart.Tables.Restart
import RightPart.Tables.Semantic

namespace RightPart

inductive ConstructError
  | missingGoal
  | missingState
deriving DecidableEq

def ConstructError.message : ConstructError → String
  | missingGoal => "the grammar has no goal production"
  | missingState => "a transition leads to a state that does not exist"

namespace ReadaheadAutomaton

def follows (g : Grammar) (a : ReadaheadAutomaton) : Array (OrderedSet String) :=
  a.nodes.map fun s ↦ g.itemsFollow s.items

def followAt (follows : Array (OrderedSet String)) (i : Nat) : OrderedSet String :=
  follows[i]?.getD ∅

def states (a : ReadaheadAutomaton) (follows : Array (OrderedSet String))
    (transitions : Nat → ReadaheadNode → List (Label × Target)) : List ReadaheadState :=
  let stackable := a.stackable
  a.nodes.toList.zipIdx.map fun (s, i) ↦ {
    initialItems := s.kernel
    finalItems := s.items
    follow := followAt follows i
    isStackable := i ∈ stackable
    transitions := transitions i s }

end ReadaheadAutomaton

open ReadaheadAutomaton

namespace Grammar

variable (g : Grammar) (a : ReadaheadAutomaton)

def scannerTables : Tables :=
  let follows := a.follows g
  let semantics := a.semantics
  let readaheads := a.states follows fun i s ↦
    let moves := s.exits.flatMap (exitTransitions semantics (followAt follows))
    moves ++ a.bridges g i s moves
  { kind := g.kind
    initialStates := a.seeds.map Prod.fst
    readaheads
    readbacks := []
    reduces := []
    semantics
    hasAccept := false
    conflicts := findConflicts readaheads [] }

def parserTables (items : ItemGraph) : Tables :=
  let follows := a.follows g
  let semantics := a.semantics
  let b := a.backGraph items
  let found := b.nodes (g.readbackStarts a) (g.ascending_readbackStarts a)
  let readaheads := a.states follows fun i s ↦
    (s.exits.filter (!g.isNonterminalLabel ·.1)).flatMap
      (exitTransitions semantics (followAt follows)) ++ g.completionTransitions found.indexOf i s
  let stackable := a.stackable
  let silentBack := a.silentBack
  let reduces := g.reduced.map (a.reduceState g stackable silentBack)
  { kind := g.kind
    initialStates := a.seeds.map Prod.fst
    readaheads
    readbacks := found.nodes.toList.map (g.readbackState a b found.indexOf)
    reduces
    semantics
    hasAccept := a.nodes.toList.zipIdx.any fun (s, i) ↦ (g.completions i s).any (·.2.1.isGoal)
    conflicts := findConflicts readaheads reduces }

/-- The tables of an analyzed grammar. Conflicts are reported in them. -/
def construct : Except ConstructError Tables :=
  if g.goals.isEmpty then .error .missingGoal
  else
    let items := g.itemGraph
    let a := g.readaheadAutomaton items
    if a.nodes.any fun s ↦ s.items.toList.any fun i ↦ g.FollowMissing i then .error .missingState
    else .ok (if g.kind.isScanner then g.scannerTables a else g.parserTables a items)

end Grammar

end RightPart
