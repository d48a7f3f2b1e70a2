import RightPart.Tables.Basic
import RightPart.Tables.Readahead

namespace RightPart.ReadaheadAutomaton

variable (a : ReadaheadAutomaton)

def silentBack : Relation Nat Label :=
  .ofList <| (a.edges.filter (!·.2.1.isRead)).map fun e ↦ (e.2.2, e.2.1, e.1)

def directRestarts (g : Grammar) (name : String) : OrderedSet Restart :=
  .ofList <| (a.edges.filter fun e ↦ g.isNonterminalLabel e.2.1 && e.2.1.name = name).map fun e ↦
    ⟨e.1, e.2.1, e.2.2⟩

/-- The stack may hold, instead of the state of a step, one that leads there without
consuming input. -/
def indirectRestarts (stackable : OrderedSet Nat) (silentBack : Relation Nat Label)
    (r : Restart) : List Restart :=
  ((silentBack.star [r.source]).toList.filter fun i ↦ i ≠ r.source && i ∈ stackable).map fun i ↦
    { r with source := i }

def restarts (g : Grammar) (stackable : OrderedSet Nat) (silentBack : Relation Nat Label)
    (name : String) : OrderedSet Restart :=
  let direct := a.directRestarts g name
  direct.extend (direct.toList.flatMap (indirectRestarts stackable silentBack))

def reduceState (g : Grammar) (stackable : OrderedSet Nat) (silentBack : Relation Nat Label)
    (name : String) : ReduceState :=
  ⟨name, (a.restarts g stackable silentBack name).toList⟩

end RightPart.ReadaheadAutomaton
