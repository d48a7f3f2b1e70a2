import RightPart.Tables.Basic
import RightPart.Tables.Readahead

namespace RightPart.ReadaheadAutomaton

def semantics (a : ReadaheadAutomaton) : OrderedSet SemanticState :=
  .ofList <| a.nodes.toList.flatMap fun s ↦
    (s.exits.filter (·.1.isAction)).map fun e ↦ ⟨e.1, e.2⟩

/-- The transition that a step becomes. An action is not seen in the input, so it is performed when
one of the symbols that may follow it comes next. -/
def exitTransitions (semantics : OrderedSet SemanticState) (follow : Nat → OrderedSet String)
    (e : Label × Nat) : List (Label × Target) :=
  if e.1.isAction then
    (follow e.2).toList.map fun n ↦ (.look n, .semantic (semantics.indexOf ⟨e.1, e.2⟩))
  else [(e.1, .readahead e.2)]

end RightPart.ReadaheadAutomaton
