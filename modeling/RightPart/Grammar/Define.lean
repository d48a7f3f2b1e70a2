import RightPart.Expr.Automaton

namespace RightPart

inductive Definition
  | nonterminals (names : List String)
  | keywords (names : List String)
  | abbreviation (name : String) (body : Expr)
  | production (left : String) (body : Expr)
  | goal (left : String) (body : Expr) (lookahead : List String)

namespace Definition

def declared : Definition → List String
  | nonterminals names => names
  | production left _ => [left]
  | goal left _ _ => [left]
  | _ => []

def addTo (d : Draft) : Definition → Except ExprError Draft
  | nonterminals _ => .ok d
  | keywords names => .ok (names.foldl Draft.declareKeyword d)
  | abbreviation name body => do
    (d.defineMacro name (← body.toAutomaton d)).mapError .grammar
  | production left body => do
    (d.addProduction left (← body.toAutomaton d)).mapError .grammar
  | goal left body lookahead => do
    (d.addGoal left (← body.toAutomaton d) lookahead).mapError .grammar

end Definition

/-- The grammar that a list of definitions describes. All nonterminals are declared first, so that a
symbol is read as one wherever its declaration stands. -/
def Grammar.define (kind : Kind) (l : List Definition) : Except ExprError Grammar := do
  let d ← ((l.flatMap Definition.declared).foldlM Draft.declareNonterminal { kind }).mapError
    .grammar
  let d ← l.foldlM Definition.addTo d
  d.finish.mapError .grammar

end RightPart
