import RightPart.Automaton.Checked
import RightPart.Grammar.Analysis
import RightPart.Text.Identifier

namespace RightPart

inductive GrammarError
  | invalidName (name : String)
  | duplicateMacro (name : String)
  | undefinedMacro (name : String)
  | emptyProduction (name : String)
  | missingGoal
  | emptyLookahead (name : String)
  | algebra (error : AlgebraError)
  | other (text : String)
deriving DecidableEq

namespace GrammarError

def message : GrammarError → String
  | invalidName n => "invalid name: `" ++ n ++ "'"
  | duplicateMacro n => "the macro `" ++ n ++ "' has already been defined"
  | undefinedMacro n => "undefined macro: `" ++ n ++ "'"
  | emptyProduction n => "the production for `" ++ n ++ "' recognizes nothing"
  | missingGoal => "the grammar has no goal production"
  | emptyLookahead n => "the goal `" ++ n ++ "' has an empty lookahead set"
  | algebra e => e.message
  | other s => "Other error: " ++ s

end GrammarError

/-- A right part as it has been given so far, with the lookahead if it is that of a goal. -/
structure RightSide where
  body : Automaton
  lookahead : Option (OrderedSet String) := none

/-- A grammar while it is being defined. -/
structure Draft where
  kind : Kind
  nonterminals : OrderedSet String := ∅
  keywords : OrderedSet String := ∅
  macros : OrderedMap String Automaton := ∅
  rules : OrderedMap String RightSide := ∅

namespace Draft

def isNonterminal (d : Draft) (name : String) : Bool := name ∈ d.nonterminals

def hasMacro (d : Draft) (name : String) : Bool := d.macros.contains name

def declareNonterminal (d : Draft) (name : String) : Except GrammarError Draft :=
  if !Text.isIdentifier name then .error (.invalidName name)
  else if d.hasMacro name then .error (.other ("`" ++ name ++ "' is already defined as a macro"))
  else .ok { d with nonterminals := d.nonterminals.insert name }

def declareKeyword (d : Draft) (name : String) : Draft :=
  { d with keywords := d.keywords.insert name }

def defineMacro (d : Draft) (name : String) (m : Automaton) : Except GrammarError Draft :=
  if d.hasMacro name then .error (.duplicateMacro name)
  else if d.isNonterminal name then
    .error (.other ("`" ++ name ++ "' is already declared as a nonterminal"))
  else .ok { d with macros := d.macros.insert name m }

def expandMacro (d : Draft) (name : String) : Except GrammarError Automaton :=
  match d.macros.get? name with
  | some m => .ok m
  | none => .error (.undefinedMacro name)

/-- The label that reads a symbol in the way usual for the kind of grammar. -/
def label (d : Draft) (name : String) : Label :=
  .symbol name (.defaultFor d.kind (d.isNonterminal name))

def symbol (d : Draft) (name : String) : Automaton := .ofLabel (d.label name)

def action (name : String) (arguments : List Argument) (buildsTree : Bool) :
    Except GrammarError Automaton :=
  if Text.isIdentifier name then .ok (.ofLabel (.action name arguments buildsTree))
  else .error (.invalidName name)

def addProduction (d : Draft) (left : String) (body : Automaton) : Except GrammarError Draft := do
  let d ← d.declareNonterminal left
  return { d with rules := d.rules.alter left fun
    | none => { body }
    | some r => { r with body := r.body.union body } }

def addGoal (d : Draft) (left : String) (body : Automaton) (lookahead : List String) :
    Except GrammarError Draft := do
  if lookahead.isEmpty then throw (.emptyLookahead left)
  let d ← d.addProduction left body
  return { d with rules := d.rules.alter left fun
    | none => { body, lookahead := some (.ofList lookahead) }
    | some r => { r with lookahead := some ((r.lookahead.getD ∅).extend lookahead) } }

def references (d : Draft) : OrderedSet String :=
  .ofList <| d.rules.values.flatMap fun r ↦
    (r.body.transitions.filter (!·.2.label.isAction)).map (·.2.label.name)

def wrapperName (left : String) : String := left ++ "'"

/-- A goal that right parts refer to becomes an ordinary production, and a new goal
derives just it. -/
def wrapGoals (d : Draft) : Draft :=
  let used := d.references
  d.rules.entries.foldl (fun (d : Draft) (left, r) ↦
      match r.lookahead with
      | some s =>
        if left ∈ used then
          { d with
            nonterminals := d.nonterminals.insert (wrapperName left)
            rules := (d.rules.insert left { r with lookahead := none }).insert (wrapperName left)
              { body := d.symbol left, lookahead := some s } }
        else { d with rules := d.rules.insert left r }
      | none => { d with rules := d.rules.insert left r })
    { d with rules := ∅ }

/-- Trims a right part and marks its states; an empty one is refused. -/
def register (left : String) (r : RightSide) : Except GrammarError Production :=
  match Automaton.Checked.trim r.body with
  | .error e => .error (.algebra e)
  | .ok body =>
    if body.isEmpty then .error (.emptyProduction left)
    else .ok { left, body := body.setLeft left, lookahead := r.lookahead }

def registerAll : ProductionId → List (String × RightSide) → OrderedMap ProductionId Production →
    Except GrammarError (OrderedMap ProductionId Production)
  | _, [], ps => .ok ps
  | i, (left, r) :: l, ps => do
    let p ← register left r
    registerAll (i + 1) l (ps.insert i p)

def finish (d : Draft) : Except GrammarError Grammar := do
  if d.rules.values.all (·.lookahead.isNone) then throw .missingGoal
  let d := if d.kind = .parser then d.wrapGoals else d
  let productions ← registerAll 0 d.rules.entries ∅
  (Grammar.Checked.analyze { d with productions, nullables := ∅ }).mapError .algebra

end Draft

end RightPart
