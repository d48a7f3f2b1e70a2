import RightPart.Automaton.Basic
import RightPart.Ordered.Map

namespace RightPart

abbrev ProductionId := UInt16

/-- A number written with at least three digits, behind a tag. -/
def tagged (tag : String) (n : Nat) : String :=
  let digits := toString n
  tag ++ "#" ++ "".pushn '0' (3 - digits.length) ++ digits

/-- A nonterminal with its right part, a regular set of words. -/
structure Production where
  left : String
  body : Automaton
  /-- What may follow; only goals say so. -/
  lookahead : Option (OrderedSet String)
  generatesEmpty : Bool := false
  first : OrderedSet String := ∅
  follow : OrderedSet String := ∅

def Production.isGoal (p : Production) : Bool := p.lookahead.isSome

structure Grammar where
  kind : Kind
  nonterminals : OrderedSet String
  keywords : OrderedSet String
  productions : OrderedMap ProductionId Production
  nullables : OrderedSet String

namespace Grammar

def endOfInput : String := "-|"

def productionFor? (g : Grammar) (left : String) : Option (ProductionId × Production) :=
  g.productions.entries.find? (·.2.left = left)

def goals (g : Grammar) : List (ProductionId × Production) :=
  g.productions.entries.filter (·.2.isGoal)

def isNonterminal (g : Grammar) (name : String) : Bool := name ∈ g.nonterminals

def isReadTerminal (g : Grammar) (l : Label) : Bool := l.isRead && !g.isNonterminal l.name

/-- Whether a label is a symbol, read or looked at, that names a nonterminal. -/
def isNonterminalLabel (g : Grammar) (l : Label) : Bool := !l.isAction && g.isNonterminal l.name

def generatesEmpty (g : Grammar) (name : String) : Bool := name ∈ g.nullables

def first? (g : Grammar) (name : String) : Option (OrderedSet String) :=
  (g.productionFor? name).map (·.2.first)

def follow? (g : Grammar) (name : String) : Option (OrderedSet String) :=
  (g.productionFor? name).map (·.2.follow)

def updateProduction (g : Grammar) (left : String) (f : Production → Production) : Grammar :=
  { g with productions := g.productions.mapValues fun p ↦ if p.left = left then f p else p }

/-- Removes the production of a nonterminal; the others keep their numbers. -/
def removeProduction (g : Grammar) (left : String) : Grammar :=
  { g with productions := g.productions.filter fun _ p ↦ p.left ≠ left }

def setText (s : OrderedSet String) : String :=
  "\x7b" ++ (if s.isEmpty then "" else " ") ++ String.intercalate ", " s.toList ++ " \x7d"

def productionText (id : ProductionId) (p : Production) : String :=
  "\n## " ++ tagged "P" id.toNat ++ " " ++ p.left ++
    (match p.lookahead with
      | some s => " (goal, lookahead = " ++ setText s ++ ")"
      | none => "") ++ "\n" ++
    "generates_e: " ++ (if p.generatesEmpty then "true" else "false") ++ "\n" ++
    "first: " ++ setText p.first ++ "\n" ++
    "follow: " ++ setText p.follow ++ "\n" ++ p.body.text

def text (g : Grammar) : String :=
  "## kind: " ++ g.kind.name ++ "\n" ++
    (if g.keywords.isEmpty then "" else
      "## keywords: " ++ String.intercalate " " g.keywords.toList ++ "\n") ++
    String.join (g.productions.entries.map fun e ↦ productionText e.1 e.2)

end Grammar

end RightPart
