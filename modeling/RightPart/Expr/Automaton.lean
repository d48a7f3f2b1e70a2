import RightPart.Expr.Basic
import RightPart.Grammar.Draft

namespace RightPart

inductive ExprError
  | undefinedMacro (name : String)
  | invalidRangeBound
  | reversedRange (lower upper : Nat)
  | unknownAttribute (name : String)
  | attributesOnAction (name : String)
  | algebra (error : AlgebraError)
  | grammar (error : GrammarError)
deriving DecidableEq

namespace ExprError

def message : ExprError → String
  | undefinedMacro n => "undefined macro: `" ++ n ++ "'"
  | invalidRangeBound => "range bounds must both be single characters or both be integers"
  | reversedRange lo hi =>
    "reversed range: 0x" ++ .ofList (Text.hex lo) ++ "..0x" ++ .ofList (Text.hex hi)
  | unknownAttribute n => "unknown attribute: `" ++ n ++ "'"
  | attributesOnAction n => "attributes cannot be applied to the semantic action `" ++ n ++ "'"
  | algebra e => e.message
  | grammar e => e.message

end ExprError

namespace Expr

def singleCode? (s : String) : Option Nat :=
  match s.toList with
  | [c] => some c.toNat
  | _ => none

/-- Two codes, or two literals of one character each. -/
def rangeBounds? : Expr → Expr → Option (Nat × Nat)
  | code lo, code hi => some (lo, hi)
  | literal lo, literal hi => do return (← singleCode? lo, ← singleCode? hi)
  | _, _ => none

def rangeAutomaton (a : Attributes) (lower upper : Expr) : Except ExprError Automaton :=
  match rangeBounds? lower upper with
  | none => .error .invalidRangeBound
  | some (lo, hi) =>
    if hi < lo then .error (.reversedRange lo hi) else (Automaton.ofCodes lo hi a).mapError .algebra

/-- Only a scanner takes a literal apart into characters. -/
def literalAutomaton (kind : Kind) (s : String) : Automaton :=
  let a := Attributes.defaultFor kind false
  if kind = .scanner then .ofString s a else .ofLabel (.symbol s a)

def symbolAutomaton (d : Draft) (name : String) : Automaton :=
  (d.macros.get? name).getD (d.symbol name)

def referenceAutomaton (d : Draft) (name : String) : Except ExprError Automaton :=
  match d.macros.get? name with
  | some m => .ok m
  | none => .error (.undefinedMacro name)

/-- Attributes belong to symbols, so none can be given to an automaton with actions. -/
def withWords (m : Automaton) (words : List String) : Except ExprError Automaton :=
  match m.transitions.find? (·.2.label.isAction) with
  | some t => .error (.attributesOnAction t.2.label.name)
  | none => (m.withAttributes words).mapError fun e ↦ .unknownAttribute e.word

mutual

def toAutomaton (d : Draft) : Expr → Except ExprError Automaton
  | symbol n => .ok (symbolAutomaton d n)
  | literal s => .ok (literalAutomaton d.kind s)
  | code c => (Automaton.ofCode c (.defaultFor d.kind false)).mapError .algebra
  | range lo hi => rangeAutomaton (.defaultFor d.kind false) lo hi
  | sequence l => do
    (Automaton.Checked.concatenateAll (← toAutomata d l)).mapError .algebra
  | alternation l => do
    (Automaton.orAll (← toAutomata d l)).mapError .algebra
  | star e => do return (← toAutomaton d e).star
  | plus e => do return (← toAutomaton d e).plus
  | optional e => do return (← toAutomaton d e).optional
  | intersection a b => do
    let m ← toAutomaton d a
    (Automaton.Checked.combine .intersect m (← toAutomaton d b)).mapError .algebra
  | difference a b => do
    let m ← toAutomaton d a
    (Automaton.Checked.combine .difference m (← toAutomaton d b)).mapError .algebra
  | attributed e words => do withWords (← toAutomaton d e) words
  | action n l b => (Draft.action n l b).mapError .grammar
  | reference n => referenceAutomaton d n
  | empty => .ok .empty

def toAutomata (d : Draft) : List Expr → Except ExprError (List Automaton)
  | [] => .ok []
  | e :: l => do
    let m ← toAutomaton d e
    return m :: (← toAutomata d l)

end

end Expr

end RightPart
