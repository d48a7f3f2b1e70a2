import RightPart.Ordered.Map
import RightPart.Tables.Basic

namespace RightPart

inductive SymbolSet
  /-- Single characters, none of which is a control, written as one literal. -/
  | text (s : String)
  /-- Single characters of which one is a control. -/
  | codes (l : List Nat)
  | names (l : List String)
deriving DecidableEq

namespace SymbolSet

def singleChar? (s : String) : Option Char :=
  match s.toList with
  | [c] => some c
  | _ => none

def ofNames (l : List String) : SymbolSet :=
  match l.mapM singleChar? with
  | some cs => if cs.any Text.isControl then codes (cs.map Char.toNat) else text (.ofList cs)
  | none => names l

def render : SymbolSet → String
  | text s => Text.quoted s
  | codes l => "[" ++ String.intercalate ", " (l.map toString) ++ "]"
  | names l => "[" ++ String.intercalate ", " (l.map Text.quoted) ++ "]"

end SymbolSet

structure Continuation where
  attributes : String
  target : Nat
deriving DecidableEq

namespace Continuation

instance : Ord Continuation where
  compare := compareLex (compareOn attributes) (compareOn target)

instance : Std.TransOrd Continuation := inferInstanceAs (Std.TransCmp (compareLex _ _))

instance : Std.LawfulEqOrd Continuation where
  eq_of_compare {a b} h := by
    obtain ⟨h₁, h₂⟩ :=
      compareLex_eq_eq.1 (h : compareLex (compareOn attributes) (compareOn target) a b = _)
    cases a; cases b
    cases Std.LawfulEqOrd.eq_of_compare h₁
    cases Std.LawfulEqOrd.eq_of_compare h₂
    rfl

end Continuation

/-- A row of the tables. Every state has a number, by which rows refer to each other. -/
inductive Row
  | scanner (id : Nat) (moves : List (SymbolSet × String × Nat))
  | readahead (id : Nat) (moves : List (String × String × Nat))
  /-- A symbol with the state on the stack, its attributes and the state to go to. -/
  | readback (id : Nat) (moves : List ((String × Nat) × String × Nat))
  | reduce (id : Nat) (nonterminal : String) (restarts : List (Nat × String × Nat))
  | semantic (id : Nat) (action : String) (arguments : List Argument) (target : Nat)
  | accept (id : Nat)
deriving DecidableEq

namespace Row

def id : Row → Nat
  | scanner i _ | readahead i _ | readback i _ | reduce i _ _ | semantic i _ _ _ | accept i => i

def moveText (subject attributes : String) (target : Nat) : String :=
  ", (" ++ subject ++ ", \"" ++ attributes ++ "\", " ++ toString target ++ ")"

def head (tag : String) (id : Nat) : String := "[\"" ++ tag ++ "Table\", " ++ toString id

def text : Row → String
  | scanner i l =>
    head "ScannerReadahead" i ++ String.join (l.map fun (s, a, j) ↦ moveText s.render a j) ++ "]"
  | readahead i l =>
    head "Readahead" i ++ String.join (l.map fun (s, a, j) ↦ moveText (Text.quoted s) a j) ++ "]"
  | readback i l =>
    head "Readback" i ++ String.join (l.map fun ((s, k), a, j) ↦
      moveText ("(" ++ Text.quoted s ++ ", " ++ toString k ++ ")") a j) ++ "]"
  | reduce i n l =>
    head "Reduce" i ++ ", " ++ Text.quoted n ++
      String.join (l.map fun (k, a, j) ↦ moveText (toString k) a j) ++ "]"
  | semantic i n l j =>
    head "Semantic" i ++ ", " ++ Text.quoted n ++ ", [" ++
      String.intercalate ", " (l.map Argument.text) ++ "], " ++ toString j ++ "]"
  | accept i => head "Accept" i ++ "]"

end Row

namespace Tables

/-- The number of a state: from 1 on through the readahead, readback, reduce and semantic states,
with the accepting state last. -/
def number (t : Tables) : Target → Nat
  | .readahead i => 1 + i
  | .readback i => 1 + t.readaheads.length + i
  | .reduce i => 1 + t.readaheads.length + t.readbacks.length + i
  | .semantic i => 1 + t.readaheads.length + t.readbacks.length + t.reduces.length + i
  | .accept => 1 + t.readaheads.length + t.readbacks.length + t.reduces.length + t.semantics.size

variable (t : Tables)

/-- A scanner row takes transitions of equal attributes and target together. -/
def scannerRow (i : Nat) (s : ReadaheadState) : Row :=
  .scanner (t.number (.readahead i)) <|
    (OrderedMap.group (s.transitions.map fun e ↦
      ((⟨e.1.attributeText, t.number e.2⟩ : Continuation), e.1.name))).entries.map
        fun e ↦ (.ofNames e.2, e.1.attributes, e.1.target)

def readaheadRow (i : Nat) (s : ReadaheadState) : Row :=
  .readahead (t.number (.readahead i)) <|
    s.transitions.map fun e ↦ (e.1.name, e.1.attributeText, t.number e.2)

def readbackRow (i : Nat) (s : ReadbackState) : Row :=
  .readback (t.number (.readback i)) <| s.transitions.map fun e ↦
    ((e.1.label.name, t.number (.readahead e.1.readahead)), e.1.label.attributeText, t.number e.2)

def reduceRow (i : Nat) (s : ReduceState) : Row :=
  .reduce (t.number (.reduce i)) s.nonterminal <| s.restarts.map fun r ↦
    (t.number (.readahead r.source), r.label.attributeText, t.number (.readahead r.target))

def semanticRow (i : Nat) (s : SemanticState) : Row :=
  .semantic (t.number (.semantic i)) s.action.name s.action.arguments
    (t.number (.readahead s.target))

def rows : List Row :=
  (t.readaheads.zipIdx.map fun (s, i) ↦
    if t.kind.isScanner then t.scannerRow i s else t.readaheadRow i s) ++
  (t.readbacks.zipIdx.map fun (s, i) ↦ t.readbackRow i s) ++
  (t.reduces.zipIdx.map fun (s, i) ↦ t.reduceRow i s) ++
  (t.semantics.toList.zipIdx.map fun (s, i) ↦ t.semanticRow i s) ++
  if t.hasAccept then [.accept (t.number .accept)] else []

def text : String := String.join (t.rows.map fun r ↦ r.text ++ "\n")

end Tables

end RightPart
