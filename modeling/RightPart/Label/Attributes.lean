import RightPart.Kind

namespace RightPart

/-- What happens to a symbol when it is met: whether it is consumed, whether the state entered goes
on the stack, whether the text is kept and whether a tree node is built. -/
structure Attributes where
  read : Bool
  stack : Bool
  keep : Bool
  node : Bool
deriving DecidableEq

namespace Attributes

instance : Ord Attributes where
  compare := compareLex (compareOn read) <| compareLex (compareOn stack) <|
    compareLex (compareOn keep) (compareOn node)

instance : Std.TransOrd Attributes :=
  inferInstanceAs (Std.TransCmp (compareLex _ (compareLex _ (compareLex _ _))))

instance : Std.LawfulEqOrd Attributes where
  eq_of_compare {a b} h := by
    obtain ⟨h₁, h⟩ := compareLex_eq_eq.1 (h : compareLex (compareOn read) _ a b = _)
    obtain ⟨h₂, h⟩ := compareLex_eq_eq.1 h
    obtain ⟨h₃, h₄⟩ := compareLex_eq_eq.1 h
    cases a; cases b
    cases Std.LawfulEqOrd.eq_of_compare h₁
    cases Std.LawfulEqOrd.eq_of_compare h₂
    cases Std.LawfulEqOrd.eq_of_compare h₃
    cases Std.LawfulEqOrd.eq_of_compare h₄
    rfl

end Attributes

inductive AttributeWord
  | read | look | stack | noStack | keep | noKeep | node | noNode
deriving DecidableEq

def AttributeWord.ofString? : String → Option AttributeWord
  | "read" => some read
  | "look" => some look
  | "stack" => some stack
  | "noStack" => some noStack
  | "keep" => some keep
  | "noKeep" => some noKeep
  | "node" => some node
  | "noNode" => some noNode
  | _ => none

structure UnknownWord where
  word : String
deriving DecidableEq

def AttributeWord.ofStrings : List String → Except UnknownWord (List AttributeWord)
  | [] => .ok []
  | s :: l =>
    match ofString? s with
    | none => .error ⟨s⟩
    | some w => (ofStrings l).map (w :: ·)

namespace Attributes

def look : Attributes := ⟨false, false, false, false⟩

def scanner : Attributes := ⟨true, false, true, false⟩

def parserTerminal : Attributes := ⟨true, true, false, false⟩

def parserNonterminal : Attributes := ⟨true, true, false, true⟩

def defaultFor (kind : Kind) (isNonterminal : Bool) : Attributes :=
  match kind with
  | .scanner | .superScanner => scanner
  | .parser => if isNonterminal then parserNonterminal else parserTerminal

def set (a : Attributes) : AttributeWord → Attributes
  | .read => { a with read := true }
  | .look => a
  | .stack => { a with stack := true }
  | .noStack => { a with stack := false }
  | .keep => { a with keep := true }
  | .noKeep => { a with keep := false }
  | .node => { a with node := true }
  | .noNode => { a with node := false }

/-- A list of words with `look` in it gives `look`; otherwise each word acts in turn. -/
def applyWords (a : Attributes) (words : List AttributeWord) : Attributes :=
  if .look ∈ words then look else words.foldl set a

def apply (a : Attributes) (tokens : List String) : Except UnknownWord Attributes :=
  (AttributeWord.ofStrings tokens).map a.applyWords

/-- `L` for a symbol that is not consumed, otherwise `R` and a letter for each further attribute. -/
def text (a : Attributes) : String :=
  if a.read then
    "R" ++ (if a.stack then "S" else "") ++ (if a.keep then "K" else "") ++
      (if a.node then "N" else "")
  else "L"

end Attributes

end RightPart
