import RightPart.Label.Attributes
import RightPart.Text.Quoted

namespace RightPart

inductive Argument
  | int (value : Int64)
  | str (text : String)
deriving DecidableEq

namespace Argument

def isStr : Argument → Bool
  | int _ => false
  | str _ => true

def value : Argument → Int64
  | int v => v
  | str _ => 0

def content : Argument → String
  | int _ => ""
  | str s => s

instance : Ord Argument where
  compare := compareLex (compareOn isStr) (compareLex (compareOn value) (compareOn content))

instance : Std.TransOrd Argument := inferInstanceAs (Std.TransCmp (compareLex _ (compareLex _ _)))

instance : Std.LawfulEqOrd Argument where
  eq_of_compare {a b} h := by
    obtain ⟨h₁, h⟩ := compareLex_eq_eq.1 (h : compareLex (compareOn isStr) _ a b = _)
    obtain ⟨h₂, h₃⟩ := compareLex_eq_eq.1 h
    have e₁ := Std.LawfulEqOrd.eq_of_compare h₁
    have e₂ := Std.LawfulEqOrd.eq_of_compare h₂
    have e₃ := Std.LawfulEqOrd.eq_of_compare h₃
    cases a <;> cases b <;> simp_all [isStr, value, content]

def text : Argument → String
  | int v => toString v.toInt
  | str s => Text.quoted s

end Argument

inductive Label
  | symbol (name : String) (attributes : Attributes)
  | action (name : String) (arguments : List Argument) (buildsTree : Bool)
deriving DecidableEq

namespace Label

def name : Label → String
  | symbol n _ => n
  | action n _ _ => n

def attributes? : Label → Option Attributes
  | symbol _ a => some a
  | action .. => none

def arguments : Label → List Argument
  | symbol .. => []
  | action _ l _ => l

def isAction : Label → Bool
  | symbol .. => false
  | action .. => true

def buildsTree : Label → Bool
  | symbol .. => false
  | action _ _ b => b

/-- Symbols come before actions; within each, names decide first. -/
instance : Ord Label where
  compare := compareLex (compareOn isAction) <| compareLex (compareOn name) <|
    compareLex (compareOn attributes?) <| compareLex (compareOn arguments) (compareOn buildsTree)

instance : Std.TransOrd Label :=
  inferInstanceAs (Std.TransCmp (compareLex _ (compareLex _ (compareLex _ (compareLex _ _)))))

instance : Std.LawfulEqOrd Label where
  eq_of_compare {a b} h := by
    obtain ⟨h₁, h⟩ := compareLex_eq_eq.1 (h : compareLex (compareOn isAction) _ a b = _)
    obtain ⟨h₂, h⟩ := compareLex_eq_eq.1 h
    obtain ⟨h₃, h⟩ := compareLex_eq_eq.1 h
    obtain ⟨h₄, h₅⟩ := compareLex_eq_eq.1 h
    have e₁ := Std.LawfulEqOrd.eq_of_compare h₁
    have e₂ := Std.LawfulEqOrd.eq_of_compare h₂
    have e₃ := Std.LawfulEqOrd.eq_of_compare h₃
    have e₄ := Std.LawfulEqOrd.eq_of_compare h₄
    have e₅ := Std.LawfulEqOrd.eq_of_compare h₅
    cases a <;> cases b <;> simp_all [isAction, name, attributes?, arguments, buildsTree]

/-- Whether the label consumes a symbol, and so shows on the stack. -/
def isRead : Label → Bool
  | symbol _ a => a.read
  | action .. => false

def look (name : String) : Label := symbol name .look

def asLook (l : Label) : Label := look l.name

/-- The attributes as table rows write them; an action counts as a look. -/
def attributeText (l : Label) : String := (l.attributes?.getD .look).text

def text : Label → String
  | symbol n a => Text.quoted n ++ "/" ++ a.text
  | action n l _ =>
    "\x7b" ++ n ++ ":" ++ (if l.isEmpty then "" else " ") ++
      String.intercalate ", " (l.map Argument.text) ++ "\x7d"

end Label

end RightPart
