import RightPart.Text.Quoted
import RightPart.Text.Unicode.Range
import RightPart.Text.Unicode.Printable

namespace RightPart.Text

open Unicode

/-- Whether a character stands for itself: it prints, and does not combine with the one before. -/
def isPlain (c : Char) : Bool :=
  0x20 ≤ c.toNat && c.toNat < 0x7f || !(covers graphemeExtend c || covers unprintable c)

def escapeChar (c : Char) : List Char :=
  match c with
  | '\x00' => ['\\', '0']
  | '\t' => ['\\', 't']
  | '\r' => ['\\', 'r']
  | '\n' => ['\\', 'n']
  | '\\' => ['\\', '\\']
  | '"' => ['\\', '"']
  | c => if isPlain c then [c] else codeEscape c

def escaped (s : String) : String := .ofList ('"' :: s.toList.flatMap escapeChar ++ ['"'])

end RightPart.Text
