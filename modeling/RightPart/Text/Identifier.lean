import RightPart.Text.Unicode.Range
import RightPart.Text.Unicode.Xid

namespace RightPart.Text

open Unicode

def startsIdentifier (c : Char) : Bool := c == '_' || covers xidStart c

def continuesIdentifier (c : Char) : Bool := startsIdentifier c || covers xidContinueOnly c

def isIdentifier (s : String) : Bool :=
  match s.toList with
  | [] => false
  | c :: l => startsIdentifier c && l.all continuesIdentifier

end RightPart.Text
