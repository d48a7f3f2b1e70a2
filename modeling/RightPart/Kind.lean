namespace RightPart

/-- A scanner reads characters, a superscanner whole strings, a parser the tokens of a scanner. -/
inductive Kind
  | scanner
  | parser
  | superScanner
deriving DecidableEq

namespace Kind

def isScanner : Kind → Bool
  | parser => false
  | _ => true

def name : Kind → String
  | scanner => "Scanner"
  | parser => "Parser"
  | superScanner => "SuperScanner"

end Kind

end RightPart
