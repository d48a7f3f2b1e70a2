import RightPart.Label.Basic

namespace RightPart

/-- A regular expression over grammar symbols. -/
inductive Expr
  /-- A terminal, a nonterminal or a macro. -/
  | symbol (name : String)
  | literal (text : String)
  | code (code : Nat)
  | range (lower upper : Expr)
  | sequence (l : List Expr)
  | alternation (l : List Expr)
  | star (e : Expr)
  | plus (e : Expr)
  | optional (e : Expr)
  | intersection (a b : Expr)
  | difference (a b : Expr)
  | attributed (e : Expr) (words : List String)
  | action (name : String) (arguments : List Argument) (buildsTree : Bool)
  /-- A name that must be that of a macro. -/
  | reference (name : String)
  | empty

end RightPart
