import RightPart.Text.Quoted

namespace RightPart

inductive Operation
  | orAll
  | concatenateAll
  | ofCodes
  | intersect
  | difference
deriving DecidableEq

def Operation.name : Operation → String
  | orAll => "or_all"
  | concatenateAll => "concatenate_all"
  | ofCodes => "for_integers"
  | intersect => "intersect"
  | difference => "difference"

inductive AlgebraError
  | emptyOperands (operation : Operation)
  | incompatibleAlphabets (operation : Operation)
  | invalidCode (code : Nat)
  | missingState
deriving DecidableEq

namespace AlgebraError

def message : AlgebraError → String
  | emptyOperands op => "`" ++ op.name ++ "' requires at least one operand"
  | incompatibleAlphabets op =>
    "`" ++ op.name ++ "' is undefined for automata containing semantic actions"
  | invalidCode code => "0x" ++ .ofList (Text.hex code) ++ " is not a valid character code"
  | missingState => "a transition leads to a state that does not exist"

end AlgebraError

end RightPart
