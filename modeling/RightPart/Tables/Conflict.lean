import RightPart.Ordered.Map
import RightPart.Tables.Basic
import RightPart.Text.Escaped

namespace RightPart

def ambiguous {κ ν : Type} [Ord κ] [Std.TransOrd κ] [Std.LawfulEqOrd κ] (l : List (κ × ν)) :
    List (κ × List ν) :=
  (OrderedMap.group l).entries.filter (1 < ·.2.length)

def ReadaheadState.conflict? (i : Nat) (s : ReadaheadState) : Option Conflict :=
  match ambiguous (s.transitions.map fun e ↦ (e.1.name, e.2)) with
  | [] => none
  | l => some (.readahead i l)

def ReduceState.conflict? (i : Nat) (s : ReduceState) : Option Conflict :=
  match ambiguous (s.restarts.map fun r ↦ (r.source, r.target)) with
  | [] => none
  | l => some (.reduce i s.nonterminal l)

def findConflicts (readaheads : List ReadaheadState) (reduces : List ReduceState) : List Conflict :=
  (readaheads.zipIdx.filterMap fun (s, i) ↦ s.conflict? i) ++
    reduces.zipIdx.filterMap fun (s, i) ↦ s.conflict? i

namespace Conflict

def listText (l : List String) : String := "[" ++ String.intercalate ", " l ++ "]"

def text : Conflict → String
  | readahead i symbols =>
    "readahead state " ++ tagged "RA" i ++ " is ambiguous on " ++
      String.intercalate ", " (symbols.map fun (n, l) ↦
        Text.escaped n ++ " => " ++ listText (l.map Target.text))
  | reduce i n sources =>
    "reduce state " ++ tagged "RD" i ++ " (" ++ n ++ ") restarts ambiguously from " ++
      String.intercalate ", " (sources.map fun (j, l) ↦
        tagged "RA" j ++ " => " ++ listText (l.map (tagged "RA")))

end Conflict

end RightPart
