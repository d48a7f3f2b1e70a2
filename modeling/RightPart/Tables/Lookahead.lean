import RightPart.Grammar.Nullable
import RightPart.Tables.Readahead

namespace RightPart.Grammar

variable (g : Grammar)

/-- The terminals that may come next in a state of a right part, whether consumed or looked at. -/
def stateFollow (p : Production) (i : Nat) : List String :=
  (p.body.silentClosure g.nullables [i]).toList.flatMap fun j ↦
    ((p.body.transitionsFrom j).flatMap fun t ↦
      if t.label.isAction then []
      else if g.isNonterminal t.label.name then ((g.first? t.label.name).getD ∅).toList
      else [t.label.name]) ++
    if p.body.isFinalAt j then p.follow.toList else []

def itemFollow (i : Item) : List String :=
  match g.productions.get? i.production with
  | none => []
  | some p => g.stateFollow p i.state

def itemsFollow (items : OrderedSet Item) : OrderedSet String :=
  .ofList (items.toList.flatMap g.itemFollow)

def FollowMissing (i : Item) : Prop :=
  ∃ p ∈ (g.productions.get? i.production).toList, p.body.SilentMissing g.nullables [i.state]

instance (i : Item) : Decidable (g.FollowMissing i) :=
  inferInstanceAs (Decidable (∃ p ∈ (g.productions.get? i.production).toList, _))

end RightPart.Grammar
