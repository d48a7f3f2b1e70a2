import RightPart.Tables.Basic
import RightPart.Tables.Readahead

namespace RightPart.ReadaheadAutomaton

variable (g : Grammar) (a : ReadaheadAutomaton)

/-- The seed in which a scanner goes on after a token: that of the production if it has one,
otherwise the first. -/
def restartOf (id : ProductionId) : Nat :=
  match a.seeds.find? (·.2 = id) with
  | some s => s.1
  | none => (a.seeds.head?.map Prod.fst).getD 0

def itemBridges (i : Nat) (item : Item) : List (String × Nat) :=
  match g.productions.get? item.production with
  | none => []
  | some p =>
    let restart := a.restartOf item.production
    if p.body.isFinalAt item.state && restart ≠ i then p.follow.toList.map (·, restart) else []

/-- A complete token is left by looking at what may follow it. A symbol with which the token can go
on is passed over, so the longest token wins. -/
def bridges (i : Nat) (s : ReadaheadNode) (transitions : List (Label × Target)) :
    List (Label × Target) :=
  let taken := OrderedSet.ofList (transitions.map (·.1.name))
  let fresh := (s.items.toList.flatMap (a.itemBridges g i)).filter (·.1 ∉ taken)
  (OrderedMap.group fresh).entries.filterMap fun e ↦
    e.2.head?.map fun j ↦ (.look e.1, .readahead j)

end RightPart.ReadaheadAutomaton
