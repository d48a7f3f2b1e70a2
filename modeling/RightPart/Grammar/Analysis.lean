import RightPart.Grammar.Follow

namespace RightPart.Grammar

/-- Fills in what each nonterminal derives, begins with and is followed by. -/
def analyze (g : Grammar) : Grammar :=
  let nullables := g.findNullables
  let first := g.findFirsts nullables
  let follow := g.findFollows nullables first (g.within_findFirsts nullables)
  { g with
    nullables
    productions := g.productions.mapValues fun p ↦ { p with
      generatesEmpty := p.left ∈ nullables
      first := first.members p.left
      follow := follow.members p.left } }

def AnalysisMissing (g : Grammar) (nullables : OrderedSet String) : Prop :=
  ∃ p ∈ g.productions.values,
    p.body.SilentMissing nullables p.body.initials ∨
    ∃ t ∈ (p.body.transitions.filter (g.isNonterminalLabel ·.2.label)).map Prod.snd,
      p.body.SilentMissing nullables [t.target]

instance (g : Grammar) (nullables : OrderedSet String) : Decidable (g.AnalysisMissing nullables) :=
  inferInstanceAs (Decidable (∃ p ∈ g.productions.values, _))

def Checked.analyze (g : Grammar) : Except AlgebraError Grammar :=
  if g.AnalysisMissing g.findNullables then .error .missingState else .ok g.analyze

end RightPart.Grammar
