import RightPart.Proofs.Grammar.Redeclaration
import RightPart.Tables.Construct

namespace RightPart

namespace Grammar

variable {g : Grammar} {s : OrderedSet String} (hs : ∀ n, n ∈ s ↔ n ∈ g.nonterminals)

include hs

theorem itemGraph_redeclare : (g.redeclare s).itemGraph = g.itemGraph := by
  have hexpansions : (g.redeclare s).expansions = g.expansions := by
    simp only [expansions, isNonterminalLabel_redeclare hs]
    rfl
  rw [itemGraph, hexpansions]
  rfl

theorem kernelExits_redeclare : (g.redeclare s).kernelExits = g.kernelExits := by
  funext items kernel
  simp only [kernelExits, isStep, isNonterminalLabel_redeclare hs]
  rfl

theorem kernels_redeclare (items : ItemGraph) :
    (g.redeclare s).kernels items = g.kernels items := by
  simp only [kernels, kernelExits_redeclare hs]
  rfl

theorem readaheadAutomaton_redeclare (items : ItemGraph) :
    (g.redeclare s).readaheadAutomaton items = g.readaheadAutomaton items := by
  rw [readaheadAutomaton, kernels_redeclare hs, kernelExits_redeclare hs]
  rfl

theorem itemsFollow_redeclare : (g.redeclare s).itemsFollow = g.itemsFollow := by
  have hstate : (g.redeclare s).stateFollow = g.stateFollow := by
    funext p i
    simp only [stateFollow, isNonterminal_redeclare hs]
    rfl
  have hitem : (g.redeclare s).itemFollow = g.itemFollow := by
    funext i
    rw [itemFollow, hstate]
    rfl
  funext items
  rw [itemsFollow, hitem]
  rfl

theorem scannerTables_redeclare (a : ReadaheadAutomaton) :
    (g.redeclare s).scannerTables a = g.scannerTables a := by
  rw [scannerTables, ReadaheadAutomaton.follows, itemsFollow_redeclare hs]
  rfl

theorem reduceState_redeclare (a : ReadaheadAutomaton) :
    a.reduceState (g.redeclare s) = a.reduceState g := by
  funext stackable silentBack name
  rw [ReadaheadAutomaton.reduceState, ReadaheadAutomaton.restarts,
    ReadaheadAutomaton.directRestarts, isNonterminalLabel_redeclare hs]
  rfl

theorem parserTables_redeclare (a : ReadaheadAutomaton) (items : ItemGraph) :
    (g.redeclare s).parserTables a items = g.parserTables a items := by
  simp only [parserTables, ReadaheadAutomaton.follows, itemsFollow_redeclare hs,
    isNonterminalLabel_redeclare hs, reduceState_redeclare hs]
  rfl

/-- Tables are made of what is a nonterminal, never of the order of the nonterminals. -/
theorem construct_redeclare : (g.redeclare s).construct = g.construct := by
  simp only [construct, itemGraph_redeclare hs, readaheadAutomaton_redeclare hs,
    scannerTables_redeclare hs, parserTables_redeclare hs]
  rfl

omit hs in
/-- Nonterminals may be declared in any order, anywhere among the definitions, in one go or piece by
piece and more than once; a left part declares its nonterminal as well. The grammar is the same but
for the order of the set of nonterminals, and nothing of that order gets into the tables. -/
theorem define_redeclared {kind : Kind} {l l' : List Definition} (h : define kind l = .ok g)
    (hrest : l'.filter (!·.isDeclaration) = l.filter (!·.isDeclaration))
    (hnames : ∀ n, n ∈ l'.flatMap Definition.declared ↔ n ∈ l.flatMap Definition.declared) :
    ∃ g', define kind l' = .ok g' ∧ g'.kind = g.kind ∧ g'.productions = g.productions ∧
      g'.keywords = g.keywords ∧ g'.nullables = g.nullables ∧
      (∀ n, n ∈ g'.nonterminals ↔ n ∈ g.nonterminals) ∧ g'.construct = g.construct := by
  obtain ⟨g', hg', s, hs, rfl⟩ := matched_define hrest hnames g h
  exact ⟨_, hg', rfl, rfl, rfl, rfl, hs, construct_redeclare hs⟩

end Grammar

namespace Statements

def rules : List Definition :=
  [.production "statement"
      (.alternation [.symbol "expression",
        .sequence [.symbol "name", .literal "=", .symbol "expression"]]),
    .production "expression" (.plus (.symbol "name"))]

def program : Definition := .goal "program" (.star (.symbol "statement")) [Grammar.endOfInput]

def declaredFirst : List Definition :=
  .nonterminals ["program", "statement", "expression"] :: rules ++ [program]

def declaredApart : List Definition :=
  rules ++ [.nonterminals ["expression"], program, .nonterminals ["statement", "expression"]]

theorem define_redeclared_statements : ∃ g g', Grammar.define .parser declaredFirst = .ok g ∧
    Grammar.define .parser declaredApart = .ok g' ∧ g.nonterminals.toList ≠ g'.nonterminals.toList ∧
      g'.productions = g.productions ∧ g'.construct = g.construct := by
  cases h : Grammar.define .parser declaredFirst with
  | error e =>
    have hsucceeds : (Grammar.define .parser declaredFirst).isOk := by decide +kernel
    rw [h] at hsucceeds
    cases hsucceeds
  | ok g =>
    have hrest : declaredApart.filter (!·.isDeclaration) =
        declaredFirst.filter (!·.isDeclaration) := rfl
    have hsub : ∀ n ∈ declaredApart.flatMap Definition.declared,
        n ∈ declaredFirst.flatMap Definition.declared := by
      decide
    have hsup : ∀ n ∈ declaredFirst.flatMap Definition.declared,
        n ∈ declaredApart.flatMap Definition.declared := by
      decide
    obtain ⟨g', hg', -, hproductions, -, -, -, hconstruct⟩ :=
      Grammar.define_redeclared h hrest fun n ↦ ⟨hsub n, hsup n⟩
    have horder : (Grammar.define .parser declaredFirst).toOption.map (·.nonterminals.toList) ≠
        (Grammar.define .parser declaredApart).toOption.map (·.nonterminals.toList) := by
      decide +kernel
    rw [h, hg'] at horder
    exact ⟨g, g', rfl, hg', fun he ↦ horder (congrArg some he), hproductions, hconstruct⟩

end Statements

end RightPart
