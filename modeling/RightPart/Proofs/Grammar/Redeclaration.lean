import RightPart.Proofs.Expr.Substitution
import RightPart.Proofs.Grammar.Prepared
import RightPart.Proofs.Ordered.Saturate

namespace RightPart

namespace Grammar

def redeclare (g : Grammar) (s : OrderedSet String) : Grammar := { g with nonterminals := s }

/-- Two grammars that differ in the order of their nonterminals at most. -/
def Redeclared (g g' : Grammar) : Prop :=
  ∃ s, (∀ n, n ∈ s ↔ n ∈ g.nonterminals) ∧ g' = g.redeclare s

variable {g : Grammar} {s : OrderedSet String} {nullables : OrderedSet String}
  {first follow follow' : Family String String}

theorem members_goalFollows_redeclare :
    (g.redeclare s).goalFollows.members = g.goalFollows.members := by
  refine List.foldl_rel (r := fun f f' : Family String String ↦ f.members = f'.members) ?_
    fun p _ f f' h ↦ ?_
  · rw [Family.members_foldl_enlarge_nil, Family.members_foldl_enlarge_nil]
  · rw [Family.members_enlarge, Family.members_enlarge, h]

theorem following_congr (h : follow.members = follow'.members) (p : Production) (i : Nat) :
    g.following nullables first follow p i = g.following nullables first follow' p i := by
  rw [following, following, h]

variable (hs : ∀ n, n ∈ s ↔ n ∈ g.nonterminals)

include hs

theorem isNonterminal_redeclare : (g.redeclare s).isNonterminal = g.isNonterminal :=
  funext fun n ↦ decide_eq_decide.2 (hs n)

theorem isNonterminalLabel_redeclare :
    (g.redeclare s).isNonterminalLabel = g.isNonterminalLabel := by
  funext l
  rw [isNonterminalLabel, isNonterminal_redeclare hs, isNonterminalLabel]

theorem labelFirst_redeclare : (g.redeclare s).labelFirst = g.labelFirst := by
  funext first l
  rw [labelFirst, labelFirst, isReadTerminal, isReadTerminal, isNonterminalLabel_redeclare hs,
    isNonterminal_redeclare hs]

theorem firstPass_redeclare : (g.redeclare s).firstPass nullables = g.firstPass nullables := by
  funext first
  simp only [firstPass, bodyFirst, labelFirst_redeclare hs]
  rfl

theorem findFirsts_redeclare : (g.redeclare s).findFirsts nullables = g.findFirsts nullables :=
  saturate_congr _ _ (firstPass_redeclare hs) rfl

theorem calls_redeclare : (g.redeclare s).calls = g.calls := by
  simp only [calls, isNonterminalLabel_redeclare hs]
  rfl

theorem following_redeclare : (g.redeclare s).following = g.following := by
  funext nullables first follow p i
  simp only [following, labelFirst_redeclare hs]

theorem members_followPass_redeclare (h : follow.members = follow'.members) :
    (g.followPass nullables first follow).members =
      ((g.redeclare s).followPass nullables first follow').members := by
  rw [followPass, followPass, calls_redeclare hs, following_redeclare hs]
  refine List.foldl_rel (r := fun f f' : Family String String ↦ f.members = f'.members) h
    fun c _ f f' h ↦ ?_
  rw [Family.members_enlarge, Family.members_enlarge, h, following_congr h]

/-- The sets of followers come with their keys in the order of the nonterminals, but are
the same. -/
theorem members_findFollows_redeclare (hf : first.Within g.lefts g.symbolNames) :
    (findFollows (g.redeclare s) nullables first hf).members =
      (g.findFollows nullables first hf).members := by
  refine (saturate_rel (R := fun f f' : Family String String ↦ f.members = f'.members)
    (fun _ _ ↦ Family.total_congr) (fun _ _ ↦ members_followPass_redeclare hs) _ _ _ ?_).symm
  exact members_goalFollows_redeclare.symm

theorem analyze_redeclare : (g.redeclare s).analyze = g.analyze.redeclare s := by
  have hnullables : (g.redeclare s).findNullables = g.findNullables := rfl
  simp only [analyze, hnullables, findFirsts_redeclare hs,
    members_findFollows_redeclare hs (g.within_findFirsts _)]
  rfl

theorem checked_analyze_redeclare :
    Checked.analyze (g.redeclare s) = (Checked.analyze g).map (·.redeclare s) := by
  have hmissing : (g.redeclare s).AnalysisMissing (g.redeclare s).findNullables ↔
      g.AnalysisMissing g.findNullables := by
    rw [AnalysisMissing, isNonterminalLabel_redeclare hs]
    rfl
  rw [Checked.analyze, Checked.analyze, analyze_redeclare hs]
  simp only [hmissing]
  split <;> rfl

theorem matched_analyze :
    Matched Redeclared (Checked.analyze g) (Checked.analyze (g.redeclare s)) := by
  intro g' hg'
  have hnonterminals : g'.nonterminals = g.nonterminals := by
    unfold Checked.analyze at hg'
    split at hg'
    · cases hg'
    · exact Except.ok.inj hg' ▸ rfl
  exact ⟨g'.redeclare s, by rw [checked_analyze_redeclare hs, hg']; rfl, s, hnonterminals ▸ hs, rfl⟩

end Grammar

namespace Draft

def redeclare (d : Draft) (s : OrderedSet String) : Draft := { d with nonterminals := s }

def Redeclared (d d' : Draft) : Prop := ∃ s, (∀ n, n ∈ s ↔ n ∈ d.nonterminals) ∧ d' = d.redeclare s

variable {d d' : Draft} {s : OrderedSet String}

namespace Redeclared

theorem mem_insert (hs : ∀ n, n ∈ s ↔ n ∈ d.nonterminals) (name : String) (n : String) :
    n ∈ s.insert name ↔ n ∈ d.nonterminals.insert name := by
  rw [OrderedSet.mem_insert, OrderedSet.mem_insert, hs]

theorem kind_eq (h : d.Redeclared d') : d'.kind = d.kind := by
  obtain ⟨s, -, rfl⟩ := h
  rfl

theorem rules_eq (h : d.Redeclared d') : d'.rules = d.rules := by
  obtain ⟨s, -, rfl⟩ := h
  rfl

theorem macros_eq (h : d.Redeclared d') : d'.macros = d.macros := by
  obtain ⟨s, -, rfl⟩ := h
  rfl

theorem isNonterminal_eq (h : d.Redeclared d') (name : String) :
    d'.isNonterminal name = d.isNonterminal name := by
  obtain ⟨s, hs, rfl⟩ := h
  exact decide_eq_decide.2 (hs name)

theorem symbol_eq (h : d.Redeclared d') (name : String) : d'.symbol name = d.symbol name := by
  rw [Draft.symbol, Draft.symbol, label, label, h.isNonterminal_eq, h.kind_eq]

theorem hasMacro_eq (h : d.Redeclared d') (name : String) : d'.hasMacro name = d.hasMacro name := by
  rw [hasMacro, hasMacro, h.macros_eq]

theorem toAutomaton (h : d.Redeclared d') (e : Expr) :
    Matched Eq (e.toAutomaton d) (e.toAutomaton d') := by
  refine Expr.matched_toAutomaton h.kind_eq (fun n _ ↦ ?_) fun n m hm ↦ h.macros_eq ▸ hm
  rw [Expr.symbolAutomaton, Expr.symbolAutomaton, h.symbol_eq, h.macros_eq]

theorem declareNonterminal (h : d.Redeclared d') (name : String) :
    Matched Redeclared (d.declareNonterminal name) (d'.declareNonterminal name) := by
  rw [Draft.declareNonterminal, Draft.declareNonterminal, h.hasMacro_eq]
  obtain ⟨s, hs, rfl⟩ := h
  split
  · exact .error
  · split
    · exact .error
    · exact .ok ⟨_, mem_insert hs name, rfl⟩

theorem defineMacro (h : d.Redeclared d') (name : String) (m : Automaton) :
    Matched Redeclared (d.defineMacro name m) (d'.defineMacro name m) := by
  rw [Draft.defineMacro, Draft.defineMacro, h.isNonterminal_eq, h.hasMacro_eq]
  obtain ⟨s, hs, rfl⟩ := h
  split
  · exact .error
  · split
    · exact .error
    · exact .ok ⟨s, hs, rfl⟩

theorem addProduction (h : d.Redeclared d') (left : String) (m : Automaton) :
    Matched Redeclared (d.addProduction left m) (d'.addProduction left m) := by
  refine (h.declareNonterminal left).bind fun d₁ d₁' h₁ ↦ .ok ?_
  obtain ⟨s, hs, rfl⟩ := h₁
  exact ⟨s, hs, rfl⟩

theorem addGoal (h : d.Redeclared d') (left : String) (m : Automaton) (lookahead : List String) :
    Matched Redeclared (d.addGoal left m lookahead) (d'.addGoal left m lookahead) := by
  unfold Draft.addGoal
  split
  · exact .error
  · refine (h.addProduction left m).bind fun d₁ d₁' h₁ ↦ .ok ?_
    obtain ⟨s, hs, rfl⟩ := h₁
    exact ⟨s, hs, rfl⟩

theorem addTo (h : d.Redeclared d') (x : Definition) :
    Matched Redeclared (x.addTo d) (x.addTo d') := by
  cases x with
  | nonterminals names => exact .ok h
  | keywords names =>
    obtain ⟨s, hs, rfl⟩ := h
    refine .ok ?_
    rw [foldl_declareKeyword, foldl_declareKeyword]
    exact ⟨s, hs, rfl⟩
  | abbreviation name body =>
    exact (h.toAutomaton body).bind_eq fun m _ ↦ (h.defineMacro name m).mapError
  | production left body =>
    exact (h.toAutomaton body).bind_eq fun m _ ↦ (h.addProduction left m).mapError
  | goal left body lookahead =>
    exact (h.toAutomaton body).bind_eq fun m _ ↦ (h.addGoal left m lookahead).mapError

theorem foldlM_addTo (h : d.Redeclared d') (l : List Definition) :
    Matched Redeclared (l.foldlM Definition.addTo d) (l.foldlM Definition.addTo d') := by
  induction l generalizing d d' with
  | nil => exact .ok h
  | cons x l ih => exact (h.addTo x).bind fun _ _ ↦ ih

theorem wrap (h : d.Redeclared d') (used : OrderedSet String) (e : String × RightSide) :
    (wrap used d e).Redeclared (wrap used d' e) := by
  rw [Draft.wrap, Draft.wrap, h.symbol_eq]
  obtain ⟨s, hs, rfl⟩ := h
  split
  · split
    · exact ⟨_, mem_insert hs _, rfl⟩
    · exact ⟨s, hs, rfl⟩
  · exact ⟨s, hs, rfl⟩

theorem wrapGoals (h : d.Redeclared d') : d.wrapGoals.Redeclared d'.wrapGoals := by
  rw [wrapGoals_eq, wrapGoals_eq]
  obtain ⟨s, hs, rfl⟩ := h
  exact List.foldl_rel (r := Redeclared) ⟨s, hs, rfl⟩ fun e _ _ _ h ↦ h.wrap _ e

theorem prepared (h : d.Redeclared d') : d.prepared.Redeclared d'.prepared := by
  rw [Draft.prepared, Draft.prepared, h.kind_eq]
  split
  · exact h.wrapGoals
  · exact h

theorem finish (h : d.Redeclared d') : Matched Grammar.Redeclared d.finish d'.finish := by
  have hd : (if d.kind = .parser then d.wrapGoals else d) = d.prepared := rfl
  have hd' : (if d'.kind = .parser then d'.wrapGoals else d') = d'.prepared := rfl
  obtain ⟨s, hs, heq⟩ := h.prepared
  simp only [Draft.finish, h.rules_eq, hd, hd', heq]
  split
  · exact .error
  · refine (Matched.refl _).bind_eq fun ps _ ↦ .mapError ?_
    exact Grammar.matched_analyze hs

end Redeclared

variable {names : List String}

theorem isIdentifier_of_foldlM (h : names.foldlM declareNonterminal d = .ok d') :
    ∀ n ∈ names, Text.isIdentifier n := by
  induction names generalizing d with
  | nil => exact nofun
  | cons name names ih =>
    obtain ⟨d₁, h₁, h⟩ := Except.bind_eq_ok.1 h
    exact List.forall_mem_cons.2 ⟨isIdentifier_of_declareNonterminal h₁, ih h⟩

theorem foldlM_declareNonterminal_eq (hmacros : ∀ n, d.hasMacro n = false)
    (hnames : ∀ n ∈ names, Text.isIdentifier n) :
    names.foldlM declareNonterminal d = .ok (d.redeclare (d.nonterminals.extend names)) := by
  induction names generalizing d with
  | nil => rfl
  | cons name names ih =>
    obtain ⟨hname, hnames⟩ := List.forall_mem_cons.1 hnames
    have hd : d.declareNonterminal name = .ok (d.redeclare (d.nonterminals.insert name)) := by
      rw [declareNonterminal, hname, hmacros name]
      rfl
    rw [List.foldlM_cons, hd]
    exact ih (d := d.redeclare (d.nonterminals.insert name)) hmacros hnames

/-- The order in which nonterminals are declared does not matter, nor how often. -/
theorem matched_declareNonterminal {kind : Kind} {names' : List String}
    (hnames : ∀ n, n ∈ names' ↔ n ∈ names) :
    Matched Redeclared (names.foldlM declareNonterminal { kind })
      (names'.foldlM declareNonterminal { kind }) := by
  intro d hd
  have hidentifiers := isIdentifier_of_foldlM hd
  obtain rfl := foldlM_declareNonterminal hd
  have hd' : names'.foldlM declareNonterminal { kind } = .ok _ :=
    foldlM_declareNonterminal_eq (fun n ↦ decide_eq_false (OrderedSet.not_mem_empty n))
      fun n hn ↦ hidentifiers n ((hnames n).1 hn)
  refine ⟨_, hd', _, fun n ↦ ?_, rfl⟩
  rw [OrderedSet.mem_extend, OrderedSet.mem_extend, hnames]

end Draft

namespace Definition

def isDeclaration : Definition → Bool
  | nonterminals _ => true
  | _ => false

theorem foldlM_addTo_filter (l : List Definition) (d : Draft) :
    (l.filter (!·.isDeclaration)).foldlM addTo d = l.foldlM addTo d := by
  induction l generalizing d with
  | nil => rfl
  | cons x l ih =>
    cases x with
    | nonterminals names => exact ih d
    | keywords names => exact bind_congr ih
    | abbreviation name body => exact bind_congr ih
    | production left body => exact bind_congr ih
    | goal left body lookahead => exact bind_congr ih

end Definition

/-- Lists of definitions that declare the same nonterminals, in whatever order and wherever, and
agree on all else describe the same grammar. -/
theorem Grammar.matched_define {kind : Kind} {l l' : List Definition}
    (hrest : l'.filter (!·.isDeclaration) = l.filter (!·.isDeclaration))
    (hnames : ∀ n, n ∈ l'.flatMap Definition.declared ↔ n ∈ l.flatMap Definition.declared) :
    Matched Redeclared (define kind l) (define kind l') := by
  refine (Draft.matched_declareNonterminal hnames).mapError.bind fun d d' h ↦ ?_
  rw [← Definition.foldlM_addTo_filter l', hrest, Definition.foldlM_addTo_filter]
  exact (h.foldlM_addTo l).bind fun _ _ h ↦ h.finish.mapError

end RightPart
