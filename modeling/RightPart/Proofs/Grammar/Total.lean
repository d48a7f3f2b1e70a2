import RightPart.Proofs.Expr.Total
import RightPart.Proofs.Grammar.Analysis
import RightPart.Proofs.Grammar.Prepared

namespace RightPart

namespace Automaton

variable {m : Automaton} {nullables : OrderedSet String} {states : List Nat} {i j : Nat}

theorem SilentTo.lt_size (h : m.SilentTo nullables i j) (hc : m.Closed) (hi : i < m.size) :
    j < m.size := by
  induction h with
  | refl => exact hi
  | tail _ ht _ =>
    obtain ⟨t, ht, -, rfl⟩ := ht
    exact closed_iff.1 hc _ t ht

theorem not_silentMissing (hc : m.Closed) (h : ∀ i ∈ states, i < m.size) :
    ¬ m.SilentMissing nullables states := by
  intro hmissing
  obtain ⟨j, hj, hle⟩ := hmissing
  obtain ⟨i, hi, hij⟩ := mem_silentClosure.1 hj
  exact absurd (hij.lt_size hc (h i hi)) (Nat.not_lt.2 hle)

end Automaton

namespace Grammar

variable {g : Grammar}

theorem not_analysisMissing (hc : ∀ p ∈ g.productions.values, p.body.Closed)
    {nullables : OrderedSet String} : ¬ g.AnalysisMissing nullables := by
  intro h
  obtain ⟨p, hp, h | ⟨t, ht, h⟩⟩ := h
  · refine Automaton.not_silentMissing (hc p hp) (fun i hi ↦ ?_) h
    exact Automaton.lt_size_of_isInitialAt (Automaton.mem_initials.1 hi)
  · refine Automaton.not_silentMissing (hc p hp) (fun i hi ↦ ?_) h
    obtain ⟨⟨k, t⟩, he, rfl⟩ := List.mem_map.1 ht
    rw [List.mem_singleton.1 hi]
    exact Automaton.closed_iff.1 (hc p hp) k t
      (Automaton.mem_transitions.1 (List.mem_filter.1 he).1)

theorem checked_analyze (hc : ∀ p ∈ g.productions.values, p.body.Closed) :
    Checked.analyze g = .ok g.analyze := by
  rw [Checked.analyze, if_neg (not_analysisMissing hc)]

end Grammar

namespace Draft

open GrammarError (IsMissing)

variable {d : Draft} {name left : String} {m : Automaton}

theorem avoids_declareNonterminal : Avoids IsMissing (d.declareNonterminal name) := by
  unfold declareNonterminal
  split
  · exact .error id
  · split
    · exact .error id
    · exact .ok

theorem avoids_addProduction : Avoids IsMissing (d.addProduction left m) :=
  avoids_declareNonterminal.bind_ok

theorem avoids_addGoal {lookahead : List String} :
    Avoids IsMissing (d.addGoal left m lookahead) := by
  unfold addGoal
  split
  · exact .error id
  · exact avoids_addProduction.bind_ok

theorem avoids_defineMacro : Avoids IsMissing (d.defineMacro name m) := by
  unfold defineMacro
  split
  · exact .error id
  · split
    · exact .error id
    · exact .ok

theorem avoids_declareAll {names : List String} :
    Avoids IsMissing (names.foldlM declareNonterminal d) := by
  induction names generalizing d with
  | nil => exact .ok
  | cons name names ih => exact avoids_declareNonterminal.bind fun _ _ ↦ ih

theorem avoids_register {r : RightSide} (h : r.body.Closed) :
    Avoids IsMissing (register left r) := by
  rw [register, Automaton.checked_trim h]
  dsimp only
  split
  · exact .error id
  · exact .ok

theorem avoids_registerAll {l : List (String × RightSide)} (h : ∀ e ∈ l, e.2.body.Closed)
    {i : ProductionId} {ps : OrderedMap ProductionId Production} :
    Avoids IsMissing (registerAll i l ps) := by
  induction l generalizing i ps with
  | nil => exact .ok
  | cons e l ih =>
    obtain ⟨he, hl⟩ := List.forall_mem_cons.1 h
    exact (avoids_register he).bind fun _ _ ↦ ih hl

def unanalyzed (d : Draft) (ps : OrderedMap ProductionId Production) : Grammar :=
  { d with productions := ps, nullables := ∅ }

theorem avoids_finish (h : d.Lawful) : Avoids IsMissing d.finish := by
  simp only [finish, bind, Except.bind]
  split
  · exact .error id
  · have hd : (if d.kind = .parser then d.wrapGoals else d) = d.prepared := rfl
    rw [hd]
    refine (avoids_registerAll fun e he ↦ (h.prepared.tidy e he).closed).bind fun ps hps ↦ ?_
    have hclosed : ∀ p ∈ (d.prepared.unanalyzed ps).productions.values, p.body.Closed := fun p hp ↦
      (h.prepared.of_registerAll hps hp).2.closed
    refine .mapError fun e he ↦ ?_
    have he : Grammar.Checked.analyze (d.prepared.unanalyzed ps) = .error e := he
    rw [Grammar.checked_analyze hclosed] at he
    cases he

end Draft

namespace Scope.Describes

open ExprError (IsMissing)

variable {s : Scope} {d : Draft} {x : Definition} {pre : List Definition}

theorem avoids_addTo (h : s.Describes d) : Avoids IsMissing (x.addTo d) := by
  cases x with
  | nonterminals names => exact .ok
  | keywords names => exact .ok
  | abbreviation name body =>
    exact (Expr.avoids_toAutomaton h body).bind fun _ _ ↦ .mapError Draft.avoids_defineMacro
  | production left body =>
    exact (Expr.avoids_toAutomaton h body).bind fun _ _ ↦ .mapError Draft.avoids_addProduction
  | goal left body lookahead =>
    exact (Expr.avoids_toAutomaton h body).bind fun _ _ ↦ .mapError Draft.avoids_addGoal

theorem avoids_foldlM (h : s.Describes d) (ht : d.HasTidyRules)
    (hpre : ∀ x ∈ pre, ∀ n ∈ x.declared, s.isNonterminal n) :
    Avoids IsMissing (pre.foldlM Definition.addTo d) := by
  induction pre generalizing s d with
  | nil => exact .ok
  | cons x pre ih =>
    obtain ⟨hx, hpre⟩ := List.forall_mem_cons.1 hpre
    refine h.avoids_addTo.bind fun d' hd ↦ ?_
    obtain ⟨h', ht'⟩ := h.addTo ht (fun n hn ↦ h.isNonterminal_eq n ▸ hx n hn) hd
    rw [← s.isNonterminal_define x] at hpre
    exact ih h' ht' hpre

end Scope.Describes

namespace Draft

variable {kind : Kind} {l : List Definition}

theorem avoids_after : Avoids ExprError.IsMissing (after kind l l) := by
  refine Avoids.bind (.mapError avoids_declareAll) fun d₀ h₀ ↦ ?_
  obtain rfl := foldlM_declareNonterminal (Except.mapError_eq_ok.1 h₀)
  refine describes_declared.avoids_foldlM (fun _ he ↦ absurd he List.not_mem_nil) fun x hx n hn ↦ ?_
  exact decide_eq_true (List.mem_flatMap_of_mem hx hn)

end Draft

theorem Grammar.avoids_define {kind : Kind} {l : List Definition} :
    Avoids ExprError.IsMissing (Grammar.define kind l) := by
  have hdefine : Grammar.define kind l = Draft.after kind l l >>= fun d ↦
      d.finish.mapError .grammar := by
    rw [Grammar.define, Draft.after, bind_assoc]
  rw [hdefine]
  exact Draft.avoids_after.bind fun d hd ↦ .mapError (Draft.avoids_finish (Draft.lawful_after hd))

namespace Grammar

def Checked.goalFollows (g : Grammar) : Option (Family String String) :=
  (g.goals.map Prod.snd).foldlM (fun f p ↦
      if f.contains p.left then some (f.enlarge p.left (p.lookahead.getD ∅).toList) else none)
    (g.nonterminals.toList.foldl (fun f n ↦ f.enlarge n []) ∅)

/-- What follows the left of a production is asked for only where its right part may end. -/
def Checked.followPass (g : Grammar) (nullables : OrderedSet String)
    (first follow : Family String String) : Option (Family String String) :=
  g.calls.foldlM (fun follow c ↦
    if (c.1.body.silentClosure nullables [c.2.target]).toList.any c.1.body.isFinalAt &&
        !follow.contains c.1.left then none
    else some (follow.enlarge c.2.label.name
      (g.following nullables first follow c.1 c.2.target))) follow

/-- The analysis finds whatever it looks up: the states of the right parts, whichever nonterminals
are known to be nullable, and in each round the follow sets, beginning with what the goals say. -/
structure AnalysisFound (g : Grammar) : Prop where
  closures : ∀ nullables, ¬ g.AnalysisMissing nullables
  goals : Checked.goalFollows g = some g.goalFollows
  pass : ∀ nullables first n, Checked.followPass g nullables first
    ((g.followPass nullables first)^[n] g.goalFollows) =
      some ((g.followPass nullables first)^[n + 1] g.goalFollows)
  rounds : ∀ nullables first hf, ∃ n,
    g.findFollows nullables first hf = (g.followPass nullables first)^[n] g.goalFollows

theorem foldlM_eq_some_foldl {β γ : Type} {I : β → Prop} {f : β → γ → β} {F : β → γ → Option β}
    {l : List γ} (hF : ∀ b, I b → ∀ c ∈ l, F b c = some (f b c)) (hI : ∀ b c, I b → I (f b c))
    {b : β} (hb : I b) : l.foldlM F b = some (l.foldl f b) := by
  induction l generalizing b with
  | nil => rfl
  | cons c l ih =>
    rw [List.foldlM_cons, hF b hb c List.mem_cons_self, List.foldl_cons]
    exact ih (fun b hb c hc ↦ hF b hb c (List.mem_cons_of_mem _ hc)) (hI b c hb)

section Follow

variable {g : Grammar} {f : Family String String} {name : String}

theorem mem_keySet_enlarge {l : List String} {k : String} :
    k ∈ (f.enlarge name l).keySet ↔ k ∈ f.keySet ∨ k = name := by
  rw [Family.enlarge, OrderedMap.keySet_alter, OrderedSet.mem_insert]

theorem mem_keySet_foldl_enlarge {names : List String} (h : name ∈ names) :
    name ∈ (names.foldl (fun (f : Family String String) n ↦ f.enlarge n []) f).keySet := by
  obtain ⟨f', -, hmem⟩ := exists_mem_foldl (M := fun (f : Family String String) n ↦ n ∈ f.keySet)
    (f := fun f n ↦ f.enlarge n []) (fun f n k hk ↦ mem_keySet_enlarge.2 (.inl hk)) (b := f) h
  exact hmem name (mem_keySet_enlarge.2 (.inr rfl))

def HasFollows (g : Grammar) (f : Family String String) : Prop := ∀ n ∈ g.nonterminals, n ∈ f.keySet

theorem HasFollows.enlarge (h : g.HasFollows f) {l : List String} :
    g.HasFollows (f.enlarge name l) :=
  fun n hn ↦ mem_keySet_enlarge.2 (.inl (h n hn))

theorem hasFollows_goalFollows : g.HasFollows g.goalFollows :=
  List.foldlRecOn (motive := g.HasFollows) _ _ (fun _ hn ↦ mem_keySet_foldl_enlarge hn)
    fun _ h _ _ ↦ h.enlarge

variable {nullables : OrderedSet String} {first : Family String String}

theorem HasFollows.followPass (h : g.HasFollows f) :
    g.HasFollows (g.followPass nullables first f) :=
  List.foldlRecOn (motive := g.HasFollows) _ _ h fun _ h _ _ ↦ h.enlarge

theorem HasFollows.iterate (h : g.HasFollows f) (n : Nat) :
    g.HasFollows ((g.followPass nullables first)^[n] f) := by
  induction n with
  | zero => exact h
  | succ n ih =>
    rw [Function.iterate_succ_apply']
    exact ih.followPass

theorem checked_goalFollows (h : ∀ p ∈ g.productions.values, p.left ∈ g.nonterminals) :
    Checked.goalFollows g = some g.goalFollows := by
  refine foldlM_eq_some_foldl (I := g.HasFollows) (fun f hf p hp ↦ ?_) (fun _ _ hf ↦ hf.enlarge)
    fun _ hn ↦ mem_keySet_foldl_enlarge hn
  obtain ⟨e, he, rfl⟩ := List.mem_map.1 hp
  have hleft := hf _ (h _ (OrderedMap.snd_mem_values (List.mem_filter.1 he).1))
  rw [OrderedMap.contains, if_pos (decide_eq_true hleft)]

theorem checked_followPass (h : ∀ p ∈ g.productions.values, p.left ∈ g.nonterminals)
    (hf : g.HasFollows f) :
    Checked.followPass g nullables first f = some (g.followPass nullables first f) := by
  refine foldlM_eq_some_foldl (I := g.HasFollows) (fun f hf c hc ↦ ?_) (fun _ _ hf ↦ hf.enlarge) hf
  have hleft : f.contains c.1.left = true := decide_eq_true (hf _ (h c.1 (mem_calls.1 hc).1))
  rw [hleft, Bool.not_true, Bool.and_false]
  rfl

theorem analysisFound (h : ∀ p ∈ g.productions.values, p.left ∈ g.nonterminals ∧ p.body.Closed) :
    g.AnalysisFound where
  closures nullables := not_analysisMissing fun p hp ↦ (h p hp).2
  goals := checked_goalFollows fun p hp ↦ (h p hp).1
  pass nullables first n := by
    rw [checked_followPass (fun p hp ↦ (h p hp).1) (hasFollows_goalFollows.iterate n),
      Function.iterate_succ_apply']
  rounds nullables first hf := by
    obtain ⟨n, -, hn, -⟩ := exists_iterate_saturate g.within_goalFollows
    exact ⟨n, hn⟩

end Follow

end Grammar

end RightPart
