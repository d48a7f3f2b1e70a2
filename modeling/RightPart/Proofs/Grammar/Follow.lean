import RightPart.Proofs.Grammar.Sentential
import RightPart.Proofs.Grammar.Total

namespace RightPart

namespace Grammar

variable {g : Grammar}

/-- The sets of a family hold what goals say may come after them, and what right parts have behind
each nonterminal: the terminals that are read next, the first sets of the nonterminals that come
next, and the whole set of the left part where the right part may end. -/
structure FollowClosed (g : Grammar) (F : String → Set String) : Prop where
  lookahead : ∀ id p, g.productions.get? id = some p → ∀ names, p.lookahead = some names →
    ∀ c ∈ names, c ∈ F p.left
  terminal : ∀ id p, g.productions.get? id = some p → ∀ i, ∀ t ∈ p.body.transitionsFrom i,
    g.isNonterminalLabel t.label → ∀ j, p.body.SilentTo g.nullables t.target j →
    ∀ u ∈ p.body.transitionsFrom j, g.isReadTerminal u.label → u.label.name ∈ F t.label.name
  nonterminal : ∀ id p, g.productions.get? id = some p → ∀ i, ∀ t ∈ p.body.transitionsFrom i,
    g.isNonterminalLabel t.label → ∀ j, p.body.SilentTo g.nullables t.target j →
    ∀ u ∈ p.body.transitionsFrom j, g.isNonterminalLabel u.label →
    g.firsts u.label.name ⊆ F t.label.name
  final : ∀ id p, g.productions.get? id = some p → ∀ i, ∀ t ∈ p.body.transitionsFrom i,
    g.isNonterminalLabel t.label → ∀ j, p.body.SilentTo g.nullables t.target j →
    p.body.isFinalAt j → F p.left ⊆ F t.label.name

/-- The first sets as the search for the follow sets looks them up. -/
def foundFirsts (g : Grammar) : Family String String := g.findFirsts g.nullables

def followsAfter (g : Grammar) (k : Nat) : Family String String :=
  (g.followPass g.nullables g.foundFirsts)^[k] g.goalFollows

/-- The follow sets that the analysis finds, also of nonterminals that have no production. -/
def follows (g : Grammar) (name : String) : Set String :=
  {c | c ∈ (g.findFollows g.nullables g.foundFirsts (g.within_findFirsts g.nullables)).members name}

theorem findFirsts_analyze : g.analyze.findFirsts = g.findFirsts := by
  funext nullables
  refine saturate_congr _ _ ?_ ?_
  · rw [firstPass_analyze]
  · rw [emptyFirsts, lefts_analyze]
    rfl

theorem calls_analyze : ∃ f : Production → Production,
    g.analyze.calls = g.calls.map (fun c ↦ (f c.1, c.2)) ∧
    ∀ p, (f p).left = p.left ∧ (f p).body = p.body ∧ (f p).lookahead = p.lookahead := by
  obtain ⟨f, hf, hp⟩ := g.values_analyze
  refine ⟨f, ?_, hp⟩
  simp only [calls, hf, List.flatMap_map, List.map_flatMap, List.map_map, Function.comp_def, hp]
  rfl

theorem followPass_analyze : g.analyze.followPass = g.followPass := by
  obtain ⟨f, hf, hp⟩ := g.calls_analyze
  have hfollowing : ∀ nullables first follow p, g.analyze.following nullables first follow (f p) =
      g.following nullables first follow p := by
    intro nullables first follow p
    funext i
    simp only [following, hp]
    rfl
  funext nullables first follow
  simp only [followPass, hf, List.foldl_map, hfollowing]

theorem map_snd_goals : g.goals.map Prod.snd = g.productions.values.filter Production.isGoal := by
  rw [← OrderedMap.map_snd_entries, List.filter_map]
  rfl

theorem goalFollows_analyze : g.analyze.goalFollows = g.goalFollows := by
  obtain ⟨f, hf, hp⟩ := g.values_analyze
  have hgoal : Production.isGoal ∘ f = Production.isGoal := by
    funext p
    simp only [Function.comp_apply, Production.isGoal, hp]
  simp only [goalFollows, map_snd_goals, hf, List.filter_map, hgoal, List.foldl_map, hp]
  rfl

theorem findFollows_analyze {nullables : OrderedSet String} {first : Family String String}
    {hf : first.Within g.analyze.lefts g.analyze.symbolNames}
    {hf' : first.Within g.lefts g.symbolNames} :
    g.analyze.findFollows nullables first hf = g.findFollows nullables first hf' := by
  refine saturate_congr _ _ ?_ goalFollows_analyze
  rw [followPass_analyze]

theorem first_eq_foundFirsts {d : Draft} (h : d.finish = .ok g) {id : ProductionId} {p : Production}
    (hp : g.productions.get? id = some p) : p.first = g.foundFirsts.members p.left := by
  obtain ⟨g₀, rfl, -⟩ := Draft.finish_eq_ok h
  obtain ⟨-, -, -, -, -, hfirst, -⟩ := get?_analyze hp
  rw [hfirst, foundFirsts, findFirsts_analyze]
  rfl

theorem mem_follow {d : Draft} (h : d.finish = .ok g) {id : ProductionId} {p : Production}
    (hp : g.productions.get? id = some p) {c : String} : c ∈ p.follow ↔ c ∈ g.follows p.left := by
  obtain ⟨g₀, rfl, -⟩ := Draft.finish_eq_ok h
  obtain ⟨-, -, -, -, -, -, hfollow⟩ := get?_analyze hp
  have hfirsts : g₀.analyze.foundFirsts = g₀.findFirsts g₀.findNullables := by
    rw [foundFirsts, findFirsts_analyze]
    rfl
  have hf : (g₀.findFirsts g₀.findNullables).Within g₀.analyze.lefts g₀.analyze.symbolNames :=
    hfirsts ▸ within_findFirsts _ _
  have hfound : g₀.analyze.findFollows g₀.findNullables (g₀.findFirsts g₀.findNullables) hf =
      g₀.findFollows g₀.findNullables (g₀.findFirsts g₀.findNullables) (g₀.within_findFirsts _) :=
    findFollows_analyze
  rw [hfollow, ← hfound, follows]
  simp only [hfirsts]
  rfl

theorem mem_foundFirsts {d : Draft} (h : d.finish = .ok g) {name c : String} :
    c ∈ g.foundFirsts.members name ↔ c ∈ g.firsts name := by
  have hr := Draft.registered_of_finish h
  constructor
  · intro hc
    obtain ⟨k, -, heq, -⟩ := exists_iterate_saturate (P := Family.Within g.lefts g.symbolNames)
      g.within_emptyFirsts
    have hfound : g.foundFirsts = g.firstsAfter k := heq
    have hclosed := firstClosed_firsts hr (Draft.analyzed_of_finish h)
    exact (firstsBelow_firstsAfter hclosed hr k name c (hfound ▸ hc)).2
  · intro hc
    obtain ⟨id, p, hp, rfl⟩ := exists_production_of_mem_firsts hc
    exact first_eq_foundFirsts h hp ▸ (hr.mem_firsts hp).1 hc

theorem contains_foundFirsts {id : ProductionId} {p : Production}
    (hp : g.productions.get? id = some p) : g.foundFirsts.contains p.left := by
  have hpass : ∀ (f : Family String String) n, n ∈ f.keySet →
      n ∈ (g.firstPass g.nullables f).keySet :=
    fun f n hn ↦ mem_foldl (M := fun (f : Family String String) n ↦ n ∈ f.keySet)
      (fun f p n hn ↦ mem_keySet_enlarge.2 (.inl hn)) hn
  refine decide_eq_true (mem_saturate hpass _ (mem_keySet_foldl_enlarge ?_))
  exact List.mem_map_of_mem (OrderedMap.snd_mem_values (OrderedMap.get?_eq_some.1 hp))

theorem followClosed_follows {d : Draft} (h : d.finish = .ok g) : g.FollowClosed g.follows := by
  have hcall : ∀ id p, g.productions.get? id = some p → ∀ i, ∀ t ∈ p.body.transitionsFrom i,
      g.isNonterminalLabel t.label → (p, t) ∈ g.calls := fun id p hp i t ht hl ↦
    mem_calls.2 ⟨OrderedMap.snd_mem_values (OrderedMap.get?_eq_some.1 hp), i, ht, hl⟩
  constructor
  · intro id p hp names hnames c hc
    have hgoal : (id, p) ∈ g.goals := mem_goals.2 ⟨hp, by simp [Production.isGoal, hnames]⟩
    exact mem_findFollows_of_lookahead hgoal hnames hc
  · intro id p hp i t ht hl j hj u hu hread
    exact mem_findFollows (hcall id p hp i t ht hl)
      (mem_following.2 ⟨j, hj, .inl ⟨u, hu, mem_labelFirst.2 (.inl ⟨hread, rfl⟩)⟩⟩)
  · intro id p hp i t ht hl j hj u hu hcalls c hc
    exact mem_findFollows (hcall id p hp i t ht hl) (mem_following.2
      ⟨j, hj, .inl ⟨u, hu, mem_labelFirst.2 (.inr ⟨hcalls, (mem_foundFirsts h).2 hc⟩)⟩⟩)
  · intro id p hp i t ht hl j hj hfinal c hc
    exact mem_findFollows (hcall id p hp i t ht hl) (mem_following.2 ⟨j, hj, .inr ⟨hfinal, hc⟩⟩)

def FollowsBelow (F : String → Set String) (f : Family String String) : Prop :=
  ∀ n, ∀ c ∈ f.members n, c ∈ F n

section Below

variable {F : String → Set String} {f : Family String String} (hF : g.FollowClosed F)

include hF

theorem FollowClosed.goalFollows : FollowsBelow F g.goalFollows := by
  intro n c hc
  obtain ⟨⟨id, p⟩, he, rfl, hmem⟩ := mem_goalFollows.1 hc
  obtain ⟨hp, -⟩ := mem_goals.1 he
  cases hnames : p.lookahead with
  | none => simp [hnames] at hmem
  | some names => exact hF.lookahead id p hp names hnames c (by simpa [hnames] using hmem)

variable (hfirst : ∀ {n c}, c ∈ g.foundFirsts.members n → c ∈ g.firsts n)

include hfirst

theorem FollowClosed.mem_of_following (h : FollowsBelow F f) {p : Production} {t : Transition}
    (hcall : (p, t) ∈ g.calls) {c : String}
    (hc : c ∈ g.following g.nullables g.foundFirsts f p t.target) : c ∈ F t.label.name := by
  obtain ⟨hv, i, ht, hl⟩ := mem_calls.1 hcall
  obtain ⟨id, hp⟩ := exists_get? hv
  obtain ⟨j, hj, ⟨u, hu, hc⟩ | ⟨hfinal, hc⟩⟩ := mem_following.1 hc
  · rcases mem_labelFirst.1 hc with ⟨hread, rfl⟩ | ⟨hcalls, hc⟩
    · exact hF.terminal id p hp i t ht hl j hj u hu hread
    · exact hF.nonterminal id p hp i t ht hl j hj u hu hcalls (hfirst hc)
  · exact hF.final id p hp i t ht hl j hj hfinal (h _ c hc)

theorem FollowClosed.followPass (h : FollowsBelow F f) :
    FollowsBelow F (g.followPass g.nullables g.foundFirsts f) := by
  refine List.foldlRecOn (motive := FollowsBelow F) _ _ h fun f h call hcall n c hc ↦ ?_
  rcases Family.mem_members_enlarge.1 hc with hc | ⟨rfl, hnew⟩
  · exact h n c hc
  · exact hF.mem_of_following hfirst h hcall hnew

theorem FollowClosed.followsAfter (k : Nat) : FollowsBelow F (g.followsAfter k) := by
  induction k with
  | zero => exact hF.goalFollows
  | succ k ih =>
    rw [Grammar.followsAfter, Function.iterate_succ_apply']
    exact hF.followPass hfirst ih

end Below

theorem exists_followsAfter : ∃ k ≤ g.followNames.length * g.symbolNames.length,
    (∀ i < k, (g.followsAfter i).total < (g.followsAfter (i + 1)).total) ∧
      ∀ n c, c ∈ g.follows n ↔ c ∈ (g.followsAfter k).members n := by
  obtain ⟨k, hk, heq, hgrow⟩ := exists_iterate_saturate g.within_goalFollows
  have hfound : g.findFollows g.nullables g.foundFirsts (g.within_findFirsts g.nullables) =
      g.followsAfter k := heq
  refine ⟨k, Nat.le_trans hk (Nat.sub_le _ _), hgrow, fun n c ↦ ?_⟩
  rw [← hfound]
  rfl

/-- In a form with a symbol behind it, whatever can come first behind a nonterminal lies
in its set. -/
inductive Flanked (g : Grammar) (F : String → Set String) (t : String) : List String → Prop
  | nil : Flanked g F t []
  | cons {b : String} {y : List String} :
      (g.isNonterminal b → ∀ c, g.Starts t y c → c ∈ F b) → Flanked g F t y → Flanked g F t (b :: y)

section Forms

variable {F : String → Set String} (hF : g.FollowClosed F) {t : String}
  {x y form form' : List String}

include hF

theorem Flanked.readSymbols {id : ProductionId} {p : Production}
    (hp : g.productions.get? id = some p) {i j : Nat} {w : List Label} (hw : p.body.Path i w j)
    (hj : p.body.isFinalAt j) (hy : ∀ c, g.Starts t y c → c ∈ F p.left) (h : g.Flanked F t y) :
    g.Flanked F t (readSymbols w ++ y) := by
  induction hw with
  | nil => exact h
  | @cons i j u w hu hw ih =>
    by_cases hread : u.label.isRead = false
    · rw [readSymbols_cons_of_silent hread]
      exact ih hj
    · have hread := Bool.eq_true_of_not_eq_false hread
      rw [readSymbols_cons_of_isRead hread]
      refine .cons (fun hn c hc ↦ ?_) (ih hj)
      have hl := isNonterminalLabel_of_isRead hread hn
      rcases hc.meets hw with ⟨k, hk, v, hv, ⟨hterminal, rfl⟩ | ⟨hcalls, hc⟩⟩ | ⟨hend, hc⟩
      · exact hF.terminal id p hp i u hu hl k hk v hv hterminal
      · exact hF.nonterminal id p hp i u hu hl k hk v hv hcalls hc
      · exact hF.final id p hp i u hu hl j hend hj (hy c hc)

variable (hr : g.Registered) (ha : g.Analyzed)

include hr ha

theorem Flanked.rewrites (h : g.Flanked F t form) (hstep : g.Rewrites form form') :
    g.Flanked F t form' := by
  cases hstep with
  | @intro name id p w x y hn hp hw =>
    -- The induction is on what stands before the nonterminal: there nothing new can come behind.
    induction x with
    | nil =>
      cases h with
      | cons hname hy =>
        obtain ⟨hid, rfl⟩ := productionFor?_eq_some hp
        obtain ⟨i, -, j, hw, hj⟩ := hw
        exact Flanked.readSymbols hF hid hw hj (hname hn) hy
    | cons b x ih =>
      cases h with
      | cons hb h => exact .cons (fun hn' c hc ↦ hb hn' c (hc.of_rewrites hr ha hn hp hw)) (ih h)

theorem Flanked.of_sentential {id : ProductionId} {p : Production}
    (hp : g.productions.get? id = some p) {names : OrderedSet String}
    (hnames : p.lookahead = some names) (ht : t ∈ names) (h : g.Sentential p.left form) :
    g.Flanked F t form := by
  induction h with
  | refl =>
    refine .cons (fun _ c hc ↦ ?_) .nil
    cases hc
    exact hF.lookahead id p hp names hnames _ ht
  | tail _ hstep ih => exact ih.rewrites hF hr ha hstep

omit hF hr ha in
theorem Flanked.mem {b c : String} (h : g.Flanked F t form) (hform : form ++ [t] = x ++ b :: c :: y)
    (hb : g.isNonterminal b) (hc : g.isNonterminal c = false ∨ y = []) : c ∈ F b := by
  induction x generalizing form with
  | nil =>
    cases h with
    | nil => simp at hform
    | @cons b' form hnext _ =>
      obtain ⟨rfl, hrest⟩ := List.cons.inj hform
      refine hnext hb c ?_
      cases form with
      | nil =>
        obtain ⟨rfl, -⟩ := List.cons.inj hrest
        exact .nil
      | cons c' form =>
        obtain ⟨rfl, rfl⟩ := List.cons.inj hrest
        exact .terminal
          (hc.resolve_right (List.append_ne_nil_of_right_ne_nil _ (List.cons_ne_nil _ _)))
  | cons a x ih =>
    cases h with
    | nil => simp at hform
    | cons _ h => exact ih h (List.cons.inj hform).2

end Forms

/-- The follow sets are the least ones that hold what goals say and are closed under what right
parts have behind a nonterminal. Whatever terminal stands behind a nonterminal in a form of a goal,
with a symbol of its lookahead at the end, is among them. The search ends: each of its passes but
the last adds something, and all sets that a pass looks up are there. -/
theorem isLeast_follows {d : Draft} (hd : d.Built) (h : d.finish = .ok g) :
    IsLeast {F | g.FollowClosed F} g.follows ∧
    (∀ id p, g.productions.get? id = some p →
      g.follow? p.left = some p.follow ∧ ∀ c, c ∈ p.follow ↔ c ∈ g.follows p.left) ∧
    (∀ id p, g.productions.get? id = some p → ∀ names, p.lookahead = some names → ∀ t ∈ names,
      ∀ form, g.Sentential p.left form → ∀ x b c y, form ++ [t] = x ++ b :: c :: y →
      g.isNonterminal b → g.isNonterminal c = false ∨ y = [] → c ∈ g.follows b) ∧
    ((∀ id p, g.productions.get? id = some p → g.foundFirsts.contains p.left) ∧
      Checked.goalFollows g = some (g.followsAfter 0) ∧ ∀ k,
        Checked.followPass g g.nullables g.foundFirsts (g.followsAfter k) =
          some (g.followsAfter (k + 1))) ∧
    ∃ k ≤ g.followNames.length * g.symbolNames.length,
      (∀ i < k, (g.followsAfter i).total < (g.followsAfter (i + 1)).total) ∧
      (∀ n, ∀ c ∈ (g.followsAfter (k + 1)).members n, c ∈ (g.followsAfter k).members n) ∧
      ∀ n c, c ∈ g.follows n ↔ c ∈ (g.followsAfter k).members n := by
  have hr := Draft.registered_of_finish h
  have ha := Draft.analyzed_of_finish h
  have hclosed := followClosed_follows h
  have hfirst : ∀ {n c}, c ∈ g.foundFirsts.members n → c ∈ g.firsts n := (mem_foundFirsts h).1
  obtain ⟨k, hk, hgrow, hfollows⟩ := g.exists_followsAfter
  refine ⟨⟨hclosed, fun F hF n c hc ↦ ?_⟩, fun id p hp ↦ ⟨?_, fun c ↦ mem_follow h hp⟩,
    fun id p hp names hnames t ht form hform x b c y heq hb hc ↦ ?_, ?_, k, hk, hgrow,
    fun n c hc ↦ ?_, hfollows⟩
  · exact hF.followsAfter hfirst k n c ((hfollows n c).1 hc)
  · rw [Grammar.follow?, hr.productionFor? hp, Option.map_some]
  · exact (Flanked.of_sentential hclosed hr ha hp hnames ht hform).mem heq hb hc
  · have hleft : ∀ p ∈ g.productions.values, p.left ∈ g.nonterminals := by
      intro p hp
      obtain ⟨id, hp⟩ := exists_get? hp
      exact of_decide_eq_true (hd.isNonterminal h hp)
    refine ⟨fun id p hp ↦ contains_foundFirsts hp, checked_goalFollows hleft, fun k ↦ ?_⟩
    rw [followsAfter, checked_followPass hleft (hasFollows_goalFollows.iterate k), followsAfter,
      Function.iterate_succ_apply']
  · exact (hfollows n c).1 (hclosed.followsAfter hfirst (k + 1) n c hc)

end Grammar

theorem Mutual.isLeast_follows_mutual :
    grammar.Sentential "S" ["B", "y", "x"] ∧ "y" ∈ grammar.follows "B" ∧
      ∀ F, grammar.FollowClosed F → "y" ∈ F "B" := by
  obtain ⟨d, hd, h⟩ := Draft.exists_built define_definitions
  obtain ⟨⟨-, hleast⟩, -, hforms, -⟩ := Grammar.isLeast_follows hd h
  have hS : grammar.Rewrites ["S"] ["A", "x"] :=
    .of_accepts [.symbol "A" .parserNonterminal, .symbol "x" .parserTerminal] [] []
      (by decide +kernel)
      (by decide +kernel)
  have hA : ∀ y, grammar.Rewrites ("A" :: y) ("B" :: y) := fun y ↦
    .of_accepts [.symbol "B" .parserNonterminal] [] y (by decide +kernel) (by decide +kernel)
  have hB : grammar.Rewrites ["B", "x"] ["A", "y", "x"] :=
    .of_accepts [.symbol "A" .parserNonterminal, .symbol "y" .parserTerminal] [] ["x"]
      (by decide +kernel)
      (by decide +kernel)
  have hform : grammar.Sentential "S" ["B", "y", "x"] :=
    .tail (.tail (.tail (.single hS) (hA _)) hB) (hA _)
  have hgoal : ∃ e ∈ grammar.productions.entries, e.2.left = "S" ∧
      (e.2.lookahead.map OrderedSet.toList) = some [Grammar.endOfInput] := by decide +kernel
  obtain ⟨⟨id, p⟩, he, hleft, hnames⟩ := hgoal
  obtain ⟨names, hp, hnames⟩ := Option.map_eq_some_iff.1 hnames
  have hend : Grammar.endOfInput ∈ names := by
    rw [OrderedSet.mem_def, hnames]
    exact List.mem_singleton_self _
  have hy : "y" ∈ grammar.follows "B" := by
    refine hforms id p (OrderedMap.get?_eq_some.2 he) names hp _ hend _ (hleft ▸ hform) [] "B" "y"
      ["x", Grammar.endOfInput] rfl (by decide +kernel) (.inl (by decide +kernel))
  exact ⟨hform, hy, fun F hF ↦ hleast hF "B" hy⟩

end RightPart
