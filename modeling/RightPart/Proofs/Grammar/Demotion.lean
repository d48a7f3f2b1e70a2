import RightPart.Proofs.Grammar.Numbering

namespace RightPart

namespace Grammar

theorem Expands.isNonterminal_eq_false {g : Grammar} {w : List Label} {x : List String}
    (h : g.Expands w x) : ∀ y ∈ x, g.isNonterminal y = false := by
  induction h with
  | nil => exact fun _ hy ↦ absurd hy List.not_mem_nil
  | silent _ _ ih => exact ih
  | terminal hl _ ih =>
    obtain ⟨-, hn⟩ := Bool.and_eq_true_iff.1 hl
    exact List.forall_mem_cons.2 ⟨by simpa using hn, ih⟩
  | nonterminal _ _ _ _ _ _ ihv ih => exact fun y hy ↦ (List.mem_append.1 hy).elim (ihv y) (ih y)

theorem derives_of_single {g : Grammar} {m n : String} {id : ProductionId} {p : Production}
    (hp : g.productionFor? m = some (id, p))
    (hlanguage : p.body.language = {[.symbol n .parserNonterminal]}) (hn : g.isNonterminal n)
    (x : List String) : g.Derives m x ↔ g.Derives n x := by
  constructor
  · rintro ⟨id', p', w, hp', hw, hx⟩
    obtain ⟨-, rfl⟩ := Prod.mk.inj (Option.some.inj (hp.symm.trans hp'))
    have hw : w ∈ p.body.language := hw
    rw [hlanguage] at hw
    obtain rfl : w = [.symbol n .parserNonterminal] := hw
    cases hx with
    | silent hl _ => cases hl
    | terminal hl _ =>
      rw [isReadTerminal] at hl
      simp [Label.name, hn] at hl
    | @nonterminal _ _ v x y id q _ _ hq hv hy hx =>
      cases hx
      rw [List.append_nil]
      exact ⟨id, q, v, hq, hv, hy⟩
  · intro hx
    have hw : [.symbol n .parserNonterminal] ∈ p.body.language := hlanguage ▸ rfl
    exact ⟨id, p, _, hp, hw, Derives.expands (l := .symbol n .parserNonterminal) hx rfl hn⟩

end Grammar

namespace Draft

variable {d : Draft} {g : Grammar} {e x : String × RightSide} {n : String} {p : Production}
  {w : List Label}

/-- The texts that a word of labels stands for under a draft. -/
inductive Expands (d : Draft) : List Label → List String → Prop
  | nil : Expands d [] []
  | silent {l : Label} {w : List Label} {x : List String} :
      l.isRead = false → Expands d w x → Expands d (l :: w) x
  | terminal {l : Label} {w : List Label} {x : List String} :
      l.isRead → d.isNonterminal l.name = false → Expands d w x → Expands d (l :: w) (l.name :: x)
  | nonterminal {l : Label} {w v : List Label} {x y : List String} {r : RightSide} :
      l.isRead → d.isNonterminal l.name → d.rules.get? l.name = some r → v ∈ r.body.language →
      Expands d v y → Expands d w x → Expands d (l :: w) (y ++ x)

def Derives (d : Draft) (name : String) (x : List String) : Prop :=
  ∃ r w, d.rules.get? name = some r ∧ w ∈ r.body.language ∧ d.Expands w x

/-- No label is spelled like the name of a goal that stands in for another. -/
def Fresh (d : Draft) : Prop :=
  ∀ e ∈ d.rules.entries, d.Wraps e → ∀ e' ∈ d.rules.entries, ∀ a ∈ e'.2.body.labels,
    a.name ≠ wrapperName e.1

instance (d : Draft) : Decidable d.Fresh := inferInstanceAs (Decidable (∀ e ∈ d.rules.entries, _))

/-- A grammar means what its draft means, whatever goals stand in for others. -/
structure Keeps (d : Draft) (g : Grammar) : Prop where
  unreferenced : ∀ q ∈ g.productions.values, q.isGoal →
    ∀ p ∈ g.productions.values, ∀ a ∈ p.body.labels, a.isAction = false → a.name ≠ q.left
  terminals : ∀ e ∈ d.rules.entries, ∀ a ∈ e.2.body.labels, a.name ∉ d.nonterminals →
    a.name ∉ g.nonterminals
  goals : ∀ e ∈ d.rules.entries, e.2.lookahead.isSome → ∃ q ∈ g.productions.values,
    q.lookahead = e.2.lookahead ∧
      (q.left = e.1 ∨ q.left = wrapperName e.1 ∧
        q.body.language = {[.symbol e.1 .parserNonterminal]}) ∧
      ∀ x, g.Derives q.left x ↔ d.Derives e.1 x

theorem nonterminals_of_finish (h : d.finish = .ok g) :
    g.nonterminals = d.prepared.nonterminals := by
  rw [eq_analyze_of_finish h]
  rfl

theorem exists_productionFor? (h : d.finish = .ok g) (hsize : d.prepared.rules.keys.length ≤ 65536)
    (hx : x ∈ d.prepared.rules.entries) : ∃ id p, g.productionFor? x.1 = some (id, p) ∧
      p.lookahead = x.2.lookahead ∧ p.body.language = x.2.body.language := by
  rw [← OrderedMap.map_fst_entries, List.length_map] at hsize
  have hvalues : (enter ∅ 0 (d.prepared.rules.entries.map production)).values = _ :=
    values_enter (by rwa [List.length_map])
  have hmem : production x ∈ (enter ∅ 0 (d.prepared.rules.entries.map production)).values :=
    hvalues.symm ▸ List.mem_map_of_mem hx
  have hp : ∃ p ∈ g.productions.values, p.left = x.1 ∧ p.lookahead = x.2.lookahead ∧
      p.body = x.2.body.trim.setLeft x.1 := by
    rw [eq_analyze_of_finish h, Grammar.analyze, OrderedMap.values_mapValues]
    exact ⟨_, List.mem_map_of_mem hmem, rfl, rfl, rfl⟩
  obtain ⟨p, hp, hleft, hlookahead, hbody⟩ := hp
  obtain ⟨id, hp⟩ := Grammar.exists_get? hp
  refine ⟨id, p, hleft ▸ (registered_of_finish h).productionFor? hp, hlookahead, ?_⟩
  rw [hbody, Automaton.language_setLeft, Automaton.language_trim]

theorem productionFor?_of_rule (hd : d.HasNamedRules) (h : d.finish = .ok g)
    (hsize : d.prepared.rules.keys.length ≤ 65536) (he : e ∈ d.rules.entries) :
    ∃ id p, g.productionFor? e.1 = some (id, p) ∧ p.body.language = e.2.body.language := by
  obtain ⟨y, rest, hpieces⟩ := d.pieces_eq_cons e
  have hmem := mem_prepared_of_mem_pieces hd he (hpieces ▸ List.mem_cons_self)
  obtain ⟨id, p, hp, -, hlanguage⟩ := exists_productionFor? h hsize hmem
  exact ⟨id, p, hp, hlanguage⟩

theorem exists_mem_pieces (hd : d.HasNamedRules) (h : d.finish = .ok g)
    (hp : p ∈ g.productions.values) :
    ∃ e ∈ d.rules.entries, ∃ x ∈ d.pieces e, Carries x.1 x.2 p := by
  obtain ⟨id, hp⟩ := Grammar.exists_get? hp
  obtain ⟨r, hr, hc⟩ := exists_rule h hp
  rw [entries_prepared hd] at hr
  obtain ⟨e, he, hr⟩ := List.mem_flatMap.1 hr
  exact ⟨e, he, _, hr, hc⟩

theorem Carries.mem_labels {left : String} {r : RightSide} (hc : Carries left r p) {a : Label}
    (ha : a ∈ p.body.labels) : a ∈ r.body.labels := by
  rw [hc.body_eq, Automaton.mem_labels_setLeft] at ha
  exact Automaton.mem_labels_trim ha

/-- A label of a right part is one of a rule, or it is the goal that another goal stands in for. -/
theorem label_cases (hd : d.HasNamedRules) (h : d.finish = .ok g) (hp : p ∈ g.productions.values)
    {a : Label} (ha : a ∈ p.body.labels) :
    ∃ e ∈ d.rules.entries, a ∈ e.2.body.labels ∨ d.Wraps e ∧ a.name = e.1 := by
  obtain ⟨e, he, x, hx, hc⟩ := exists_mem_pieces hd h hp
  refine ⟨e, he, ?_⟩
  have ha := hc.mem_labels ha
  rcases mem_pieces.1 hx with ⟨hwraps, rfl | rfl⟩ | ⟨-, rfl⟩
  · exact .inl ha
  · exact .inr ⟨hwraps, Automaton.mem_labels_ofLabel ha ▸ rfl⟩
  · exact .inl ha

theorem goal_cases (hd : d.HasNamedRules) (h : d.finish = .ok g) (hp : p ∈ g.productions.values)
    (hgoal : p.isGoal) : ∃ e ∈ d.rules.entries,
      p.left = e.1 ∧ e.2.lookahead.isSome ∧ ¬ d.Wraps e ∨ p.left = wrapperName e.1 ∧ d.Wraps e := by
  obtain ⟨e, he, x, hx, hc⟩ := exists_mem_pieces hd h hp
  refine ⟨e, he, ?_⟩
  rw [Production.isGoal, hc.lookahead_eq] at hgoal
  rcases mem_pieces.1 hx with ⟨hwraps, rfl | rfl⟩ | ⟨hwraps, rfl⟩
  · cases hgoal
  · exact .inr ⟨hc.left_eq, hwraps⟩
  · exact .inl ⟨hc.left_eq, hgoal, hwraps⟩

section Fresh

variable {x : List String}

theorem isNonterminal_of_label (h : d.finish = .ok g) (hfresh : d.Fresh) (he : e ∈ d.rules.entries)
    {a : Label} (ha : a ∈ e.2.body.labels) : g.isNonterminal a.name = d.isNonterminal a.name := by
  refine decide_eq_decide.2 ?_
  rw [nonterminals_of_finish h, mem_nonterminals_prepared]
  exact or_iff_left fun ⟨e', he', hwraps, hname⟩ ↦ hfresh e' he' hwraps e he a ha hname

theorem rule_of_productionFor? (hd : d.Consistent) (h : d.finish = .ok g) (hn : n ∈ d.nonterminals)
    {id : ProductionId} (hp : g.productionFor? n = some (id, p)) :
    ∃ r, d.rules.get? n = some r ∧ p.body.language = r.body.language := by
  obtain ⟨hget?, rfl⟩ := Grammar.productionFor?_eq_some hp
  have hv := OrderedMap.snd_mem_values (OrderedMap.get?_eq_some.1 hget?)
  obtain ⟨e, he, x, hx, hc⟩ := exists_mem_pieces hd.hasNamedRules h hv
  have hlanguage : p.body.language = x.2.body.language := by
    rw [hc.body_eq, Automaton.language_setLeft, Automaton.language_trim]
  rw [hc.left_eq] at hn ⊢
  rcases mem_pieces.1 hx with ⟨-, rfl | rfl⟩ | ⟨-, rfl⟩
  · exact ⟨e.2, OrderedMap.get?_eq_some.2 he, hlanguage⟩
  · exact absurd rfl (wrapperName_ne (hd.identifiers _ hn) e.1)
  · exact ⟨x.2, OrderedMap.get?_eq_some.2 he, hlanguage⟩

theorem expands_iff (hd : d.Consistent) (h : d.finish = .ok g)
    (hsize : d.prepared.rules.keys.length ≤ 65536) (hfresh : d.Fresh)
    (hw : ∀ a ∈ w, g.isNonterminal a.name = d.isNonterminal a.name) :
    g.Expands w x ↔ d.Expands w x := by
  have hrule : ∀ n r v, d.rules.get? n = some r → v ∈ r.body.language →
      ∀ a ∈ v, g.isNonterminal a.name = d.isNonterminal a.name := fun n r v hr hv a ha ↦
    isNonterminal_of_label h hfresh (OrderedMap.get?_eq_some.1 hr)
      (Automaton.mem_labels_of_mem_language hv ha)
  constructor
  · intro hx
    induction hx with
    | nil => exact .nil
    | silent hl _ ih => exact .silent hl (ih (List.forall_mem_cons.1 hw).2)
    | terminal hl _ ih =>
      obtain ⟨hlabel, hw⟩ := List.forall_mem_cons.1 hw
      obtain ⟨hread, hn⟩ := Bool.and_eq_true_iff.1 hl
      exact .terminal hread (hlabel ▸ by simpa using hn) (ih hw)
    | @nonterminal l w v x y id p hl hn hp hv _ _ ihv ih =>
      obtain ⟨hlabel, hw⟩ := List.forall_mem_cons.1 hw
      rw [hlabel] at hn
      obtain ⟨r, hr, hlanguage⟩ := rule_of_productionFor? hd h (of_decide_eq_true hn) hp
      have hv : v ∈ r.body.language := hlanguage ▸ (show v ∈ p.body.language from hv)
      exact .nonterminal hl hn hr hv (ihv (hrule _ r _ hr hv)) (ih hw)
  · intro hx
    induction hx with
    | nil => exact .nil
    | silent hl _ ih => exact .silent hl (ih (List.forall_mem_cons.1 hw).2)
    | terminal hl hn _ ih =>
      obtain ⟨hlabel, hw⟩ := List.forall_mem_cons.1 hw
      refine .terminal ?_ (ih hw)
      rw [Grammar.isReadTerminal, hl, hlabel, hn]
      rfl
    | @nonterminal l w v x y r hl hn hr hv _ _ ihv ih =>
      obtain ⟨hlabel, hw⟩ := List.forall_mem_cons.1 hw
      obtain ⟨id, p, hp, hlanguage⟩ :=
        productionFor?_of_rule hd.hasNamedRules h hsize (OrderedMap.get?_eq_some.1 hr)
      have hv' : v ∈ p.body.language := hlanguage.symm ▸ hv
      exact .nonterminal hl (hlabel ▸ hn) hp hv' (ihv (hrule _ _ _ hr hv)) (ih hw)

theorem derives_iff (hd : d.Consistent) (h : d.finish = .ok g)
    (hsize : d.prepared.rules.keys.length ≤ 65536) (hfresh : d.Fresh) (he : e ∈ d.rules.entries) :
    g.Derives e.1 x ↔ d.Derives e.1 x := by
  obtain ⟨id, p, hp, hlanguage⟩ := productionFor?_of_rule hd.hasNamedRules h hsize he
  have hr : d.rules.get? e.1 = some e.2 := OrderedMap.get?_eq_some.2 he
  have hexpands : ∀ w ∈ e.2.body.language, (g.Expands w x ↔ d.Expands w x) := fun w hw ↦
    expands_iff hd h hsize hfresh fun a ha ↦
      isNonterminal_of_label h hfresh he (Automaton.mem_labels_of_mem_language hw ha)
  constructor
  · rintro ⟨id', p', w, hp', hw, hx⟩
    obtain ⟨-, rfl⟩ := Prod.mk.inj (Option.some.inj (hp.symm.trans hp'))
    have hw : w ∈ e.2.body.language := hlanguage ▸ (show w ∈ p.body.language from hw)
    exact ⟨e.2, w, hr, hw, (hexpands w hw).1 hx⟩
  · rintro ⟨r, w, hr', hw, hx⟩
    obtain rfl := Option.some.inj (hr.symm.trans hr')
    have hw' : w ∈ p.body.language := hlanguage.symm ▸ hw
    exact ⟨id, p, w, hp, hw', (hexpands w hw).2 hx⟩

end Fresh

theorem Fresh.unreferenced (hfresh : d.Fresh) (hd : d.HasNamedRules) (hkind : d.kind = .parser)
    (h : d.finish = .ok g) {q : Production} (hq : q ∈ g.productions.values) (hgoal : q.isGoal)
    (hp : p ∈ g.productions.values) {a : Label} (ha : a ∈ p.body.labels)
    (hsymbol : a.isAction = false) : a.name ≠ q.left := by
  intro hname
  obtain ⟨e, he, hgoal⟩ := goal_cases hd h hq hgoal
  obtain ⟨x, hx, ha⟩ := label_cases hd h hp ha
  rcases hgoal with ⟨hleft, hsome, hwraps⟩ | ⟨hleft, hwraps⟩ <;> rw [hleft] at hname
  · refine hwraps ⟨hkind, hsome, ?_⟩
    rcases ha with ha | ⟨⟨-, -, hused⟩, ha⟩
    · exact mem_references.2 ⟨x, hx, a, ha, hsymbol, hname⟩
    · exact hname ▸ ha ▸ hused
  · rcases ha with ha | ⟨-, ha⟩
    · exact hfresh e he hwraps x hx a ha hname
    · exact wrapperName_ne (hd x hx).1 _ (ha.symm.trans hname)

theorem Fresh.exists_goal (hfresh : d.Fresh) (hd : d.Consistent) (h : d.finish = .ok g)
    (hsize : d.prepared.rules.keys.length ≤ 65536) (he : e ∈ d.rules.entries) :
    ∃ q ∈ g.productions.values, q.lookahead = e.2.lookahead ∧
      (q.left = e.1 ∨ q.left = wrapperName e.1 ∧
        q.body.language = {[.symbol e.1 .parserNonterminal]}) ∧
      ∀ x, g.Derives q.left x ↔ d.Derives e.1 x := by
  have hnamed := hd.hasNamedRules
  have hiff := fun x ↦ derives_iff (x := x) hd h hsize hfresh he
  have hlast : ∃ x ∈ d.pieces e, x.2.lookahead = e.2.lookahead ∧ (x = e ∨ x = wrapper e) := by
    by_cases hwraps : d.Wraps e
    · exact ⟨_, mem_pieces.2 (.inl ⟨hwraps, .inr rfl⟩), rfl, .inr rfl⟩
    · exact ⟨_, mem_pieces.2 (.inr ⟨hwraps, rfl⟩), rfl, .inl rfl⟩
  obtain ⟨x, hx, hx_eq, hcases⟩ := hlast
  obtain ⟨id, q, hq, hlookahead, hlanguage⟩ :=
    exists_productionFor? h hsize (mem_prepared_of_mem_pieces hnamed he hx)
  obtain ⟨hget?, hleft⟩ := Grammar.productionFor?_eq_some hq
  have hmem := OrderedMap.snd_mem_values (OrderedMap.get?_eq_some.1 hget?)
  refine ⟨q, hmem, hlookahead.trans hx_eq, ?_⟩
  rw [hleft]
  rcases hcases with rfl | rfl
  · exact ⟨.inl rfl, hiff⟩
  · have hlanguage := hlanguage.trans Automaton.language_ofLabel
    have hn : g.isNonterminal e.1 := decide_eq_true <| by
      rw [nonterminals_of_finish h, mem_nonterminals_prepared]
      exact .inl (hnamed e he).2
    exact ⟨.inr ⟨rfl, hlanguage⟩,
      fun x ↦ (Grammar.derives_of_single hq hlanguage hn x).trans (hiff x)⟩

theorem Fresh.keeps (hfresh : d.Fresh) (hd : d.Consistent) (hkind : d.kind = .parser)
    (h : d.finish = .ok g) (hsize : d.prepared.rules.keys.length ≤ 65536) : d.Keeps g where
  unreferenced _ hq hgoal _ hp _ := hfresh.unreferenced hd.hasNamedRules hkind h hq hgoal hp
  terminals _ he _ ha hn hmem :=
    hn ((decide_eq_decide.1 (isNonterminal_of_label h hfresh he ha)).1 hmem)
  goals _ he _ := hfresh.exists_goal hd h hsize he

theorem fresh_of_keeps (hd : d.Consistent) (h : d.finish = .ok g) (hkeeps : d.Keeps g) :
    d.Fresh := by
  intro e he hwraps x hx a ha hname
  refine hkeeps.terminals x hx a ha (fun hn ↦ ?_) ?_
  · exact wrapperName_ne (hd.identifiers _ hn) _ hname
  · rw [nonterminals_of_finish h, mem_nonterminals_prepared]
    exact .inr ⟨e, he, hwraps, hname⟩

/-- A parser's grammar means what its draft meant exactly if no label is spelled like a goal that
stands in for another. Then no right part refers to a goal, terminals stay terminals, and what
accepts a goal derives the texts that the goal did. Otherwise the label has become a nonterminal. -/
theorem fresh_iff_keeps {calls : List Call} (h : (session .parser calls).finish = .ok g)
    (hsize : (names .parser (clauses .parser calls)).length ≤ 65536) :
    (session .parser calls).Fresh ↔ (session .parser calls).Keeps g := by
  rw [← keys_prepared_session] at hsize
  have hd := consistent_session .parser calls
  exact ⟨fun hfresh ↦ hfresh.keeps hd (kind_session _ _) h hsize, fresh_of_keeps hd h⟩

theorem Derives.expands {a : Label} {x y : List String} (h : d.Derives a.name y) (hread : a.isRead)
    (hn : d.isNonterminal a.name) (hx : d.Expands w x) : d.Expands (a :: w) (y ++ x) := by
  obtain ⟨r, v, hr, hv, hy⟩ := h
  exact .nonterminal hread hn hr hv hy hx

theorem derives_session {kind : Kind} {calls : List Call} {x : List String}
    (hclosed : ∀ c ∈ clauses kind calls, c.body.Closed)
    (hw : w ∈ Clause.language (clauses kind calls) n) (hx : (session kind calls).Expands w x) :
    (session kind calls).Derives n x := by
  have hn : n ∈ Clause.lefts (clauses kind calls) := by
    obtain ⟨c, hc, hn, -⟩ := hw
    exact Clause.mem_lefts.2 ⟨c, hc, hn⟩
  have hlanguage := (Clause.language_rightSide hclosed n).2
  exact ⟨_, w, (collects_session kind calls).get?_rules hn, hlanguage ▸ hw, hx⟩

namespace Letters

theorem keeps_letters : ∃ g, (session .parser calls).finish = .ok g ∧
    (session .parser calls).Keeps g ∧
    ∃ q ∈ g.productions.values, q.isGoal ∧ g.Derives q.left ["x"] := by
  obtain ⟨g, hg⟩ := finish_letters
  have hkeeps := (fresh_iff_keeps hg (by decide +kernel)).1 (by decide +kernel)
  have hclosed : ∀ c ∈ clauses .parser calls, c.body.Closed := by decide +kernel
  have hnil : (session .parser calls).Derives "L" [] :=
    derives_session hclosed (w := []) (by decide +kernel) .nil
  have hone := hnil.expands (a := .symbol "L" .parserNonterminal) rfl (by decide +kernel) .nil
  have hx : (session .parser calls).Derives "L" ["x"] :=
    derives_session hclosed (w := [.symbol "x" .parserTerminal, .symbol "L" .parserNonterminal])
      (by decide +kernel) (.terminal rfl (by decide +kernel) hone)
  have hgoal : ∃ e ∈ (session .parser calls).rules.entries, e.1 = "L" ∧ e.2.lookahead.isSome := by
    decide +kernel
  obtain ⟨e, he, hleft, hgoal⟩ := hgoal
  obtain ⟨q, hq, hlookahead, -, hderives⟩ := hkeeps.goals e he hgoal
  refine ⟨g, hg, hkeeps, q, hq, ?_, (hderives _).2 (hleft ▸ hx)⟩
  rw [Production.isGoal, hlookahead]
  exact hgoal

end Letters

namespace Prime

def body : Automaton :=
  ((Automaton.ofLabel (.symbol "S'" .parserTerminal)).join
    (.ofLabel (.symbol "S" .parserNonterminal))).union
    (.ofLabel (.symbol "x" .parserTerminal))

def calls : List Call := [.goal "S" body [Grammar.endOfInput]]

theorem finish_calls : ∃ g, (session .parser calls).finish = .ok g := by
  have hx : ∀ n ∈ Clause.lefts (clauses .parser calls),
      [.symbol "x" .parserTerminal] ∈ Clause.language (clauses .parser calls) n := by
    decide +kernel
  exact finish_session_of_ne_zero (by decide +kernel) (by decide +kernel) fun n hn ↦
    ne_zero_of_mem (hx n hn)

/-- The terminal becomes a nonterminal when a goal of its name stands in for `S`. A text that `S`
derived is derived by nothing any more. -/
theorem lost_text_of_prime : (∀ c ∈ clauses .parser calls, c.body.Closed) ∧
    (names .parser (clauses .parser calls)).length ≤ 65536 ∧
    (session .parser calls).Derives "S" ["S'", "x"] ∧ "S'" ∉ (session .parser calls).nonterminals ∧
    ∃ g, (session .parser calls).finish = .ok g ∧ "S'" ∈ g.nonterminals ∧
    ∀ n, ¬ g.Derives n ["S'", "x"] := by
  have hclosed : ∀ c ∈ clauses .parser calls, c.body.Closed := by decide +kernel
  have hx : (session .parser calls).Derives "S" ["x"] :=
    derives_session hclosed (w := [.symbol "x" .parserTerminal]) (by decide +kernel)
      (.terminal rfl (by decide +kernel) .nil)
  have hone := hx.expands (a := .symbol "S" .parserNonterminal) rfl (by decide +kernel) .nil
  refine ⟨hclosed, by decide +kernel, ?_, by decide +kernel, ?_⟩
  · exact derives_session hclosed
      (w := [.symbol "S'" .parserTerminal, .symbol "S" .parserNonterminal])
      (by decide +kernel) (.terminal rfl (by decide +kernel) hone)
  · obtain ⟨g, hg⟩ := finish_calls
    have hmem : "S'" ∈ g.nonterminals := by
      rw [nonterminals_of_finish hg]
      decide +kernel
    refine ⟨g, hg, hmem, fun n ⟨id, p, w, _, _, h⟩ ↦ ?_⟩
    exact of_decide_eq_false (h.isNonterminal_eq_false "S'" List.mem_cons_self) hmem

end Prime

end Draft

end RightPart
