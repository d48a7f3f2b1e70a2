import RightPart.Proofs.Grammar.Numbering

namespace RightPart.Draft

variable {d : Draft} {g : Grammar} {l : List Clause}

/-- What a grammar is made of: the nonterminals with what they accept and what follows the goals. -/
def outline (kind : Kind) (l : List Clause) :
    List (String × Language Label × Option (OrderedSet String)) :=
  (Clause.lefts l).flatMap fun n ↦
    if Clause.IsWrapped kind l n then
      [(n, Clause.language l n, none),
        (wrapperName n, {[.symbol n .parserNonterminal]}, Clause.follow? l n)]
    else [(n, Clause.language l n, Clause.follow? l n)]

theorem outline_production (e : String × RightSide) :
    ((production e).left, (production e).body.language, (production e).lookahead) =
      (e.1, e.2.body.language, e.2.lookahead) := by
  rw [production, Automaton.language_setLeft, Automaton.language_trim]

theorem Collects.outline_prepared (h : d.Collects l) (hd : d.HasNamedRules)
    (hclosed : ∀ c ∈ l, c.body.Closed) :
    (d.prepared.rules.entries.map fun e ↦ (e.1, e.2.body.language, e.2.lookahead)) =
      outline d.kind l := by
  rw [h.entries_prepared hd, List.map_flatMap, outline]
  refine List.flatMap_congr fun n _ ↦ ?_
  have hlanguage := (Clause.language_rightSide hclosed n).2
  by_cases hn : Clause.IsWrapped d.kind l n
  · rw [pieces_of_wraps (h.wraps_iff.2 hn), if_pos hn, ← hlanguage, ← Automaton.language_ofLabel]
    rfl
  · rw [pieces_of_not_wraps (mt h.wraps_iff.1 hn), if_neg hn, ← hlanguage]
    rfl

theorem outline_of_finish (h : d.finish = .ok g) (hsize : d.prepared.rules.entries.length ≤ 65536) :
    (g.productions.values.map fun p ↦ (p.left, p.body.language, p.lookahead)) =
      d.prepared.rules.entries.map fun e ↦ (e.1, e.2.body.language, e.2.lookahead) := by
  rw [eq_analyze_of_finish h, Grammar.analyze, OrderedMap.values_mapValues, List.map_map]
  change (enter ∅ 0 _).values.map _ = _
  rw [values_enter (by rwa [List.length_map]), List.map_map]
  exact List.map_congr_left fun e _ ↦ outline_production e

theorem mapM_register_eq_error {before after : List (String × RightSide)} {e : String × RightSide}
    (h : ∀ x ∈ before, Registrable x.2.body) (he : e.2.body.Closed)
    (hzero : e.2.body.language = 0) :
    ((before ++ e :: after).mapM fun e ↦ register e.1 e.2) = .error (.emptyProduction e.1) := by
  rw [List.mapM_append, mapM_register h, List.mapM_cons, (register_of_closed he).1 hzero]
  rfl

def IsFirstEmpty (l : List Clause) (n : String) : Prop :=
  ∃ before after, Clause.lefts l = before ++ n :: after ∧ Clause.language l n = 0 ∧
    ∀ m ∈ before, Clause.language l m ≠ 0

theorem exists_isFirstEmpty (l : List Clause) :
    (∀ n ∈ Clause.lefts l, Clause.language l n ≠ 0) ∨ ∃ n, IsFirstEmpty l n := by
  unfold IsFirstEmpty
  induction Clause.lefts l with
  | nil => exact .inl fun _ hn ↦ absurd hn List.not_mem_nil
  | cons m ns ih =>
    by_cases hm : Clause.language l m = 0
    · exact .inr ⟨m, [], ns, rfl, hm, fun _ hn ↦ absurd hn List.not_mem_nil⟩
    · rcases ih with h | ⟨n, before, after, rfl, hn, h⟩
      · exact .inl (List.forall_mem_cons.2 ⟨hm, h⟩)
      · exact .inr ⟨n, m :: before, after, rfl, hn, List.forall_mem_cons.2 ⟨hm, h⟩⟩

section Session

variable {kind : Kind} {calls : List Call} {n : String}

theorem finish_of_no_goal (h : ∀ c ∈ clauses kind calls, c.lookahead = none) :
    (session kind calls).finish = .error .missingGoal := by
  have hnone : ¬ ∃ c ∈ clauses kind calls, c.lookahead.isSome := fun ⟨c, hc, hsome⟩ ↦ by
    rw [h c hc] at hsome
    cases hsome
  rw [finish_eq, if_pos (all_isNone_iff.2 (mt (collects_session kind calls).exists_goal.1 hnone))]

variable (hclosed : ∀ c ∈ clauses kind calls, c.body.Closed)

include hclosed

theorem outline_session (hsize : (names kind (clauses kind calls)).length ≤ 65536)
    (h : (session kind calls).finish = .ok g) :
    (g.productions.values.map fun p ↦ (p.left, p.body.language, p.lookahead)) =
      outline kind (clauses kind calls) := by
  have hlength : (session kind calls).prepared.rules.entries.length ≤ 65536 := by
    rw [← keys_prepared_session, ← OrderedMap.map_fst_entries, List.length_map] at hsize
    exact hsize
  rw [outline_of_finish h hlength, (collects_session kind calls).outline_prepared
    (consistent_session kind calls).hasNamedRules hclosed, kind_session]

variable (hgoal : ∃ c ∈ clauses kind calls, c.lookahead.isSome)

include hgoal

theorem finish_of_isFirstEmpty (h : IsFirstEmpty (clauses kind calls) n) :
    (session kind calls).finish = .error (.emptyProduction n) := by
  obtain ⟨before, after, hlefts, hn, hbefore⟩ := h
  have hcollects := collects_session kind calls
  have hnamed := (consistent_session kind calls).hasNamedRules
  obtain ⟨hright, hlanguage⟩ := Clause.language_rightSide hclosed n
  obtain ⟨y, rest, hpieces⟩ :=
    (session kind calls).pieces_eq_cons (n, Clause.rightSide (clauses kind calls) n)
  rw [finish_eq, if_neg (mt all_isNone_iff.1 (not_not_intro (hcollects.exists_goal.2 hgoal))),
    hcollects.entries_prepared hnamed, hlefts, List.flatMap_append, List.flatMap_cons, hpieces,
    List.cons_append, mapM_register_eq_error]
  · rfl
  · intro x hx
    obtain ⟨m, hm, hx⟩ := List.mem_flatMap.1 hx
    exact forall_pieces (e := (m, Clause.rightSide (clauses kind calls) m))
      (registrable_rightSide hclosed (hbefore m hm)) (fun _ ↦ registrable_ofLabel _) x hx
  · exact hright
  · exact hlanguage.trans hn

theorem finish_session_cases : (∃ g, (session kind calls).finish = .ok g) ∨
    ∃ n, IsFirstEmpty (clauses kind calls) n ∧
    (session kind calls).finish = .error (.emptyProduction n) := by
  rcases exists_isFirstEmpty (clauses kind calls) with hne | ⟨n, hn⟩
  · exact .inl (finish_session_of_ne_zero hclosed hgoal hne)
  · exact .inr ⟨n, hn, finish_of_isFirstEmpty hclosed hgoal hn⟩

theorem finish_eq_emptyProduction_iff :
    (session kind calls).finish = .error (.emptyProduction n) ↔
      IsFirstEmpty (clauses kind calls) n := by
  refine ⟨fun h ↦ ?_, finish_of_isFirstEmpty hclosed hgoal⟩
  rcases finish_session_cases hclosed hgoal with ⟨g, hg⟩ | ⟨m, hfirst, hm⟩
  · rw [hg] at h
    cases h
  · rw [hm] at h
    cases h
    exact hfirst

omit hgoal

theorem finish_eq_missingGoal_iff :
    (session kind calls).finish = .error .missingGoal ↔
      ∀ c ∈ clauses kind calls, c.lookahead = none := by
  refine ⟨fun h c hc ↦ ?_, finish_of_no_goal⟩
  by_contra hne
  rcases finish_session_cases hclosed ⟨c, hc, Option.isSome_iff_ne_none.2 hne⟩ with
    ⟨g, hg⟩ | ⟨n, -, hn⟩
  · rw [hg] at h
    cases h
  · rw [hn] at h
    cases h

/-- Alternatives with closed automata are put together faithfully. A session without a goal is
refused. Otherwise the first nonterminal whose alternatives accept nothing is named, if there is
one. If there is none, the productions come in the order of their nonterminals, accept what one of
the alternatives accepts and have what may follow a goal; every state is useful and bears the name
of the nonterminal. -/
theorem finish_session (hsize : (names kind (clauses kind calls)).length ≤ 65536) :
    ((session kind calls).finish = .error .missingGoal ↔
      ∀ c ∈ clauses kind calls, c.lookahead = none) ∧
      ((∃ c ∈ clauses kind calls, c.lookahead.isSome) →
        (∀ n, (session kind calls).finish = .error (.emptyProduction n) ↔
          IsFirstEmpty (clauses kind calls) n) ∧
        ((∀ n ∈ Clause.lefts (clauses kind calls), Clause.language (clauses kind calls) n ≠ 0) →
          ∃ g, (session kind calls).finish = .ok g ∧
            (g.productions.values.map fun p ↦ (p.left, p.body.language, p.lookahead)) =
              outline kind (clauses kind calls) ∧
            ∀ p ∈ g.productions.values, (∀ i < p.body.size, p.body.Useful i) ∧
              ∀ s ∈ p.body.states, s.left = some p.left)) := by
  refine ⟨finish_eq_missingGoal_iff hclosed, fun hgoal ↦
    ⟨fun n ↦ finish_eq_emptyProduction_iff hclosed hgoal, fun hne ↦ ?_⟩⟩
  obtain ⟨g, hg⟩ := finish_session_of_ne_zero hclosed hgoal hne
  refine ⟨g, hg, outline_session hclosed hsize hg, fun p hp ↦ ?_⟩
  obtain ⟨id, hp⟩ := Grammar.exists_get? hp
  exact ⟨useful_body hg hp, (registered_of_finish hg).left_eq _ (OrderedMap.get?_eq_some.1 hp)⟩

end Session

namespace Letters

def callsN : List Call := calls ++ [.production "N" .none, .production "L" .none]

/-- Two alternatives of the goal become one right part. Where a rule accepts nothing its nonterminal
is named although the rule comes after others. -/
theorem finish_session_letters :
    (∃ g, (session .parser calls).finish = .ok g ∧
      g.productions.values.map Production.left = ["L", "L'"] ∧
      ∃ p ∈ g.productions.values, p.left = "L" ∧ p.lookahead = none ∧ [] ∈ p.body.language ∧
        [.symbol "x" .parserTerminal, .symbol "L" .parserNonterminal] ∈ p.body.language) ∧
    (session .parser callsN).finish = .error (.emptyProduction "N") := by
  constructor
  · obtain ⟨-, hfinish⟩ :=
      finish_session (by decide +kernel : ∀ c ∈ clauses .parser calls, c.body.Closed)
        (by decide +kernel)
    obtain ⟨g, hg, houtline, -⟩ := (hfinish (by decide +kernel)).2 language_ne_zero
    have hlefts : (outline .parser (clauses .parser calls)).map Prod.fst = ["L", "L'"] := by
      decide +kernel
    have hmem : ("L", Clause.language (clauses .parser calls) "L", none) ∈
        outline .parser (clauses .parser calls) :=
      List.mem_flatMap.2 ⟨"L", by decide +kernel, by
        rw [if_pos (by decide +kernel)]
        exact List.mem_cons_self⟩
    rw [← houtline] at hlefts hmem
    obtain ⟨p, hp, heq⟩ := List.mem_map.1 hmem
    obtain ⟨hleft, heq⟩ := Prod.mk.inj heq
    obtain ⟨hlanguage, hlookahead⟩ := Prod.mk.inj heq
    refine ⟨g, hg, by rwa [List.map_map] at hlefts, p, hp, hleft, hlookahead, ?_, ?_⟩ <;>
      rw [hlanguage]
    · decide +kernel
    · decide +kernel
  · obtain ⟨-, hfinish⟩ :=
      finish_session (by decide +kernel : ∀ c ∈ clauses .parser callsN, c.body.Closed)
        (by decide +kernel)
    refine ((hfinish (by decide +kernel)).1 "N").2 ⟨["L"], [], by decide +kernel, ?_, fun m hm ↦ ?_⟩
    · have hnone : ∀ c ∈ clauses .parser callsN, c.left = "N" → c.body = .none := by decide +kernel
      refine Language.ext fun w ↦ iff_of_false (fun ⟨c, hc, hn, hw⟩ ↦ ?_) (Language.notMem_zero w)
      rw [hnone c hc hn, Automaton.language_none] at hw
      exact Language.notMem_zero w hw
    · obtain rfl := List.mem_singleton.1 hm
      exact ne_zero_of_mem (w := []) (by decide +kernel)

end Letters

end RightPart.Draft
