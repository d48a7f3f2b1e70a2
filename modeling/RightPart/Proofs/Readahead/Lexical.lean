import RightPart.Proofs.Grammar.Define
import RightPart.Proofs.Grammar.Lookahead
import RightPart.Proofs.Readahead.Determinization

namespace RightPart

namespace Grammar

/-- Right parts only consume terminals, as those of tokens do. -/
def IsLexical (g : Grammar) : Prop :=
  ∀ p ∈ g.productions.values, ∀ e ∈ p.body.transitions, g.isReadTerminal e.2.label

instance (g : Grammar) : Decidable g.IsLexical :=
  inferInstanceAs (Decidable (∀ p ∈ g.productions.values, _))

variable {g : Grammar} {d : Draft} {e : ProductionId × Production} {n m : Nat} {w : List Label}
  {l : Label} {i j : Item}

theorem IsLexical.isReadTerminal (h : g.IsLexical) {id : ProductionId} {p : Production}
    (hp : g.productions.get? id = some p) {i : Nat} {t : Transition}
    (ht : t ∈ p.body.transitionsFrom i) : g.isReadTerminal t.label :=
  h p (OrderedMap.snd_mem_values (OrderedMap.get?_eq_some.1 hp)) (i, t)
    (Automaton.mem_transitions.2 ht)

theorem isNonterminalLabel_of_isReadTerminal (h : g.isReadTerminal l) :
    g.isNonterminalLabel l = false := by
  simp_all [Grammar.isReadTerminal, isNonterminalLabel]

theorem isStep_of_isReadTerminal (h : g.isReadTerminal l) : g.isStep l := by
  rw [isStep, isNonterminalLabel_of_isReadTerminal h, Bool.and_false, Bool.not_false]

theorem isRead_of_isReadTerminal (h : g.isReadTerminal l) : l.isRead := by
  simp_all [Grammar.isReadTerminal]

theorem IsLexical.calls_eq_nil (h : g.analyze.IsLexical) : g.calls = [] := by
  refine List.flatMap_eq_nil_iff.2 fun p hp ↦ ?_
  rw [List.map_eq_nil_iff, List.filter_eq_nil_iff]
  intro x hx
  rw [← OrderedMap.map_snd_entries] at hp
  obtain ⟨e, he, rfl⟩ := List.mem_map.1 hp
  have he' : ∃ e' ∈ g.analyze.productions.entries, e'.2.body = e.2.body := by
    rw [analyze, OrderedMap.entries_mapValues]
    exact ⟨_, List.mem_map_of_mem he, rfl⟩
  obtain ⟨e', he', hbody⟩ := he'
  have hlabel : g.isReadTerminal x.2.label := h e'.2 (OrderedMap.snd_mem_values he') x (hbody ▸ hx)
  rw [isNonterminalLabel_of_isReadTerminal hlabel]
  exact Bool.false_ne_true

theorem IsLexical.mem_follow (h : g.IsLexical) (hd : d.finish = .ok g) (he : e ∈ g.goals)
    {name : String} : name ∈ e.2.follow ↔ name ∈ e.2.lookahead.getD ∅ := by
  obtain ⟨g₀, rfl, hreg⟩ := Draft.finish_eq_ok hd
  obtain ⟨id, p⟩ := e
  obtain ⟨hp, hgoal⟩ := mem_goals.1 he
  obtain ⟨p₀, hp₀, hleft, -, hla, -, hfollow⟩ := get?_analyze hp
  rw [hfollow, findFollows_of_calls_eq_nil h.calls_eq_nil, mem_goalFollows, hla]
  constructor
  · intro hn
    obtain ⟨⟨id', q⟩, hq, hl, hn⟩ := hn
    obtain ⟨-, rfl⟩ := hreg.id_inj (mem_goals.1 hq).1 hp₀ (hl.trans hleft)
    exact hn
  · intro hn
    exact ⟨(id, p₀), mem_goals.2 ⟨hp₀, by rwa [Production.isGoal, ← hla]⟩, hleft.symm, hn⟩

theorem IsLexical.not_calls (h : g.IsLexical) : ¬ g.Calls i j := by
  intro hij
  obtain ⟨l, hij⟩ := hij
  obtain ⟨hl, ⟨k, hk⟩, -⟩ := mem_expansions.1 hij
  obtain ⟨-, p, hp, ht⟩ := mem_steps.1 hk
  rw [isNonterminalLabel_of_isReadTerminal (h.isReadTerminal hp ht)] at hl
  cases hl

theorem IsLexical.mem_εClosure (h : g.IsLexical) {S : Set Item} :
    i ∈ (g.itemAutomaton e).εClosure S ↔ i ∈ S := by
  rw [Grammar.mem_εClosure]
  constructor
  · intro hi
    obtain ⟨k, hk, hki⟩ := hi
    rcases Relation.ReflTransGen.cases_tail hki with rfl | ⟨c, -, hc⟩
    · exact hk
    · exact absurd hc h.not_calls
  · intro hi
    exact ⟨i, hi, .refl⟩

theorem IsLexical.mem_eval (h : g.IsLexical) (he : e ∈ g.goals) :
    i ∈ (g.itemAutomaton e).eval w ↔ i.production = e.1 ∧ e.2.body.Reaches w i.state := by
  have hp := (mem_goals.1 he).1
  induction w using List.reverseRecOn generalizing i with
  | nil =>
    rw [εNFA.eval_nil, h.mem_εClosure, Automaton.reaches_nil]
    rfl
  | append_singleton w l ih =>
    rw [εNFA.eval_append_singleton, εNFA.mem_stepSet_iff, Automaton.reaches_append_singleton]
    simp only [h.mem_εClosure, mem_step_some, ih, mem_steps]
    constructor
    · intro hi
      obtain ⟨b, ⟨hid, hb⟩, hib, p, hp', ht⟩ := hi
      rw [hid, hp] at hp'
      obtain rfl := Option.some.inj hp'
      exact ⟨hib.trans hid, b.state, hb, ht⟩
    · intro hi
      obtain ⟨hid, k, hk, ht⟩ := hi
      exact ⟨⟨e.1, k⟩, ⟨rfl, hk⟩, hid, e.2, hp, ht⟩

/-- A state of the readahead automaton holds the states of the right part that the word
before it leads to. -/
theorem IsLexical.holds_iff (h : g.IsLexical) (he : e ∈ g.goals)
    (hseed : (n, e.1) ∈ g.automaton.seeds) (hw : g.automaton.Leads n w m) :
    g.automaton.Holds m i ↔ i.production = e.1 ∧ e.2.body.Reaches w i.state := by
  rw [holds_of_leads he hseed hw, h.mem_eval he]

theorem IsLexical.exists_leads_iff (h : g.IsLexical) (hd : d.finish = .ok g) (he : e ∈ g.goals)
    (hseed : (n, e.1) ∈ g.automaton.seeds) :
    (∃ m, g.automaton.Leads n w m) ↔ ∃ i, e.2.body.Reaches w i := by
  constructor
  · intro hm
    obtain ⟨m, hm⟩ := hm
    obtain ⟨i, hi⟩ := exists_holds_of_leads hd he hseed hm
    exact ⟨i.state, ((h.holds_iff he hseed hm).1 hi).2⟩
  · intro hi
    obtain ⟨i, hi⟩ := hi
    refine exists_leads he hseed (fun l hl ↦ ?_) ⟨⟨e.1, i⟩, (h.mem_eval he).2 ⟨rfl, hi⟩⟩
    obtain ⟨k, hk, hpath⟩ := hi
    obtain ⟨x, hx, rfl⟩ := hpath.label hl
    exact isStep_of_isReadTerminal
      (h.isReadTerminal (mem_goals.1 he).1 (Automaton.mem_transitions.1 hx))

end Grammar

namespace Automaton

variable {m : Automaton} {w v : List Label}

theorem exists_reaches_iff (h : m.Tidy) : (∃ i, m.Reaches w i) ↔ ∃ v, w ++ v ∈ m.language := by
  constructor
  · intro hi
    obtain ⟨i, j, hj, hw⟩ := hi
    have hlt := hw.target_lt h.closed (lt_size_of_isInitialAt (mem_initials.1 hj))
    obtain ⟨v, k, hv, hk⟩ := (h.useful i hlt).finishes
    exact ⟨v, j, hj, k, hw.append hv, hk⟩
  · intro hv
    obtain ⟨v, j, hj, k, hwv, -⟩ := hv
    obtain ⟨i, hw, -⟩ := hwv.of_append
    exact ⟨i, j, hj, hw⟩

end Automaton

namespace Draft

variable {d : Draft} {g : Grammar} {kind : Kind} {l : List Definition}

theorem kind_eq_of_finish (h : d.finish = .ok g) (hk : d.kind ≠ .parser) : g.kind = d.kind := by
  obtain ⟨ps, -, rfl⟩ := exists_registerAll h
  rw [prepared, if_neg hk]
  rfl

theorem tidy_body (h : d.finish = .ok g) (ht : d.HasTidyRules) (hk : d.kind ≠ .parser)
    {id : ProductionId} {p : Production} (hp : g.productions.get? id = some p) : p.body.Tidy := by
  obtain ⟨r, hr, hc⟩ := exists_rule h hp
  rw [prepared, if_neg hk] at hr
  exact hc.tidy (ht _ hr)

end Draft

end RightPart
