import Mathlib.Computability.EpsilonNFA
import RightPart.Proofs.Grammar.Body
import RightPart.Proofs.Machine.Parser

namespace RightPart

namespace Grammar

/-- The items of all right parts as an automaton that begins with a goal: a letter is a step
within a right part, and silently an item before a nonterminal gives way to the initial items of
that nonterminal. -/
def itemAutomaton (g : Grammar) (e : ProductionId × Production) : εNFA Label Item where
  step i
    | some l => {j | j.production = i.production ∧ ∃ p, g.productions.get? i.production = some p ∧
        ⟨l, j.state⟩ ∈ p.body.transitionsFrom i.state}
    | none =>
        {j | ∃ p t q, g.productions.get? i.production = some p ∧
          t ∈ p.body.transitionsFrom i.state ∧
        g.isNonterminalLabel t.label ∧ g.productionFor? t.label.name = some (j.production, q) ∧
        q.body.isInitialAt j.state}
  start := {i | i.production = e.1 ∧ e.2.body.isInitialAt i.state}
  accept := {i | i.production = e.1 ∧ e.2.body.isFinalAt i.state}

end Grammar

/-- Following the letters of a word by equal labels leads from one state to another. -/
inductive ReadaheadAutomaton.Leads (a : ReadaheadAutomaton) (n : Nat) : List Label → Nat → Prop
  | start : Leads a n [] n
  | step {w : List Label} {l : Label} {m k : Nat} :
      Leads a n w m → a.Edge m l k → Leads a n (w ++ [l]) k

theorem εNFA.mem_εClosure_iff {α σ : Type} {M : εNFA α σ} {S : Set σ} {s : σ} :
    s ∈ M.εClosure S ↔ ∃ k ∈ S, Relation.ReflTransGen (fun x y ↦ y ∈ M.step x none) k s := by
  constructor
  · intro h
    induction h with
    | base s hs => exact ⟨s, hs, .refl⟩
    | step s t ht _ ih =>
      obtain ⟨k, hk, hks⟩ := ih
      exact ⟨k, hk, hks.tail ht⟩
  · intro h
    obtain ⟨k, hk, hks⟩ := h
    induction hks with
    | refl => exact M.subset_εClosure S hk
    | tail _ ht ih => exact εNFA.εClosure.step _ _ ht ih

namespace Grammar

variable {g : Grammar} {e : ProductionId × Production} {n m : Nat} {w : List Label} {l : Label}

theorem mem_step_some {i j : Item} :
    j ∈ (g.itemAutomaton e).step i (some l) ↔ j ∈ g.steps.image i l :=
  mem_steps.symm

theorem mem_step_none {i j : Item} : j ∈ (g.itemAutomaton e).step i none ↔ g.Calls i j := by
  constructor
  · intro h
    obtain ⟨p, t, q, hp, ht, hl, hq, hj⟩ := h
    have hstep : (⟨i.production, t.target⟩ : Item) ∈ g.steps.image i t.label :=
      mem_steps.2 ⟨rfl, p, hp, ht⟩
    exact ⟨t.label, mem_expansions.2 ⟨hl, ⟨_, hstep⟩, q, hq, hj⟩⟩
  · intro h
    obtain ⟨l, h⟩ := h
    obtain ⟨hl, ⟨k, hk⟩, q, hq, hj⟩ := mem_expansions.1 h
    obtain ⟨-, p, hp, ht⟩ := mem_steps.1 hk
    exact ⟨p, ⟨l, k.state⟩, q, hp, ht, hl, hq, hj⟩

theorem mem_εClosure {S : Set Item} {i : Item} :
    i ∈ (g.itemAutomaton e).εClosure S ↔ ∃ k ∈ S, Relation.ReflTransGen g.Calls k i := by
  simp only [εNFA.mem_εClosure_iff, mem_step_none]

theorem leads_unique {m' : Nat} (h : g.automaton.Leads n w m) (h' : g.automaton.Leads n w m') :
    m = m' := by
  induction h generalizing m' with
  | start =>
    generalize hw : ([] : List Label) = w at h'
    cases h' with
    | start => rfl
    | step => simp at hw
  | @step w l m k h he ih =>
    generalize hw : w ++ [l] = w' at h'
    cases h' with
    | start => simp at hw
    | step h' he' =>
      obtain ⟨rfl, hl⟩ := List.append_inj' hw rfl
      obtain rfl := List.singleton_inj.1 hl
      obtain rfl := ih h'
      exact edge_unique he he'

/-- The state that a word leads to holds exactly the items that the word leads to. -/
theorem holds_of_leads (he : e ∈ g.goals) (hseed : (n, e.1) ∈ g.automaton.seeds)
    (h : g.automaton.Leads n w m) :
    ∀ i, g.automaton.Holds m i ↔ i ∈ (g.itemAutomaton e).eval w := by
  induction h with
  | start =>
    intro i
    obtain ⟨p, hp, henters⟩ := enters_seed hseed
    obtain rfl : p = e.2 := by
      have hp := (mem_goals.1 hp).1
      rw [(mem_goals.1 he).1] at hp
      exact (Option.some.inj hp).symm
    rw [holds_iff, εNFA.eval_nil, mem_εClosure]
    simp only [henters]
    rfl
  | @step w l m k _ hedge ih =>
    intro i
    rw [holds_iff, εNFA.eval_append_singleton, εNFA.mem_stepSet_iff]
    simp only [enters_of_edge hedge, mem_εClosure, mem_step_some, ← ih]
    constructor
    · intro h
      obtain ⟨k, ⟨b, hb, hbk⟩, hki⟩ := h
      exact ⟨b, hb, k, hbk, hki⟩
    · intro h
      obtain ⟨b, hb, k, hbk, hki⟩ := h
      exact ⟨k, ⟨b, hb, hbk⟩, hki⟩

theorem exists_leads (he : e ∈ g.goals) (hseed : (n, e.1) ∈ g.automaton.seeds)
    (hw : ∀ l ∈ w, g.isStep l) (h : ((g.itemAutomaton e).eval w).Nonempty) :
    ∃ m, g.automaton.Leads n w m := by
  induction w using List.reverseRecOn with
  | nil => exact ⟨n, .start⟩
  | append_singleton w l ih =>
    obtain ⟨i, hi⟩ := h
    rw [εNFA.eval_append_singleton, εNFA.mem_stepSet_iff] at hi
    obtain ⟨b, hb, hi⟩ := hi
    obtain ⟨k, hk, -⟩ := mem_εClosure.1 hi
    obtain ⟨m, hm⟩ := ih (fun l hl ↦ hw l (List.mem_append_left _ hl)) ⟨b, hb⟩
    have hh := (holds_of_leads he hseed hm b).2 hb
    obtain ⟨m', hm'⟩ := exists_edge hh (mem_step_some.1 hk) (hw l (by simp))
    exact ⟨m', .step hm hm'⟩

theorem exists_node_of_leads (hseed : (n, e.1) ∈ g.automaton.seeds) (h : g.automaton.Leads n w m) :
    ∃ s, g.automaton.nodes[m]? = some s := by
  cases h with
  | start => exact exists_node_of_seed hseed
  | step _ hedge => exact exists_node_of_edge hedge

theorem exists_holds_of_leads {d : Draft} (hd : d.finish = .ok g) (he : e ∈ g.goals)
    (hseed : (n, e.1) ∈ g.automaton.seeds) (h : g.automaton.Leads n w m) :
    ∃ i, g.automaton.Holds m i := by
  cases h with
  | start =>
    obtain ⟨i, hi⟩ := Draft.exists_isInitialAt_body hd (mem_goals.1 he).1
    refine ⟨⟨e.1, i⟩, (holds_of_leads he hseed .start _).2 ?_⟩
    exact mem_εClosure.2 ⟨_, ⟨rfl, hi⟩, .refl⟩
  | step _ hedge =>
    obtain ⟨i, j, hi, hij⟩ := exists_mem_steps_of_edge hedge
    exact ⟨j, holds_of_enters ((enters_of_edge hedge).2 ⟨i, hi, hij⟩)⟩

theorem isStep_of_edge (h : g.automaton.Edge n l m) : g.isStep l := by
  obtain ⟨s, hs, he⟩ := h
  rw [(getElem?_nodes hs).2.2] at he
  obtain ⟨e, hk, heq⟩ := List.mem_map.1 he
  obtain ⟨rfl, -⟩ := Prod.mk.inj heq
  exact isStep_of_mem_kernelExits hk

theorem isStep_of_leads (h : g.automaton.Leads n w m) : ∀ l ∈ w, g.isStep l := by
  induction h with
  | start => simp
  | step _ hedge ih =>
    intro l hl
    rcases List.mem_append.1 hl with hl | hl
    · exact ih l hl
    · obtain rfl := List.mem_singleton.1 hl
      exact isStep_of_edge hedge

theorem exists_leads_to {s : ReadaheadNode} (hs : g.automaton.nodes[m]? = some s) :
    ∃ e ∈ g.goals, ∃ n w, (n, e.1) ∈ g.automaton.seeds ∧ g.automaton.Leads n w m := by
  refine node_induction
    (Q := fun m ↦ ∃ e ∈ g.goals, ∃ n w, (n, e.1) ∈ g.automaton.seeds ∧ g.automaton.Leads n w m)
      ?_ ?_ hs
  · intro n id hseed
    obtain ⟨p, hp, -⟩ := enters_seed hseed
    exact ⟨(id, p), hp, n, [], hseed, .start⟩
  · intro m l k hm hedge
    obtain ⟨e, he, n, w, hseed, hw⟩ := hm
    exact ⟨e, he, n, w ++ [l], hseed, .step hw hedge⟩

theorem exists_seed (he : e ∈ g.goals) : ∃ n, ∀ m, (m, e.1) ∈ g.automaton.seeds ↔ m = n := by
  refine ⟨(g.kernels g.itemGraph).indexOf (sorted (initialItems e.1 e.2.body)), fun m ↦ ?_⟩
  constructor
  · intro h
    obtain ⟨e', he', heq⟩ := List.mem_map.1 h
    obtain ⟨hm, hid⟩ := Prod.mk.inj heq
    have hp' := (mem_goals.1 he').1
    rw [hid, (mem_goals.1 he).1] at hp'
    rw [← hm, hid, Option.some.inj hp']
  · intro h
    subst h
    exact List.mem_map.2 ⟨e, he, rfl⟩

/-- The readahead automaton is the determinization of the automaton on items: a word of labels
leads from the seed of a goal to one state, which holds the items that the word leads to, unless
there are none. -/
theorem readahead_determinizes {d : Draft} (hd : d.finish = .ok g) :
    (∀ e ∈ g.goals, ∃ n, (∀ m, (m, e.1) ∈ g.automaton.seeds ↔ m = n) ∧
      ∀ w : List Label, (∀ l ∈ w, g.isStep l) →
        (((g.itemAutomaton e).eval w).Nonempty → ∃ m s, (∀ m', g.automaton.Leads n w m' ↔ m' = m) ∧
          g.automaton.nodes[m]? = some s ∧ ∀ i, i ∈ s.items ↔ i ∈ (g.itemAutomaton e).eval w) ∧
        ((g.itemAutomaton e).eval w = ∅ → ∀ m, ¬ g.automaton.Leads n w m)) ∧
    (∀ m s, g.automaton.nodes[m]? = some s →
      (∃ e ∈ g.goals, ∃ n w, (n, e.1) ∈ g.automaton.seeds ∧ (∀ l ∈ w, g.isStep l) ∧
        g.automaton.Leads n w m) ∧
      Ascending s.kernel ∧ (s.exits.map Prod.fst).Nodup) ∧
    ∀ (m m' : Nat) (s s' : ReadaheadNode), g.automaton.nodes[m]? = some s →
      g.automaton.nodes[m']? = some s' → s.kernel = s'.kernel → m = m' := by
  refine ⟨fun e he ↦ ?_, fun m s hs ↦ ?_, fun m m' s s' ↦ node_inj⟩
  · obtain ⟨n, hn⟩ := exists_seed he
    have hseed := (hn n).2 rfl
    refine ⟨n, hn, fun w hw ↦ ⟨fun hne ↦ ?_, fun hempty m hm ↦ ?_⟩⟩
    · obtain ⟨m, hm⟩ := exists_leads he hseed hw hne
      obtain ⟨s, hs⟩ := exists_node_of_leads hseed hm
      refine ⟨m, s, fun m' ↦ ⟨fun h ↦ leads_unique h hm, fun h ↦ h ▸ hm⟩, hs, fun i ↦ ?_⟩
      rw [← ReadaheadAutomaton.holds_iff hs, holds_of_leads he hseed hm]
    · obtain ⟨i, hi⟩ := exists_holds_of_leads hd he hseed hm
      rw [holds_of_leads he hseed hm, hempty] at hi
      exact hi
  · obtain ⟨e, he, n, w, hseed, hw⟩ := exists_leads_to hs
    exact ⟨⟨e, he, n, w, hseed, isStep_of_leads hw, hw⟩, ascending_node hs, nodup_exits hs⟩

theorem leads_sum : ∃ m s, Sum.grammar.automaton.nodes[m]? = some s ∧
    ∀ m', Sum.grammar.automaton.Leads 0 [.symbol "x" .parserTerminal] m' ↔ m' = m := by
  obtain ⟨e, names, hi, -⟩ := Sum.exists_goal
  have he : e ∈ Sum.grammar.goals := (List.of_mem_zip hi).1
  obtain ⟨n, hn, h⟩ := (readahead_determinizes Sum.finish_draft).1 e he
  have hseeds : ∀ x ∈ Sum.grammar.automaton.seeds, x.1 = 0 := by decide +kernel
  obtain rfl : n = 0 := hseeds _ ((hn n).2 rfl)
  have hedge : Sum.grammar.automaton.Edge 0 (.symbol "x" .parserTerminal) 3 :=
    ReadaheadAutomaton.mem_edges.1 (by decide +kernel)
  have hleads : Sum.grammar.automaton.Leads 0 [.symbol "x" .parserTerminal] 3 := .step .start hedge
  obtain ⟨i, hi⟩ := exists_holds_of_leads Sum.finish_draft he ((hn 0).2 rfl) hleads
  have hne := (holds_of_leads he ((hn 0).2 rfl) hleads i).1 hi
  obtain ⟨m, s, hm, hs, -⟩ := (h _ (isStep_of_leads hleads)).1 ⟨i, hne⟩
  exact ⟨m, s, hs, hm⟩

end Grammar

end RightPart
