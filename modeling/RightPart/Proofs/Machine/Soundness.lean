import RightPart.Proofs.Machine.Parser
import RightPart.Proofs.Machine.Path

namespace RightPart.Grammar

def ReadsNonterminals (g : Grammar) : Prop := ∀ l ∈ g.labels, g.isNonterminalLabel l → l.isRead

instance (g : Grammar) : Decidable g.ReadsNonterminals :=
  inferInstanceAs (Decidable (∀ l ∈ g.labels, _))

def GoalsUncalled (g : Grammar) : Prop :=
  ∀ l ∈ g.labels, l.isAction = false → ∀ e ∈ g.goals, l.name ≠ e.2.left

instance (g : Grammar) : Decidable g.GoalsUncalled :=
  inferInstanceAs (Decidable (∀ l ∈ g.labels, _))

def Yields (g : Grammar) (name : String) (x : List String) : Prop :=
  if g.isNonterminal name then g.Derives name x else x = [name]

/-- A text that the symbols above the bottom of a stack stand for. -/
inductive Consumed (g : Grammar) : List Frame → List String → Prop
  | bottom (f : Frame) : Consumed g [f] []
  | push {f : Frame} {σ : List Frame} {x y : List String} :
      Consumed g σ x → g.Yields f.symbol y → Consumed g (f :: σ) (x ++ y)

variable {g : Grammar}

theorem Yields.of_not_nonterminal {name : String} (h : g.isNonterminal name = false) :
    g.Yields name [name] := by
  simp [Yields, h]

theorem Yields.of_derives {name : String} {x : List String} (h : g.Derives name x)
    (hn : g.isNonterminal name) : g.Yields name x := by
  simpa [Yields, hn] using h

theorem Yields.expands {l : Label} {x : List String} (h : g.Yields l.name x) (hl : l.isRead) :
    g.Expands [l] x := by
  unfold Yields at h
  by_cases hn : g.isNonterminal l.name = true
  · rw [if_pos hn] at h
    exact h.expands hl hn
  · rw [if_neg hn] at h
    subst h
    exact .of_terminal (by simp [isReadTerminal, hl, hn])

theorem Consumed.eq_nil {f : Frame} {x : List String} (h : g.Consumed [f] x) : x = [] := by
  cases h with
  | bottom => rfl
  | push h => cases h

theorem Consumed.pop {f : Frame} {σ : List Frame} {x : List String} (h : g.Consumed (f :: σ) x)
    (hσ : σ ≠ []) : ∃ x' y, x = x' ++ y ∧ g.Consumed σ x' ∧ g.Yields f.symbol y := by
  cases h with
  | bottom => exact absurd rfl hσ
  | push h hy => exact ⟨_, _, rfl, h, hy⟩

/-- The rest of a right part behind a place can derive a text. -/
def Spells (g : Grammar) (q : Place) (y : List String) : Prop :=
  ∃ p w j, g.productions.get? q.item.production = some p ∧ p.body.Path q.item.state w j ∧
    p.body.isFinalAt j ∧ g.Expands w y

theorem Spells.back {p q : Place} {l : Label} {x y : List String} (h : g.Spells p y)
    (hq : p.Follows g l q) (hl : g.Expands [l] x) : g.Spells q (x ++ y) := by
  obtain ⟨b, w, j, hb, hw, hj, hy⟩ := h
  obtain ⟨hid, b', hb', ht⟩ := mem_steps.1 hq.2.2
  obtain rfl : b' = b := Option.some.inj (hb'.symm.trans (hid ▸ hb))
  exact ⟨b', l :: w, j, hb', .cons ht hw, hj, hl.append hy⟩

theorem Spells.trails {p q : Place} {y : List String} (h : g.Spells p y)
    (hq : Relation.ReflTransGen (Place.Trails g) p q) : g.Spells q y := by
  induction hq with
  | refl => exact h
  | tail _ hq ih =>
    obtain ⟨l, hq, hl⟩ := hq
    exact ih.back hq (.of_silent hl)

theorem spells_closure {n : ReadbackNode} {y : List String} (h : ∀ q ∈ n.kernel, g.Spells q y)
    {q : Place} (hq : q ∈ g.backGraph.closure n) : g.Spells q y := by
  obtain ⟨p, hp, hpq⟩ := mem_closure.1 hq
  exact (h p hp).trails hpq

theorem spells_exits {n m : ReadbackNode} {l : Label} {i : Nat} {x y : List String}
    (h : ∀ q ∈ n.kernel, g.Spells q y) (he : (⟨l, i⟩, m) ∈ g.backGraph.exits n)
    (hx : g.Yields l.name x) : ∀ q ∈ m.kernel, g.Spells q (x ++ y) := by
  intro q hq
  obtain ⟨j, hj, hf, hl⟩ := (mem_kernel_of_mem_exits he).1 hq
  exact (spells_closure h hj).back hf (hx.expands hl)

/-- What has been gone back over, when the start of the right part is met, is a text of its
nonterminal. -/
theorem derives_of_below (hg : g.Registered) {k : Nat} {n : ReadbackNode} {e : StackEntry}
    {y : List String} (hn : g.readbackNodes.nodes[k]? = some n) (h : ∀ q ∈ n.kernel, g.Spells q y)
    (he : g.Below n e) : g.Derives n.left y := by
  obtain ⟨id, p, hr⟩ := exists_reads hg hn
  obtain ⟨s, hs, hi, -⟩ := he
  obtain ⟨p', w, j, hp', hw, hj, hy⟩ := spells_closure h hs
  rw [reads_closure hr hs, hr.production] at hp'
  obtain rfl := Option.some.inj hp'
  have hinit : p.body.isInitialAt s.item.state := by
    simpa [isInitialItem, reads_closure hr hs, hr.production] using hi
  rw [hr.left]
  exact ⟨id, p, w, hg.productionFor? hr.production,
    ⟨_, Automaton.mem_initials.2 hinit, j, hw, hj⟩, hy⟩

theorem spells_of_isCompletion {n : Nat} {id : ProductionId} {p : Production} {k : List Place}
    (h : g.IsCompletion n id p k) : ∀ q ∈ k, g.Spells q [] := by
  intro q hq
  obtain ⟨-, -, -, hp, hj⟩ := (h q).1 hq
  exact ⟨p, [], _, hp, .nil _, hj, .nil⟩

theorem enters_of_goal (hu : g.GoalsUncalled) {n : Nat} {k : Item} {p : Production}
    (hp : (k.production, p) ∈ g.goals) (h : g.automaton.Holds n k) : g.automaton.Enters n k := by
  rcases enters_or_calls h with h | ⟨b, -, l, hb⟩
  · exact h
  · obtain ⟨hl, ⟨j, hj⟩, q, hq, -⟩ := mem_expansions.1 hb
    obtain ⟨hq, hname⟩ := productionFor?_eq_some hq
    obtain rfl : q = p := Option.some.inj (hq.symm.trans (mem_goals.1 hp).1)
    have ha : l.isAction = false := by simp_all [isNonterminalLabel]
    exact absurd hname.symm (hu l (mem_labels_of_mem_steps hj) ha _ hp)

/-- An item of a goal in a state on the path belongs to the goal at the bottom, and the stack holds
what its right part has been through. -/
theorem OnPath.exists_path_of_goal (hu : g.GoalsUncalled) {i n : Nat} {id : ProductionId}
    {p : Production} (hi : ∀ k, g.automaton.Enters i k ↔
      k.production = id ∧ p.body.isInitialAt k.state)
    (hid : g.productions.get? id = some p) {σ : List Frame} (h : g.OnPath i σ n) {x : List String}
    (hx : g.Consumed σ x) {k : Item} {q : Production} (hq : (k.production, q) ∈ g.goals)
    (hk : g.automaton.Holds n k) :
    k.production = id ∧ ∃ s ∈ p.body.initials, ∃ w, p.body.Path s w k.state ∧ g.Expands w x := by
  induction h generalizing x k with
  | bottom =>
    obtain ⟨hkid, hs⟩ := (hi k).1 (enters_of_goal hu hq hk)
    rw [hx.eq_nil]
    exact ⟨hkid, k.state, Automaton.mem_initials.2 hs, [], .nil _, .nil⟩
  | silent _ he hl ih =>
    obtain ⟨b, hb, hbk⟩ := (enters_of_edge he).1 (enters_of_goal hu hq hk)
    obtain ⟨hkb, p', hp', ht⟩ := mem_steps.1 hbk
    obtain ⟨hbid, s, hs, w, hw, hxw⟩ := ih hx (hkb ▸ hq) hb
    obtain rfl : p' = p := Option.some.inj (hp'.symm.trans (hbid ▸ hid))
    refine ⟨hkb.trans hbid, s, hs, w ++ [_], hw.append (.one ht), ?_⟩
    simpa using hxw.append (.of_silent hl)
  | push h he hl ih =>
    obtain ⟨b, hb, hbk⟩ := (enters_of_edge he).1 (enters_of_goal hu hq hk)
    obtain ⟨hkb, p', hp', ht⟩ := mem_steps.1 hbk
    obtain ⟨x', y, rfl, hx', hy⟩ := hx.pop h.ne_nil
    obtain ⟨hbid, s, hs, w, hw, hxw⟩ := ih hx' (hkb ▸ hq) hb
    obtain rfl : p' = p := Option.some.inj (hp'.symm.trans (hbid ▸ hid))
    exact ⟨hkb.trans hbid, s, hs, w ++ [_], hw.append (.one ht), hxw.append (hy.expands hl)⟩

/-- What holds of a machine at work on `tokens` for a goal that begins in state `i`: the stack is a
path that stands for the tokens read so far, except for those that have been gone back over. -/
inductive Sound (g : Grammar) (i : Nat) (p : Production) (tokens : List String) :
    Configuration → Prop
  | ahead {n : Nat} {σ : List Frame} {x y f : List String} :
      g.OnPath i σ n → g.Consumed σ x → tokens = x ++ y → Sound g i p tokens ⟨.readahead n, σ, y, f⟩
  | acting {k : Nat} {σ : List Frame} {x y f : List String} :
      (∀ l m, g.automaton.semantics.toList[k]? = some ⟨l, m⟩ → g.OnPath i σ m) → g.Consumed σ x →
      tokens = x ++ y → Sound g i p tokens ⟨.semantic k, σ, y, f⟩
  | back {k n : Nat} {σ : List Frame} {x z y f : List String} :
      g.OnPath i σ n → g.Consumed σ x →
      (∀ m, g.readbackNodes.nodes[k]? = some m → ∀ q ∈ m.kernel, g.Spells q z) →
      tokens = x ++ z ++ y → Sound g i p tokens ⟨.readback k, σ, y, f⟩
  | reducing {j n : Nat} {σ : List Frame} {x z y f : List String} :
      g.OnPath i σ n → g.Consumed σ x → (∀ name, g.reduced[j]? = some name → g.Derives name z) →
      tokens = x ++ z ++ y → Sound g i p tokens ⟨.reduce j, σ, y, f⟩
  | accepted {σ : List Frame} {x y f : List String} {name : String} {names : OrderedSet String} :
      g.Derives p.left x → p.lookahead = some names → name ∈ names → tokens = x ++ name :: y →
      Sound g i p tokens ⟨.accept, σ, name :: y, f⟩

theorem OnPath.restart (hr : g.ReadsNonterminals) {i n : Nat} {y name : String} {r : Restart}
    {σ : List Frame} (h : g.OnPath i (⟨y, r.source⟩ :: σ) n)
    (hm : r ∈ g.automaton.restarts g g.automaton.stackable g.automaton.silentBack name) :
    g.isNonterminal name ∧ g.OnPath i (⟨name, r.target⟩ :: ⟨y, r.source⟩ :: σ) r.target := by
  obtain ⟨m, he, hl, rfl, hs⟩ := ReadaheadAutomaton.mem_restarts.1 hm
  have hm : g.OnPath i (⟨y, r.source⟩ :: σ) m := by
    rcases hs with rfl | hs
    · exact h.top.1
    · exact h.top.1.trans_silent hs.1
  refine ⟨by simp_all [isNonterminalLabel], .push hm he (hr _ (mem_labels_of_edge he) hl)⟩

theorem Sound.step (hg : g.Registered) (hr : g.ReadsNonterminals) (hu : g.GoalsUncalled) {i : Nat}
    {id : ProductionId} {p : Production}
    (hi : ∀ k, g.automaton.Enters i k ↔ k.production = id ∧ p.body.isInitialAt k.state)
    (hid : g.productions.get? id = some p) {tokens : List String} {c c' : Configuration}
    (h : g.Sound i p tokens c) (hs : g.Step c c') : g.Sound i p tokens c' := by
  cases hs with
  | look he hn ha hl =>
    obtain @⟨_, _, x, _, _, hp, hx, ht⟩ := h
    exact .ahead (.silent hp he hl) hx ht
  | @read n m l σ y f he hn hl =>
    obtain @⟨_, _, x, _, _, hp, hx, ht⟩ := h
    have hy : g.Yields l.name [l.name] :=
      .of_not_nonterminal (by simpa [isNonterminalLabel, Label.isAction_of_isRead hl] using hn)
    refine .ahead (.push hp he hl) (.push hx hy) ?_
    rw [ht, List.append_assoc, List.singleton_append]
  | action he ha hk hn =>
    obtain @⟨_, _, x, _, _, hp, hx, ht⟩ := h
    refine .acting (fun l m hlm ↦ ?_) hx ht
    obtain ⟨rfl, rfl⟩ := SemanticState.mk.inj (Option.some.inj (hk.symm.trans hlm))
    exact .silent hp he (Label.isRead_of_isAction ha)
  | perform hk =>
    cases h with
    | acting hp hx ht => exact .ahead (hp _ _ hk) hx ht
  | accept hk he hla hn =>
    obtain @⟨_, _, x, _, _, hp, hx, ht⟩ := h
    have hq := mem_goals.2 ⟨he.1, by simp [Production.isGoal, hla]⟩
    obtain ⟨hkid, s, hs, w, hw, hxw⟩ := hp.exists_path_of_goal hu hi hid hx hq hk
    obtain rfl := Option.some.inj (he.1.symm.trans (hkid ▸ hid))
    exact .accepted ⟨id, _, w, hg.productionFor? hid, ⟨s, hs, _, hw, he.2⟩, hxw⟩ hla hn ht
  | complete hp hgoal hm hk hq hn =>
    obtain @⟨_, _, x, _, _, hpath, hx, ht⟩ := h
    refine .back (z := []) hpath hx (fun m' hm' ↦ ?_) (by simpa using ht)
    obtain rfl := Option.some.inj (hm.symm.trans hm')
    exact spells_of_isCompletion hk
  | @back k j n m m' l s σ y f hn he hm hk hσ =>
    cases h with
    | back hp hx hz ht =>
      obtain ⟨x', y', rfl, hx', hy'⟩ := hx.pop hσ
      obtain ⟨b, l', hb, -⟩ := hp.pop hσ
      refine .back hb hx' (fun m'' hm'' ↦ ?_) (by rw [ht, List.append_assoc x'])
      obtain rfl := Option.some.inj (hm.symm.trans hm'')
      rw [hk]
      exact spells_exits (hz n hn) he hy'
  | found hn hj he =>
    cases h with
    | back hp hx hz ht =>
      refine .reducing hp hx (fun name hname ↦ ?_) ht
      obtain rfl := Option.some.inj ((reduced_of_reduceFor? hj).symm.trans hname)
      exact derives_of_below hg hn (hz _ hn) he
  | restart hj hm =>
    cases h with
    | reducing hp hx hz ht =>
      obtain ⟨hname, hp'⟩ := hp.restart hr hm
      exact .ahead hp' (.push hx (.of_derives (hz _ hj) hname)) ht

theorem Sound.run (hg : g.Registered) (hr : g.ReadsNonterminals) (hu : g.GoalsUncalled) {i : Nat}
    {id : ProductionId} {p : Production}
    (hi : ∀ k, g.automaton.Enters i k ↔ k.production = id ∧ p.body.isInitialAt k.state)
    (hid : g.productions.get? id = some p) {tokens : List String} {c c' : Configuration}
    (h : g.Sound i p tokens c) (hs : Relation.ReflTransGen g.Step c c') :
    g.Sound i p tokens c' := by
  induction hs with
  | refl => exact h
  | tail _ hs ih => exact ih.step hg hr hu hi hid hs

/-- A machine that accepts has read a text of its goal, and the next token may follow the goal. -/
theorem sound_of_accept {d : Draft} {g : Grammar} {t : Tables} (hd : d.finish = .ok g)
    (ht : g.construct = .ok t) (hk : g.kind = .parser) (hr : g.ReadsNonterminals)
    (hu : g.GoalsUncalled) {e : ProductionId × Production} {i : Nat}
    (hi : (e, i) ∈ g.goals.zip t.initialStates) {tokens : List String} {c : Configuration}
    (hrun : t.Run (.start i tokens) c) (hc : c.control = .accept) :
    ∃ x token rest names, tokens = x ++ token :: rest ∧ c.input = token :: rest ∧
      g.Derives e.2.left x ∧ e.2.lookahead = some names ∧ token ∈ names := by
  have hg := Draft.registered_of_finish hd
  obtain rfl := eq_parserTables ht hk
  obtain ⟨he, hseed⟩ := seed_of_mem_zip hi
  obtain ⟨p, hp, hent⟩ := enters_seed hseed
  have hid := (mem_goals.1 he).1
  obtain rfl : p = e.2 := Option.some.inj ((mem_goals.1 hp).1.symm.trans hid)
  have hstart : g.Sound i e.2 tokens (.start i tokens) := .ahead .bottom (.bottom _) rfl
  have hsound := hstart.run hg hr hu hent hid ((run_iff hg rfl).1 hrun)
  obtain ⟨control, σ, x, f⟩ := c
  obtain rfl : control = .accept := hc
  cases hsound with
  | accepted hx hla hn ht => exact ⟨_, _, _, _, ht, rfl, hx, hla, hn⟩

theorem derives_of_accept_sum : ∃ x token rest, ["x", "+", "x", endOfInput] = x ++ token :: rest ∧
    [endOfInput] = token :: rest ∧ Sum.grammar.Derives "G" x := by
  obtain ⟨e, -, hi, he, -⟩ := Sum.exists_goal
  have hrun : (Sum.tables.run 30 (.start 0 ["x", "+", "x", endOfInput])).toOption =
      some ⟨.accept, [⟨"E", 1⟩, ⟨endOfInput, 0⟩], [endOfInput], []⟩ := by
    decide +kernel
  obtain ⟨x, token, rest, names, hx, hrest, hd, -⟩ :=
    sound_of_accept Sum.finish_draft Sum.construct_grammar
    (by decide +kernel) (by decide +kernel) (by decide +kernel) hi
    (Tables.run_of_run_eq_ok (eq_ok_of_toOption hrun)) rfl
  exact ⟨x, token, rest, hx, hrest, he ▸ hd⟩

end RightPart.Grammar
