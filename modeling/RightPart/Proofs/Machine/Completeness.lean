import RightPart.Proofs.Grammar.Lookahead
import RightPart.Proofs.Machine.Determinism
import RightPart.Proofs.Machine.Progress

namespace RightPart.Grammar

def ReadsSymbols (g : Grammar) : Prop := ∀ l ∈ g.labels, l.isAction = false → l.isRead

instance (g : Grammar) : Decidable g.ReadsSymbols := inferInstanceAs (Decidable (∀ l ∈ g.labels, _))

/-- A way through the readahead automaton along one right part, with the frames that it
leaves on the stack. -/
inductive Trail (g : Grammar) (q₀ : Place) (σ₀ : List Frame) : Place → List Frame → Prop
  | nil : Trail g q₀ σ₀ q₀ σ₀
  | silent {p q : Place} {σ : List Frame} {l : Label} :
      Trail g q₀ σ₀ q σ → p.Follows g l q → l.isRead = false → Trail g q₀ σ₀ p σ
  | read {p q : Place} {σ : List Frame} {l : Label} :
      Trail g q₀ σ₀ q σ → p.Follows g l q → l.isRead → Trail g q₀ σ₀ p (⟨l.name, p.readahead⟩ :: σ)

variable {g : Grammar} {p q q₀ : Place} {σ σ₀ : List Frame}

theorem Trail.trans {σ' : List Frame} (h : g.Trail q₀ σ₀ q σ) (h' : g.Trail q σ p σ') :
    g.Trail q₀ σ₀ p σ' := by
  induction h' with
  | nil => exact h
  | silent _ hf hl ih => exact .silent ih hf hl
  | read _ hf hl ih => exact .read ih hf hl

theorem Trail.ne_nil (h : g.Trail q₀ σ₀ q σ) (hσ : σ₀ ≠ []) : σ ≠ [] := by
  induction h with
  | nil => exact hσ
  | silent _ _ _ ih => exact ih
  | read => exact List.cons_ne_nil _ _

theorem Trail.exists_back (h : g.Trail q₀ σ₀ q σ) (hσ : σ₀ ≠ []) {k : Nat} {m : ReadbackNode}
    (hm : g.readbackNodes.nodes[k]? = some m) (hq : q ∈ g.backGraph.closure m) (x f : List String) :
    ∃ k' m', g.readbackNodes.nodes[k']? = some m' ∧ q₀ ∈ g.backGraph.closure m' ∧
      Relation.ReflTransGen g.Step ⟨.readback k, σ, x, f⟩ ⟨.readback k', σ₀, x, f⟩ := by
  induction h generalizing k m with
  | nil => exact ⟨k, m, hm, hq, .refl⟩
  | @silent p q σ l _ hf hl ih =>
    obtain ⟨p₀, hp₀, hp⟩ := mem_closure.1 hq
    have ht : p.Trails g q := ⟨l, hf, hl⟩
    exact ih hm (mem_closure.2 ⟨p₀, hp₀, hp.tail ht⟩)
  | @read p q σ l h hf hl ih =>
    obtain ⟨m₁, hm₁⟩ := exists_mem_exits hq hf hl
    obtain ⟨m₂, hm₂, hkernel⟩ := Found.getElem?_indexOf (exits_mem_keys hm hm₁)
    have hq₂ : q ∈ m₂.kernel := by
      rw [hkernel]
      exact (mem_kernel_of_mem_exits hm₁).2 ⟨p.item, hq, hf, hl⟩
    obtain ⟨k', m', hm', hq', hrun⟩ := ih hm₂ (mem_closure_of_mem hq₂)
    exact ⟨k', m', hm', hq', .head (.back hm hm₁ hm₂ hkernel (h.ne_nil hσ)) hrun⟩

theorem exists_edge_of_transition (hk : g.kind = .parser) {n : Nat} {i : Item} {p : Production}
    (hp : g.productions.get? i.production = some p) (hi : g.automaton.Holds n i) {t : Transition}
    (ht : t ∈ p.body.transitionsFrom i.state) :
    ∃ m, g.automaton.Edge n t.label m ∧ g.automaton.Holds m ⟨i.production, t.target⟩ ∧
      Place.Follows g ⟨⟨i.production, t.target⟩, m⟩ t.label ⟨i, n⟩ := by
  have hs : ⟨i.production, t.target⟩ ∈ g.steps.image i t.label := mem_steps.2 ⟨rfl, p, hp, ht⟩
  obtain ⟨m, hm⟩ := exists_edge hi hs (isStep_of_kind hk _)
  have hf : Place.Follows g ⟨⟨i.production, t.target⟩, m⟩ t.label ⟨i, n⟩ := ⟨hm, hi, hs⟩
  exact ⟨m, hm, holds_of_enters hf.holds, hf⟩

theorem run_action {n m : Nat} {i : Item} {p : Production} {l : Label} {x f : List String}
    {token : String} (he : g.automaton.Edge n l m) (hl : l.isAction)
    (hp : g.productions.get? i.production = some p) (hi : g.automaton.Holds m i)
    (hn : g.MayFollow p i.state token) :
    Relation.ReflTransGen g.Step ⟨.readahead n, σ, token :: x, f⟩
      ⟨.readahead m, σ, token :: x, f ++ [l.name]⟩ := by
  obtain ⟨k, hk⟩ := List.mem_iff_getElem?.1 (OrderedSet.mem_def.1 (mem_semantics.2 ⟨hl, n, he⟩))
  exact .head (.action he hl hk ⟨i, hi, mem_itemFollow hp hn⟩) (.single (.perform hk))

theorem isGoal_of_called (hu : g.GoalsUncalled) {l : Label} (hl : l ∈ g.labels)
    (hact : l.isAction = false) {id : ProductionId} {p : Production}
    (hp : g.productions.get? id = some p) (hname : p.left = l.name) : p.isGoal = false := by
  by_contra hgoal
  have hmem : (id, p) ∈ g.goals := mem_goals.2 ⟨hp, by simpa using hgoal⟩
  exact hu l hl hact _ hmem hname.symm

theorem calls_of_transition {i : Item} {p : Production}
    (hp : g.productions.get? i.production = some p) {t : Transition}
    (ht : t ∈ p.body.transitionsFrom i.state) (hl : g.isNonterminalLabel t.label)
    {id : ProductionId} {q : Production} (hq : g.productionFor? t.label.name = some (id, q))
    {s : Nat} (hs : s ∈ q.body.initials) : g.Calls i ⟨id, s⟩ := by
  have hstep : ⟨i.production, t.target⟩ ∈ g.steps.image i t.label := mem_steps.2 ⟨rfl, p, hp, ht⟩
  exact ⟨t.label, mem_expansions.2 ⟨hl, ⟨_, hstep⟩, q, hq, Automaton.mem_initials.1 hs⟩⟩

/-- A complete right part is gone back over, reduced, and followed by a step over its
nonterminal. -/
theorem run_reduction (hg : g.Registered) {i₀ : Nat} {gid : ProductionId}
    (hi₀ : (i₀, gid) ∈ g.automaton.seeds) {n n' m : Nat} {c b b' : Item} {l : Label}
    {q : Production} {token : String} {x f : List String} (h : g.OnPath i₀ σ n)
    (hc : g.automaton.Holds n c) (hcb : g.Calls c b) (he : g.automaton.Edge n l m)
    (hl : g.isNonterminalLabel l) (hq : g.productions.get? b.production = some q)
    (hname : q.left = l.name) (hgoal : q.isGoal = false) {σ' : List Frame}
    (ht : g.Trail ⟨b, n⟩ σ ⟨b', n'⟩ σ') (hb' : g.automaton.Holds n' b') (hend : g.Ends b' q)
    (htoken : token ∈ q.follow) :
    Relation.ReflTransGen g.Step ⟨.readahead n', σ', token :: x, f⟩
      ⟨.readahead m, ⟨l.name, m⟩ :: σ, token :: x, f⟩ := by
  obtain ⟨k, mk, hmk, hcompl, hmem⟩ := exists_readbackNode hg hb' hend hgoal
  obtain ⟨k', mk', hmk', hclosure, hback⟩ :=
    ht.exists_back h.ne_nil hmk (mem_closure_of_mem hmem) (token :: x) f
  obtain ⟨top, below, rfl⟩ := List.exists_cons_of_ne_nil h.ne_nil
  obtain ⟨id, p, hr⟩ := exists_reads hg hmk'
  obtain ⟨l', hl', hbelow⟩ := exists_below hi₀ h hclosure hc hcb
  have hid : b.production = id := reads_closure hr hclosure
  obtain rfl : q = p := Option.some.inj (hq.symm.trans (hid ▸ hr.production))
  obtain ⟨j, hj⟩ := exists_reduceFor? hq hgoal
  have hleft : mk'.left = l.name := hr.left.trans hname
  have hcomplete : g.Step ⟨.readahead n', σ', token :: x, f⟩ ⟨.readback k, σ', token :: x, f⟩ :=
    .complete hend.1 hgoal hmk hcompl ⟨_, hmem⟩ htoken
  have hfound : g.Step ⟨.readback k', top :: below, token :: x, f⟩
      ⟨.reduce j, top :: below, token :: x, f⟩ := by
    have := Step.found (σ := below) (x := token :: x) (f := f) hmk' (hr.left ▸ hj) hbelow
    rwa [hl'] at this
  have hrestart : g.Step ⟨.reduce j, top :: below, token :: x, f⟩
      ⟨.readahead m, ⟨l.name, m⟩ :: top :: below, token :: x, f⟩ := by
    refine .restart (r := ⟨top.state, l, m⟩) (reduced_of_reduceFor? (hname ▸ hj)) ?_
    exact ReadaheadAutomaton.mem_restarts_of_silent he hl h.top.2 (h.mem_stackable hi₀)
  exact .head hcomplete (hback.trans (.head hfound (.single hrestart)))

/-- A machine that stands at the start of a way through a right part reads any text of it, if the
next token may follow. It comes to the end of the way and leaves the rest of the stack alone. -/
theorem Expands.exists_run (hg : g.Registered) (ha : g.Analyzed) (hk : g.kind = .parser)
    (hread : g.ReadsSymbols) (hu : g.GoalsUncalled) {i₀ : Nat} {gid : ProductionId}
    (hi₀ : (i₀, gid) ∈ g.automaton.seeds) {w : List Label} {x : List String} (h : g.Expands w x)
    {p : Production} {i : Item} {j n : Nat} {σ : List Frame} {token : String} {r f : List String}
    (hp : g.productions.get? i.production = some p) (hw : p.body.Path i.state w j)
    (hσ : g.OnPath i₀ σ n) (hi : g.automaton.Holds n i) (htoken : g.MayFollow p j token) :
    ∃ n' σ' f', Relation.ReflTransGen g.Step ⟨.readahead n, σ, x ++ token :: r, f⟩
        ⟨.readahead n', σ', token :: r, f'⟩ ∧ g.OnPath i₀ σ' n' ∧
      g.automaton.Holds n' ⟨i.production, j⟩ ∧ g.Trail ⟨i, n⟩ σ ⟨⟨i.production, j⟩, n'⟩ σ' := by
  -- the induction is on how the text comes about: a nonterminal has its own text read from the same
  -- state, and the rest of this way is read after the restart
  induction h generalizing p i j n σ token r f with
  | nil =>
    cases hw
    exact ⟨n, σ, f, .refl, hσ, hi, .nil⟩
  | @silent l w x hl hx ih =>
    cases hw with
    | @cons _ _ t _ ht hw =>
      obtain ⟨m, he, hm, hf⟩ := exists_edge_of_transition hk hp hi ht
      have hact : t.label.isAction := by
        by_contra hact
        rw [hread t.label (mem_labels hp ht) (by simpa using hact)] at hl
        cases hl
      obtain ⟨token', rest', hx', hnext⟩ := hx.exists_mayFollow ha hw htoken r
      obtain ⟨n', σ', f', hrun, hσ', hn', htrail⟩ :=
        ih (i := ⟨i.production, t.target⟩) (f := f ++ [t.label.name]) hp hw (.silent hσ he hl)
          hm htoken
      refine ⟨n', σ', f', ?_, hσ', hn', .trans (.silent .nil hf hl) htrail⟩
      rw [hx'] at hrun ⊢
      exact (run_action (i := ⟨i.production, t.target⟩) he hact hp hm hnext).trans hrun
  | @terminal l w x hl hx ih =>
    cases hw with
    | @cons _ _ t _ ht hw =>
      obtain ⟨m, he, hm, hf⟩ := exists_edge_of_transition hk hp hi ht
      obtain ⟨hlr, hnt⟩ : t.label.isRead ∧ g.isNonterminal t.label.name = false := by
        simpa [isReadTerminal] using hl
      obtain ⟨n', σ', f', hrun, hσ', hn', htrail⟩ :=
        ih (i := ⟨i.production, t.target⟩) hp hw (.push hσ he hlr) hm htoken
      refine ⟨n', σ', f', .head ?_ hrun, hσ', hn', .trans (.read .nil hf hlr) htrail⟩
      exact .read he (by simp [isNonterminalLabel, hnt]) hlr
  | @nonterminal l w v x y id q hl hn hq hv hy hx ihv ihw =>
    cases hw with
    | @cons _ _ t _ ht hw =>
      obtain ⟨m, he, hm, hf⟩ := exists_edge_of_transition hk hp hi ht
      obtain ⟨s, hs, e, hpath, hfin⟩ := hv
      obtain ⟨hid, hname⟩ := productionFor?_eq_some hq
      have hnt := isNonterminalLabel_of_isRead hl hn
      have hgoal := isGoal_of_called hu (mem_labels hp ht) (Label.isAction_of_isRead hl) hid hname
      have hcalls := calls_of_transition hp ht hnt hq hs
      obtain ⟨token', rest', hx', hnext⟩ := hx.exists_mayFollow ha hw htoken r
      have hfollow : token' ∈ q.follow := ha.follow _ p hp _ t ht hnt id q hq _ hnext
      obtain ⟨n₁, σ₁, f₁, hrun₁, hσ₁, hn₁, htrail₁⟩ := ihv (i := ⟨id, s⟩) hid hpath hσ
        (holds_of_calls hi hcalls) ⟨e, .refl, .inr ⟨hfin, hfollow⟩⟩
      have hred :=
        run_reduction hg hi₀ (x := rest') (f := f₁) hσ hi hcalls he hnt hid hname hgoal htrail₁
        hn₁ ⟨hid, hfin⟩ hfollow
      obtain ⟨n', σ', f', hrun, hσ', hn', htrail⟩ :=
        ihw (i := ⟨i.production, t.target⟩) hp hw (.push hσ he hl) hm htoken
      refine ⟨n', σ', f', ?_, hσ', hn', .trans (.read .nil hf hl) htrail⟩
      rw [List.append_assoc, hx'] at *
      exact hrun₁.trans (hred.trans hrun)

/-- Without conflicts and without a choice on the way back, a machine reads every text of its goal,
if a token of the lookahead comes after it, and accepts. -/
theorem accept_of_derives {d : Draft} {g : Grammar} {t : Tables} (hd : d.finish = .ok g)
    (ht : g.construct = .ok t) (hk : g.kind = .parser) (hread : g.ReadsSymbols)
    (hu : g.GoalsUncalled) (hconflicts : t.conflicts = [])
    (hback : ∀ s ∈ t.readbacks, s.IsDeterministic) {e : ProductionId × Production} {i : Nat}
    (hi : (e, i) ∈ g.goals.zip t.initialStates) {x : List String} (hx : g.Derives e.2.left x)
    {names : OrderedSet String} (hnames : e.2.lookahead = some names) {token : String}
    (htoken : token ∈ names) (rest : List String) :
    ∃ k c, t.run k (.start i (x ++ token :: rest)) = .ok c ∧ c.control = .accept ∧
      c.input = token :: rest := by
  have hg := Draft.registered_of_finish hd
  have ha := Draft.analyzed_of_finish hd
  obtain rfl := eq_parserTables ht hk
  obtain ⟨he, hseed⟩ := seed_of_mem_zip hi
  obtain ⟨p, hp, hent⟩ := enters_seed hseed
  have hid := (mem_goals.1 he).1
  obtain rfl : p = e.2 := Option.some.inj ((mem_goals.1 hp).1.symm.trans hid)
  obtain ⟨id, p, w, hp', ⟨s, hs, j, hw, hj⟩, hx⟩ := hx
  obtain ⟨rfl, rfl⟩ := Prod.mk.inj (Option.some.inj (hp'.symm.trans (hg.productionFor? hid)))
  have hfollow : g.MayFollow e.2 j token :=
    ⟨j, .refl, .inr ⟨hj, ha.lookahead _ _ hid names hnames token htoken⟩⟩
  have hholds : g.automaton.Holds i ⟨e.1, s⟩ :=
    holds_of_enters ((hent _).2 ⟨rfl, Automaton.mem_initials.1 hs⟩)
  obtain ⟨n, σ, f, hrun, -, hn, -⟩ :=
    hx.exists_run hg ha hk hread hu hseed (i := ⟨e.1, s⟩) (r := rest) (f := []) hid hw .bottom
      hholds hfollow
  have haccept : g.Step ⟨.readahead n, σ, token :: rest, f⟩ ⟨.accept, σ, token :: rest, f⟩ :=
    .accept hn ⟨hid, hj⟩ hnames htoken
  obtain ⟨hahead, hreduce⟩ := findConflicts_eq_nil.1 hconflicts
  obtain ⟨k, hk⟩ :=
    Tables.exists_run_eq_ok ⟨hahead, hback, hreduce⟩ ((run_iff hg rfl).2 (hrun.tail haccept))
  exact ⟨k, _, hk, rfl, rfl⟩

theorem accept_of_derives_sum : ∃ k c, Sum.tables.run k (.start 0 ["x", endOfInput]) = .ok c ∧
    c.control = .accept ∧ c.input = [endOfInput] := by
  have hT : Sum.grammar.Derives "T" ["x"] :=
    derives_of_transition (l := .symbol "x" .parserTerminal) (i := 0) (j := 1) (by decide +kernel)
      (.of_terminal (by decide +kernel))
  have hE : Sum.grammar.Derives "E" ["x"] :=
    derives_of_transition (l := .symbol "T" .parserNonterminal) (i := 4) (j := 5)
      (by decide +kernel)
      (hT.expands (by decide) (by decide +kernel))
  have hG : Sum.grammar.Derives "G" ["x"] :=
    derives_of_transition (l := .symbol "E" .parserNonterminal) (i := 0) (j := 1)
      (by decide +kernel)
      (hE.expands (by decide) (by decide +kernel))
  obtain ⟨e, names, hi, he, hnames, hlist⟩ := Sum.exists_goal
  have htoken : endOfInput ∈ names := by simp [OrderedSet.mem_def, hlist]
  exact accept_of_derives Sum.finish_draft Sum.construct_grammar (by decide +kernel)
    (by decide +kernel)
    (by decide +kernel) (by decide +kernel) (by decide +kernel) hi (he ▸ hG) hnames htoken []

end RightPart.Grammar
