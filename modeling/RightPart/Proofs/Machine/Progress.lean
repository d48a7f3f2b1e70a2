import RightPart.Proofs.Machine.Soundness

namespace RightPart.Grammar

def UniqueReads (g : Grammar) : Prop :=
  ∀ l ∈ g.labels, ∀ l' ∈ g.labels, l.isRead → l'.isRead → l.name = l'.name → l = l'

instance (g : Grammar) : Decidable g.UniqueReads := inferInstanceAs (Decidable (∀ l ∈ g.labels, _))

def EndUnread (g : Grammar) : Prop := ∀ l ∈ g.labels, l.isRead → l.name ≠ endOfInput

instance (g : Grammar) : Decidable g.EndUnread := inferInstanceAs (Decidable (∀ l ∈ g.labels, _))

variable {g : Grammar} {i : Nat} {f : Frame} {σ : List Frame}

theorem silent_of_under {p q : Place} (h : Relation.ReflTransGen (Place.Under g) p q) :
    Relation.ReflTransGen g.automaton.Silent q.readahead p.readahead := by
  induction h with
  | refl => exact .refl
  | tail _ h ih =>
    rcases h with h | h
    · rw [h.1]
      exact ih
    · obtain ⟨l, h, hl⟩ := h
      have hs : g.automaton.Silent _ _ := ⟨l, h.1, hl⟩
      exact .head hs ih

theorem exists_restart (hk : g.kind = .parser) {n : ReadbackNode} {id : ProductionId}
    {p : Production} (hr : n.Reads g id p) {e : StackEntry} (he : g.Below n e) :
    ∃ r ∈ g.automaton.restarts g g.automaton.stackable g.automaton.silentBack n.left,
      r.source = e.readahead := by
  have hs := he.mem_stackable
  obtain ⟨s, hsn, -, c, b, ⟨hcs, hc, l, hl⟩, hu, -⟩ := he
  obtain ⟨hnt, ⟨k, hk'⟩, q, hq, -⟩ := mem_expansions.1 hl
  obtain ⟨hq, hname⟩ := productionFor?_eq_some hq
  rw [reads_closure hr hsn, hr.production] at hq
  obtain rfl := Option.some.inj hq
  obtain ⟨m, hm⟩ := exists_edge hc hk' (isStep_of_kind hk l)
  have hrestart := ReadaheadAutomaton.mem_restarts_of_silent hm hnt (silent_of_under hu) hs
  refine ⟨⟨e.readahead, l, m⟩, ?_, rfl⟩
  rw [hr.left, hname]
  exact hrestart

theorem exists_reduce_restart (hg : g.Registered) (hk : g.kind = .parser) {t : Tables}
    (ht : t = g.parserTables g.automaton g.itemGraph) {k j : Nat} {n : ReadbackNode}
    (hn : g.readbackNodes.nodes[k]? = some n) {e : StackEntry} (hj : g.reduceFor? n.left = some j)
    (he : g.Below n e) : ∃ s, t.reduces[j]? = some s ∧
      ∃ r ∈ s.restarts, r.source = e.readahead := by
  obtain ⟨id, p, hr⟩ := exists_reads hg hn
  obtain ⟨r, hmem, hsource⟩ := exists_restart hk hr he
  obtain ⟨s, hs, -, hiff⟩ := exists_reduce ht (reduced_of_reduceFor? hj)
  exact ⟨s, hs, r, (hiff r).2 hmem, hsource⟩

theorem exists_below {m : ReadbackNode} {gid : ProductionId} (hi : (i, gid) ∈ g.automaton.seeds)
    {n : Nat} {b c : Item} (h : g.OnPath i (f :: σ) n) (hb : ⟨b, n⟩ ∈ g.backGraph.closure m)
    (hc : g.automaton.Holds n c) (hcb : g.Calls c b) :
    ∃ l, l.name = f.symbol ∧ g.Below m ⟨l, f.state⟩ := by
  obtain ⟨j, hj, he⟩ := h.exists_under hi hc
  have hstart : g.isInitialItem b := by
    obtain ⟨l, hl⟩ := hcb
    obtain ⟨-, -, q, hq, hinit⟩ := mem_expansions.1 hl
    simp [isInitialItem, (productionFor?_eq_some hq).1, hinit]
  have hcall : Place.CalledFrom g ⟨b, n⟩ ⟨c, n⟩ := ⟨rfl, hc, hcb⟩
  rcases he with ⟨l, q, hf, hl, hs⟩ | ⟨hs, hj', he⟩
  · exact ⟨l.asLook, hs.symm, _, hb, hstart, _, j, hcall, hj, .inl ⟨l, q, hf, hl, rfl⟩⟩
  · exact ⟨.look endOfInput, he.symm, _, hb, hstart, _, j, hcall, hj, .inr ⟨hs, hj', rfl⟩⟩

/-- A readback state has a move on the top of the stack if one of its places is where the path of
the stack has come. -/
theorem exists_backMove (hg : g.Registered) {gid : ProductionId} (hi : (i, gid) ∈ g.automaton.seeds)
    {k : Nat} {m : ReadbackNode} (hm : g.readbackNodes.nodes[k]? = some m) {n : Nat} {b : Item}
    (h : g.OnPath i (f :: σ) n) (hb : g.automaton.Holds n b)
    (hbm : ⟨b, n⟩ ∈ g.backGraph.closure m) :
    ∃ l target, l.name = f.symbol ∧ g.BackMove m ⟨l, f.state⟩ target := by
  obtain ⟨id, p, hr⟩ := exists_reads hg hm
  have hfound : ∀ {n b c}, g.OnPath i (f :: σ) n → ⟨b, n⟩ ∈ g.backGraph.closure m →
      g.automaton.Holds n c → g.Calls c b →
      ∃ l target, l.name = f.symbol ∧ g.BackMove m ⟨l, f.state⟩ target := by
    intro n b c h hb hc hcb
    obtain ⟨l, hl, hbelow⟩ := exists_below hi h hb hc hcb
    obtain ⟨j, hj⟩ := exists_found hg hm hbelow
    exact ⟨l, _, hl, hj⟩
  -- the path is gone back until the item is one that is called, or the top of the stack is met
  generalize hσ : f :: σ = σ' at h
  induction h generalizing b with
  | bottom =>
    obtain ⟨rfl, rfl⟩ := List.cons.inj hσ
    rcases enters_or_calls hb with hb | ⟨c, hc, hcb⟩
    · obtain ⟨p', hp', he⟩ := enters_seed hi
      obtain ⟨hp', hgoal⟩ := mem_goals.1 hp'
      rw [← ((he b).1 hb).1, reads_closure hr hbm, hr.production] at hp'
      rw [← Option.some.inj hp', hr.not_goal] at hgoal
      cases hgoal
    · exact hfound .bottom hbm hc hcb
  | @silent σ' n₀ n l h he hl ih =>
    subst hσ
    rcases enters_or_calls hb with hb | ⟨c, hc, hcb⟩
    · obtain ⟨b', hb', hbb⟩ := (enters_of_edge he).1 hb
      obtain ⟨q, hq, hqb⟩ := mem_closure.1 hbm
      have ht : Place.Trails g ⟨b, n⟩ ⟨b', n₀⟩ := ⟨l, ⟨he, hb', hbb⟩, hl⟩
      exact ih hb' (mem_closure.2 ⟨q, hq, hqb.tail ht⟩) rfl
    · exact hfound (.silent h he hl) hbm hc hcb
  | @push σ' n₀ n l h he hl ih =>
    obtain ⟨rfl, rfl⟩ := List.cons.inj hσ
    rcases enters_or_calls hb with hb | ⟨c, hc, hcb⟩
    · obtain ⟨b', hb', hbb⟩ := (enters_of_edge he).1 hb
      have hf : Place.Follows g ⟨b, n⟩ l ⟨b', n₀⟩ := ⟨he, hb', hbb⟩
      obtain ⟨m', hm'⟩ := exists_mem_exits hbm hf hl
      obtain ⟨j, hj⟩ := exists_back hm hm'
      exact ⟨l, _, rfl, hj⟩
    · exact hfound (.push h he hl) hbm hc hcb

/-- The bottom of the stack is never gone back over. -/
theorem OnPath.ne_nil_of_mem_exits (hend : g.EndUnread) {n : Nat} {m m' : ReadbackNode}
    {e : StackEntry} (h : g.OnPath i (f :: σ) n) (he : (e, m') ∈ g.backGraph.exits m)
    (hs : e.label.name = f.symbol) : σ ≠ [] := by
  intro hσ
  subst hσ
  obtain ⟨b, q, hf, hl⟩ := exists_follows_of_mem_exits he
  exact hend e.label (mem_labels_of_edge hf.1) hl (by rw [hs, h.bottom_eq])

theorem OnPath.exists_mem_kernel (hu : g.UniqueReads) {n : Nat} {m m' : ReadbackNode}
    {e : StackEntry} (h : g.OnPath i (f :: σ) n) (hσ : σ ≠ []) (he : (e, m') ∈ g.backGraph.exits m)
    (hs : e.label.name = f.symbol) (hst : e.readahead = f.state) :
    ∃ q ∈ m'.kernel, g.OnPath i σ q.readahead ∧ g.automaton.Holds q.readahead q.item := by
  obtain ⟨n₀, l, hp, hedge, hl, hsym⟩ := h.pop hσ
  obtain ⟨q₀, hq₀⟩ := exists_mem_kernel_of_mem_exits he
  obtain ⟨b, hb, hf, hel⟩ := (mem_kernel_of_mem_exits he).1 hq₀
  have hle : l = e.label :=
    hu l (mem_labels_of_edge hedge) e.label (mem_labels_of_edge hf.1) hl hel
      (hsym.symm.trans hs.symm)
  rw [hle, ← hst] at hedge
  obtain ⟨b', hb', hbb⟩ := (enters_of_edge hedge).1 hf.holds
  have hf' : Place.Follows g ⟨b, e.readahead⟩ e.label ⟨b', n₀⟩ := ⟨hedge, hb', hbb⟩
  exact ⟨⟨b', n₀⟩, (mem_kernel_of_mem_exits he).2 ⟨b, hb, hf', hel⟩, hp, hb'⟩

/-- What keeps a machine going: the stack is a path, and what is done next concerns
where it ends. -/
inductive Live (g : Grammar) (i : Nat) : Configuration → Prop
  | ahead {n : Nat} {σ : List Frame} {x f : List String} :
  g.OnPath i σ n → Live g i ⟨.readahead n, σ, x, f⟩
  | acting {k m : Nat} {l : Label} {σ : List Frame} {x f : List String} :
      g.automaton.semantics.toList[k]? = some ⟨l, m⟩ → g.OnPath i σ m →
        Live g i ⟨.semantic k, σ, x, f⟩
  | back {k : Nat} {m : ReadbackNode} {q : Place} {σ : List Frame} {x f : List String} :
      g.readbackNodes.nodes[k]? = some m → q ∈ m.kernel → g.OnPath i σ q.readahead →
      g.automaton.Holds q.readahead q.item → Live g i ⟨.readback k, σ, x, f⟩
  | reducing {j n : Nat} {name : String} {r : Restart} {top : Frame} {σ : List Frame}
      {x f : List String} :
      g.reduced[j]? = some name →
      r ∈ g.automaton.restarts g g.automaton.stackable g.automaton.silentBack name →
      r.source = top.state → g.OnPath i (top :: σ) n → Live g i ⟨.reduce j, top :: σ, x, f⟩
  | accepted {σ : List Frame} {x f : List String} : Live g i ⟨.accept, σ, x, f⟩

theorem Live.step (hg : g.Registered) (hk : g.kind = .parser) (hr : g.ReadsNonterminals)
    (hu : g.UniqueReads) {c c' : Configuration} (h : g.Live i c) (hs : g.Step c c') :
    g.Live i c' := by
  cases hs with
  | look he hn ha hl =>
    cases h with
    | ahead hp => exact .ahead (.silent hp he hl)
  | read he hn hl =>
    cases h with
    | ahead hp => exact .ahead (.push hp he hl)
  | action he ha hk hn =>
    cases h with
    | ahead hp => exact .acting hk (.silent hp he (Label.isRead_of_isAction ha))
  | perform hm =>
    cases h with
    | acting hm' hp =>
      obtain ⟨rfl, rfl⟩ := SemanticState.mk.inj (Option.some.inj (hm.symm.trans hm'))
      exact .ahead hp
  | accept => exact .accepted
  | complete hp hgoal hm hc hq hn =>
    cases h with
    | ahead hpath =>
      obtain ⟨q, hq⟩ := hq
      obtain ⟨hqn, hq', -⟩ := (hc q).1 hq
      exact .back hm hq (hqn ▸ hpath) (hqn ▸ hq')
  | back hn he hm hc hσ =>
    cases h with
    | back hn' hq hp hq' =>
      obtain ⟨q, hq, hp, hq'⟩ := hp.exists_mem_kernel hu hσ he rfl rfl
      exact .back hm (hc ▸ hq) hp hq'
  | found hn hj he =>
    cases h with
    | back hn' hq hp hq' =>
      obtain ⟨id, p, hreads⟩ := exists_reads hg hn
      obtain ⟨r, hr, hs⟩ := exists_restart hk hreads he
      exact .reducing (reduced_of_reduceFor? hj) hr hs hp
  | restart hj hm =>
    cases h with
    | reducing hj' hm' hs hp => exact .ahead (hp.restart hr hm).2

theorem Live.run (hg : g.Registered) (hk : g.kind = .parser) (hr : g.ReadsNonterminals)
    (hu : g.UniqueReads) {c c' : Configuration} (h : g.Live i c)
    (hs : Relation.ReflTransGen g.Step c c') : g.Live i c' := by
  induction hs with
  | refl => exact h
  | tail _ hs ih => exact ih.step hg hk hr hu hs

theorem end_mem_of_run (hend : g.EndUnread) {c c' : Configuration}
    (hs : Relation.ReflTransGen g.Step c c') (h : endOfInput ∈ c.input) :
    endOfInput ∈ c'.input := by
  induction hs with
  | refl => exact h
  | tail _ hs ih =>
    cases hs with
    | read he hn hl =>
      exact (List.mem_cons.1 ih).resolve_left (hend _ (mem_labels_of_edge he) hl).symm
    | look | action | perform | accept | complete | back | found | restart => exact ih

theorem Move.ahead_ne_error {n : Nat} {l : Label} {target : Target} (h : g.Move n l target)
    (c : Configuration) (token : String) (rest : List String) (e : Failure) :
    c.ahead token rest (l, target) ≠ .error e := by
  cases h with
  | step =>
    by_cases hl : l.isRead = true
    · simp [Configuration.ahead, hl]
    · simp [Configuration.ahead, hl]
  | action | accept | complete => simp [Configuration.ahead]

section Tables

variable {t : Tables} (ht : t = g.parserTables g.automaton g.itemGraph)

include ht

/-- A readback state has a transition on the top of the stack. Each such transition goes back over
an entry above the bottom, or to a reduce state that can restart with the top of the stack. -/
theorem Live.readback (hg : g.Registered) (hk : g.kind = .parser) (hend : g.EndUnread)
    {gid : ProductionId} (hi : (i, gid) ∈ g.automaton.seeds) {k : Nat} {x a : List String}
    (h : g.Live i ⟨.readback k, σ, x, a⟩) :
    ∃ s f σ', t.readbacks[k]? = some s ∧ σ = f :: σ' ∧ (∃ e ∈ s.transitions, e.1.fits f) ∧
      ∀ e ∈ s.transitions, e.1.fits f → (∃ j, e.2 = .readback j ∧ σ' ≠ []) ∨
        ∃ j s' r, e.2 = .reduce j ∧ t.reduces[j]? = some s' ∧ r ∈ s'.restarts ∧
        r.source = f.state := by
  cases h with
  | @back _ m q _ _ _ hm hq hp hb =>
    obtain ⟨f, σ', rfl⟩ := List.exists_cons_of_ne_nil hp.ne_nil
    obtain ⟨s, hs, hmoves⟩ := exists_readback ht hm
    refine ⟨s, f, σ', hs, rfl, ?_, fun e he hf ↦ ?_⟩
    · obtain ⟨l, target, hl, hmove⟩ := exists_backMove hg hi hm hp hb (mem_closure_of_mem hq)
      exact ⟨_, (hmoves _ _).2 hmove, by simp [StackEntry.fits, hl]⟩
    · obtain ⟨hname, hst⟩ : e.1.label.name = f.symbol ∧ e.1.readahead = f.state := by
        simpa [StackEntry.fits] using hf
      obtain ⟨e, target⟩ := e
      cases (hmoves e target).1 he with
      | back he' hm' hc => exact .inl ⟨_, rfl, hp.ne_nil_of_mem_exits hend he' hname⟩
      | found hj he' =>
        obtain ⟨s', hs', r, hr, hsource⟩ := exists_reduce_restart hg hk ht hm hj he'
        exact .inr ⟨_, s', r, rfl, hs', hr, hsource.trans hst⟩

theorem Live.failure (hg : g.Registered) (hk : g.kind = .parser) (hend : g.EndUnread)
    {gid : ProductionId} (hi : (i, gid) ∈ g.automaton.seeds) {c : Configuration} (h : g.Live i c)
    {e : Failure} (he : .error e ∈ t.moves c) :
    (∃ n token rest, c.control = .readahead n ∧ c.input = token :: rest ∧ e = .noMove n token) ∨
      c.input = [] ∧ e = .noToken := by
  obtain ⟨control, σ, x, a⟩ := c
  cases control with
  | readahead n =>
    cases h with
    | ahead hp =>
      obtain ⟨s, hs⟩ := hp.exists_node hi
      obtain ⟨s', hs', hmoves⟩ := exists_readahead hg ht hs
      cases x with
      | nil =>
        simp only [Tables.moves, List.mem_singleton, Except.error.injEq] at he
        exact .inr ⟨rfl, he⟩
      | cons token rest =>
        simp only [Tables.moves, hs', Tables.error_mem_unless, List.mem_map, List.mem_filter] at he
        rcases he with ⟨-, he⟩ | ⟨⟨l, target⟩, ⟨hl, -⟩, he⟩
        · exact .inl ⟨n, token, rest, rfl, rfl, he⟩
        · have hmove := (hmoves l target).1 hl
          exact absurd he (hmove.ahead_ne_error _ token rest e)
  | semantic k =>
    cases h with
    | acting hm hp =>
      subst ht
      have hs : (g.parserTables g.automaton g.itemGraph).semantics = g.automaton.semantics := rfl
      simp [Tables.moves, hs, hm] at he
  | readback k =>
    obtain ⟨s, f, σ', hs, rfl, ⟨e', he', hf⟩, hall⟩ := h.readback ht hg hk hend hi
    simp only [Tables.moves, hs, Tables.error_mem_unless, List.map_eq_nil_iff, List.mem_map,
      List.mem_filter] at he
    rcases he with ⟨hnil, -⟩ | ⟨e₁, ⟨he₁, hf₁⟩, he⟩
    · exact absurd (List.mem_filter.2 ⟨he', hf⟩) (hnil ▸ List.not_mem_nil)
    · rcases hall e₁ he₁ hf₁ with ⟨j, hj, hσ⟩ | ⟨j, s', r, hj, -⟩
      · simp [Configuration.back, hj, hσ] at he
      · simp [Configuration.back, hj] at he
  | reduce j =>
    cases h with
    | reducing hj hr hs hp =>
      obtain ⟨s, hs', -, hm⟩ := exists_reduce ht hj
      simp only [Tables.moves, hs', Tables.error_mem_unless, List.map_eq_nil_iff, List.mem_map,
        List.mem_filter] at he
      rcases he with ⟨hnil, -⟩ | ⟨r, -, he⟩
      · exact absurd (List.mem_filter.2 ⟨(hm _).2 hr, by simpa using hs⟩) (hnil ▸ List.not_mem_nil)
      · cases he
  | accept => simp [Tables.moves] at he

end Tables

/-- Going back over a right part never gets stuck, and always ends in a reduction from which one can
restart. So only a readahead state can be at a loss, when it has no move on the next token. -/
theorem progress_of_run {d : Draft} {g : Grammar} {t : Tables} (hd : d.finish = .ok g)
    (ht : g.construct = .ok t) (hk : g.kind = .parser) (hr : g.ReadsNonterminals)
    (hu : g.UniqueReads) (hend : g.EndUnread) {e : ProductionId × Production} {i : Nat}
    (hi : (e, i) ∈ g.goals.zip t.initialStates) {tokens : List String} {c : Configuration}
    (hrun : t.Run (.start i tokens) c) :
    (∀ k, c.control = .readback k → ∃ s f σ, t.readbacks[k]? = some s ∧ c.stack = f :: σ ∧
      (∃ e ∈ s.transitions, e.1.fits f) ∧
      ∀ e ∈ s.transitions, e.1.fits f → (∃ j, e.2 = .readback j ∧ σ ≠ []) ∨
        ∃ j s' r, e.2 = .reduce j ∧ t.reduces[j]? = some s' ∧ r ∈ s'.restarts ∧
        r.source = f.state) ∧
    ∀ e, .error e ∈ t.moves c →
      (∃ n token rest, c.control = .readahead n ∧ c.input = token :: rest ∧ e = .noMove n token) ∨
        e = .noToken ∧ endOfInput ∉ tokens := by
  have hg := Draft.registered_of_finish hd
  obtain rfl := eq_parserTables ht hk
  obtain ⟨-, hseed⟩ := seed_of_mem_zip hi
  have hstart : g.Live i (.start i tokens) := .ahead .bottom
  have hrun' := (run_iff hg rfl).1 hrun
  have hlive := hstart.run hg hk hr hu hrun'
  refine ⟨fun k hc ↦ ?_, fun e he ↦ ?_⟩
  · obtain ⟨control, σ, x, a⟩ := c
    obtain rfl : control = .readback k := hc
    exact hlive.readback rfl hg hk hend hseed
  · rcases hlive.failure rfl hg hk hend hseed he with h | ⟨hx, he⟩
    · exact .inl h
    · refine .inr ⟨he, fun h ↦ ?_⟩
      have hm : endOfInput ∈ c.input := end_mem_of_run hend hrun' h
      simp [hx] at hm

theorem progress_of_run_sum : ∃ s f σ, Sum.tables.readbacks[1]? = some s ∧
    [⟨"x", 3⟩, ⟨endOfInput, 0⟩] = f :: σ ∧ (∃ e ∈ s.transitions, e.1.fits f) := by
  obtain ⟨e, -, hi, -⟩ := Sum.exists_goal
  have hrun : (Sum.tables.run 2 (.start 0 ["x", endOfInput])).toOption =
      some ⟨.readback 1, [⟨"x", 3⟩, ⟨endOfInput, 0⟩], [endOfInput], []⟩ := by
    decide +kernel
  obtain ⟨h, -⟩ := progress_of_run Sum.finish_draft Sum.construct_grammar (by decide +kernel)
    (by decide +kernel) (by decide +kernel) (by decide +kernel) hi
    (Tables.run_of_run_eq_ok (eq_ok_of_toOption hrun))
  obtain ⟨s, f, σ, hs, hσ, he, -⟩ := h 1 rfl
  exact ⟨s, f, σ, hs, hσ, he⟩

end RightPart.Grammar
