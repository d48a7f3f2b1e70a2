import RightPart.Proofs.Machine.Determinism
import RightPart.Proofs.Tables.Scanner

namespace RightPart

def Automaton.Spells (m : Automaton) (u : List String) : Prop :=
  ∃ w ∈ m.language, w.map Label.name = u

def Automaton.Begins (m : Automaton) (u : List String) : Prop :=
  ∃ w ∈ m.language, u <+: w.map Label.name

/-- The machine takes in symbols one after another, and makes no other move. -/
inductive Tables.Consumes (t : Tables) (c : Configuration) : List String → Configuration → Prop
  | nil : Consumes t c [] c
  | read {u : List String} {y : String} {c' c'' : Configuration} :
      Consumes t c u c' → t.Step c' c'' → c'.input = y :: c''.input → Consumes t c (u ++ [y]) c''

namespace Grammar

variable {g : Grammar} {t : Tables} {e : ProductionId × Production} {n m k k' : Nat}
  {w w' : List Label} {l l' : Label} {u x : List String} {y : String} {c : Configuration}

/-- A scanner whose tables leave no choice, and the seed of one of its goals. -/
structure Munches (g : Grammar) (t : Tables) (e : ProductionId × Production) (n : Nat) : Prop where
  exists_finish : ∃ d : Draft, d.finish = .ok g
  lexical : g.IsLexical
  tidy : e.2.body.Tidy
  tables_eq : t = g.scannerTables g.automaton
  deterministic : t.IsDeterministic
  goal : e ∈ g.goals
  seed : (n, e.1) ∈ g.automaton.seeds

namespace Munches

variable (h : g.Munches t e n)

include h

theorem exists_readahead (hw : g.automaton.Leads n w m) : ∃ s, t.readaheads[m]? = some s ∧
    ∀ l target, (l, target) ∈ s.transitions ↔ g.TokenMove e n w m l target := by
  obtain ⟨d, hd⟩ := h.exists_finish
  obtain ⟨s, hs⟩ := exists_node_of_leads h.seed hw
  refine ⟨g.scannerState s m, ?_, fun l target ↦ h.lexical.mem_scannerState hd h.goal h.seed hw hs⟩
  rw [h.tables_eq, getElem?_scannerReadaheads, hs, Option.map_some]

theorem exists_leads_iff : (∃ m, g.automaton.Leads n w m) ↔ ∃ v, w ++ v ∈ e.2.body.language := by
  obtain ⟨d, hd⟩ := h.exists_finish
  rw [h.lexical.exists_leads_iff hd h.goal h.seed, Automaton.exists_reaches_iff h.tidy]

theorem label_unique (hw : g.automaton.Leads n w m) (hl : g.automaton.Edge m l k)
    (hl' : g.automaton.Edge m l' k') (hname : l.name = l'.name) : l = l' := by
  obtain ⟨s, hs, hm⟩ := h.exists_readahead hw
  have hdet : (s.transitions.map (·.1.name)).Nodup :=
    List.pairwise_map.2 (h.deterministic.ahead s (List.mem_of_getElem? hs))
  have heq := List.inj_on_of_nodup_map hdet ((hm _ _).2 (.read hl)) ((hm _ _).2 (.read hl')) hname
  exact (Prod.mk.inj heq).1

theorem word_unique (hw : g.automaton.Leads n w m) (hw' : g.automaton.Leads n w' k)
    (hname : w.map Label.name = w'.map Label.name) : w = w' := by
  induction hw generalizing w' k with
  | start => exact (List.map_eq_nil_iff.1 hname.symm).symm
  | @step w l m m' hw hl ih =>
    cases hw' with
    | start => exact List.map_eq_nil_iff.1 hname
    | @step w' l' k k' hw' hl' =>
      rw [List.map_append, List.map_append] at hname
      obtain ⟨hname, hlast⟩ := List.append_inj' hname rfl
      obtain rfl := ih hw' hname
      obtain rfl := leads_unique hw hw'
      rw [h.label_unique hw hl hl' (List.singleton_inj.1 hlast)]

/-- The symbols along the ways from the seed are the first symbols of words. -/
theorem exists_leads_iff_begins :
    (∃ w m, g.automaton.Leads n w m ∧ w.map Label.name = u) ↔ e.2.body.Begins u := by
  constructor
  · intro hu
    obtain ⟨w, m, hw, rfl⟩ := hu
    obtain ⟨v, hv⟩ := h.exists_leads_iff.1 ⟨m, hw⟩
    exact ⟨w ++ v, hv, by rw [List.map_append]; exact List.prefix_append _ _⟩
  · intro hu
    obtain ⟨w, hw, hu⟩ := hu
    have htake : w.take u.length ++ w.drop u.length ∈ e.2.body.language := by
      rwa [List.take_append_drop]
    obtain ⟨m, hm⟩ := h.exists_leads_iff.2 ⟨_, htake⟩
    exact ⟨_, m, hm, by rw [List.map_take]; exact (List.prefix_iff_eq_take.1 hu).symm⟩

theorem spells_iff (hw : g.automaton.Leads n w m) :
    e.2.body.Spells (w.map Label.name) ↔ w ∈ e.2.body.language := by
  constructor
  · intro hs
    obtain ⟨w', hw', hname⟩ := hs
    obtain ⟨m', hm'⟩ := h.exists_leads_iff.2 ⟨[], (List.append_nil w').symm ▸ hw'⟩
    rwa [h.word_unique hw hm' hname.symm]
  · intro hw
    exact ⟨w, hw, rfl⟩

theorem begins_append_iff (hw : g.automaton.Leads n w m) :
    e.2.body.Begins (w.map Label.name ++ [y]) ↔ ∃ l k, g.automaton.Edge m l k ∧ l.name = y := by
  rw [← h.exists_leads_iff_begins]
  constructor
  · intro hy
    obtain ⟨w', m', hw', hname⟩ := hy
    cases hw' with
    | start => simp at hname
    | @step w' l k k' hw' hl =>
      rw [List.map_append] at hname
      obtain ⟨hname, hlast⟩ := List.append_inj' hname rfl
      obtain rfl := h.word_unique hw' hw hname
      obtain rfl := leads_unique hw hw'
      exact ⟨l, m', hl, List.singleton_inj.1 hlast⟩
  · intro hy
    obtain ⟨l, k, hl, rfl⟩ := hy
    exact ⟨w ++ [l], k, .step hw hl, by rw [List.map_append]; rfl⟩

theorem ne_seed (hw : g.automaton.Leads n w m) (hne : w ≠ []) : m ≠ n := by
  intro hmn
  subst hmn
  cases hw with
  | start => exact hne rfl
  | step _ hl =>
    obtain ⟨i, j, hi, hij⟩ := exists_mem_steps_of_edge hl
    obtain ⟨p, hp, henters⟩ := enters_seed h.seed
    obtain ⟨hid, hinit⟩ := (henters j).1 ((enters_of_edge hl).2 ⟨i, hi, hij⟩)
    obtain ⟨hij, q, hq, ht⟩ := mem_steps.1 hij
    have hp' := (mem_goals.1 hp).1
    rw [← hid, hij, hq] at hp'
    obtain rfl := Option.some.inj hp'
    have hq' := (mem_goals.1 h.goal).1
    rw [← hid, hij, hq] at hq'
    obtain rfl := Option.some.inj hq'
    rw [h.tidy.unentered _ _ ht] at hinit
    cases hinit

theorem exists_consumes (hw : g.automaton.Leads n w m) : ∃ σ,
    t.Consumes (.start n (w.map Label.name ++ x)) (w.map Label.name) ⟨.readahead m, σ, x, []⟩ := by
  induction hw generalizing x with
  | start => exact ⟨_, .nil⟩
  | @step w l m k hw hl ih =>
    obtain ⟨σ, hσ⟩ := ih (x := l.name :: x)
    obtain ⟨s, hs, hm⟩ := h.exists_readahead hw
    have hread := isRead_of_isReadTerminal (h.lexical.isReadTerminal_of_edge hl)
    refine ⟨⟨l.name, k⟩ :: σ, ?_⟩
    rw [List.map_append, List.append_assoc]
    exact .read hσ (.read hs ((hm l _).2 (.read hl)) hread) rfl

theorem exists_leads_of_consumes {z : List String} (hc : t.Consumes (.start n z) u c) :
    ∃ w m σ x, g.automaton.Leads n w m ∧ w.map Label.name = u ∧ z = u ++ x ∧
      c = ⟨.readahead m, σ, x, []⟩ := by
  induction hc with
  | nil => exact ⟨[], n, _, z, .start, rfl, rfl, rfl⟩
  | @read u y c' c'' _ hstep hinput ih =>
    obtain ⟨w, m, σ, x, hw, rfl, rfl, rfl⟩ := ih
    obtain ⟨s', hs', hm⟩ := h.exists_readahead hw
    cases hstep with
    | @read i j s l σ x f hs hl hread =>
      obtain rfl := Option.some.inj (hs.symm.trans hs')
      cases (hm _ _).1 hl with
      | read hl =>
        obtain ⟨rfl, -⟩ := List.cons.inj hinput
        exact ⟨w ++ [l], j, _, x, .step hw hl, by rw [List.map_append]; rfl, by simp, rfl⟩
      | leave => cases hread
    | look => simp at hinput
    | action => simp at hinput
    | complete => simp at hinput
    | accept => simp at hinput

theorem exists_consumes_iff : (∃ c, t.Consumes (.start n (u ++ x)) u c) ↔ e.2.body.Begins u := by
  rw [← h.exists_leads_iff_begins]
  constructor
  · intro hc
    obtain ⟨c, hc⟩ := hc
    obtain ⟨w, m, -, -, hw, hname, -⟩ := h.exists_leads_of_consumes hc
    exact ⟨w, m, hw, hname⟩
  · intro hw
    obtain ⟨w, m, hw, rfl⟩ := hw
    obtain ⟨σ, hσ⟩ := h.exists_consumes hw
    exact ⟨_, hσ⟩

theorem moves_eq_read {σ : List Frame} (hw : g.automaton.Leads n w m)
    (hy : e.2.body.Begins (w.map Label.name ++ [y])) :
    ∃ k, t.moves ⟨.readahead m, σ, y :: x, []⟩ = [.ok ⟨.readahead k, ⟨y, k⟩ :: σ, x, []⟩] := by
  obtain ⟨l, k, hl, rfl⟩ := (h.begins_append_iff hw).1 hy
  obtain ⟨s, hs, hm⟩ := h.exists_readahead hw
  have hread := isRead_of_isReadTerminal (h.lexical.isReadTerminal_of_edge hl)
  exact ⟨k, Tables.moves_eq_singleton h.deterministic (.read hs ((hm l _).2 (.read hl)) hread)⟩

theorem moves_eq_leave {σ : List Frame} (hw : g.automaton.Leads n w m) (hne : w ≠ [])
    (hy : ¬ e.2.body.Begins (w.map Label.name ++ [y])) (hs : e.2.body.Spells (w.map Label.name))
    (hla : y ∈ e.2.lookahead.getD ∅) :
    t.moves ⟨.readahead m, σ, y :: x, []⟩ = [.ok ⟨.readahead n, σ, y :: x, []⟩] := by
  obtain ⟨s, hs', hm⟩ := h.exists_readahead hw
  have hleave : g.TokenMove e n w m (.look y) (.readahead n) :=
    .leave ((h.spells_iff hw).1 hs) (h.ne_seed hw hne) hla fun l k hl hn ↦
      hy ((h.begins_append_iff hw).2 ⟨l, k, hl, hn⟩)
  have hstep := Tables.Step.look (σ := σ) (x := x) (f := []) hs' ((hm _ _).2 hleave) rfl
  exact Tables.moves_eq_singleton h.deterministic hstep

theorem moves_eq_error {σ : List Frame} (hw : g.automaton.Leads n w m)
    (hy : ¬ e.2.body.Begins (w.map Label.name ++ [y]))
    (hs : ¬ (e.2.body.Spells (w.map Label.name) ∧ y ∈ e.2.lookahead.getD ∅)) :
    t.moves ⟨.readahead m, σ, y :: x, []⟩ = [.error (.noMove m y)] := by
  obtain ⟨s, hs', hm⟩ := h.exists_readahead hw
  have hfilter : s.transitions.filter (·.1.name = y) = [] := by
    refine List.filter_eq_nil_iff.2 fun x hx hname ↦ ?_
    obtain ⟨l, target⟩ := x
    obtain rfl := of_decide_eq_true hname
    cases (hm _ _).1 hx with
    | read hl => exact hy ((h.begins_append_iff hw).2 ⟨l, _, hl, rfl⟩)
    | leave hlang _ hla _ => exact hs ⟨(h.spells_iff hw).2 hlang, hla⟩
  simp only [Tables.moves, hs', hfilter]
  rfl

end Munches

theorem munches_of_define {kind : Kind} {defs : List Definition}
    (hdef : Grammar.define kind defs = .ok g) (hkind : kind.isScanner) (hlex : g.IsLexical)
    (ht : g.construct = .ok t) (hconflicts : t.conflicts = [])
    (he : (e, n) ∈ g.goals.zip t.initialStates) : g.Munches t e n := by
  obtain ⟨d, hd, hfinish⟩ := Draft.exists_after hdef
  obtain ⟨hscope, htidy⟩ := Draft.describes_after List.prefix_rfl hd
  have hk : d.kind = kind := hscope.kind_eq.symm.trans (Scope.kind_foldl_define _ _)
  have hparser : d.kind ≠ .parser := by
    intro hp
    rw [← hk, hp] at hkind
    cases hkind
  have hscanner : g.kind.isScanner := by
    rwa [Draft.kind_eq_of_finish hfinish hparser, hk]
  obtain rfl := (construct_eq_ok ht).trans (if_pos hscanner)
  obtain ⟨hgoal, hseed⟩ := seed_of_mem_zip he
  have hbody := Draft.tidy_body hfinish htidy hparser (mem_goals.1 hgoal).1
  have hdet : (g.scannerTables g.automaton).IsDeterministic :=
    ⟨(findConflicts_eq_nil.1 hconflicts).1, nofun, nofun⟩
  exact ⟨⟨d, hfinish⟩, hlex, hbody, rfl, hdet, hgoal, hseed⟩

/-- The longest token wins. From the seed of a goal a scanner consumes just the beginnings of its
words. After some symbols it reads the next one if a word can go on with it; otherwise it goes back
to the seed if the symbols make up a word and the next one may follow; otherwise it is stuck. -/
theorem maximal_munch {kind : Kind} {defs : List Definition}
    (hdef : Grammar.define kind defs = .ok g) (hkind : kind.isScanner) (hlex : g.IsLexical)
    (ht : g.construct = .ok t) (hconflicts : t.conflicts = [])
    (he : (e, n) ∈ g.goals.zip t.initialStates) (hu : u ≠ []) :
    (∀ x, (∃ c, t.Consumes (.start n (u ++ x)) u c) ↔ e.2.body.Begins u) ∧
    ∀ y x c, t.Consumes (.start n (u ++ y :: x)) u c →
      (e.2.body.Begins (u ++ [y]) → ∃ m,
        t.moves c =
          [.ok { c with control := .readahead m, stack := ⟨y, m⟩ :: c.stack, input := x }]) ∧
      (¬ e.2.body.Begins (u ++ [y]) → e.2.body.Spells u → y ∈ e.2.lookahead.getD ∅ →
        t.moves c = [.ok { c with control := .readahead n }]) ∧
      (¬ e.2.body.Begins (u ++ [y]) → ¬ (e.2.body.Spells u ∧ y ∈ e.2.lookahead.getD ∅) → ∃ m,
        c.control = .readahead m ∧ t.moves c = [.error (.noMove m y)]) := by
  have h := munches_of_define hdef hkind hlex ht hconflicts he
  refine ⟨fun x ↦ h.exists_consumes_iff, fun y x c hc ↦ ?_⟩
  obtain ⟨w, m, σ, x', hw, rfl, hx, rfl⟩ := h.exists_leads_of_consumes hc
  obtain rfl := List.append_cancel_left hx
  have hne : w ≠ [] := mt (fun hw ↦ by rw [hw]; rfl) hu
  exact ⟨h.moves_eq_read hw, h.moves_eq_leave hw hne,
    fun hy hs ↦ ⟨m, rfl, h.moves_eq_error hw hy hs⟩⟩

end Grammar

namespace Comparison

def definitions : List Definition :=
  [.goal "comparison" (.alternation [.literal "<", .literal "<="]) ["=", "x"]]

def grammar : Grammar := (Grammar.define .scanner definitions).toOption.get (by decide +kernel)

def tables : Tables := grammar.construct.toOption.get (by decide +kernel)

def label (name : String) : Label := .symbol name (.defaultFor .scanner false)

theorem define_definitions : Grammar.define .scanner definitions = .ok grammar :=
  eq_ok_of_toOption (Option.some_get _).symm

theorem construct_grammar : grammar.construct = .ok tables :=
  eq_ok_of_toOption (Option.some_get _).symm

theorem exists_goal : ∃ e, (e, 0) ∈ grammar.goals.zip tables.initialStates ∧
    e.2.body.transitions = [(0, ⟨label "<", 1⟩), (2, ⟨label "<", 3⟩), (3, ⟨label "=", 4⟩)] ∧
    e.2.body.initials = [0, 2] ∧ e.2.body.finals = [1, 4] ∧
    (e.2.lookahead.getD ∅).toList = ["=", "x"] := by
  have h : ([(0, ⟨label "<", 1⟩), (2, ⟨label "<", 3⟩), (3, ⟨label "=", 4⟩)], [0, 2], [1, 4],
      ["=", "x"], 0) ∈ (grammar.goals.zip tables.initialStates).map fun x ↦
        (x.1.2.body.transitions, x.1.2.body.initials,
        x.1.2.body.finals, (x.1.2.lookahead.getD ∅).toList, x.2) := by
    decide +kernel
  obtain ⟨⟨e, n⟩, he, h⟩ := List.mem_map.1 h
  simp only [Prod.mk.injEq] at h
  obtain ⟨ht, hi, hf, hla, rfl⟩ := h
  exact ⟨e, he, ht, hi, hf, hla⟩

/-- After `<` the machine reads `=`, although `=` may follow the token; before `x` the
token ends. -/
theorem munches_comparison : ∃ e c, (e, 0) ∈ grammar.goals.zip tables.initialStates ∧
    tables.Consumes (.start 0 ["<", "=", "x"]) ["<"] c ∧ "=" ∈ e.2.lookahead.getD ∅ ∧
    e.2.body.Spells ["<"] ∧ (∃ m, tables.moves c =
      [.ok { c with control := .readahead m, stack := ⟨"=", m⟩ :: c.stack, input := ["x"] }]) ∧
    ∃ c', tables.Consumes (.start 0 ["<", "x"]) ["<"] c' ∧
      tables.moves c' = [.ok { c' with control := .readahead 0 }] := by
  obtain ⟨e, he, ht, hi, hf, hla⟩ := exists_goal
  have hless : [label "<"] ∈ e.2.body.language := by
    refine ⟨0, by simp [hi], 1, ?_, Automaton.mem_finals.1 (by simp [hf])⟩
    exact .one (t := ⟨label "<", 1⟩) (Automaton.mem_transitions.1 (by simp [ht]))
  have hequal : [label "<", label "="] ∈ e.2.body.language := by
    refine ⟨2, by simp [hi], 4, ?_, Automaton.mem_finals.1 (by simp [hf])⟩
    exact .cons (t := ⟨label "<", 3⟩) (Automaton.mem_transitions.1 (by simp [ht]))
      (.one (t := ⟨label "=", 4⟩) (Automaton.mem_transitions.1 (by simp [ht])))
  have hx : ¬ e.2.body.Begins ["<", "x"] := by
    intro hx
    obtain ⟨w, ⟨i, -, j, hw, -⟩, hle⟩ := hx
    obtain ⟨l, hl, hname⟩ := List.mem_map.1 (hle.subset (show "x" ∈ ["<", "x"] by simp))
    obtain ⟨y, hy, rfl⟩ := hw.label hl
    rw [ht] at hy
    have hnames :
        ∀ y ∈ [(0, (⟨label "<", 1⟩ : Transition)), (2, ⟨label "<", 3⟩), (3, ⟨label "=", 4⟩)],
        y.2.label.name ≠ "x" := by
      decide
    exact hnames y hy hname
  obtain ⟨hconsumes, hmoves⟩ := Grammar.maximal_munch define_definitions rfl (by decide +kernel)
    construct_grammar (by decide +kernel) he (show ["<"] ≠ [] by simp)
  obtain ⟨c, hc⟩ := (hconsumes ["=", "x"]).2 ⟨_, hless, List.prefix_rfl⟩
  obtain ⟨c', hc'⟩ := (hconsumes ["x"]).2 ⟨_, hless, List.prefix_rfl⟩
  have hlookahead : ∀ y ∈ ["=", "x"], y ∈ e.2.lookahead.getD ∅ := by
    intro y hy
    rwa [OrderedSet.mem_def, hla]
  have hspells : e.2.body.Spells ["<"] := ⟨_, hless, rfl⟩
  have hreads := (hmoves _ _ _ hc).1 ⟨_, hequal, List.prefix_rfl⟩
  have hleaves := (hmoves _ _ _ hc').2.1 hx hspells (hlookahead _ (by simp))
  exact ⟨e, c, he, hc, hlookahead _ (by simp), hspells, hreads, c', hc', hleaves⟩

end Comparison

end RightPart
