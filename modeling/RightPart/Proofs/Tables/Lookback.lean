import RightPart.Proofs.Tables.Retrace

namespace RightPart

/-- A path of the readahead automaton, told by the entries that its steps would push. -/
inductive ReadaheadAutomaton.Walks (a : ReadaheadAutomaton) (i : Nat) : List StackEntry → Nat → Prop
  | start : Walks a i [] i
  | step {w : List StackEntry} {l : Label} {n m : Nat} :
      Walks a i w n → a.Edge n l m → Walks a i (w ++ [⟨l, m⟩]) m

namespace StackEntry

def frame (e : StackEntry) : Frame := ⟨e.label.name, e.readahead⟩

/-- The stack after a path that begins in a state, with the top first. -/
def frames (i : Nat) (w : List StackEntry) : List Frame :=
  (keys w).map frame ++ [⟨Grammar.endOfInput, i⟩]

/-- What is looked for on top of the stack after a path that begins in a state. -/
def topmost (i : Nat) (w : List StackEntry) : StackEntry :=
  match keys w with
  | e :: _ => ⟨e.label.asLook, e.readahead⟩
  | [] => ⟨.look Grammar.endOfInput, i⟩

variable {i : Nat} {w : List StackEntry} {e : StackEntry}

theorem frames_append_of_isRead (h : e.label.isRead) :
    frames i (w ++ [e]) = e.frame :: frames i w := by
  rw [frames, keys_append, keys_cons_of_isRead h]
  rfl

theorem frames_append_of_silent (h : e.label.isRead = false) :
    frames i (w ++ [e]) = frames i w := by
  rw [frames, keys_append, keys_cons_of_silent h]
  rfl

theorem exists_frames_eq_cons :
    ∃ σ, frames i w = ⟨(topmost i w).label.name, (topmost i w).readahead⟩ :: σ := by
  unfold frames topmost
  cases keys w with
  | nil => exact ⟨[], rfl⟩
  | cons e v => exact ⟨_, rfl⟩

theorem topmost_label : (topmost i w).label = .look (topmost i w).label.name := by
  unfold topmost
  cases keys w with
  | nil => rfl
  | cons e v => rfl

end StackEntry

namespace Grammar

open StackEntry

variable {g : Grammar} {i n : Nat} {σ : List Frame}

/-- The stacks on a path are those that the paths of the automaton build. -/
theorem onPath_iff : g.OnPath i σ n ↔ ∃ w, g.automaton.Walks i w n ∧ σ = frames i w := by
  constructor
  · intro h
    induction h with
    | bottom => exact ⟨[], .start, rfl⟩
    | @silent σ n m l _ he hl ih =>
      obtain ⟨w, hw, rfl⟩ := ih
      exact ⟨_, .step hw he, (frames_append_of_silent (e := ⟨l, m⟩) hl).symm⟩
    | @push σ n m l _ he hl ih =>
      obtain ⟨w, hw, rfl⟩ := ih
      exact ⟨_, .step hw he, (frames_append_of_isRead (e := ⟨l, m⟩) hl).symm⟩
  · intro h
    obtain ⟨w, hw, rfl⟩ := h
    induction hw with
    | start => exact .bottom
    | @step w l n m _ he ih =>
      by_cases hl : l.isRead = true
      · rw [frames_append_of_isRead (e := ⟨l, m⟩) hl]
        exact .push ih he hl
      · have hl : l.isRead = false := by simpa using hl
        rw [frames_append_of_silent (e := ⟨l, m⟩) hl]
        exact .silent ih he hl

theorem below_iff {m : ReadbackNode} {s : ReadbackState}
    (hs : s.finalPlaces = g.backGraph.closure m) {k : StackEntry} : g.Below m k ↔
      ∃ b r, ⟨b, r⟩ ∈ s.finalPlaces ∧ g.isInitialItem b ∧ ∃ c, g.automaton.Holds r c ∧ g.Calls c b ∧
        ∃ i id w, (i, id) ∈ g.automaton.seeds ∧ g.automaton.Walks i w r ∧ k = topmost i w := by
  obtain ⟨l, n⟩ := k
  constructor
  · intro h
    have hlabel : l = .look l.name := h.label_eq
    obtain ⟨i, id, σ, r, b, c, hseed, hpath, hb, hinit, hc, hcall⟩ :=
      (exists_below_iff hs).1 ⟨l, rfl, h⟩
    obtain ⟨w, hw, hσ⟩ := onPath_iff.1 hpath
    obtain ⟨σ', hσ'⟩ := exists_frames_eq_cons (i := i) (w := w)
    obtain ⟨hname, hstate⟩ := Frame.mk.inj (List.cons.inj (hσ.trans hσ')).1
    refine ⟨b, r, hb, hinit, c, hc, hcall, i, id, w, hseed, hw, ?_⟩
    rw [StackEntry.mk.injEq, topmost_label, ← hname]
    exact ⟨hlabel, hstate⟩
  · intro h
    obtain ⟨b, r, hb, hinit, c, hc, hcall, i, id, w, hseed, hw, hk⟩ := h
    obtain ⟨σ, hσ⟩ := exists_frames_eq_cons (i := i) (w := w)
    have hpath := onPath_iff.2 ⟨w, hw, hσ.symm⟩
    obtain ⟨l', hname, hl'⟩ :=
      (exists_below_iff hs).2 ⟨i, id, σ, r, b, c, hseed, hpath, hb, hinit, hc, hcall⟩
    have hlabel : l' = .look l'.name := hl'.label_eq
    rw [hlabel, hname, ← topmost_label] at hl'
    rwa [hk]

theorem isInitialItem_iff {b : Item} : g.isInitialItem b ↔
    ∃ p, g.productions.get? b.production = some p ∧ p.body.isInitialAt b.state := by
  rw [isInitialItem]
  cases g.productions.get? b.production with
  | none => simp
  | some p => simp

theorem backMove_reduce_iff {m : ReadbackNode} {j j' : Nat} {k : StackEntry}
    (hj : g.reduceFor? m.left = some j) : g.BackMove m k (.reduce j') ↔ j' = j ∧ g.Below m k := by
  constructor
  · intro h
    cases h with
    | found hj' hk => exact ⟨Option.some.inj (hj'.symm.trans hj), hk⟩
  · intro h
    obtain ⟨rfl, hk⟩ := h
    exact .found hj hk

variable {t : Tables}

theorem exists_mem_finalItems (ht : t = g.parserTables g.automaton g.itemGraph) {c : Item} :
    (∃ v, t.readaheads[n]? = some v ∧ c ∈ v.finalItems) ↔ g.automaton.Holds n c := by
  rw [ht, getElem?_readaheads]
  simp only [Option.map_eq_some_iff]
  constructor
  · intro h
    obtain ⟨_, ⟨s, hs, rfl⟩, hc⟩ := h
    exact ⟨s, hs, hc⟩
  · intro h
    obtain ⟨s, hs, hc⟩ := h
    exact ⟨_, ⟨s, hs, rfl⟩, hc⟩

theorem mem_initialStates (ht : t = g.parserTables g.automaton g.itemGraph) :
    i ∈ t.initialStates ↔ ∃ id, (i, id) ∈ g.automaton.seeds := by
  rw [ht]
  change i ∈ g.automaton.seeds.map Prod.fst ↔ _
  simp

/-- The keys of the transitions of a readback state to the reduction: what the paths to the callers
of its right part leave on top of the stack. -/
theorem mem_reduce_iff {d : Draft} (hd : d.finish = .ok g) (ht : g.construct = .ok t)
    (hk : g.kind = .parser) {q : Nat} {s : ReadbackState} (hs : t.readbacks[q]? = some s) :
    ∃ j u, t.reduces[j]? = some u ∧ u.nonterminal = s.left ∧
      (∀ k j', (k, .reduce j') ∈ s.transitions → j' = j) ∧
      ∀ k, (k, .reduce j) ∈ s.transitions ↔ ∃ b r, ⟨b, r⟩ ∈ s.finalPlaces ∧
        (∃ p, g.productions.get? b.production = some p ∧ p.left = s.left ∧
          p.body.isInitialAt b.state) ∧
        (∃ v, t.readaheads[r]? = some v ∧ ∃ c ∈ v.finalItems, ∃ l, l.name = s.left ∧
          b ∈ g.expansions.image c l) ∧
        ∃ i w, i ∈ t.initialStates ∧ g.automaton.Walks i w r ∧ k = topmost i w := by
  have hg := Draft.registered_of_finish hd
  have ht := eq_parserTables ht hk
  obtain ⟨m, hm, hs⟩ := (getElem?_readbacks_eq_some ht).1 hs
  obtain ⟨id, a, hr⟩ := exists_reads hg hm
  have hplaces : s.finalPlaces = g.backGraph.closure m := by rw [← hs]; rfl
  have hleft : s.left = a.left := by rw [← hr.left, ← hs]; rfl
  obtain ⟨j, hj⟩ := exists_reduceFor? hr.production hr.not_goal
  have hmove : ∀ k j', (k, .reduce j') ∈ s.transitions ↔ j' = j ∧ g.Below m k := by
    intro k j'
    rw [← hs, mem_readbackState hm, backMove_reduce_iff (hr.left ▸ hj)]
  have hreduce : t.reduces[j]? =
      some (g.automaton.reduceState g g.automaton.stackable g.automaton.silentBack a.left) := by
    rw [ht, getElem?_reduces, reduced_of_reduceFor? hj, Option.map_some]
  refine ⟨j, _, hreduce, hleft.symm, fun k j' h ↦ ((hmove k j').1 h).1, fun k ↦ ?_⟩
  rw [hmove, below_iff hplaces, hleft]
  have hproduction : ∀ b r, ⟨b, r⟩ ∈ s.finalPlaces → g.productions.get? b.production = some a := by
    intro b r hb
    have hid : b.production = id := reads_closure hr (hplaces ▸ hb)
    rw [hid, hr.production]
  constructor
  · intro h
    obtain ⟨-, b, r, hb, hinit, c, hc, ⟨l, hl⟩, i, id', w, hseed, hw, rfl⟩ := h
    obtain ⟨p, hp, hstate⟩ := isInitialItem_iff.1 hinit
    obtain rfl := Option.some.inj (hp.symm.trans (hproduction b r hb))
    obtain ⟨v, hv, hcv⟩ := (exists_mem_finalItems ht).2 hc
    obtain ⟨-, -, p', hp', -⟩ := mem_expansions.1 hl
    obtain ⟨hp', hname⟩ := productionFor?_eq_some hp'
    obtain rfl := Option.some.inj (hp'.symm.trans hp)
    exact ⟨b, r, hb, ⟨_, hp, rfl, hstate⟩, ⟨v, hv, c, hcv, l, hname.symm, hl⟩, i, w,
      (mem_initialStates ht).2 ⟨id', hseed⟩, hw, rfl⟩
  · intro h
    obtain ⟨b, r, hb, ⟨p, hp, -, hinit⟩, ⟨v, hv, c, hcv, l, -, hl⟩, i, w, hi, hw, rfl⟩ := h
    obtain ⟨id', hseed⟩ := (mem_initialStates ht).1 hi
    exact ⟨rfl, b, r, hb, isInitialItem_iff.2 ⟨p, hp, hinit⟩, c,
      (exists_mem_finalItems ht).1 ⟨v, hv, hcv⟩, ⟨l, hl⟩, i, id', w, hseed, hw, rfl⟩

theorem mem_reduce_sum : ∃ s j, Sum.tables.readbacks[4]? = some s ∧ s.left = "T" ∧
    (⟨.look "+", 4⟩, .reduce j) ∈ s.transitions := by
  have hback : Sum.tables.readbacks[4]?.any fun s ↦ s.left = "T" &&
      ⟨⟨1, 0⟩, 4⟩ ∈ s.finalPlaces := by
    decide +kernel
  have hahead : Sum.tables.readaheads[4]?.any fun v ↦ ⟨0, 2⟩ ∈ v.finalItems := by decide +kernel
  have hbody : (Sum.grammar.productions.get? 1).any fun p ↦ p.left = "T" &&
      p.body.isInitialAt 0 := by
    decide +kernel
  have hcall : (⟨1, 0⟩ : Item) ∈ Sum.grammar.expansions.image ⟨0, 2⟩
      (.symbol "T" .parserNonterminal) := by
    decide +kernel
  have hedge : ∀ {n m l}, (n, l, m) ∈ Sum.grammar.automaton.edges →
      Sum.grammar.automaton.Edge n l m :=
    ReadaheadAutomaton.mem_edges.1
  have hwalk : Sum.grammar.automaton.Walks 0
      [⟨.symbol "E" .parserNonterminal, 1⟩, ⟨.symbol "+" .parserTerminal, 4⟩] 4 :=
    .step (.step .start (hedge (by decide +kernel))) (hedge (by decide +kernel))
  obtain ⟨s, hs, h⟩ := (Option.any_eq_true _ _).1 hback
  obtain ⟨v, hv, hc⟩ := (Option.any_eq_true _ _).1 hahead
  obtain ⟨p, hp, hp'⟩ := (Option.any_eq_true _ _).1 hbody
  obtain ⟨hleft, hplace⟩ := Bool.and_eq_true_iff.1 h
  obtain ⟨hname, hinit⟩ := Bool.and_eq_true_iff.1 hp'
  have hleft : s.left = "T" := of_decide_eq_true hleft
  have hcalled := of_decide_eq_true hc
  obtain ⟨j, -, -, -, -, hkeys⟩ :=
    mem_reduce_iff Sum.finish_draft Sum.construct_grammar (by decide +kernel) hs
  refine ⟨s, j, hs, hleft, (hkeys _).2 ⟨⟨1, 0⟩, 4, of_decide_eq_true hplace, ⟨p, hp, ?_, hinit⟩,
    ⟨v, hv, ⟨0, 2⟩, hcalled, .symbol "T" .parserNonterminal, hleft.symm, hcall⟩, 0, _,
    by decide +kernel, hwalk, rfl⟩⟩
  rw [hleft]
  exact of_decide_eq_true hname

end Grammar

end RightPart
