import RightPart.Proofs.Machine.Progress
import RightPart.Proofs.Tables.Determinism

namespace RightPart

namespace Grammar

/-- A readback state goes back over a label to a place from which the label was read into `r`. -/
def ReadsInto (g : Grammar) (s : ReadbackState) (l : Label) (r : Nat) : Prop :=
  l.isRead ∧ ∃ i q, ⟨i, r⟩ ∈ s.finalPlaces ∧ Place.Follows g ⟨i, r⟩ l q

/-- An entry lies directly below a right part that begins, and is called, at a place of a readback
state: some stack with that entry on top belongs to a path that has come to the place. -/
def LiesBelow (g : Grammar) (s : ReadbackState) (name : String) (r : Nat) : Prop :=
  ∃ i id σ n b c, (i, id) ∈ g.automaton.seeds ∧ g.OnPath i (⟨name, r⟩ :: σ) n ∧
    ⟨b, n⟩ ∈ s.finalPlaces ∧ g.isInitialItem b ∧ g.automaton.Holds n c ∧ g.Calls c b

variable {g : Grammar}

theorem Below.label_eq {n : ReadbackNode} {e : StackEntry} (h : g.Below n e) :
    e.label = .look e.label.name := by
  obtain ⟨s, -, -, c, b, -, -, ⟨l, q, -, -, hl⟩ | ⟨-, -, hl⟩⟩ := h
  · rw [hl]
    rfl
  · rw [hl]
    rfl

theorem exists_below_iff {n : ReadbackNode} {s : ReadbackState}
    (hs : s.finalPlaces = g.backGraph.closure n) {name : String} {r : Nat} :
    (∃ l, l.name = name ∧ g.Below n ⟨l, r⟩) ↔ g.LiesBelow s name r := by
  constructor
  · intro h
    obtain ⟨l, rfl, p, hp, hinit, c, j, ⟨hcp, hc, hcall⟩, hu, he⟩ := h
    have hsilent := silent_of_under hu
    obtain ⟨i, id, σ, hseed, hpath⟩ : ∃ i id σ, (i, id) ∈ g.automaton.seeds ∧
        g.OnPath i (⟨l.name, r⟩ :: σ) r := by
      rcases he with ⟨l', q, hf, hl', he⟩ | ⟨⟨id, hseed⟩, -, he⟩
      · obtain ⟨t, ht, -⟩ := id hf.1
        obtain ⟨i, id, σ, hseed, hpath⟩ := exists_onPath ht
        have he : l = l'.asLook := he
        have hpush : g.OnPath i (⟨l'.name, r⟩ :: σ) r := .push hpath hf.1 hl'
        rw [he]
        exact ⟨i, id, σ, hseed, hpush⟩
      · have he : l = .look endOfInput := he
        rw [he]
        exact ⟨r, id, [], hseed, .bottom⟩
    refine ⟨i, id, σ, p.readahead, p.item, c.item, hseed, ?_, hs ▸ hp, hinit, hcp ▸ hc, hcall⟩
    exact hcp ▸ hpath.trans_silent hsilent
  · intro h
    obtain ⟨i, id, σ, m, b, c, hseed, hpath, hb, -, hc, hcall⟩ := h
    exact exists_below hseed hpath (hs ▸ hb) hc hcall

theorem exists_exit_iff {n : ReadbackNode} {s : ReadbackState}
    (hs : s.finalPlaces = g.backGraph.closure n) {l : Label} {r : Nat} :
    (∃ m, (⟨l, r⟩, m) ∈ g.backGraph.exits n) ↔ g.ReadsInto s l r := by
  constructor
  · intro h
    obtain ⟨m, hm⟩ := h
    obtain ⟨q, hq⟩ := exists_mem_kernel_of_mem_exits hm
    obtain ⟨i, hi, hf, hl⟩ := (mem_kernel_of_mem_exits hm).1 hq
    exact ⟨hl, i, q, hs ▸ hi, hf⟩
  · intro h
    obtain ⟨hl, i, q, hi, hf⟩ := h
    exact exists_mem_exits (hs ▸ hi) hf hl

/-- No two transitions of a readback state have the same key, since a label that is read is none
that is looked at. -/
theorem nodup_readbackState {n : ReadbackNode} :
    ((g.readbackState g.automaton g.backGraph g.readbackNodes.indexOf n).transitions.map
      Prod.fst).Nodup := by
  have hexits : ((g.backGraph.exits n).map Prod.fst).Nodup := by
    rw [BackGraph.exits, List.map_map]
    exact OrderedMap.map_fst_entries (κ := StackEntry) _ ▸ OrderedSet.nodup _
  rw [transitions_readbackState, List.map_append, List.map_map]
  refine List.nodup_append.2 ⟨hexits, ?_, ?_⟩
  · cases g.foundAt n with
    | none => exact List.nodup_nil
    | some k => simpa [Function.comp_def] using OrderedSet.nodup _
  · intro e he e' he' heq
    obtain ⟨⟨e, m⟩, hm, rfl⟩ := List.mem_map.1 he
    obtain ⟨f, hf, rfl⟩ := List.mem_map.1 he'
    obtain ⟨k, -, hf⟩ := List.mem_flatMap.1 hf
    obtain ⟨e', hb, rfl⟩ := List.mem_map.1 hf
    obtain rfl : e = e' := heq
    obtain ⟨i, q, -, hl⟩ := exists_follows_of_mem_exits hm
    rw [(mem_lookback_starts.1 hb).label_eq] at hl
    cases hl

theorem mem_keys_readbackState {k : Nat} {n : ReadbackNode} (hg : g.Registered)
    (hn : g.readbackNodes.nodes[k]? = some n) {s : ReadbackState}
    (hs : s = g.readbackState g.automaton g.backGraph g.readbackNodes.indexOf n) {e : StackEntry} :
    e ∈ s.transitions.map Prod.fst ↔ g.ReadsInto s e.label e.readahead ∨ g.Below n e := by
  have hplaces : s.finalPlaces = g.backGraph.closure n := by rw [hs]; rfl
  have hmove : e ∈ s.transitions.map Prod.fst ↔ ∃ target, g.BackMove n e target := by
    rw [hs]
    simp only [List.mem_map, Prod.exists, exists_and_right, exists_eq_right, mem_readbackState hn]
  rw [hmove, ← exists_exit_iff hplaces]
  constructor
  · intro h
    obtain ⟨target, h⟩ := h
    cases h with
    | back he => exact .inl ⟨_, he⟩
    | found _ he => exact .inr he
  · intro h
    rcases h with ⟨m, hm⟩ | he
    · obtain ⟨j, hj⟩ := exists_back hn hm
      exact ⟨_, hj⟩
    · obtain ⟨j, hj⟩ := exists_found hg hn he
      exact ⟨_, hj⟩

theorem ReadbackState.isDeterministic_iff {s : ReadbackState}
    (h : (s.transitions.map Prod.fst).Nodup) :
    s.IsDeterministic ↔ ∀ e ∈ s.transitions.map Prod.fst, ∀ e' ∈ s.transitions.map Prod.fst,
      (e.label.name, e.readahead) = (e'.label.name, e'.readahead) → e = e' := by
  rw [← List.nodup_map_iff_inj_on h, List.map_map, List.Nodup, List.pairwise_map]
  rfl

/-- A readback state leaves a choice just where a label that it goes back over shares its name with
another one read into the same state, or its entry can also lie below the right part. -/
theorem isDeterministic_readbackState {k : Nat} {n : ReadbackNode} (hg : g.Registered)
    (hn : g.readbackNodes.nodes[k]? = some n) {s : ReadbackState}
    (hs : s = g.readbackState g.automaton g.backGraph g.readbackNodes.indexOf n) :
    s.IsDeterministic ↔ ∀ l r, g.ReadsInto s l r →
      (∀ l', g.ReadsInto s l' r → l'.name = l.name → l' = l) ∧ ¬ g.LiesBelow s l.name r := by
  have hplaces : s.finalPlaces = g.backGraph.closure n := by rw [hs]; rfl
  have hnodup : (s.transitions.map Prod.fst).Nodup := hs ▸ nodup_readbackState
  rw [ReadbackState.isDeterministic_iff hnodup]
  simp only [mem_keys_readbackState hg hn hs]
  constructor
  · intro h l r hl
    refine ⟨fun l' hl' hname ↦ ?_, fun hbelow ↦ ?_⟩
    · have heq := h ⟨l', r⟩ (.inl hl') ⟨l, r⟩ (.inl hl) (Prod.ext hname rfl)
      exact (StackEntry.mk.inj heq).1
    · obtain ⟨l', hname, hb⟩ := (exists_below_iff hplaces).2 hbelow
      have heq := h ⟨l', r⟩ (.inr hb) ⟨l, r⟩ (.inl hl) (Prod.ext hname rfl)
      obtain rfl : l' = l := (StackEntry.mk.inj heq).1
      have hlook : l' = .look l'.name := hb.label_eq
      have hread := hl.1
      rw [hlook] at hread
      cases hread
  · intro h e he e' he' heq
    obtain ⟨l, r⟩ := e
    obtain ⟨l', r'⟩ := e'
    obtain ⟨hname, rfl⟩ : l.name = l'.name ∧ r = r' := Prod.mk.inj heq
    -- two entries below have the same label, as it is only looked at; the other pairs are excluded
    rcases he with hl | hb <;> rcases he' with hl' | hb'
    · rw [(h l' r hl').1 l hl hname]
    · exact absurd ((exists_below_iff hplaces).1 ⟨l', hname.symm, hb'⟩) (h l r hl).2
    · exact absurd ((exists_below_iff hplaces).1 ⟨l, hname, hb⟩) (h l' r hl').2
    · have hlook : l = .look l.name := hb.label_eq
      have hlook' : l' = .look l'.name := hb'.label_eq
      rw [hlook, hlook', hname]

theorem conflicts_eq {t : Tables} (ht : g.construct = .ok t) :
    t.conflicts = findConflicts t.readaheads t.reduces := by
  obtain rfl := construct_eq_ok ht
  split
  · rfl
  · rfl

theorem exists_readbackNode_of_mem {t : Tables} (ht : g.construct = .ok t) {s : ReadbackState}
    (hs : s ∈ t.readbacks) : ∃ (k : Nat) (n : ReadbackNode), g.readbackNodes.nodes[k]? = some n ∧
      s = g.readbackState g.automaton g.backGraph g.readbackNodes.indexOf n := by
  obtain rfl := construct_eq_ok ht
  split at hs
  · cases hs
  · obtain ⟨k, hk⟩ := List.mem_iff_getElem?.1 hs
    rw [getElem?_readbacks, Option.map_eq_some_iff] at hk
    obtain ⟨n, hn, rfl⟩ := hk
    exact ⟨k, n, hn, rfl⟩

/-- Without conflicts readahead states and reduce states leave no choice. Readback states are not
checked. Their keys differ, but one leaves a choice just where two labels share a name, or a stack
entry can belong to the right part as well as lie below it. -/
theorem isDeterministic_of_conflicts_eq_nil {d : Draft} {g : Grammar} {t : Tables}
    (hd : d.finish = .ok g) (ht : g.construct = .ok t) (hc : t.conflicts = []) :
    (∀ s ∈ t.readaheads, s.IsDeterministic) ∧ (∀ s ∈ t.reduces, s.IsDeterministic) ∧
      ∀ s ∈ t.readbacks, (s.transitions.map Prod.fst).Nodup ∧
        (s.IsDeterministic ↔ ∀ l r, g.ReadsInto s l r →
          (∀ l', g.ReadsInto s l' r → l'.name = l.name → l' = l) ∧ ¬ g.LiesBelow s l.name r) := by
  obtain ⟨hahead, hreduce⟩ := findConflicts_eq_nil.1 ((conflicts_eq ht).symm.trans hc)
  refine ⟨hahead, hreduce, ?_⟩
  intro s hs
  obtain ⟨k, n, hn, hs⟩ := exists_readbackNode_of_mem ht hs
  have hkeys : (s.transitions.map Prod.fst).Nodup := hs ▸ nodup_readbackState
  exact ⟨hkeys, isDeterministic_readbackState (Draft.registered_of_finish hd) hn hs⟩

theorem isDeterministic_sum : (∀ s ∈ Sum.tables.readaheads, s.IsDeterministic) ∧
    (∀ s ∈ Sum.tables.reduces, s.IsDeterministic) ∧
      ∀ s ∈ Sum.tables.readbacks, (s.transitions.map Prod.fst).Nodup ∧
        (s.IsDeterministic ↔ ∀ l r, Sum.grammar.ReadsInto s l r →
          (∀ l', Sum.grammar.ReadsInto s l' r → l'.name = l.name → l' = l) ∧
            ¬ Sum.grammar.LiesBelow s l.name r) :=
  isDeterministic_of_conflicts_eq_nil Sum.finish_draft Sum.construct_grammar (by decide +kernel)

end Grammar

namespace Overlap

/-- `G → S`, `S → a A c | A d` and `A → a | a a`. After `a a` both right parts of `A` are complete.
The second `a` is gone back over, and then the first one may belong to `A` or lie below it. -/
def draft : Draft :=
  let read (name : String) : Automaton := .ofLabel (.symbol name .parserTerminal)
  let call (name : String) : Automaton := .ofLabel (.symbol name .parserNonterminal)
  let before := (read "a").concatenate ((call "A").concatenate (read "c"))
  let after := (call "A").concatenate (read "d")
  { kind := .parser
    nonterminals := .ofList ["S", "A", "G"]
    rules := .ofList [
      ("S", { body := before.union after }),
      ("A", { body := (read "a").union ((read "a").concatenate (read "a")) }),
      ("G", { body := call "S", lookahead := some (.ofList [Grammar.endOfInput]) })] }

def grammar : Grammar := draft.finish.toOption.get (by decide +kernel)

def tables : Tables := grammar.construct.toOption.get (by decide +kernel)

theorem exists_undetected_choice : ¬ ∀ (d : Draft) (g : Grammar) (t : Tables),
    (∀ r ∈ d.rules.values, r.body.Closed) →
      d.finish = .ok g → g.construct = .ok t → t.conflicts = [] →
      (∀ s ∈ t.readaheads, s.IsDeterministic) ∧ (∀ s ∈ t.readbacks, s.IsDeterministic) ∧
        ∀ s ∈ t.reduces, s.IsDeterministic := by
  intro h
  have hback : ¬ ∀ s ∈ tables.readbacks, s.IsDeterministic := by decide +kernel
  have hfinish : draft.finish = .ok grammar := eq_ok_of_toOption (Option.some_get _).symm
  have hconstruct : grammar.construct = .ok tables := eq_ok_of_toOption (Option.some_get _).symm
  exact hback (h draft grammar tables (by decide +kernel) hfinish hconstruct
    (by decide +kernel)).2.1

end Overlap

end RightPart
