import RightPart.Proofs.Tables.Choice

namespace RightPart

/-- A path of the readahead automaton together with a chain of items that takes the same labels,
each step with the stack entry that it would push. -/
inductive Place.Tracks (g : Grammar) : Place → List StackEntry → Place → Prop
  | nil (q : Place) : Tracks g q [] q
  | cons {q p e : Place} {l : Label} {w : List StackEntry} :
      g.automaton.Edge q.readahead l p.readahead → p.item ∈ g.steps.image q.item l →
      Tracks g p w e →
      Tracks g q (⟨l, p.readahead⟩ :: w) e

def StackEntry.keys (w : List StackEntry) : List StackEntry := (w.filter (·.label.isRead)).reverse

/-- Feeding entries to a state: each is the key of a transition of the readback state
reached so far. -/
inductive Tables.Feeds (t : Tables) : Target → List StackEntry → Target → Prop
  | nil (x : Target) : Feeds t x [] x
  | cons {k : Nat} {s : ReadbackState} {e : StackEntry} {x y : Target} {ks : List StackEntry} :
      t.readbacks[k]? = some s → (e, x) ∈ s.transitions → Feeds t x ks y →
      Feeds t (.readback k) (e :: ks) y

namespace StackEntry

variable {e : StackEntry} {v w : List StackEntry}

@[simp] theorem keys_append : keys (v ++ w) = keys w ++ keys v := by
  simp [keys]

theorem keys_cons_of_isRead (h : e.label.isRead) : keys (e :: w) = keys w ++ [e] := by
  simp [keys, h]

theorem keys_cons_of_silent (h : e.label.isRead = false) : keys (e :: w) = keys w := by
  simp [keys, h]

end StackEntry

namespace Place

variable {g : Grammar} {p q e : Place} {v w : List StackEntry}

theorem Tracks.append (h : q.Tracks g v p) (h' : p.Tracks g w e) : q.Tracks g (v ++ w) e := by
  induction h with
  | nil => exact h'
  | cons hl hi _ ih => exact .cons hl hi (ih h')

theorem exists_tracks_of_trails (h : Relation.ReflTransGen (Trails g) p q) :
    ∃ w, q.Tracks g w p ∧ StackEntry.keys w = [] := by
  induction h with
  | refl => exact ⟨[], .nil p, rfl⟩
  | @tail b c _ h ih =>
    obtain ⟨w, hw, hk⟩ := ih
    obtain ⟨l, h, hl⟩ := h
    refine ⟨⟨l, b.readahead⟩ :: w, .cons h.1 h.2.2 hw, ?_⟩
    rw [StackEntry.keys_cons_of_silent hl, hk]

theorem Tracks.holds (h : q.Tracks g w e) (hq : g.automaton.Holds q.readahead q.item) :
    g.automaton.Holds e.readahead e.item := by
  induction h with
  | nil => exact hq
  | cons hl hi _ ih =>
    exact ih (Grammar.holds_of_enters ((Grammar.enters_of_edge hl).2 ⟨_, hq, hi⟩))

theorem Tracks.production (h : q.Tracks g w e) : e.item.production = q.item.production := by
  induction h with
  | nil => rfl
  | cons _ hi _ ih => exact ih.trans (Grammar.mem_steps.1 hi).1

end Place

namespace Tables.Feeds

variable {t : Tables} {x y z : Target} {ks ks' : List StackEntry}

theorem append (h : t.Feeds x ks y) (h' : t.Feeds y ks' z) : t.Feeds x (ks ++ ks') z := by
  induction h with
  | nil => exact h'
  | cons hs he _ ih => exact .cons hs he (ih h')

theorem unique (ht : ∀ s ∈ t.readbacks, (s.transitions.map Prod.fst).Nodup) (h : t.Feeds x ks y)
    (h' : t.Feeds x ks z) : y = z := by
  induction h with
  | nil =>
    cases h'
    rfl
  | cons hs he _ ih =>
    cases h' with
    | cons hs' he' h' =>
      obtain rfl := Option.some.inj (hs.symm.trans hs')
      have hx := List.inj_on_of_nodup_map (ht _ (List.mem_of_getElem? hs)) he he' rfl
      exact ih ((Prod.mk.inj hx).2 ▸ h')

end Tables.Feeds

namespace Grammar

variable {g : Grammar} {t : Tables} {p q e : Place} {w ks : List StackEntry} {k j : Nat}
  {n m : ReadbackNode}

/-- Going back over a chain of items from its end meets the start of the chain. -/
theorem exists_feeds_of_tracks (ht : t = g.parserTables g.automaton g.itemGraph)
    (hn : g.readbackNodes.nodes[k]? = some n) (he : e ∈ n.kernel) (h : q.Tracks g w e)
    (hq : g.automaton.Holds q.readahead q.item) :
    ∃ j m, t.Feeds (.readback k) (StackEntry.keys w) (.readback j) ∧
      g.readbackNodes.nodes[j]? = some m ∧ q ∈ g.backGraph.closure m := by
  induction h with
  | nil => exact ⟨k, n, .nil _, hn, mem_closure_of_mem he⟩
  | @cons q p e l w hedge hi h ih =>
    have hp : g.automaton.Holds p.readahead p.item :=
      holds_of_enters ((enters_of_edge hedge).2 ⟨_, hq, hi⟩)
    obtain ⟨j, m, hfeeds, hm, hmem⟩ := ih he hp
    have hf : p.Follows g l q := ⟨hedge, hq, hi⟩
    by_cases hl : l.isRead = true
    · obtain ⟨m', hm'⟩ := exists_mem_exits hmem hf hl
      obtain ⟨m'', hj, hk⟩ := Found.getElem?_indexOf (exits_mem_keys hm hm')
      obtain ⟨s, hs, htrans⟩ := exists_readback ht hm
      refine ⟨_, m'', ?_, hj, mem_closure_of_mem ?_⟩
      · rw [StackEntry.keys_cons_of_isRead hl]
        exact hfeeds.append (.cons hs ((htrans _ _).2 (.back hm' hj hk)) (.nil _))
      · rw [hk]
        exact (mem_kernel_of_mem_exits hm').2 ⟨p.item, hmem, hf, hl⟩
    · have hl : l.isRead = false := by simpa using hl
      refine ⟨j, m, ?_, hm, ?_⟩
      · rwa [StackEntry.keys_cons_of_silent hl]
      · obtain ⟨b, hb, hbp⟩ := mem_closure.1 hmem
        exact mem_closure.2 ⟨b, hb, hbp.tail ⟨l, hf, hl⟩⟩

/-- What going back meets is the start of a chain of items. -/
theorem exists_tracks_of_feeds (ht : t = g.parserTables g.automaton g.itemGraph)
    (hn : g.readbackNodes.nodes[k]? = some n)
    (hheld : ∀ e ∈ n.kernel, g.automaton.Holds e.readahead e.item)
    (h : t.Feeds (.readback k) ks (.readback j)) (hm : g.readbackNodes.nodes[j]? = some m)
    (hq : q ∈ g.backGraph.closure m) :
    g.automaton.Holds q.readahead q.item ∧ ∃ w, ∃ e ∈ n.kernel, q.Tracks g w e ∧
      StackEntry.keys w = ks := by
  induction ks generalizing k n with
  | nil =>
    cases h
    obtain rfl := Option.some.inj (hn.symm.trans hm)
    obtain ⟨e, he, heq⟩ := mem_closure.1 hq
    obtain ⟨w, hw, hk⟩ := Place.exists_tracks_of_trails heq
    exact ⟨holds_of_trails heq (hheld e he), w, e, he, hw, hk⟩
  | cons key ks ih =>
    cases h with
    | cons hs htrans h =>
      obtain ⟨s', hs', hmoves⟩ := exists_readback ht hn
      obtain rfl := Option.some.inj (hs.symm.trans hs')
      cases (hmoves _ _).1 htrans with
      | found => cases h
      | back hexit hnode hkernel =>
        obtain ⟨hheldq, w, p, hp, hw, hk⟩ := ih hnode (fun p hp ↦ by
          obtain ⟨i, -, hf, -⟩ := (mem_kernel_of_mem_exits hexit).1 (hkernel ▸ hp)
          exact hf.2.1) h
        obtain ⟨i, hi, hf, hread⟩ := (mem_kernel_of_mem_exits hexit).1 (hkernel ▸ hp)
        obtain ⟨e, he, heq⟩ := mem_closure.1 hi
        obtain ⟨v, hv, hkv⟩ := Place.exists_tracks_of_trails heq
        refine ⟨hheldq, w ++ (key :: v), e, he, hw.append (.cons hf.1 hf.2.2 hv), ?_⟩
        rw [StackEntry.keys_append, StackEntry.keys_cons_of_isRead hread, hk, hkv]
        rfl

/-- A readback state in which the right part of a nonterminal begins to be gone back over is told by
the nonterminal and the readahead state. -/
theorem eq_of_isCompletion {n : Nat} {id : ProductionId} {a : Production} {m m' : ReadbackNode}
    (hm : g.readbackNodes.nodes[k]? = some m) (hm' : g.readbackNodes.nodes[j]? = some m')
    (h : g.IsCompletion n id a m.kernel) (h' : g.IsCompletion n id a m'.kernel) : k = j := by
  have hkernel : m.kernel = m'.kernel :=
    (ascending_kernel hm).eq_of_mem_iff (ascending_kernel hm') fun q ↦ by rw [h q, h' q]
  have hk := Found.indexOf_key hm
  have hj := Found.indexOf_key hm'
  rw [← hk, ← hj, hkernel]

theorem left_of_isCompletion (hg : g.Registered) {n : Nat} {id : ProductionId} {a : Production}
    (hm : g.readbackNodes.nodes[k]? = some m) (h : g.IsCompletion n id a m.kernel)
    (hq : q ∈ m.kernel) : m.left = a.left := by
  obtain ⟨id', a', hreads⟩ := exists_reads hg hm
  obtain ⟨-, -, hid, hend⟩ := (h q).1 hq
  have ha' := hreads.production
  rw [← hreads.kernel q hq, hend.1] at ha'
  rw [hreads.left, Option.some.inj ha']

theorem getElem?_readbacks_eq_some (ht : t = g.parserTables g.automaton g.itemGraph)
    {b : ReadbackState} :
    t.readbacks[j]? = some b ↔ ∃ m, g.readbackNodes.nodes[j]? = some m ∧
      g.readbackState g.automaton g.backGraph g.readbackNodes.indexOf m = b := by
  rw [ht, getElem?_readbacks, Option.map_eq_some_iff]

/-- Going back over the stack undoes the readahead. Where a right part of a nonterminal is
complete, all that may follow the nonterminal leads to one readback state. From there the entries
that a path with a chain of items of the right part has pushed lead back to where the chain begins,
and to nothing else. -/
theorem readback_retraces {d : Draft} (hd : d.finish = .ok g) (ht : g.construct = .ok t)
    (hk : g.kind = .parser) {a : Production} (hgoal : a.isGoal = false) {n : Nat} {i : Item}
    (hi : g.automaton.Holds n i) (hend : g.Ends i a) :
    ∃ k s b, t.readaheads[n]? = some s ∧ t.readbacks[k]? = some b ∧ b.left = a.left ∧
      (∀ name ∈ a.follow, (.look name, .readback k) ∈ s.transitions) ∧
      (∀ name j b', (.look name, .readback j) ∈ s.transitions → t.readbacks[j]? = some b' →
        b'.left = a.left → j = k) ∧
      (∀ q w e, g.automaton.Holds q.readahead q.item → q.Tracks g w e → e.readahead = n →
        g.Ends e.item a → ∃ j b',
          (∀ x, t.Feeds (.readback k) (StackEntry.keys w) x ↔ x = .readback j) ∧
          t.readbacks[j]? = some b' ∧ q ∈ b'.finalPlaces) ∧
      ∀ ks j b', t.Feeds (.readback k) ks (.readback j) → t.readbacks[j]? = some b' →
        ∀ q ∈ b'.finalPlaces, g.automaton.Holds q.readahead q.item ∧
          ∃ w e, q.Tracks g w e ∧ e.readahead = n ∧ g.Ends e.item a ∧ StackEntry.keys w = ks := by
  have hg := Draft.registered_of_finish hd
  have hnodup : ∀ s ∈ t.readbacks, (s.transitions.map Prod.fst).Nodup := fun s hs ↦ by
    obtain ⟨k, m, -, rfl⟩ := exists_readbackNode_of_mem ht hs
    exact nodup_readbackState
  have ht := eq_parserTables ht hk
  obtain ⟨k, m, hm, hcompl, hmem⟩ := exists_readbackNode hg hi hend hgoal
  obtain ⟨n', hn', -⟩ := id hi
  obtain ⟨s, hs, hmoves⟩ := exists_readahead hg ht hn'
  refine ⟨k, s, _, hs, (getElem?_readbacks_eq_some ht).2 ⟨m, hm, rfl⟩, ?_, ?_, ?_, ?_, ?_⟩
  · exact left_of_isCompletion hg hm hcompl hmem
  · intro name hname
    exact (hmoves _ _).2 (.complete hend.1 hgoal hm hcompl ⟨_, hmem⟩ hname)
  · intro name j b' hmove hb' hleft'
    cases (hmoves _ _).1 hmove with
    | complete hp' _ hm' hcompl' hq' _ =>
      obtain ⟨q', hq'⟩ := hq'
      obtain ⟨m'', hm'', rfl⟩ := (getElem?_readbacks_eq_some ht).1 hb'
      obtain rfl := Option.some.inj (hm'.symm.trans hm'')
      have hsame := (left_of_isCompletion hg hm' hcompl' hq').symm.trans hleft'
      obtain ⟨rfl, rfl⟩ := hg.id_inj hp' hend.1 hsame
      exact eq_of_isCompletion hm' hm hcompl' hcompl
  · intro q w e hq hw he hend'
    have hee : e ∈ m.kernel :=
      (hcompl e).2 ⟨he, he ▸ hw.holds hq, (hg.id_inj hend'.1 hend.1 rfl).1, hend'⟩
    obtain ⟨j, m', hfeeds, hm', hmem'⟩ := exists_feeds_of_tracks ht hm hee hw hq
    have hb' := (getElem?_readbacks_eq_some ht).2 ⟨m', hm', rfl⟩
    exact ⟨j, _, fun x ↦ ⟨fun hx ↦ hx.unique hnodup hfeeds, fun hx ↦ hx ▸ hfeeds⟩, hb', hmem'⟩
  · intro ks j b' hfeeds hb' q hq
    obtain ⟨m', hm', rfl⟩ := (getElem?_readbacks_eq_some ht).1 hb'
    have hheld : ∀ e ∈ m.kernel, g.automaton.Holds e.readahead e.item := fun e he ↦ by
      obtain ⟨hen, heh, -⟩ := (hcompl e).1 he
      exact hen ▸ heh
    obtain ⟨hqh, w, e, he, hw, hks⟩ := exists_tracks_of_feeds ht hm hheld hfeeds hm' hq
    obtain ⟨hen, -, -, hee⟩ := (hcompl e).1 he
    exact ⟨hqh, w, e, hw, hen, hee, hks⟩

theorem readback_retraces_sum : ∃ k j b,
    (∀ x, Sum.tables.Feeds (.readback k) [⟨.symbol "x" .parserTerminal, 3⟩] x ↔ x = .readback j) ∧
      Sum.tables.readbacks[j]? = some b ∧ ⟨⟨1, 0⟩, 0⟩ ∈ b.finalPlaces := by
  have hbody : (Sum.grammar.productions.get? 1).any fun a ↦ !a.isGoal && a.body.isFinalAt 1 := by
    decide +kernel
  obtain ⟨a, ha, h⟩ := (Option.any_eq_true _ _).1 hbody
  obtain ⟨hgoal, hfinal⟩ := Bool.and_eq_true_iff.1 h
  have hholds : ∀ n i, Sum.grammar.automaton.nodes[n]?.any (fun s ↦ i ∈ s.items) →
      Sum.grammar.automaton.Holds n i := fun n i h ↦ by
    obtain ⟨s, hs, hi⟩ := (Option.any_eq_true _ _).1 h
    exact ⟨s, hs, of_decide_eq_true hi⟩
  have hends : Sum.grammar.Ends ⟨1, 1⟩ a := ⟨ha, hfinal⟩
  obtain ⟨k, s, b, -, -, -, -, -, hforward, -⟩ :=
    readback_retraces Sum.finish_draft Sum.construct_grammar
    (by decide +kernel) (by simpa using hgoal) (hholds 3 ⟨1, 1⟩ (by decide +kernel)) hends
  have hedge : Sum.grammar.automaton.Edge 0 (.symbol "x" .parserTerminal) 3 :=
    ReadaheadAutomaton.mem_edges.1 (by decide +kernel)
  have hstep : (⟨1, 1⟩ : Item) ∈ Sum.grammar.steps.image ⟨1, 0⟩ (.symbol "x" .parserTerminal) := by
    decide +kernel
  have htracks := Place.Tracks.cons (q := ⟨⟨1, 0⟩, 0⟩) (p := ⟨⟨1, 1⟩, 3⟩) hedge hstep (.nil _)
  exact ⟨k, hforward _ _ _ (hholds 0 ⟨1, 0⟩ (by decide +kernel)) htracks rfl hends⟩

end Grammar

end RightPart
