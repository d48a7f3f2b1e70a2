import RightPart.Proofs.Readahead.Automaton
import RightPart.Tables.Readback

namespace RightPart

abbrev Grammar.backGraph (g : Grammar) : BackGraph := g.automaton.backGraph g.itemGraph

namespace Place

/-- `q` is one step over `l` before `p`. -/
def Follows (g : Grammar) (p : Place) (l : Label) (q : Place) : Prop :=
  g.automaton.Edge q.readahead l p.readahead ∧ g.automaton.Holds q.readahead q.item ∧
    p.item ∈ g.steps.image q.item l

/-- `q` is one step before `p`, and nothing is read in between. -/
def Trails (g : Grammar) (p q : Place) : Prop := ∃ l, p.Follows g l q ∧ l.isRead = false

/-- `q` stands in the same state as `p`, before the nonterminal that `p` begins. -/
def CalledFrom (g : Grammar) (p q : Place) : Prop :=
  q.readahead = p.readahead ∧ g.automaton.Holds q.readahead q.item ∧ g.Calls q.item p.item

/-- One step towards the start of what lies around a right part, nothing being read. -/
def Under (g : Grammar) (p q : Place) : Prop := p.CalledFrom g q ∨ p.Trails g q

variable {g : Grammar} {p q : Place}

theorem Follows.holds {l : Label} (h : p.Follows g l q) : g.automaton.Enters p.readahead p.item :=
  (g.enters_of_edge h.1).2 ⟨_, h.2⟩

theorem Follows.production {l : Label} (h : p.Follows g l q) :
    q.item.production = p.item.production :=
  (Grammar.mem_steps.1 h.2.2).1.symm

theorem Trails.production (h : p.Trails g q) : q.item.production = p.item.production := by
  obtain ⟨l, h, -⟩ := h
  exact h.production

end Place

namespace Grammar

open Place

variable {g : Grammar} {p q : Place} {l : Label}

theorem holds_of_trails (h : Relation.ReflTransGen (Trails g) p q)
    (hp : g.automaton.Holds p.readahead p.item) : g.automaton.Holds q.readahead q.item := by
  rcases Relation.ReflTransGen.cases_tail h with rfl | ⟨r, -, l, hq, -⟩
  · exact hp
  · exact hq.2.1

theorem holds_of_under (h : Relation.ReflTransGen (Under g) p q)
    (hp : g.automaton.Holds p.readahead p.item) : g.automaton.Holds q.readahead q.item := by
  rcases Relation.ReflTransGen.cases_tail h with rfl | ⟨r, -, hcall | ⟨l, hq, -⟩⟩
  · exact hp
  · exact hcall.2.1
  · exact hq.2.1

theorem mem_back : q ∈ (g.automaton.back g.itemGraph).image p l ↔ p.Follows g l q := by
  obtain ⟨i, n⟩ := p
  obtain ⟨j, m⟩ := q
  simp only [ReadaheadAutomaton.back, Relation.mem_image_ofList, List.mem_flatMap, List.mem_map,
    Prod.exists, Prod.mk.injEq, List.mem_zipIdx_iff_getElem?, Array.getElem?_toList, Follows,
    Place.mk.injEq]
  constructor
  · intro h
    obtain ⟨s, m, hs, l, n, he, j, hj, i, hi, ⟨rfl, rfl⟩, rfl, rfl, rfl⟩ := h
    exact ⟨⟨s, hs, he⟩, ⟨s, hs, hj⟩, hi⟩
  · intro h
    obtain ⟨⟨s, hs, he⟩, hj, hi⟩ := h
    rw [ReadaheadAutomaton.holds_iff hs] at hj
    exact ⟨s, m, hs, l, n, he, j, hj, i, hi, ⟨rfl, rfl⟩, rfl, rfl, rfl⟩

theorem mem_visible : q ∈ g.backGraph.visible.image p l ↔ p.Follows g l q ∧ l.isRead := by
  rw [← mem_back]
  exact Relation.mem_image_filtered

theorem mem_invisible : q ∈ g.backGraph.invisible.image p l ↔
    p.Follows g l q ∧ l.isRead = false := by
  rw [← mem_back, ← Bool.not_eq_true']
  exact Relation.mem_image_filtered

theorem exists_mem_invisible : (∃ l, q ∈ g.backGraph.invisible.image p l) ↔ p.Trails g q := by
  simp only [mem_invisible, Trails]

theorem exists_mem_up : (∃ l, q ∈ g.backGraph.up.image p l) ↔ p.CalledFrom g q := by
  obtain ⟨i, n⟩ := p
  obtain ⟨j, m⟩ := q
  simp only [ReadaheadAutomaton.backGraph, ReadaheadAutomaton.up, Relation.mem_image_ofList,
    List.mem_flatMap, List.mem_map, Prod.exists, Prod.mk.injEq, List.mem_zipIdx_iff_getElem?,
    Array.getElem?_toList, CalledFrom, Calls, Place.mk.injEq]
  constructor
  · intro h
    obtain ⟨l, s, m, hs, j, hj, l, i, hi, ⟨rfl, rfl⟩, rfl, rfl, rfl⟩ := h
    exact ⟨rfl, ⟨s, hs, hj⟩, l, Relation.mem_leaving.1 hi⟩
  · intro h
    obtain ⟨rfl, ⟨s, hs, hj⟩, l, hi⟩ := h
    exact ⟨l, s, m, hs, j, hj, l, i, Relation.mem_leaving.2 hi, ⟨rfl, rfl⟩, rfl, rfl, rfl⟩

theorem mem_closure {n : ReadbackNode} :
    q ∈ g.backGraph.closure n ↔ ∃ p ∈ n.kernel, Relation.ReflTransGen (Trails g) p q := by
  unfold BackGraph.closure
  simp only [Relation.mem_star, exists_mem_invisible]

theorem mem_closure_of_mem {n : ReadbackNode} (h : p ∈ n.kernel) : p ∈ g.backGraph.closure n :=
  mem_closure.2 ⟨p, h, .refl⟩

theorem mem_kernel_of_mem_exits {n m : ReadbackNode} {e : StackEntry}
    (h : (e, m) ∈ g.backGraph.exits n) :
    q ∈ m.kernel ↔ ∃ i, ⟨i, e.readahead⟩ ∈ g.backGraph.closure n ∧
      Follows g ⟨i, e.readahead⟩ e.label q ∧ e.label.isRead := by
  obtain ⟨f, hf, h⟩ := List.mem_map.1 h
  obtain ⟨rfl, rfl⟩ := Prod.mk.inj h
  rw [mem_sorted, ← OrderedSet.mem_def, Family.mem_of_mem_gather hf]
  simp only [List.mem_flatMap, List.mem_map, Prod.exists, Prod.mk.injEq, Relation.mem_leaving,
    mem_visible]
  constructor
  · intro h
    obtain ⟨⟨i, r⟩, hp, l, q, hq, he, rfl⟩ := h
    rw [← he]
    exact ⟨i, hp, hq⟩
  · intro h
    obtain ⟨i, hp, hq⟩ := h
    exact ⟨_, hp, _, q, hq, rfl, rfl⟩

theorem left_of_mem_exits {n m : ReadbackNode} {e : StackEntry} (h : (e, m) ∈ g.backGraph.exits n) :
    m.left = n.left := by
  obtain ⟨f, hf, h⟩ := List.mem_map.1 h
  obtain ⟨rfl, rfl⟩ := Prod.mk.inj h
  rfl

theorem exists_mem_exits {n : ReadbackNode} (hp : p ∈ g.backGraph.closure n) (hq : p.Follows g l q)
    (hl : l.isRead) : ∃ m, (⟨l, p.readahead⟩, m) ∈ g.backGraph.exits n := by
  have hm : ((⟨l, p.readahead⟩ : StackEntry), q) ∈ (g.backGraph.closure n).toList.flatMap fun p ↦
      (g.backGraph.visible.leaving p).map fun e ↦ ((⟨e.1, p.readahead⟩ : StackEntry), e.2) :=
    List.mem_flatMap.2 ⟨p, hp, List.mem_map.2
      ⟨(l, q), Relation.mem_leaving.2 (mem_visible.2 ⟨hq, hl⟩), rfl⟩⟩
  obtain ⟨s, hs, -⟩ := Family.exists_mem_gather hm
  exact ⟨_, List.mem_map.2 ⟨_, hs, rfl⟩⟩

theorem exists_mem_kernel_of_mem_exits {n m : ReadbackNode} {e : StackEntry}
    (h : (e, m) ∈ g.backGraph.exits n) : ∃ q, q ∈ m.kernel := by
  obtain ⟨f, hf, h⟩ := List.mem_map.1 h
  obtain ⟨rfl, rfl⟩ := Prod.mk.inj h
  obtain ⟨q, hq⟩ := Family.exists_mem_of_mem_gather hf
  exact ⟨q, mem_sorted.2 hq⟩

theorem exists_follows_of_mem_exits {n m : ReadbackNode} {e : StackEntry}
    (h : (e, m) ∈ g.backGraph.exits n) :
    ∃ i q, Follows g ⟨i, e.readahead⟩ e.label q ∧ e.label.isRead := by
  obtain ⟨q, hq⟩ := exists_mem_kernel_of_mem_exits h
  obtain ⟨i, -, hf, hl⟩ := (mem_kernel_of_mem_exits h).1 hq
  exact ⟨i, q, hf, hl⟩

theorem mem_callers {starts : List Place} :
    q ∈ g.backGraph.callers starts ↔
      ∃ s ∈ starts, ∃ c, s.CalledFrom g c ∧ Relation.ReflTransGen (Under g) c q := by
  unfold BackGraph.callers
  simp only [OrderedSet.mem_closure, Relation.mem_step, List.mem_append, Relation.mem_successors,
    exists_mem_up, exists_mem_invisible]
  constructor
  · intro h
    obtain ⟨c, ⟨s, hs, hc⟩, h⟩ := h
    exact ⟨s, hs, c, hc, h⟩
  · intro h
    obtain ⟨s, hs, c, hc, h⟩ := h
    exact ⟨c, ⟨s, hs, hc⟩, h⟩

theorem holds_callers {starts : List Place} (h : q ∈ g.backGraph.callers starts) :
    g.automaton.Holds q.readahead q.item := by
  obtain ⟨s, -, c, hc, hcq⟩ := mem_callers.1 h
  exact holds_of_under hcq hc.2.1

theorem isSeed_and_contains {p : Place} : (g.automaton.isSeed p.readahead &&
      ((g.automaton.nodes[p.readahead]?.map ReadaheadNode.kernel).getD []).contains p.item) = true ↔
    (∃ id, (p.readahead, id) ∈ g.automaton.seeds) ∧ g.automaton.Enters p.readahead p.item := by
  cases hs : g.automaton.nodes[p.readahead]? with
  | none => simp [ReadaheadAutomaton.Enters, hs]
  | some s => simp [ReadaheadAutomaton.isSeed, ReadaheadAutomaton.enters_iff hs]

/-- The entries below a right part: how a place around it was entered, or the end of the input where
a goal begins. -/
theorem mem_lookback {starts : List Place} {e : StackEntry} :
    e ∈ g.backGraph.lookback g.automaton starts ↔
      ∃ i, ⟨i, e.readahead⟩ ∈ g.backGraph.callers starts ∧
      ((∃ l q, Follows g ⟨i, e.readahead⟩ l q ∧ l.isRead ∧ e.label = l.asLook) ∨
        (∃ id, (e.readahead, id) ∈ g.automaton.seeds) ∧ g.automaton.Enters e.readahead i ∧
          e.label = .look endOfInput) := by
  obtain ⟨l, n⟩ := e
  have hend : ∀ p : Place, (⟨l, n⟩ : StackEntry) ∈ (if g.automaton.isSeed p.readahead &&
      ((g.automaton.nodes[p.readahead]?.map ReadaheadNode.kernel).getD []).contains p.item
      then [⟨.look endOfInput, p.readahead⟩] else []) ↔ p.readahead = n ∧
      (∃ id, (n, id) ∈ g.automaton.seeds) ∧ g.automaton.Enters n p.item ∧ l = .look endOfInput := by
    intro p
    split
    · rename_i h
      have hp := isSeed_and_contains.1 h
      constructor
      · intro he
        obtain ⟨rfl, rfl⟩ : l = .look endOfInput ∧ n = p.readahead := by simpa using he
        exact ⟨rfl, hp.1, hp.2, rfl⟩
      · intro he
        obtain ⟨rfl, -, -, rfl⟩ := he
        exact List.mem_singleton.2 rfl
    · rename_i h
      constructor
      · intro he
        exact absurd he List.not_mem_nil
      · intro he
        obtain ⟨rfl, hs, hi, -⟩ := he
        exact absurd (isSeed_and_contains.2 ⟨hs, hi⟩) h
  unfold BackGraph.lookback
  simp only [OrderedSet.mem_ofList, List.mem_flatMap, List.mem_append, hend, List.mem_map,
    Prod.exists, Relation.mem_leaving, mem_visible, StackEntry.mk.injEq]
  constructor
  · intro he
    obtain ⟨⟨i, r⟩, hp, he | he⟩ := he
    · obtain ⟨k, q, ⟨hq, hk⟩, rfl, rfl⟩ := he
      exact ⟨i, hp, .inl ⟨k, q, hq, hk, rfl⟩⟩
    · obtain ⟨rfl, hs, hi, rfl⟩ := he
      exact ⟨i, hp, .inr ⟨hs, hi, rfl⟩⟩
  · intro he
    obtain ⟨i, hp, he | he⟩ := he
    · obtain ⟨k, q, hq, hk, rfl⟩ := he
      exact ⟨_, hp, .inl ⟨k, q, ⟨hq, hk⟩, rfl, rfl⟩⟩
    · obtain ⟨hs, hi, rfl⟩ := he
      exact ⟨_, hp, .inr ⟨rfl, hs, hi, rfl⟩⟩

end Grammar

end RightPart
