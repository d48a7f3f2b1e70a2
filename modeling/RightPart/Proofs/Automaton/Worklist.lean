import RightPart.Proofs.Automaton.Iteration
import RightPart.Proofs.Automaton.Product
import RightPart.Proofs.Ordered.Queue

namespace RightPart.Automaton

/-- What the loop that builds a product keeps. -/
structure Worklist where
  duals : OrderedMap StatePair Nat
  pending : Queue Nat
  product : Automaton

namespace Worklist

variable (c : Connective) (m m' : Automaton)

def add (q : Worklist) (isInitial : Bool) (d : StatePair) : Worklist where
  duals := q.duals.insert d q.product.size
  pending := (q.pending.push q.product.size).1
  product :=
    q.product.addState isInitial (c.isFinal (d.left.any m.isFinalAt) (d.right.any m'.isFinalAt))

def link (q : Worklist) (i : Nat) (t : Transition) : Worklist :=
  { q with product := q.product.addTransition i t }

/-- Adds a transition of the state `i`, and its target if that is new. -/
def connect (i : Nat) (q : Worklist) (e : Label × StatePair) : Worklist :=
  match q.duals.get? e.2 with
  | .some j => q.link i ⟨e.1, j⟩
  | .none => (q.add c m m' false e.2).link i ⟨e.1, q.product.size⟩

def start : Worklist :=
  let d := StatePair.start m m'
  let q : Worklist := ⟨∅, ∅, Automaton.none⟩
  if c.isLive d then q.add c m m' true d else q

/-- One round of the loop. It ends if nothing is pending or if the state popped has no pair. -/
def step (q : Worklist) : Option Worklist :=
  match q.pending.pop? with
  | .none => .none
  | .some (i, pending) =>
    q.duals.entries[i]?.map fun e ↦
      (pairMoves c m m' e.1).foldl (connect c m m' i) { q with pending }

abbrev Runs : Worklist → Worklist → Prop := Relation.ReflTransGen fun q q' ↦ q.step c m m' = some q'

/-- The loop comes to an end with all that it had to do done, and trimming what it built
gives `p`. -/
structure Builds (p : Automaton) : Prop where
  entry : ∀ q, Runs c m m' (start c m m') q → ∀ i r, q.pending.pop? = some (i, r) →
    i < q.product.size ∧ ∃ d, q.duals.entries[i]? = some (d, i)
  ends : ∃ q, Runs c m m' (start c m m') q ∧ q.pending.pop? = .none ∧ Checked.trim q.product = .ok p

abbrev search (s : Found id (IsPair m m')) (i : Nat) : Found id (IsPair m m') :=
  s.search
    (fun _ ↦ Nat.pow 2 (m.initials ++ m.targets).length *
      Nat.pow 2 (m'.initials ++ m'.targets).length)
    (atMost_isPair m m') (fun d ↦ (pairMoves c m m' d).map Prod.snd)
    (fun d _ ↦ isPair_of_mem_pairMoves c m m' d) i

def stateOf (s : Found id (IsPair m m')) (k : Nat) (d : StatePair)
    (moves : List (Label × StatePair)) : State where
  isInitial := k == 0
  isFinal := c.isFinal (d.left.any m.isFinalAt) (d.right.any m'.isFinalAt)
  transitions := moves.map fun e ↦ ⟨e.1, s.indexOf e.2⟩

/-- The loop has found the pairs of `s`, popped the states before `first` and added the transitions
for the moves in `made`. -/
structure Mirrors (s : Found id (IsPair m m')) (first : Nat)
    (made : Nat → StatePair → List (Label × StatePair)) (q : Worklist) : Prop where
  duals : q.duals.entries = s.nodes.toList.zipIdx
  coherent : q.pending.Coherent
  waiting : q.pending.waiting = List.range' first (s.nodes.size - first)
  states : ∀ k, q.product.states[k]? = s.nodes[k]?.map fun d ↦ stateOf c m m' s k d (made k d)
  known : ∀ k d, ∀ e ∈ made k d, s.nodes[k]? = some d → e.2 ∈ s.keys
  fresh : ∀ k d, s.nodes.size ≤ k → made k d = []

def grow (made : Nat → StatePair → List (Label × StatePair)) (i : Nat)
    (l : List (Label × StatePair)) (k : Nat) (d : StatePair) : List (Label × StatePair) :=
  if k = i then made k d ++ l else made k d

def movesBefore (i k : Nat) (d : StatePair) : List (Label × StatePair) :=
  if k < i then pairMoves c m m' d else []

variable {c m m'} {s : Found id (IsPair m m')} {first i k : Nat} {d : StatePair}
  {e : Label × StatePair} {l : List (Label × StatePair)}
  {made : Nat → StatePair → List (Label × StatePair)} {q : Worklist}

theorem stateOf_add (hd : IsPair m m' (id d)) {d' : StatePair} (hl : ∀ e ∈ l, e.2 ∈ s.keys) :
    stateOf c m m' (s.add d hd) k d' l = stateOf c m m' s k d' l := by
  rw [stateOf, stateOf, State.mk.injEq]
  refine ⟨rfl, rfl, rfl, List.map_congr_left fun e he ↦ ?_⟩
  rw [Found.indexOf_extended (s.prefix_add d hd) (hl e he)]

theorem addTransitions_stateOf (hl : ∀ e' ∈ l, e'.1 ≠ e.1) :
    (stateOf c m m' s k d l).addTransitions [⟨e.1, s.indexOf e.2⟩] =
      stateOf c m m' s k d (l ++ [e]) := by
  have hnew : (⟨e.1, s.indexOf e.2⟩ : Transition) ∉ (stateOf c m m' s k d l).transitions := by
    intro h
    obtain ⟨e', he', heq⟩ := List.mem_map.1 h
    exact hl e' he' (Transition.mk.inj heq).1
  rw [State.addTransitions_singleton hnew]
  simp only [stateOf, List.map_append, List.map_cons, List.map_nil]

theorem grow_cons : grow made i (e :: l) = grow (grow made i [e]) i l := by
  funext k d
  unfold grow
  split
  · rw [List.append_assoc, List.singleton_append]
  · rfl

namespace Mirrors

theorem size_product (h : Mirrors c m m' s first made q) : q.product.size = s.nodes.size := by
  have hk : ∀ k, q.product.size ≤ k ↔ s.nodes.size ≤ k := by
    intro k
    rw [Automaton.size, ← Array.getElem?_eq_none_iff, ← Array.getElem?_eq_none_iff, h.states,
      Option.map_eq_none_iff]
  exact Nat.le_antisymm ((hk _).2 (Nat.le_refl _)) ((hk _).1 (Nat.le_refl _))

theorem keys_duals (h : Mirrors c m m' s first made q) : q.duals.keys = s.nodes.toList := by
  rw [← OrderedMap.map_fst_entries, h.duals, List.zipIdx_map_fst]

theorem get?_duals_of_mem (h : Mirrors c m m' s first made q) (hd : d ∈ s.keys) :
    q.duals.get? d = some (s.indexOf d) := by
  obtain ⟨e, he, rfl⟩ := Found.getElem?_indexOf hd
  rwa [OrderedMap.get?_eq_some, h.duals, List.mk_mem_zipIdx_iff_getElem?, Array.getElem?_toList]

theorem not_mem_keySet (h : Mirrors c m m' s first made q) (hd : d ∉ s.keys) :
    d ∉ q.duals.keySet := by
  change d ∉ q.duals.keys
  rw [h.keys_duals]
  exact fun hmem ↦ hd (Found.key_mem_keys hmem)

theorem get?_duals_of_not_mem (h : Mirrors c m m' s first made q) (hd : d ∉ s.keys) :
    q.duals.get? d = .none := by
  rw [← Option.not_isSome_iff_eq_none, OrderedMap.isSome_get?]
  exact h.not_mem_keySet hd

theorem congr {made' : Nat → StatePair → List (Label × StatePair)}
    (h : Mirrors c m m' s first made q) (hmade : ∀ k d, s.nodes[k]? = some d → made k d = made' k d)
    (hfresh : ∀ k d, s.nodes.size ≤ k → made' k d = []) : Mirrors c m m' s first made' q where
  duals := h.duals
  coherent := h.coherent
  waiting := h.waiting
  states k := by
    rw [h.states]
    refine Option.map_congr fun d hd ↦ ?_
    rw [hmade k d hd]
  known k d e he hd := h.known k d e (hmade k d hd ▸ he) hd
  fresh := hfresh

/-- Transitions are only added to states that the loop has found, so none is refused. -/
theorem checked_addTransition (h : Mirrors c m m' s first made q) (hi : i < s.nodes.size)
    (t : Transition) : Checked.addTransition q.product i t = .ok (q.link i t).product :=
  if_pos (h.size_product ▸ hi)

theorem link (h : Mirrors c m m' s first made q) (hi : i < s.nodes.size) (he : e.2 ∈ s.keys)
    (hnew : ∀ d, s.nodes[i]? = some d → ∀ e' ∈ made i d, e'.1 ≠ e.1) :
    Mirrors c m m' s first (grow made i [e]) (q.link i ⟨e.1, s.indexOf e.2⟩) where
  duals := h.duals
  coherent := h.coherent
  waiting := h.waiting
  states k := by
    change (q.product.states.modify i _)[k]? = _
    rw [Array.getElem?_modify, h.states]
    by_cases hk : i = k
    · subst i
      rw [if_pos rfl, Option.map_map]
      refine Option.map_congr fun d hd ↦ ?_
      rw [Function.comp_apply, addTransitions_stateOf (hnew d hd), grow, if_pos rfl]
    · rw [if_neg hk]
      refine Option.map_congr fun d hd ↦ ?_
      rw [grow, if_neg (Ne.symm hk)]
  known k d e' he' hd := by
    by_cases hk : k = i
    · rw [grow, if_pos hk, List.mem_append, List.mem_singleton] at he'
      rcases he' with he' | rfl
      · exact h.known k d e' he' hd
      · exact he
    · rw [grow, if_neg hk] at he'
      exact h.known k d e' he' hd
  fresh k d hk := by
    rw [grow, if_neg (by omega), h.fresh k d hk]

theorem add (h : Mirrors c m m' s first made q) (hfirst : first ≤ s.nodes.size)
    (hp : IsPair m m' (id d)) (hd : d ∉ s.keys) {isInitial : Bool}
    (hinit : isInitial = (s.nodes.size == 0)) :
    Mirrors c m m' (s.add d hp) first made (q.add c m m' isInitial d) := by
  have hnodes : (s.add d hp).nodes = s.nodes.push d := Found.nodes_add_of_not_mem hp hd
  have hwaits : q.product.size ∉ q.pending.waiting := by
    rw [h.size_product, h.waiting, List.mem_range'_1]
    omega
  constructor
  · rw [Worklist.add, OrderedMap.entries_insert_of_not_mem (h.not_mem_keySet hd), h.duals, hnodes,
      Array.toList_push, List.zipIdx_append, h.size_product]
    simp
  · exact h.coherent.push _
  · rw [Worklist.add, Queue.push_of_not_mem h.coherent hwaits, h.waiting, h.size_product, hnodes,
      Array.size_push, Nat.sub_add_comm hfirst, List.range'_concat]
    simp; omega
  · intro k
    rw [hnodes, Array.getElem?_push]
    change (q.product.states.push _)[k]? = _
    rw [Array.getElem?_push, h.states]
    have hsize : q.product.states.size = s.nodes.size := h.size_product
    rw [hsize]
    split
    · rename_i hk
      rw [Option.map_some, h.fresh k d (Nat.le_of_eq hk.symm), hk, hinit]
      rfl
    · refine Option.map_congr fun d' hd' ↦ ?_
      rw [stateOf_add hp fun e he ↦ h.known k d' e he hd']
  · intro k d' e he hd'
    rw [hnodes, Array.getElem?_push] at hd'
    split at hd'
    · rename_i hk
      rw [h.fresh k d' (Nat.le_of_eq hk.symm)] at he
      cases he
    · exact Found.mem_keys_extended (s.prefix_add d hp) (h.known k d' e he hd')
  · intro k d' hk
    rw [hnodes, Array.size_push] at hk
    exact h.fresh k d' (Nat.le_of_succ_le hk)

theorem connect (h : Mirrors c m m' s first made q) (hfirst : first ≤ s.nodes.size)
    (hi : i < s.nodes.size) (hp : IsPair m m' (id e.2))
    (hnew : ∀ d, s.nodes[i]? = some d → ∀ e' ∈ made i d, e'.1 ≠ e.1) :
    Mirrors c m m' (s.add e.2 hp) first (grow made i [e]) (q.connect c m m' i e) := by
  by_cases he : e.2 ∈ s.keys
  · rw [Worklist.connect, h.get?_duals_of_mem he, Found.add_of_mem hp he]
    exact h.link hi he hnew
  · have hadd : Mirrors c m m' (s.add e.2 hp) first made (q.add c m m' false e.2) :=
      h.add hfirst hp he (beq_false_of_ne (by omega)).symm
    have hnodes : (s.add e.2 hp).nodes = s.nodes.push e.2 := Found.nodes_add_of_not_mem hp he
    have hlast : (s.add e.2 hp).nodes[q.product.size]? = some e.2 := by
      rw [hnodes, h.size_product, Array.getElem?_push_size]
    have hindex : (s.add e.2 hp).indexOf e.2 = q.product.size := Found.indexOf_key hlast
    rw [Worklist.connect, h.get?_duals_of_not_mem he, ← hindex]
    refine hadd.link ?_ (s.mem_keys_add e.2 hp) fun d hd ↦ hnew d ?_
    · rw [hnodes, Array.size_push]
      omega
    · rwa [hnodes, Array.getElem?_push_lt hi, ← Array.getElem?_eq_getElem hi] at hd

theorem connectAll (h : Mirrors c m m' s first made q) (hfirst : first ≤ s.nodes.size)
    (hi : i < s.nodes.size) (hp : ∀ d ∈ l.map Prod.snd, IsPair m m' (id d))
    (hl : (l.map Prod.fst).Nodup)
    (hnew : ∀ d, s.nodes[i]? = some d → ∀ e' ∈ made i d, e'.1 ∉ l.map Prod.fst) :
    Mirrors c m m' (s.addAll (l.map Prod.snd) hp) first (grow made i l)
      (l.foldl (Worklist.connect c m m' i) q) := by
  induction l generalizing s made q with
  | nil => exact h.congr (fun k d _ ↦ by simp [grow]) fun k d hk ↦ by simp [grow, h.fresh k d hk]
  | cons e l ih =>
    obtain ⟨he, hl⟩ := List.nodup_cons.1 hl
    have hp' : IsPair m m' (id e.2) := hp e.2 List.mem_cons_self
    have hprefix := s.prefix_add e.2 hp'
    have hstep := h.connect hfirst hi hp' fun d hd e' he' heq ↦
      hnew d hd e' he' (heq ▸ List.mem_cons_self)
    have hle : s.nodes.size ≤ (s.add e.2 hp').nodes.size := hprefix.length_le
    rw [List.foldl_cons, grow_cons]
    refine ih hstep (hfirst.trans hle) (Nat.lt_of_lt_of_le hi hle)
      (fun d hd ↦ hp d (List.mem_cons_of_mem _ hd)) hl fun d hd e' he' ↦ ?_
    have hd' : s.nodes[i]? = some d := by
      have hi' := Array.getElem?_eq_getElem hi
      rw [← hd, Found.getElem?_extended hprefix hi', hi']
    rw [grow, if_pos rfl, List.mem_append, List.mem_singleton] at he'
    rcases he' with he' | rfl
    · exact fun hmem ↦ hnew d hd' e' he' (List.mem_cons_of_mem _ hmem)
    · exact he

end Mirrors

variable (c m m') in
/-- The loop is where the search is that is done with the first `i` pairs. -/
def Follows (s : Found id (IsPair m m')) (i : Nat) (q : Worklist) : Prop :=
  i ≤ s.nodes.size ∧ Mirrors c m m' s i (movesBefore c m m' i) q

namespace Follows

theorem empty : Follows c m m' .empty 0 ⟨∅, ∅, Automaton.none⟩ := by
  refine ⟨Nat.le_refl _, rfl, Queue.coherent_empty, rfl, fun k ↦ rfl, ?_, ?_⟩
  · intro k d e he
    cases he
  · intro k d _
    rfl

theorem start {l : List StatePair} (hl : ∀ d ∈ l, IsPair m m' (id d))
    (h : starts c m m' = l) : Follows c m m' (.ofList l hl) 0 (start c m m') := by
  unfold starts at h
  rw [Worklist.start]
  split at h
  · rename_i hlive
    subst l
    rw [if_pos hlive]
    have hempty : Mirrors c m m' .empty 0 (movesBefore c m m' 0) ⟨∅, ∅, Automaton.none⟩ := empty.2
    have hseed := hl _ List.mem_cons_self
    exact ⟨Nat.zero_le _, hempty.add (Nat.le_refl _) hseed (OrderedSet.not_mem_empty _) rfl⟩
  · rename_i hlive
    subst l
    rw [if_neg hlive]
    exact empty

theorem exists_pop (h : Follows c m m' s i q) (hi : i < s.nodes.size) :
    ∃ r, q.pending.pop? = some (i, r) ∧ q.duals.entries[i]? = some (s.nodes[i], i) ∧
      Mirrors c m m' s (i + 1) (movesBefore c m m' i) { q with pending := r } := by
  obtain ⟨-, h⟩ := h
  have hwaiting : q.pending.waiting = i :: List.range' (i + 1) (s.nodes.size - (i + 1)) := by
    rw [h.waiting, ← List.range'_succ]
    congr 1
    omega
  refine ⟨_, Queue.pop?_of_waiting hwaiting, ?_, h.duals, h.coherent.pop hwaiting, rfl, h.states,
    h.known, h.fresh⟩
  rw [h.duals, List.getElem?_zipIdx, Array.getElem?_toList, Array.getElem?_eq_getElem hi,
    Nat.zero_add]
  rfl

theorem pop?_eq_none (h : Follows c m m' s i q) (hi : s.nodes.size ≤ i) :
    q.pending.pop? = .none := by
  rw [Queue.pop?_eq_none, h.2.waiting, Nat.sub_eq_zero_of_le hi]
  rfl

/-- One round of the loop is one round of the search. -/
theorem step (h : Follows c m m' s i q) (hi : i < s.nodes.size)
    (hp : ∀ d ∈ (pairMoves c m m' s.nodes[i]).map Prod.snd, IsPair m m' (id d)) :
    ∃ q', q.step c m m' = some q' ∧
      Follows c m m' (s.addAll ((pairMoves c m m' s.nodes[i]).map Prod.snd) hp) (i + 1) q' := by
  obtain ⟨r, hpop, hkey, hr⟩ := h.exists_pop hi
  have hprefix := s.prefix_addAll _ hp
  have hle : i < (s.addAll _ hp).nodes.size := Nat.lt_of_lt_of_le hi hprefix.length_le
  have hall := hr.connectAll hi hi hp nodup_pairMoves fun d _ e he ↦ by
    rw [movesBefore, if_neg (Nat.lt_irrefl i)] at he
    cases he
  refine ⟨_, ?_, hle, hall.congr (fun k d hd ↦ ?_) fun k d hk ↦ if_neg (by omega)⟩
  · rw [Worklist.step, hpop]
    simp only [hkey, Option.map_some]
  · unfold grow movesBefore
    rcases Nat.lt_trichotomy k i with hk | rfl | hk
    · rw [if_neg (Nat.ne_of_lt hk), if_pos hk, if_pos (Nat.lt_succ_of_lt hk)]
    · rw [Found.getElem?_extended hprefix (Array.getElem?_eq_getElem hi)] at hd
      rw [if_pos rfl, if_neg (Nat.lt_irrefl _), if_pos (Nat.lt_succ_self _), Option.some.inj hd,
        List.nil_append]
    · rw [if_neg (Nat.ne_of_gt hk), if_neg (Nat.lt_asymm hk), if_neg (by omega)]

theorem exists_end (h : Follows c m m' s i q) : ∃ q', Runs c m m' q q' ∧ q'.pending.pop? = .none ∧
    ∃ n, (search c m m' s i).nodes.size ≤ n ∧ Follows c m m' (search c m m' s i) n q' := by
  unfold search
  fun_induction Found.search _ _ _ _ s i generalizing q with
  | case1 s i hi ih =>
    obtain ⟨q₁, hstep, h₁⟩ := h.step hi (isPair_of_mem_pairMoves c m m' _)
    obtain ⟨q', hrun, hend⟩ := ih h₁
    exact ⟨q', .head hstep hrun, hend⟩
  | case2 s i hi =>
    exact ⟨q, .refl, h.pop?_eq_none (Nat.le_of_not_lt hi), i, Nat.le_of_not_lt hi, h⟩

theorem of_runs {q' : Worklist} (h : Follows c m m' s i q) (hrun : Runs c m m' q q') :
    ∃ s' i', Follows c m m' s' i' q' := by
  induction hrun with
  | refl => exact ⟨s, i, h⟩
  | @tail q₁ q₂ _ hstep ih =>
    obtain ⟨s', i', h'⟩ := ih
    by_cases hi : i' < s'.nodes.size
    · obtain ⟨q', hq', hnext⟩ := h'.step hi (isPair_of_mem_pairMoves c m m' _)
      rw [hstep] at hq'
      exact ⟨_, _, Option.some.inj hq' ▸ hnext⟩
    · rw [Worklist.step, h'.pop?_eq_none (Nat.le_of_not_lt hi)] at hstep
      cases hstep

theorem product_eq (h : Follows c m m' (pairs c m m') i q) (hi : (pairs c m m').nodes.size ≤ i) :
    q.product = Automaton.product c m m' := by
  rw [Automaton.mk.injEq]
  refine Array.ext_getElem? fun k ↦ ?_
  rw [h.2.states, getElem?_product]
  refine Option.map_congr fun d hd ↦ ?_
  rw [movesBefore, if_pos (Nat.lt_of_lt_of_le (Array.getElem?_eq_some_iff.1 hd).1 hi)]
  rfl

end Follows

theorem builds : Builds c m m' (Automaton.product c m m').trim := by
  have hstart : Follows c m m' _ 0 (Worklist.start c m m') :=
    Follows.start (isPair_of_mem_starts c m m') rfl
  constructor
  · intro q hrun i r hpop
    obtain ⟨s, k, h⟩ := hstart.of_runs hrun
    by_cases hk : k < s.nodes.size
    · obtain ⟨r', hpop', hentry, -⟩ := h.exists_pop hk
      obtain ⟨rfl, -⟩ := Prod.mk.inj (Option.some.inj (hpop.symm.trans hpop'))
      exact ⟨h.2.size_product ▸ hk, _, hentry⟩
    · rw [h.pop?_eq_none (Nat.le_of_not_lt hk)] at hpop
      cases hpop
  · obtain ⟨q, hrun, hpop, n, hn, h⟩ := hstart.exists_end
    refine ⟨q, hrun, hpop, ?_⟩
    rw [h.product_eq hn]
    exact checked_trim closed_product

end Worklist

/-- Closed automata are combined unless an action stands on one of them. The result is
deterministic, has useful states only, and comes from a loop that does not break off. -/
theorem combine_of_closed (c : Connective) {m m' : Automaton} (hc : m.Closed) (hc' : m'.Closed) :
    (Checked.combine c m m' = .error (.incompatibleAlphabets c.operation) ↔
      m.hasAction ∨ m'.hasAction) ∧
      (¬(m.hasAction ∨ m'.hasAction) → ∃ p, Checked.combine c m m' = .ok p ∧
        (∀ w, w ∈ p.language ↔ c.Asks m.language m'.language w) ∧ p.Deterministic ∧
          (∀ i < p.size, p.Useful i) ∧ Worklist.Builds c m m' p) := by
  have haction : (m.hasAction || m'.hasAction) = true ↔ m.hasAction ∨ m'.hasAction := by
    rw [Bool.or_eq_true]
  rw [checked_combine hc hc', combine]
  constructor
  · constructor
    · intro h
      split at h
      · exact haction.1 ‹_›
      · cases h
    · exact fun h ↦ if_pos (haction.2 h)
  · intro h
    refine ⟨_, if_neg (mt haction.1 h), fun w ↦ ?_, deterministic_product.trim, useful_trim,
      Worklist.builds⟩
    rw [language_trim, mem_language_product]

theorem combine_letters : ∃ p, Checked.combine .difference
      (ofLabels [.symbol "a" .parserTerminal, .symbol "b" .parserTerminal])
      (ofLabel (.symbol "b" .parserTerminal)) = .ok p ∧
    [.symbol "a" .parserTerminal] ∈ p.language ∧ [.symbol "b" .parserTerminal] ∉ p.language := by
  obtain ⟨-, h⟩ := combine_of_closed .difference
    (m := ofLabels [.symbol "a" .parserTerminal, .symbol "b" .parserTerminal])
    (by decide) (show (ofLabel (.symbol "b" .parserTerminal)).Closed by decide)
  obtain ⟨p, hp, hw, -⟩ := h (by decide)
  refine ⟨p, hp, (hw _).2 ⟨?_, ?_⟩, fun hb ↦ ((hw _).1 hb).2 ?_⟩
  · rw [language_ofLabels]
    exact ⟨_, List.mem_cons_self, rfl⟩
  · rw [ofLabel, language_ofLabels]
    rintro ⟨l, hl, heq⟩
    obtain rfl := List.mem_singleton.1 hl
    simp at heq
  · rw [ofLabel, language_ofLabels]
    exact ⟨_, List.mem_cons_self, rfl⟩

end RightPart.Automaton
