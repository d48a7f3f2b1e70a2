import Std.Data.TreeSet.Lemmas
import RightPart.Ordered.Queue

namespace RightPart.Queue

universe u

variable {α : Type u} [Ord α] {q q' : Queue α} {a : α} {l : List α}

/-- The values waiting are different and are those marked as pending. -/
structure Coherent (q : Queue α) : Prop where
  mem : ∀ a, a ∈ q.pending ↔ a ∈ q.waiting
  nodup : q.waiting.Nodup

theorem coherent_empty : (∅ : Queue α).Coherent where
  mem _ := iff_of_false Std.TreeSet.not_mem_emptyc List.not_mem_nil
  nodup := List.nodup_nil

theorem push_of_mem (h : q.Coherent) (ha : a ∈ q.waiting) : q.push a = (q, false) := by
  rw [push, if_pos (Std.TreeSet.contains_iff_mem.2 ((h.mem a).2 ha))]

theorem push_of_not_mem (h : q.Coherent) (ha : a ∉ q.waiting) :
    q.push a = (⟨q.waiting ++ [a], q.pending.insert a⟩, true) := by
  rw [push, if_neg fun hc ↦ ha ((h.mem a).1 (Std.TreeSet.contains_iff_mem.1 hc))]

theorem push_eq_false_iff (h : q.Coherent) : (q.push a).2 = false ↔ a ∈ q.waiting := by
  by_cases ha : a ∈ q.waiting
  · rw [push_of_mem h ha]
    exact iff_of_true rfl ha
  · rw [push_of_not_mem h ha]
    exact iff_of_false Bool.noConfusion ha

theorem pop?_eq_none : q.pop? = none ↔ q.waiting = [] := by
  unfold pop?
  split <;> simp_all

theorem pop?_of_waiting (h : q.waiting = a :: l) : q.pop? = some (a, ⟨l, q.pending.erase a⟩) := by
  rw [pop?, h]

theorem pop?_eq_some (h : q.pop? = some (a, q')) :
    q.waiting = a :: q'.waiting ∧ q' = ⟨q'.waiting, q.pending.erase a⟩ := by
  cases hw : q.waiting with
  | nil =>
    rw [pop?_eq_none.2 hw] at h
    cases h
  | cons b l =>
    rw [pop?_of_waiting hw] at h
    obtain ⟨rfl, rfl⟩ := Prod.mk.inj (Option.some.inj h)
    exact ⟨rfl, rfl⟩

section Lawful

variable [Std.TransOrd α]

theorem isEmpty_iff (h : q.Coherent) : q.isEmpty ↔ q.waiting = [] ∧ q.pending.isEmpty := by
  have hpending : q.waiting = [] → q.pending.isEmpty := by
    intro hw
    rw [Std.TreeSet.isEmpty_iff_forall_not_mem]
    intro a ha
    rw [h.mem, hw] at ha
    cases ha
  rw [isEmpty, List.isEmpty_iff]
  exact ⟨fun hw ↦ ⟨hw, hpending hw⟩, And.left⟩

variable [Std.LawfulEqOrd α]

theorem Coherent.push (h : q.Coherent) (a : α) : (q.push a).1.Coherent := by
  by_cases ha : a ∈ q.waiting
  · rwa [push_of_mem h ha]
  · rw [push_of_not_mem h ha]
    constructor
    · intro b
      rw [Std.TreeSet.mem_insert, Std.LawfulEqOrd.compare_eq_iff_eq, h.mem, List.mem_append,
        List.mem_singleton, or_comm, eq_comm]
    · exact List.nodup_append.2 ⟨h.nodup, List.pairwise_singleton _ a, fun b hb c hc e ↦
        ha (List.mem_singleton.1 hc ▸ e ▸ hb)⟩

theorem Coherent.extend (h : q.Coherent) (l : List α) : (q.extend l).Coherent :=
  List.foldlRecOn _ _ h fun _ h a _ ↦ h.push a

theorem Coherent.pop (h : q.Coherent) (hq : q.waiting = a :: l) :
    Coherent ⟨l, q.pending.erase a⟩ := by
  obtain ⟨ha, hl⟩ := List.nodup_cons.1 (hq ▸ h.nodup)
  refine ⟨fun b ↦ ?_, hl⟩
  rw [Std.TreeSet.mem_erase, h.mem, hq, List.mem_cons, ne_eq, Std.LawfulEqOrd.compare_eq_iff_eq]
  constructor
  · rintro ⟨hne, rfl | hb⟩
    · exact absurd rfl hne
    · exact hb
  · intro hb
    exact ⟨fun e ↦ ha (e ▸ hb), .inr hb⟩

theorem push_of_pop? (h : q.Coherent) (hq : q.pop? = some (a, q')) : (q'.push a).2 = true := by
  obtain ⟨hw, hq'⟩ := pop?_eq_some hq
  have ha : a ∉ q'.waiting := (List.nodup_cons.1 (hw ▸ h.nodup)).1
  have hc : q'.Coherent := hq' ▸ h.pop hw
  rw [push_of_not_mem hc ha]

end Lawful

/-- Those of some values that a queue takes in when they are pushed one after the other. -/
def accepted (q : Queue α) : List α → List α
  | [] => []
  | a :: l => if (q.push a).2 then a :: (q.push a).1.accepted l else (q.push a).1.accepted l

theorem waiting_extend (q : Queue α) (l : List α) :
    (q.extend l).waiting = q.waiting ++ q.accepted l := by
  induction l generalizing q with
  | nil => exact (List.append_nil _).symm
  | cons a l ih =>
    change ((q.push a).1.extend l).waiting = _
    rw [ih, accepted]
    unfold push
    split
    · rfl
    · exact List.append_assoc ..

/-- What may be done with a queue. To collect is to make a new one, which takes the place
of the old one. -/
inductive Call (α : Type u)
  | push (a : α)
  | pop
  | extend (l : List α)
  | collect (l : List α)

/-- A queue, with the values that it has taken in and given out since it was made, in
their order. -/
structure History (α : Type u) [Ord α] where
  queue : Queue α
  taken : List α
  given : List α

namespace History

instance : EmptyCollection (History α) := ⟨⟨∅, [], []⟩⟩

def next (h : History α) : Call α → History α
  | .push a => ⟨(h.queue.push a).1, h.taken ++ h.queue.accepted [a], h.given⟩
  | .pop =>
    match h.queue.pop? with
    | none => h
    | some (a, q) => ⟨q, h.taken, h.given ++ [a]⟩
  | .extend l => ⟨h.queue.extend l, h.taken ++ h.queue.accepted l, h.given⟩
  | .collect l => ⟨.ofList l, (∅ : Queue α).accepted l, []⟩

def ofCalls (calls : List (Call α)) : History α := calls.foldl next ∅

/-- Values go out in the order in which they came in, and those that have not gone out
are waiting. -/
structure Orderly (h : History α) : Prop where
  coherent : h.queue.Coherent
  taken_eq : h.taken = h.given ++ h.queue.waiting

theorem orderly_empty : (∅ : History α).Orderly := ⟨coherent_empty, rfl⟩

variable [Std.TransOrd α] [Std.LawfulEqOrd α] {h : History α}

theorem Orderly.extend (ho : h.Orderly) (l : List α) : (h.next (.extend l)).Orderly where
  coherent := ho.coherent.extend l
  taken_eq := by rw [next, waiting_extend, ho.taken_eq, List.append_assoc]

theorem Orderly.pop (ho : h.Orderly) : (h.next .pop).Orderly := by
  unfold next
  cases hw : h.queue.waiting with
  | nil =>
    rw [pop?_eq_none.2 hw]
    exact ho
  | cons a l =>
    rw [pop?_of_waiting hw]
    refine ⟨ho.coherent.pop hw, ?_⟩
    rw [ho.taken_eq, hw, List.append_assoc, List.singleton_append]

theorem Orderly.next (ho : h.Orderly) (c : Call α) : (h.next c).Orderly := by
  cases c with
  | push a => exact ho.extend [a]
  | pop => exact ho.pop
  | extend l => exact ho.extend l
  | collect l => exact orderly_empty.extend l

theorem orderly_ofCalls (calls : List (Call α)) : (ofCalls calls).Orderly :=
  List.foldlRecOn (motive := Orderly) _ _ orderly_empty fun _ ho c _ ↦ ho.next c

end History

/-- Whatever is done with a queue, it holds no value twice and marks those that it holds.
Values are given out in the order in which they were taken in; one is refused as long as it
waits, and no longer. -/
theorem fifo_ofCalls [Std.TransOrd α] [Std.LawfulEqOrd α] {calls : List (Call α)}
    {taken given : List α} (h : History.ofCalls calls = ⟨q, taken, given⟩) :
    q.waiting.Nodup ∧ (∀ a, a ∈ q.pending ↔ a ∈ q.waiting) ∧
      taken = given ++ q.waiting ∧
      (∀ a, (q.push a).2 = false ↔ a ∈ q.waiting) ∧
      (q.pop? = none ↔ q.waiting = []) ∧
      (∀ a q', q.pop? = some (a, q') → q.waiting = a :: q'.waiting ∧ (q'.push a).2 = true) ∧
      (q.isEmpty ↔ q.waiting = [] ∧ q.pending.isEmpty) := by
  obtain ⟨hc, horder⟩ : History.Orderly ⟨q, taken, given⟩ := h ▸ History.orderly_ofCalls calls
  exact ⟨hc.nodup, hc.mem, horder, fun _ ↦ push_eq_false_iff hc, pop?_eq_none,
    fun _ _ hq ↦ ⟨(pop?_eq_some hq).1, push_of_pop? hc hq⟩, isEmpty_iff hc⟩

namespace Numbers

def calls : List (Call Nat) := [.collect [1, 2, 1, 3], .push 2, .pop, .push 1, .pop, .extend [1, 2]]

theorem fifo_ofCalls_numbers : ∃ q, History.ofCalls calls = ⟨q, [1, 2, 3, 1, 2], [1, 2]⟩ ∧
    q.waiting = [3, 1, 2] ∧ 3 ∈ q.pending ∧ ∃ q', q.pop? = some (3, q') ∧ (q'.push 3).2 = true := by
  have htaken : (History.ofCalls calls).taken = [1, 2, 3, 1, 2] := by decide +kernel
  have hgiven : (History.ofCalls calls).given = [1, 2] := by decide +kernel
  cases h : History.ofCalls calls with
  | mk q taken given =>
    obtain ⟨-, hpending, horder, -, -, hpop, -⟩ := fifo_ofCalls h
    rw [h] at htaken hgiven
    subst htaken hgiven
    have horder : [1, 2] ++ [3, 1, 2] = [1, 2] ++ q.waiting := horder
    have hwaiting : q.waiting = [3, 1, 2] := (List.append_cancel_left horder).symm
    have hthree := pop?_of_waiting hwaiting
    exact ⟨q, rfl, hwaiting, (hpending 3).2 (hwaiting ▸ List.mem_cons_self), _, hthree,
      (hpop 3 _ hthree).2⟩

end Numbers

end RightPart.Queue
