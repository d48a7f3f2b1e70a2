import RightPart.Proofs.Machine.Basic
import RightPart.Proofs.Tables.Determinism

namespace RightPart

theorem length_filter_le_one {α β : Type} {l : List α} {key : α → β} {k : β} {p : α → Bool}
    (h : l.Pairwise fun a b ↦ key a ≠ key b) (hp : ∀ a, p a → key a = k) :
    (l.filter p).length ≤ 1 := by
  have hf := h.filter p
  match hl : l.filter p with
  | [] => simp
  | [_] => simp
  | a :: b :: l' =>
    rw [hl] at hf
    have ha : key a = k := hp a (List.mem_filter.1 (hl ▸ List.mem_cons_self)).2
    have hb : key b = k :=
      hp b (List.mem_filter.1 (hl ▸ List.mem_cons_of_mem _ List.mem_cons_self)).2
    exact absurd (ha.trans hb.symm) ((List.pairwise_cons.1 hf).1 b List.mem_cons_self)

namespace Tables

structure IsDeterministic (t : Tables) : Prop where
  ahead : ∀ s ∈ t.readaheads, s.IsDeterministic
  back : ∀ s ∈ t.readbacks, s.IsDeterministic
  reduce : ∀ s ∈ t.reduces, s.IsDeterministic

variable {t : Tables} {c c' : Configuration}

theorem length_unless_le_one {α β : Type} {l : List α} {key : α → β} {k : β} {p : α → Bool}
    (h : l.Pairwise fun a b ↦ key a ≠ key b) (hp : ∀ a, p a → key a = k) (f : Failure)
    (outcome : α → Except Failure Configuration) :
    (f.unless ((l.filter p).map outcome)).length ≤ 1 := by
  rw [Failure.unless]
  split
  · exact Nat.le_refl 1
  · rw [List.length_map]
    exact length_filter_le_one h hp

theorem length_moves_le_one (hd : t.IsDeterministic) : (t.moves c).length ≤ 1 := by
  obtain ⟨control, σ, x, f⟩ := c
  unfold moves
  cases control with
  | readahead i =>
    cases x with
    | nil => exact Nat.le_refl 1
    | cons token x =>
      cases hs : t.readaheads[i]? with
      | none => simp [hs]
      | some s =>
        have hkeys := hd.ahead s (List.mem_of_getElem? hs)
        simp only [hs]
        exact length_unless_le_one (k := token) hkeys (by simp) _ _
  | semantic i => cases hs : t.semantics.toList[i]? <;> simp [hs]
  | readback i =>
    cases σ with
    | nil => exact Nat.le_refl 1
    | cons f' σ =>
      cases hs : t.readbacks[i]? with
      | none => simp [hs]
      | some s =>
        have hkeys := hd.back s (List.mem_of_getElem? hs)
        simp only [hs]
        exact length_unless_le_one (k := (f'.symbol, f'.state)) hkeys
          (by simp [StackEntry.fits]) _ _
  | reduce i =>
    cases σ with
    | nil => exact Nat.le_refl 1
    | cons f' σ =>
      cases hs : t.reduces[i]? with
      | none => simp [hs]
      | some s =>
        have hkeys := hd.reduce s (List.mem_of_getElem? hs)
        simp only [hs]
        exact length_unless_le_one (k := f'.state) hkeys (by simp) _ _
  | accept => simp

theorem moves_eq_singleton (hd : t.IsDeterministic) (h : t.Step c c') : t.moves c = [.ok c'] := by
  have hm := mem_moves.2 h
  have hl := length_moves_le_one hd (c := c)
  match hc : t.moves c with
  | [] => simp [hc] at hm
  | [e] =>
    rw [hc, List.mem_singleton] at hm
    rw [hm]
  | _ :: _ :: _ => simp [hc] at hl

theorem exists_run_eq_ok (hd : t.IsDeterministic) (h : t.Run c c') : ∃ k, t.run k c = .ok c' := by
  induction h using Relation.ReflTransGen.head_induction_on with
  | refl => exact ⟨0, rfl⟩
  | head hs _ ih =>
    obtain ⟨k, hk⟩ := ih
    refine ⟨k + 1, ?_⟩
    rw [run, moves_eq_singleton hd hs]
    exact hk

end Tables

end RightPart
