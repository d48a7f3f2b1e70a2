import Mathlib.Data.List.Perm.Subperm
import Mathlib.Logic.Function.Iterate
import RightPart.Proofs.Ordered.Group
import RightPart.Proofs.Ordered.Relation

namespace RightPart

universe u v

theorem mem_of_length_le {α : Type u} {l l' : List α} (hl : l.Nodup) (hs : ∀ a ∈ l, a ∈ l')
    (h : l'.length ≤ l.length) : ∀ a ∈ l', a ∈ l := by
  intro a ha
  exact ((List.subperm_of_subset hl hs).perm_of_length_le h).mem_iff.2 ha

section Fold

variable {β γ ι : Type*} {M : β → ι → Prop} {f : β → γ → β} (hf : ∀ b c i, M b i → M (f b c) i)

include hf

theorem mem_foldl {l : List γ} {b : β} {i : ι} (h : M b i) : M (l.foldl f b) i := by
  induction l generalizing b with
  | nil => exact h
  | cons c l ih => exact ih (hf b c i h)

/-- What a fold adds for a member of the list, it adds to something no smaller than its start. -/
theorem exists_mem_foldl {l : List γ} {b : β} {c : γ} (hc : c ∈ l) :
    ∃ b', (∀ i, M b i → M b' i) ∧ ∀ i, M (f b' c) i → M (l.foldl f b) i := by
  induction l generalizing b with
  | nil => cases hc
  | cons d l ih =>
    rcases List.mem_cons.1 hc with rfl | hc
    · exact ⟨b, fun _ h ↦ h, fun _ h ↦ mem_foldl (l := l) hf h⟩
    · obtain ⟨b', hb, hb'⟩ := ih (b := f b d) hc
      exact ⟨b', fun i h ↦ hb i (hf b d i h), hb'⟩

end Fold

section Saturate

variable {β : Type u} {ι : Type v} {M : β → ι → Prop} {P : β → Prop} {size : β → Nat}
  {bound : Unit → Nat} {step : β → β} {hstep : ∀ x, P x → P (step x)}
  {hsize : ∀ x, P x → size x ≤ bound ()}

theorem size_step_saturate {x : β} (hx : P x) :
    size (step (saturate P size bound step hstep hsize x hx)) ≤
      size (saturate P size bound step hstep hsize x hx) := by
  fun_induction saturate P size bound step hstep hsize x hx with
  | case1 x hx y h ih => exact ih
  | case2 x hx y h => exact Nat.le_of_not_lt h

theorem mem_saturate (hm : ∀ x i, M x i → M (step x) i) {x : β} (hx : P x) {i : ι} (h : M x i) :
    M (saturate P size bound step hstep hsize x hx) i := by
  fun_induction saturate P size bound step hstep hsize x hx with
  | case1 x hx y _ ih => exact ih (hm x i h)
  | case2 x hx y _ => exact h

theorem saturate_eq_self {x : β} (hx : P x) (h : step x = x) :
    saturate P size bound step hstep hsize x hx = x := by
  have hsame : ¬ size x < size (step x) := by rw [h]; exact Nat.lt_irrefl _
  rw [saturate, if_neg hsame]

/-- Two loops stay related step by step, and so end together, if related values are of one size. -/
theorem saturate_rel {R : β → β → Prop} {P' : β → Prop} {bound' : Unit → Nat} {step' : β → β}
    {hstep' : ∀ x, P' x → P' (step' x)} {hsize' : ∀ x, P' x → size x ≤ bound' ()}
    (hsame : ∀ x x', R x x' → size x = size x') (hrel : ∀ x x', R x x' → R (step x) (step' x'))
    {x : β} (hx : P x) : ∀ x' (hx' : P' x'), R x x' →
      R (saturate P size bound step hstep hsize x hx)
      (saturate P' size bound' step' hstep' hsize' x' hx') := by
  fun_induction saturate P size bound step hstep hsize x hx with
  | case1 x hx y hlt ih =>
    intro x' hx' h
    have hlt' : size x' < size (step' x') := hsame x x' h ▸ hsame _ _ (hrel x x' h) ▸ hlt
    rw [saturate.eq_def P', if_pos hlt']
    exact ih _ (hstep' x' hx') (hrel x x' h)
  | case2 x hx y hlt =>
    intro x' hx' h
    have hlt' : ¬ size x' < size (step' x') := hsame x x' h ▸ hsame _ _ (hrel x x' h) ▸ hlt
    rw [saturate.eq_def P', if_neg hlt']
    exact h

theorem saturate_congr {P' : β → Prop} {bound' : Unit → Nat} {step' : β → β}
    {hstep' : ∀ x, P' x → P' (step' x)} {hsize' : ∀ x, P' x → size x ≤ bound' ()} {x x' : β}
    (hx : P x) (hx' : P' x') (hs : step = step') (h : x = x') :
    saturate P size bound step hstep hsize x hx =
      saturate P' size bound' step' hstep' hsize' x' hx' := by
  subst hs h
  exact saturate_rel (R := Eq) (fun _ _ ↦ congrArg size) (fun _ _ ↦ congrArg step) hx x hx' rfl

/-- The loop takes no more steps than there is room to grow, and each of them enlarges the value. -/
theorem exists_iterate_saturate {x : β} (hx : P x) :
    ∃ n ≤ bound () - size x, saturate P size bound step hstep hsize x hx = step^[n] x ∧
      ∀ i < n, size (step^[i] x) < size (step^[i + 1] x) := by
  fun_induction saturate P size bound step hstep hsize x hx with
  | case1 x hx y h ih =>
    obtain ⟨n, hn, heq, hgrow⟩ := ih
    have hy : size y ≤ bound () := hsize y (hstep x hx)
    refine ⟨n + 1, by omega, heq, fun i hi ↦ ?_⟩
    cases i with
    | zero => exact h
    | succ i => exact hgrow i (Nat.lt_of_succ_lt_succ hi)
  | case2 x hx y _ => exact ⟨0, Nat.zero_le _, rfl, fun i hi ↦ absurd hi (Nat.not_lt_zero i)⟩

end Saturate

theorem OrderedSet.mem_of_size_le {α : Type u} [Ord α] [Std.TransOrd α] {s s' : OrderedSet α}
    (hs : ∀ a ∈ s, a ∈ s') (h : s'.size ≤ s.size) : ∀ a ∈ s', a ∈ s :=
  mem_of_length_le s.nodup hs h

namespace Family

variable {κ : Type u} {α : Type v} [Ord κ] [Std.TransOrd κ] [Ord α] [Std.TransOrd α]

theorem total_eq_length (f : Family κ α) : f.total = (Relation.pairs f).length := by
  unfold total Relation.pairs
  rw [← f.map_snd_entries]
  induction f.entries with
  | nil => rfl
  | cons e l ih => simp [ih]

theorem nodup_pairs (f : Family κ α) : (Relation.pairs f).Nodup :=
  OrderedMap.nodup_flatMap_entries fun e _ ↦ e.2.nodup

/-- A family is as large as the sets under its keys; empty sets and the order of keys do
not count. -/
theorem total_congr {f f' : Family κ α} (h : f.members = f'.members) : f.total = f'.total := by
  rw [total_eq_length, total_eq_length]
  refine ((List.perm_ext_iff_of_nodup f.nodup_pairs f'.nodup_pairs).2 fun e ↦ ?_).length_eq
  rw [Relation.mem_pairs, Relation.mem_pairs, h]

theorem mem_of_total_le {f f' : Family κ α} (hs : ∀ k, ∀ a ∈ f.members k, a ∈ f'.members k)
    (h : f'.total ≤ f.total) : ∀ k, ∀ a ∈ f'.members k, a ∈ f.members k := by
  intro k a ha
  rw [total_eq_length, total_eq_length] at h
  have hp : ∀ e ∈ Relation.pairs f, e ∈ Relation.pairs f' := fun e he ↦
    Relation.mem_pairs.2 (hs e.1 e.2 (Relation.mem_pairs.1 he))
  exact Relation.mem_pairs.1 (mem_of_length_le f.nodup_pairs hp h (k, a) (Relation.mem_pairs.2 ha))

variable [Std.LawfulEqOrd κ] [Std.LawfulEqOrd α] [DecidableEq κ]

theorem members_enlarge (f : Family κ α) (k : κ) (l : List α) :
    (f.enlarge k l).members = Function.update f.members k ((f.members k).extend l) := by
  funext k'
  rw [Function.update_apply, members, enlarge, OrderedMap.get?_alter]
  split <;> rfl

theorem members_foldl_enlarge_nil (keys : List κ) (f : Family κ α) :
    (keys.foldl (fun f k ↦ f.enlarge k []) f).members = f.members := by
  induction keys generalizing f with
  | nil => rfl
  | cons k keys ih =>
    rw [List.foldl_cons, ih, members_enlarge]
    exact Function.update_eq_self k f.members

end Family

end RightPart
