import RightPart.Ordered.Map
import RightPart.Ordered.Search

namespace RightPart

universe u v

/-- Repeats `step` for as long as it enlarges its argument. It ends because no value with `P` is
larger than `bound`. -/
def saturate {β : Type u} (P : β → Prop) (size : β → Nat) (bound : Unit → Nat) (step : β → β)
    (hstep : ∀ x, P x → P (step x)) (hsize : ∀ x, P x → size x ≤ bound ()) (x : β) (hx : P x) : β :=
  let y := step x
  if size x < size y then saturate P size bound step hstep hsize y (hstep x hx) else x
termination_by bound () - size x
decreasing_by
  have := hsize y (hstep x hx)
  have : size y = size (step x) := rfl
  omega

theorem saturate_prop {β : Type u} {P : β → Prop} {size : β → Nat} {bound : Unit → Nat}
    {step : β → β} {hstep : ∀ x, P x → P (step x)} {hsize : ∀ x, P x → size x ≤ bound ()} {x : β}
    (hx : P x) : P (saturate P size bound step hstep hsize x hx) := by
  fun_induction saturate P size bound step hstep hsize x hx with
  | case1 x hx y h ih => exact ih
  | case2 x hx y h => exact hx

/-- Sets that grow side by side, each under its key. -/
abbrev Family (κ : Type u) (α : Type v) [Ord κ] [Std.TransOrd κ] [Ord α] [Std.TransOrd α] :=
  OrderedMap κ (OrderedSet α)

namespace Family

variable {κ : Type u} {α : Type v} [Ord κ] [Std.TransOrd κ] [Ord α] [Std.TransOrd α]

def total (f : Family κ α) : Nat := f.values.foldr (fun s n ↦ s.size + n) 0

def Within (keys : List κ) (range : List α) (f : Family κ α) : Prop :=
  ∀ e ∈ f.entries, e.1 ∈ keys ∧ ∀ x ∈ e.2, x ∈ range

theorem Within.total_le {keys : List κ} {range : List α} {f : Family κ α}
    (h : f.Within keys range) : f.total ≤ keys.length * range.length := by
  have hk : f.values.length ≤ keys.length := by
    rw [f.length_values, ← f.map_fst_entries]
    refine length_le_of_nodup (f.map_fst_entries ▸ f.keySet.nodup) fun k hk ↦ ?_
    obtain ⟨e, he, rfl⟩ := List.mem_map.1 hk
    exact (h e he).1
  have hs : ∀ l : List (OrderedSet α), (∀ s ∈ l, ∀ x ∈ s, x ∈ range) →
      l.foldr (fun s n ↦ s.size + n) 0 ≤ l.length * range.length := fun l hl ↦ by
    induction l with
    | nil => simp
    | cons s l ih =>
      have h₁ := length_le_of_nodup s.nodup fun x hx ↦ hl s List.mem_cons_self x hx
      have h₂ := ih fun s hs ↦ hl s (List.mem_cons_of_mem _ hs)
      rw [OrderedSet.length_toList] at h₁
      rw [List.foldr_cons, List.length_cons, Nat.add_mul, Nat.one_mul]
      omega
  refine Nat.le_trans (hs _ fun s hs ↦ ?_) (Nat.mul_le_mul_right _ hk)
  rw [← f.map_snd_entries] at hs
  obtain ⟨e, he, rfl⟩ := List.mem_map.1 hs
  exact (h e he).2

def members (f : Family κ α) (k : κ) : OrderedSet α := (f.get? k).getD ∅

theorem Within.mem_range {keys : List κ} {range : List α} {f : Family κ α} (h : f.Within keys range)
    {k : κ} {x : α} (hx : x ∈ f.members k) : x ∈ range := by
  unfold Family.members at hx
  cases hk : f.get? k with
  | none => simp [hk] at hx
  | some s => exact (h _ (OrderedMap.get?_eq_some.1 hk)).2 x (by simpa [hk] using hx)

variable [Std.LawfulEqOrd κ] [Std.LawfulEqOrd α]

def enlarge (f : Family κ α) (k : κ) (l : List α) : Family κ α :=
  f.alter k fun s ↦ (s.getD ∅).extend l

theorem Within.enlarge {keys : List κ} {range : List α} {f : Family κ α} (h : f.Within keys range)
    {k : κ} {l : List α} (hk : k ∈ keys) (hl : ∀ x ∈ l, x ∈ range) :
    (f.enlarge k l).Within keys range := fun e he ↦ by
  rcases OrderedMap.mem_alter he with he | rfl
  · exact h e he
  · refine ⟨hk, fun x hx ↦ ?_⟩
    rcases OrderedSet.mem_extend.1 hx with hx | hx
    · exact h.mem_range hx
    · exact hl x hx

def gather (l : List (κ × α)) : Family κ α := l.foldl (fun f p ↦ f.enlarge p.1 [p.2]) ∅

theorem within_gather (l : List (κ × α)) : (gather l).Within (l.map Prod.fst) (l.map Prod.snd) :=
  List.foldlRecOn _ _
    (motive := fun f : Family κ α ↦ f.Within (l.map Prod.fst) (l.map Prod.snd)) nofun
    fun _ h p hp ↦ h.enlarge (List.mem_map.2 ⟨p, hp, rfl⟩) fun _ hx ↦
      List.mem_singleton.1 hx ▸ List.mem_map.2 ⟨p, hp, rfl⟩

end Family

end RightPart
