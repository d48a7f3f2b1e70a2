import Mathlib.Computability.Language
import Mathlib.Logic.Relation
import RightPart.Proofs.Grammar.Derivation

namespace RightPart.Automaton

variable {m m' : Automaton} {i j k : Nat} {l : Label} {t : Transition} {w v : List Label}

theorem exists_state (h : i < m.size) : ∃ s, m.states[i]? = some s :=
  ⟨_, Array.getElem?_eq_getElem h⟩

theorem transitionsFrom_of_state {s : State} (h : m.states[i]? = some s) :
    m.transitionsFrom i = s.transitions := by
  rw [transitionsFrom, h, Option.map_some, Option.getD_some]

theorem isInitialAt_of_state {s : State} (h : m.states[i]? = some s) :
    m.isInitialAt i = s.isInitial := by
  rw [isInitialAt, h, Option.map_some, Option.getD_some]

theorem isFinalAt_of_state {s : State} (h : m.states[i]? = some s) : m.isFinalAt i = s.isFinal := by
  rw [isFinalAt, h, Option.map_some, Option.getD_some]

theorem lt_size_of_mem (h : t ∈ m.transitionsFrom i) : i < m.size := by
  by_contra hi
  have hnone : m.states[i]? = Option.none := Array.getElem?_eq_none (Nat.le_of_not_lt hi)
  simp [transitionsFrom, hnone] at h

theorem lt_size_of_isInitialAt (h : m.isInitialAt i) : i < m.size := by
  by_contra hi
  have hnone : m.states[i]? = Option.none := Array.getElem?_eq_none (Nat.le_of_not_lt hi)
  simp [isInitialAt, hnone] at h

theorem lt_size_of_isFinalAt (h : m.isFinalAt i) : i < m.size := by
  by_contra hi
  have hnone : m.states[i]? = Option.none := Array.getElem?_eq_none (Nat.le_of_not_lt hi)
  simp [isFinalAt, hnone] at h

theorem mem_finals : i ∈ m.finals ↔ m.isFinalAt i := by
  rw [finals, ids, List.mem_filter, List.mem_range, and_iff_right_iff_imp]
  exact lt_size_of_isFinalAt

theorem closed_iff : m.Closed ↔ ∀ i, ∀ t ∈ m.transitionsFrom i, t.target < m.size := by
  constructor
  · intro h i t ht
    obtain ⟨s, hs⟩ := exists_state (lt_size_of_mem ht)
    exact h s (Array.mem_of_getElem? hs) t (by simpa [transitionsFrom, hs] using ht)
  · intro h s hs t ht
    obtain ⟨i, hi⟩ := Array.mem_iff_getElem?.1 hs
    exact h i t (by simpa [transitionsFrom, hi] using ht)

theorem Path.of_append (h : m.Path i (w ++ v) k) : ∃ j, m.Path i w j ∧ m.Path j v k := by
  induction w generalizing i with
  | nil => exact ⟨i, .nil i, h⟩
  | cons l w ih =>
    cases h with
    | cons ht h =>
      obtain ⟨j, hw, hv⟩ := ih h
      exact ⟨j, .cons ht hw, hv⟩

theorem Path.step (ht : ⟨l, j⟩ ∈ m.transitionsFrom i) (h : m.Path j w k) : m.Path i (l :: w) k :=
  Path.cons (t := ⟨l, j⟩) ht h

theorem path_singleton : m.Path i [l] j ↔ ⟨l, j⟩ ∈ m.transitionsFrom i := by
  constructor
  · intro h
    cases h with
    | cons ht h =>
      cases h with
      | nil => exact ht
  · intro h
    exact .one h

theorem path_nil : m.Path i [] j ↔ i = j := by
  constructor
  · intro h
    cases h
    rfl
  · rintro rfl
    exact .nil i

theorem path_cons : m.Path i (l :: w) j ↔ ∃ t ∈ m.transitionsFrom i, t.label = l ∧
    m.Path t.target w j := by
  constructor
  · intro h
    cases h with
    | cons ht h => exact ⟨_, ht, rfl, h⟩
  · rintro ⟨t, ht, rfl, h⟩
    exact .cons ht h

instance decidablePath (m : Automaton) :
    (i : Nat) → (w : List Label) → (j : Nat) → Decidable (m.Path i w j)
  | i, [], j => decidable_of_iff (i = j) path_nil.symm
  | i, l :: w, j =>
    have (t : Transition) : Decidable (m.Path t.target w j) := decidablePath m t.target w j
    decidable_of_iff (∃ t ∈ m.transitionsFrom i, t.label = l ∧ m.Path t.target w j) path_cons.symm

instance (m : Automaton) (w : List Label) : Decidable (m.Accepts w) :=
  decidable_of_iff (∃ i ∈ m.initials, ∃ j ∈ m.finals, m.Path i w j) <|
    exists_congr fun _ ↦ and_congr_right fun _ ↦ exists_congr fun j ↦ by rw [mem_finals, and_comm]

theorem Path.target_lt (hc : m.Closed) (h : m.Path i w j) (hi : i < m.size) : j < m.size := by
  induction h with
  | nil => exact hi
  | cons ht _ ih => exact ih (closed_iff.1 hc _ _ ht)

theorem Path.lt_size (h : m.Path i w j) (hj : m.isFinalAt j) : i < m.size := by
  cases h with
  | nil => exact lt_size_of_isFinalAt hj
  | cons ht _ => exact lt_size_of_mem ht

def Reaches (m : Automaton) (w : List Label) (i : Nat) : Prop := ∃ j ∈ m.initials, m.Path j w i

theorem reaches_nil : m.Reaches [] i ↔ m.isInitialAt i := by
  constructor
  · intro h
    obtain ⟨j, hj, h⟩ := h
    cases h
    exact mem_initials.1 hj
  · intro h
    exact ⟨i, mem_initials.2 h, .nil i⟩

theorem reaches_append_singleton :
    m.Reaches (w ++ [l]) j ↔ ∃ i, m.Reaches w i ∧ ⟨l, j⟩ ∈ m.transitionsFrom i := by
  constructor
  · intro h
    obtain ⟨k, hk, h⟩ := h
    obtain ⟨i, hw, hl⟩ := h.of_append
    exact ⟨i, ⟨k, hk, hw⟩, path_singleton.1 hl⟩
  · intro h
    obtain ⟨i, ⟨k, hk, hw⟩, hl⟩ := h
    exact ⟨k, hk, hw.append (path_singleton.2 hl)⟩

def language (m : Automaton) : Language Label := {w | m.Accepts w}

instance (m : Automaton) (w : List Label) : Decidable (w ∈ m.language) :=
  inferInstanceAs (Decidable (m.Accepts w))

theorem mem_language :
    w ∈ m.language ↔ ∃ i, m.isInitialAt i ∧ ∃ j, m.Path i w j ∧ m.isFinalAt j := by
  simp only [← mem_initials]
  rfl

theorem mem_language_iff_reaches : w ∈ m.language ↔ ∃ i, m.Reaches w i ∧ m.isFinalAt i := by
  constructor
  · intro h
    obtain ⟨i, hi, j, hw, hj⟩ := h
    exact ⟨j, ⟨i, hi, hw⟩, hj⟩
  · intro h
    obtain ⟨j, ⟨i, hi, hw⟩, hj⟩ := h
    exact ⟨i, hi, j, hw, hj⟩

def ActionFree (L : Language Label) : Prop := ∀ w ∈ L, ∀ l ∈ w, l.isAction = false

theorem nil_mem_language : [] ∈ m.language ↔ ∃ i, m.isInitialAt i ∧ m.isFinalAt i := by
  simp only [mem_language_iff_reaches, reaches_nil]

structure Useful (m : Automaton) (i : Nat) : Prop where
  reached : ∃ w, m.Reaches w i
  finishes : ∃ w j, m.Path i w j ∧ m.isFinalAt j

theorem Useful.lt_size (h : m.Useful i) : i < m.size := by
  obtain ⟨w, j, hw, hj⟩ := h.finishes
  exact hw.lt_size hj

theorem Useful.between (hi : m.Useful i) (hj : m.Useful j) (ht : t ∈ m.transitionsFrom i)
    (hw : m.Path t.target w j) : m.Useful t.target := by
  obtain ⟨u, hu⟩ := hi.reached
  obtain ⟨v, k, hv, hk⟩ := hj.finishes
  exact ⟨⟨u ++ [t.label], reaches_append_singleton.2 ⟨i, hu, ht⟩⟩, w ++ v, k, hw.append hv, hk⟩

theorem useful_of_isInitialAt (hi : m.isInitialAt i) (hw : m.Path i w j) (hj : m.isFinalAt j) :
    m.Useful i ∧ m.Useful j :=
  ⟨⟨⟨[], reaches_nil.2 hi⟩, w, j, hw, hj⟩, ⟨w, i, mem_initials.2 hi, hw⟩, [], j, .nil j, hj⟩

structure Deterministic (m : Automaton) : Prop where
  start : ∀ i j, m.isInitialAt i → m.isInitialAt j → i = j
  label : ∀ i, ((m.transitionsFrom i).map Transition.label).Nodup

def Unentered (m : Automaton) : Prop :=
  ∀ i, ∀ t ∈ m.transitionsFrom i, m.isInitialAt t.target = false

/-- What the automata of expressions have in common. -/
structure Tidy (m : Automaton) : Prop where
  closed : m.Closed
  useful : ∀ i < m.size, m.Useful i
  unentered : m.Unentered

theorem Tidy.exists_mem_language (h : m.Tidy) (ht : t ∈ m.transitionsFrom i) :
    ∃ w ∈ m.language, t.label ∈ w := by
  obtain ⟨u, i₀, hi₀, hu⟩ := (h.useful i (lt_size_of_mem ht)).reached
  obtain ⟨v, j, hv, hj⟩ := (h.useful t.target (closed_iff.1 h.closed i t ht)).finishes
  exact ⟨u ++ t.label :: v, ⟨i₀, hi₀, j, hu.append (.cons ht hv), hj⟩, by simp⟩

/-- The states with `P` stand in another automaton where `f` puts them, with the transitions between
them and no others. -/
def Embeds (m m' : Automaton) (P : Nat → Prop) (f : Nat → Nat) : Prop :=
  ∀ i, P i → ∀ l k, ⟨l, k⟩ ∈ m'.transitionsFrom (f i) ↔
    ∃ j, P j ∧ f j = k ∧ ⟨l, j⟩ ∈ m.transitionsFrom i

section Embeds

variable {P : Nat → Prop} {f : Nat → Nat}

theorem Embeds.exists_path (h : m.Embeds m' P f) (hi : P i) (hw : m'.Path (f i) w k) :
    ∃ j, P j ∧ f j = k ∧ m.Path i w j := by
  generalize hs : f i = s at hw
  induction hw generalizing i with
  | nil => exact ⟨i, hi, hs, .nil i⟩
  | cons ht _ ih =>
    subst hs
    obtain ⟨j, hj, hk, hl⟩ := (h i hi _ _).1 ht
    obtain ⟨j', hj', hk', hw⟩ := ih hj hk
    exact ⟨j', hj', hk', .step hl hw⟩

theorem Embeds.path (h : m.Embeds m' P f)
    (hstep : ∀ i j t w, P i → P j → t ∈ m.transitionsFrom i → m.Path t.target w j → P t.target)
    (hi : P i) (hj : P j) (hw : m.Path i w j) : m'.Path (f i) w (f j) := by
  induction hw with
  | nil => exact .nil _
  | @cons i j t w ht hw ih =>
    have hk := hstep i j t w hi hj ht hw
    exact .step ((h i hi t.label (f t.target)).2 ⟨t.target, hk, rfl, ht⟩) (ih hk hj)

end Embeds

end RightPart.Automaton
