import RightPart.Proofs.Automaton.Distinct
import RightPart.Proofs.Automaton.Regular
import RightPart.Proofs.Expr.Total

namespace RightPart

/-- A computation fails in no way that is ruled out, and its result has a property. -/
structure Ensures {ε α : Type} (bad : ε → Prop) (P : α → Prop) (x : Except ε α) : Prop where
  avoids : Avoids bad x
  of_eq_ok : ∀ a, x = .ok a → P a

namespace Ensures

variable {ε ε' α β : Type} {bad : ε → Prop} {bad' : ε' → Prop} {P : α → Prop} {Q : β → Prop}
  {x : Except ε α} {f : α → Except ε β}

theorem ok {a : α} (h : P a) : Ensures bad P (.ok a) :=
  ⟨.ok, fun _ ha ↦ Except.ok.inj ha ▸ h⟩

theorem error {e : ε} (h : ¬ bad e) : Ensures bad P (.error e) :=
  ⟨.error h, fun _ ha ↦ by cases ha⟩

theorem bind (h : Ensures bad P x) (hf : ∀ a, P a → Ensures bad Q (f a)) :
    Ensures bad Q (x >>= f) := by
  cases x with
  | error e => exact error (h.avoids e rfl)
  | ok a => exact hf a (h.of_eq_ok a rfl)

theorem bind_ok {g : α → β} (h : Ensures bad P x) (hg : ∀ a, P a → Q (g a)) :
    Ensures bad Q (x >>= fun a ↦ .ok (g a)) :=
  h.bind fun a ha ↦ ok (hg a ha)

theorem mapError {g : ε → ε'} (h : Ensures (fun e ↦ bad' (g e)) P x) :
    Ensures bad' P (x.mapError g) := by
  cases x with
  | error e => exact error (h.avoids e rfl)
  | ok a => exact ok (h.of_eq_ok a rfl)

end Ensures

namespace Automaton

open AlgebraError (IsMissing)

variable {m m' : Automaton} {ms : List Automaton}

/-- What the operators keep: transitions lead to states and none of them is there twice, all states
lie on the way of accepted words, and no initial state is entered. -/
structure WellFormed (m : Automaton) : Prop extends m.Tidy where
  distinct : m.Distinct

namespace WellFormed

theorem union (h : m.WellFormed) (h' : m'.WellFormed) : (m.union m').WellFormed :=
  ⟨tidy_union h.toTidy h'.toTidy, h.distinct.union h'.distinct⟩

theorem concatenate (h : m.WellFormed) (h' : m'.WellFormed) : (m.concatenate m').WellFormed :=
  ⟨tidy_concatenate h.toTidy h'.toTidy, (h.distinct.join h'.distinct).trim⟩

theorem plus (h : m.WellFormed) : m.plus.WellFormed := ⟨tidy_plus h.toTidy, h.distinct.plus⟩

theorem empty : empty.WellFormed := ⟨tidy_empty, distinct_ofWord []⟩

theorem star (h : m.WellFormed) : m.star.WellFormed := h.plus.union empty

theorem optional (h : m.WellFormed) : m.optional.WellFormed := by
  unfold Automaton.optional
  split
  · exact h
  · exact h.union empty

theorem mapLabels (h : m.WellFormed) (f : Label → Label) : (m.mapLabels f).WellFormed :=
  ⟨tidy_mapLabels h.toTidy, distinct_mapLabels m f⟩

theorem look (h : m.WellFormed) : m.look.WellFormed := by
  rw [Automaton.look, mapAttributes]
  exact h.mapLabels _

theorem trim (h : m.WellFormed) : m.trim.WellFormed :=
  ⟨tidy_trim h.closed h.unentered, h.distinct.trim⟩

theorem ofLabel (l : Label) : (ofLabel l).WellFormed := ⟨tidy_ofLabel, distinct_ofLabel l⟩

theorem ofString (s : String) (a : Attributes) : (ofString s a).WellFormed :=
  ⟨tidy_ofWord, distinct_ofWord _⟩

theorem ensures_ofCodes (lo hi : Nat) (a : Attributes) :
    Ensures IsMissing WellFormed (ofCodes lo hi a) := by
  refine ⟨avoids_ofCodes, fun m hm ↦ ?_⟩
  by_cases hle : lo ≤ hi
  · exact ⟨(ofCodes_spec hle hm).1, distinct_ofCodes hm⟩
  · rw [ofCodes, if_pos (Nat.lt_of_not_le hle)] at hm
    cases hm

theorem ensures_orAll (h : ∀ m ∈ ms, m.WellFormed) : Ensures IsMissing WellFormed (orAll ms) := by
  cases ms with
  | nil => exact .error id
  | cons m ms =>
    obtain ⟨hm, hms⟩ := List.forall_mem_cons.1 h
    exact .ok (List.foldlRecOn _ _ hm fun _ hp m' hm' ↦ hp.union (hms m' hm'))

theorem ensures_concatenate (h : m.WellFormed) (h' : m'.WellFormed) :
    Ensures IsMissing WellFormed (Checked.concatenate m m') := by
  rw [checked_concatenate h.closed h'.closed]
  exact .ok (h.concatenate h')

theorem ensures_concatenateAll (h : ∀ m ∈ ms, m.WellFormed) :
    Ensures IsMissing WellFormed (Checked.concatenateAll ms) := by
  cases ms with
  | nil => exact .error id
  | cons m ms =>
    obtain ⟨hm, hms⟩ := List.forall_mem_cons.1 h
    obtain ⟨p, hp, hwell, -⟩ := exists_foldlM_concatenate (fun h ↦ h.closed) concatenate hm hms
    rw [Checked.concatenateAll, hp]
    exact .ok hwell

theorem ensures_combine (c : Connective) (h : m.WellFormed) (h' : m'.WellFormed) :
    Ensures IsMissing WellFormed (Checked.combine c m m') := by
  refine ⟨avoids_combine c h.closed h'.closed, fun p hp ↦ ?_⟩
  rw [checked_combine h.closed h'.closed] at hp
  exact ⟨tidy_combine hp h.unentered, distinct_combine hp⟩

theorem ensures_trim (h : m.WellFormed) : Ensures IsMissing WellFormed (Checked.trim m) := by
  rw [checked_trim h.closed]
  exact .ok h.trim

theorem of_withAttributes {tokens : List String} {p : Automaton} (h : m.WellFormed)
    (hp : m.withAttributes tokens = .ok p) : p.WellFormed := by
  unfold withAttributes at hp
  split at hp
  · exact Except.ok.inj hp ▸ h.mapLabels _
  · cases hwords : AttributeWord.ofStrings tokens with
    | error e => rw [hwords] at hp; cases hp
    | ok words =>
      rw [hwords] at hp
      exact Except.ok.inj hp ▸ h.mapLabels _

end WellFormed

end Automaton

inductive Term
  | empty
  | symbol (l : Label)
  | action (name : String) (arguments : List Argument) (buildsTree : Bool)
  | string (s : String) (a : Attributes)
  | codes (lo hi : Nat) (a : Attributes)
  | characters (lo hi : Char) (a : Attributes)
  | union (t u : Term)
  | orAll (l : List Term)
  | concatenate (t u : Term)
  | concatenateAll (l : List Term)
  | plus (t : Term)
  | star (t : Term)
  | optional (t : Term)
  | mapLabels (f : Label → Label) (t : Term)
  | look (t : Term)
  | withAttributes (t : Term) (tokens : List String)
  | intersect (t u : Term)
  | difference (t u : Term)
  | trim (t : Term)
  | copy (t : Term)

namespace Term

inductive Failure
  | algebra (e : AlgebraError)
  | unknownWord (e : UnknownWord)

def Failure.IsMissing : Failure → Prop
  | algebra e => e.IsMissing
  | unknownWord _ => False

mutual

def eval : Term → Except Failure Automaton
  | empty => .ok .empty
  | symbol l => .ok (.ofLabel l)
  | action n l b => .ok (.ofLabel (.action n l b))
  | string s a => .ok (.ofString s a)
  | codes lo hi a => (Automaton.ofCodes lo hi a).mapError .algebra
  | characters lo hi a => (Automaton.ofCharacters lo hi a).mapError .algebra
  | union t u => do
    let m ← t.eval
    return m.union (← u.eval)
  | orAll l => do (Automaton.orAll (← evalAll l)).mapError .algebra
  | concatenate t u => do
    let m ← t.eval
    (Automaton.Checked.concatenate m (← u.eval)).mapError .algebra
  | concatenateAll l => do (Automaton.Checked.concatenateAll (← evalAll l)).mapError .algebra
  | plus t => do return (← t.eval).plus
  | star t => do return (← t.eval).star
  | optional t => do return (← t.eval).optional
  | mapLabels f t => do return (← t.eval).mapLabels f
  | look t => do return (← t.eval).look
  | withAttributes t tokens => do ((← t.eval).withAttributes tokens).mapError .unknownWord
  | intersect t u => do
    let m ← t.eval
    (Automaton.Checked.combine .intersect m (← u.eval)).mapError .algebra
  | difference t u => do
    let m ← t.eval
    (Automaton.Checked.combine .difference m (← u.eval)).mapError .algebra
  | trim t => do (Automaton.Checked.trim (← t.eval)).mapError .algebra
  | copy t => t.eval

def evalAll : List Term → Except Failure (List Automaton)
  | [] => .ok []
  | t :: l => do
    let m ← t.eval
    return m :: (← evalAll l)

end

open Automaton (WellFormed)

theorem ensures_algebra {x : Except AlgebraError Automaton}
    (h : Ensures AlgebraError.IsMissing WellFormed x) :
    Ensures Failure.IsMissing WellFormed (x.mapError .algebra) := by
  have h' : Ensures (fun e ↦ Failure.IsMissing (.algebra e)) WellFormed x := h
  exact h'.mapError

mutual

theorem ensures_eval (t : Term) : Ensures Failure.IsMissing WellFormed t.eval := by
  cases t with
  | empty => exact .ok .empty
  | symbol l => exact .ok (.ofLabel l)
  | action name arguments buildsTree => exact .ok (.ofLabel _)
  | string s a => exact .ok (.ofString s a)
  | codes lo hi a => exact ensures_algebra (WellFormed.ensures_ofCodes lo hi a)
  | characters lo hi a => exact ensures_algebra (WellFormed.ensures_ofCodes lo.toNat hi.toNat a)
  | union t u =>
    refine t.ensures_eval.bind fun m hm ↦ ?_
    exact u.ensures_eval.bind_ok fun m' hm' ↦ hm.union hm'
  | orAll l =>
    refine (ensures_evalAll l).bind fun ms hms ↦ ?_
    exact ensures_algebra (WellFormed.ensures_orAll hms)
  | concatenate t u =>
    refine t.ensures_eval.bind fun m hm ↦ u.ensures_eval.bind fun m' hm' ↦ ?_
    exact ensures_algebra (hm.ensures_concatenate hm')
  | concatenateAll l =>
    refine (ensures_evalAll l).bind fun ms hms ↦ ?_
    exact ensures_algebra (WellFormed.ensures_concatenateAll hms)
  | plus t => exact t.ensures_eval.bind_ok fun m hm ↦ hm.plus
  | star t => exact t.ensures_eval.bind_ok fun m hm ↦ hm.star
  | optional t => exact t.ensures_eval.bind_ok fun m hm ↦ hm.optional
  | mapLabels f t => exact t.ensures_eval.bind_ok fun m hm ↦ hm.mapLabels f
  | look t => exact t.ensures_eval.bind_ok fun m hm ↦ hm.look
  | withAttributes t tokens =>
    refine t.ensures_eval.bind fun m hm ↦ .mapError ?_
    constructor
    · intro e _ hmissing
      exact hmissing
    · intro p hp
      exact hm.of_withAttributes hp
  | intersect t u =>
    refine t.ensures_eval.bind fun m hm ↦ u.ensures_eval.bind fun m' hm' ↦ ?_
    exact ensures_algebra (hm.ensures_combine .intersect hm')
  | difference t u =>
    refine t.ensures_eval.bind fun m hm ↦ u.ensures_eval.bind fun m' hm' ↦ ?_
    exact ensures_algebra (hm.ensures_combine .difference hm')
  | trim t =>
    refine t.ensures_eval.bind fun m hm ↦ ?_
    exact ensures_algebra hm.ensures_trim
  | copy t => exact t.ensures_eval

theorem ensures_evalAll (l : List Term) :
    Ensures Failure.IsMissing (fun ms : List Automaton ↦ ∀ m ∈ ms, m.WellFormed) (evalAll l) := by
  cases l with
  | nil => exact .ok nofun
  | cons t l =>
    refine t.ensures_eval.bind fun m hm ↦ ?_
    exact (ensures_evalAll l).bind_ok fun ms hms ↦ List.forall_mem_cons.2 ⟨hm, hms⟩

end

/-- However deep the operators are nested, none of them follows a transition to a state that does
not exist, and what they make is well formed. -/
theorem wellFormed_eval (t : Term) :
    t.eval ≠ .error (.algebra .missingState) ∧ ∀ m, t.eval = .ok m → m.WellFormed :=
  ⟨fun h ↦ t.ensures_eval.avoids _ h trivial, t.ensures_eval.of_eq_ok⟩

def names : Term :=
  look (difference (plus (characters 'a' 'c' .scanner))
    (orAll [symbol (.symbol "a" .scanner), empty]))

theorem wellFormed_eval_names :
    names.eval ≠ .error (.algebra .missingState) ∧ ∃ m, names.eval = .ok m ∧ 0 < m.size ∧
      m.WellFormed := by
  have hsize : (names.eval.toOption.map Automaton.size).any (0 < ·) := by decide +kernel
  obtain ⟨hmissing, hwell⟩ := wellFormed_eval names
  cases h : names.eval with
  | error e => rw [h] at hsize; cases hsize
  | ok m => exact ⟨nofun, m, rfl, by simpa [h, Except.toOption] using hsize, hwell m h⟩

end Term

end RightPart
