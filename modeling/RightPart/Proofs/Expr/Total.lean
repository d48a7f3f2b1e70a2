import RightPart.Proofs.Grammar.Define

namespace RightPart

/-- A computation may fail, but not in a way that is ruled out. -/
def Avoids {ε α : Type} (bad : ε → Prop) (x : Except ε α) : Prop := ∀ e, x = .error e → ¬ bad e

namespace Avoids

variable {ε ε' α β : Type} {bad : ε → Prop} {bad' : ε' → Prop} {x : Except ε α} {f : α → Except ε β}

theorem ok {a : α} : Avoids bad (.ok a) := nofun

theorem error {e : ε} (h : ¬ bad e) : Avoids bad (.error e : Except ε α) := by
  intro e' he
  cases he
  exact h

theorem bind (h : Avoids bad x) (hf : ∀ a, x = .ok a → Avoids bad (f a)) :
    Avoids bad (x >>= f) := by
  cases x with
  | error e => exact error (h e rfl)
  | ok a => exact hf a rfl

theorem bind_ok {g : α → β} (h : Avoids bad x) : Avoids bad (x >>= fun a ↦ .ok (g a)) :=
  h.bind fun _ _ ↦ ok

theorem mapError {g : ε → ε'} (h : Avoids (fun e ↦ bad' (g e)) x) : Avoids bad' (x.mapError g) := by
  cases x with
  | error e => exact error (h e rfl)
  | ok a => exact ok

end Avoids

def AlgebraError.IsMissing : AlgebraError → Prop
  | missingState => True
  | _ => False

def GrammarError.IsMissing : GrammarError → Prop
  | algebra e => e.IsMissing
  | _ => False

def ExprError.IsMissing : ExprError → Prop
  | algebra e => e.IsMissing
  | grammar e => e.IsMissing
  | _ => False

namespace Automaton

open AlgebraError (IsMissing)

variable {m m' : Automaton}

theorem avoids_symbolsOfCodes {before : Array String} {lo n : Nat} :
    Avoids IsMissing (symbolsOfCodes before lo n) := by
  induction n generalizing before lo with
  | zero => exact .ok
  | succ n ih =>
    unfold symbolsOfCodes symbolOfCode
    split
    · exact ih
    · rename_i e he
      split at he
      · cases he
      · cases he
        exact .error id

theorem avoids_ofCodes {lo hi : Nat} {a : Attributes} : Avoids IsMissing (ofCodes lo hi a) := by
  unfold ofCodes
  split
  · exact .error id
  · exact avoids_symbolsOfCodes.bind_ok

theorem avoids_combine (c : Connective) (hc : m.Closed) (hc' : m'.Closed) :
    Avoids IsMissing (Checked.combine c m m') := by
  rw [checked_combine hc hc', combine]
  split
  · exact .error id
  · exact .ok

end Automaton

namespace Expr

open Automaton (Denotes)
open ExprError (IsMissing)

variable {s : Scope} {d : Draft} {m : Automaton}

theorem avoids_rangeAutomaton {a : Attributes} {lower upper : Expr} :
    Avoids IsMissing (rangeAutomaton a lower upper) := by
  unfold rangeAutomaton
  split
  · exact .error id
  · split
    · exact .error id
    · exact .mapError Automaton.avoids_ofCodes

theorem avoids_concatenateAll {ms : List Automaton} {Ls : List (Language Label)}
    (h : List.Forall₂ Denotes ms Ls) :
    Avoids AlgebraError.IsMissing (Automaton.Checked.concatenateAll ms) := by
  cases h with
  | nil => exact .error id
  | cons hd hs =>
    obtain ⟨p, hp, -⟩ := hd.foldlM_concatenate hs
    rw [Automaton.Checked.concatenateAll, hp]
    exact .ok

theorem avoids_orAll {ms : List Automaton} :
    Avoids AlgebraError.IsMissing (Automaton.orAll ms) := by
  cases ms with
  | nil => exact .error id
  | cons m ms => exact .ok

theorem avoids_withWords {words : List String} : Avoids IsMissing (withWords m words) := by
  unfold withWords
  split
  · exact .error id
  · exact .mapError fun _ _ ↦ id

theorem avoids_action {name : String} {arguments : List Argument} {buildsTree : Bool} :
    Avoids GrammarError.IsMissing (Draft.action name arguments buildsTree) := by
  unfold Draft.action
  split
  · exact .ok
  · exact .error id

theorem avoids_referenceAutomaton {name : String} :
    Avoids IsMissing (referenceAutomaton d name) := by
  unfold referenceAutomaton
  split
  · exact .ok
  · exact .error id

mutual

theorem avoids_toAutomaton (h : s.Describes d) (e : Expr) : Avoids IsMissing (e.toAutomaton d) := by
  cases e with
  | symbol n => exact .ok
  | literal t => exact .ok
  | code n => exact .mapError Automaton.avoids_ofCodes
  | range lower upper => exact avoids_rangeAutomaton
  | sequence l =>
    refine (avoids_toAutomata h l).bind fun ms hms ↦ .mapError ?_
    exact avoids_concatenateAll ((succeedsIff_toAutomata h l).of_eq_ok _ hms)
  | alternation l => exact (avoids_toAutomata h l).bind fun ms _ ↦ .mapError avoids_orAll
  | star e => exact (avoids_toAutomaton h e).bind_ok
  | plus e => exact (avoids_toAutomaton h e).bind_ok
  | optional e => exact (avoids_toAutomaton h e).bind_ok
  | intersection a b =>
    refine (avoids_toAutomaton h a).bind fun m hm ↦ (avoids_toAutomaton h b).bind fun m' hm' ↦ ?_
    have hc := (h.denotes hm).tidy.closed
    have hc' := (h.denotes hm').tidy.closed
    exact .mapError (Automaton.avoids_combine .intersect hc hc')
  | difference a b =>
    refine (avoids_toAutomaton h a).bind fun m hm ↦ (avoids_toAutomaton h b).bind fun m' hm' ↦ ?_
    have hc := (h.denotes hm).tidy.closed
    have hc' := (h.denotes hm').tidy.closed
    exact .mapError (Automaton.avoids_combine .difference hc hc')
  | attributed e words => exact (avoids_toAutomaton h e).bind fun m _ ↦ avoids_withWords
  | action n l b => exact .mapError avoids_action
  | reference n => exact avoids_referenceAutomaton
  | empty => exact .ok

theorem avoids_toAutomata (h : s.Describes d) (l : List Expr) :
    Avoids IsMissing (toAutomata d l) := by
  cases l with
  | nil => exact .ok
  | cons e l =>
    exact (avoids_toAutomaton h e).bind fun m _ ↦ (avoids_toAutomata h l).bind_ok

end

end Expr

end RightPart
