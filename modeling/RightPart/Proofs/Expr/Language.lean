import RightPart.Proofs.Expr.Attributes
import RightPart.Grammar.Define

namespace RightPart

open Computability
open Automaton (ActionFree)

/-- What the meaning of an expression depends on: the kind of the grammar, the declared
nonterminals, and the languages of the macros defined so far. -/
structure Scope where
  kind : Kind
  isNonterminal : String → Bool
  macros : String → Option (Language Label)

namespace Scope

def label (s : Scope) (name : String) : Label :=
  .symbol name (.defaultFor s.kind (s.isNonterminal name))

def terminal (s : Scope) (name : String) : Label := .symbol name (.defaultFor s.kind false)

end Scope

namespace Expr

/-- The bounds of a range are two codes, or two literals of one character each. -/
inductive Bounds : Expr → Expr → Nat → Nat → Prop
  | codes (lower upper : Nat) : Bounds (.code lower) (.code upper) lower upper
  | characters (lower upper : Char) :
      Bounds (.literal lower.toString) (.literal upper.toString) lower.toNat upper.toNat

mutual

/-- The words of labels that an expression stands for. -/
def language (s : Scope) : Expr → Language Label
  | symbol n => (s.macros n).getD {[s.label n]}
  | literal t =>
    if s.kind = .scanner then {t.toList.map fun c ↦ s.terminal c.toString} else {[s.terminal t]}
  | code n => {w | ∃ c : Char, c.toNat = n ∧ w = [s.terminal c.toString]}
  | range lower upper => {w | ∃ lo hi, Bounds lower upper lo hi ∧
      ∃ c : Char, lo ≤ c.toNat ∧ c.toNat ≤ hi ∧ w = [s.terminal c.toString]}
  | sequence l => (languages s l).prod
  | alternation l => (languages s l).sum
  | star e => (e.language s)∗
  | plus e => e.language s * (e.language s)∗
  | optional e => e.language s + 1
  | intersection a b => {w | w ∈ a.language s ∧ w ∈ b.language s}
  | difference a b => {w | w ∈ a.language s ∧ w ∉ b.language s}
  | attributed e words => Label.appliedTo words (e.language s)
  | action n l b => {[.action n l b]}
  | reference n => (s.macros n).getD 0
  | empty => 1

def languages (s : Scope) : List Expr → List (Language Label)
  | [] => []
  | e :: l => e.language s :: languages s l

end

mutual

def WellFormed (s : Scope) : Expr → Prop
  | symbol _ => True
  | literal _ => True
  | code n => n.isValidChar
  | range lower upper => ∃ lo hi, Bounds lower upper lo hi ∧ lo ≤ hi ∧ ∀ c, lo ≤ c → c ≤ hi →
      c.isValidChar
  | sequence l => AllWellFormed s l ∧ l ≠ []
  | alternation l => AllWellFormed s l ∧ l ≠ []
  | star e => e.WellFormed s
  | plus e => e.WellFormed s
  | optional e => e.WellFormed s
  | intersection a b =>
    a.WellFormed s ∧ b.WellFormed s ∧ ActionFree (a.language s) ∧ ActionFree (b.language s)
  | difference a b =>
    a.WellFormed s ∧ b.WellFormed s ∧ ActionFree (a.language s) ∧ ActionFree (b.language s)
  | attributed e words => e.WellFormed s ∧ ActionFree (e.language s) ∧
      ((∀ word ∈ words, (AttributeWord.ofString? word).isSome) ∨ ∀ w ∈ e.language s, w = [])
  | action n _ _ => Text.isIdentifier n
  | reference n => (s.macros n).isSome
  | empty => True

def AllWellFormed (s : Scope) : List Expr → Prop
  | [] => True
  | e :: l => e.WellFormed s ∧ AllWellFormed s l

end

theorem singleCode?_eq_some {t : String} {n : Nat} :
    singleCode? t = some n ↔ ∃ c : Char, t = c.toString ∧ c.toNat = n := by
  unfold singleCode?
  constructor
  · intro h
    split at h
    · rename_i c hc
      exact ⟨c, String.toList_inj.1 (hc.trans (by simp)), Option.some.inj h⟩
    · cases h
  · intro h
    obtain ⟨c, rfl, rfl⟩ := h
    simp

theorem rangeBounds?_eq_some {lower upper : Expr} {lo hi : Nat} :
    rangeBounds? lower upper = some (lo, hi) ↔ Bounds lower upper lo hi := by
  constructor
  · intro h
    unfold rangeBounds? at h
    split at h
    · obtain ⟨rfl, rfl⟩ := Prod.mk.inj (Option.some.inj h)
      exact .codes _ _
    · obtain ⟨n, hn, h⟩ := Option.bind_eq_some_iff.1 h
      obtain ⟨k, hk, h⟩ := Option.bind_eq_some_iff.1 h
      obtain ⟨rfl, rfl⟩ := Prod.mk.inj (Option.some.inj h)
      obtain ⟨c, rfl, rfl⟩ := singleCode?_eq_some.1 hn
      obtain ⟨c', rfl, rfl⟩ := singleCode?_eq_some.1 hk
      exact .characters c c'
    · cases h
  · intro h
    cases h with
    | codes => rfl
    | characters c c' =>
      rw [rangeBounds?, singleCode?_eq_some.2 ⟨c, rfl, rfl⟩, singleCode?_eq_some.2 ⟨c', rfl, rfl⟩]
      rfl

end Expr

end RightPart
