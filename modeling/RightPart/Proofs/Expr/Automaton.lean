import RightPart.Proofs.Automaton.Codes
import RightPart.Proofs.Automaton.Regular
import RightPart.Proofs.Expr.Language

namespace RightPart

open Computability

/-- A computation succeeds exactly on a condition, and its result then has a property. -/
structure SucceedsIff {ε α : Type} (x : Except ε α) (W : Prop) (P : α → Prop) : Prop where
  exists_iff : (∃ a, x = .ok a) ↔ W
  of_eq_ok : ∀ a, x = .ok a → P a

namespace SucceedsIff

variable {ε ε' α β : Type} {x : Except ε α} {f : α → Except ε β} {W V : Prop} {P : α → Prop}
  {Q : β → Prop}

theorem ok {a : α} (hw : W) (h : P a) : SucceedsIff (.ok a : Except ε α) W P :=
  ⟨⟨fun _ ↦ hw, fun _ ↦ ⟨a, rfl⟩⟩, fun _ ha ↦ Except.ok.inj ha ▸ h⟩

theorem error {e : ε} (hw : ¬ W) : SucceedsIff (.error e : Except ε α) W P := by
  refine ⟨⟨fun h ↦ ?_, fun h ↦ absurd h hw⟩, fun _ h ↦ by cases h⟩
  obtain ⟨_, h⟩ := h
  cases h

theorem congr {V : Prop} {Q : α → Prop} (h : SucceedsIff x W P) (hw : W ↔ V) (hp : ∀ a, P a → Q a) :
    SucceedsIff x V Q :=
  ⟨h.exists_iff.trans hw, fun a ha ↦ hp a (h.of_eq_ok a ha)⟩

theorem mapError (f : ε → ε') (h : SucceedsIff x W P) : SucceedsIff (x.mapError f) W P := by
  cases x with
  | error e =>
    refine error fun hw ↦ ?_
    obtain ⟨_, he⟩ := h.exists_iff.2 hw
    cases he
  | ok a => exact ok (h.exists_iff.1 ⟨a, rfl⟩) (h.of_eq_ok a rfl)

theorem bind (h : SucceedsIff x W P) (hf : ∀ a, P a → SucceedsIff (f a) V Q) :
    SucceedsIff (x >>= f) (W ∧ V) Q := by
  cases x with
  | error e =>
    refine error fun hw ↦ ?_
    obtain ⟨_, he⟩ := h.exists_iff.2 hw.1
    cases he
  | ok a =>
    have hw := h.exists_iff.1 ⟨a, rfl⟩
    exact (hf a (h.of_eq_ok a rfl)).congr (and_iff_right hw).symm fun _ hb ↦ hb

theorem bind_ok {g : α → β} (h : SucceedsIff x W P) (hg : ∀ a, P a → Q (g a)) :
    SucceedsIff (x >>= fun a ↦ .ok (g a)) W Q :=
  (h.bind fun a ha ↦ ok trivial (hg a ha)).congr (iff_of_eq (and_true _)) fun _ hb ↦ hb

end SucceedsIff

namespace Automaton

variable {m m' : Automaton} {L L' : Language Label}

/-- An automaton as the operators make it, with its language. -/
structure Denotes (m : Automaton) (L : Language Label) : Prop where
  tidy : m.Tidy
  language_eq : m.language = L

theorem Denotes.union (h : m.Denotes L) (h' : m'.Denotes L') : (m.union m').Denotes (L + L') := by
  refine ⟨tidy_union h.tidy h'.tidy, ?_⟩
  rw [language_union h.tidy.closed h'.tidy.closed, h.language_eq, h'.language_eq]

theorem Denotes.concatenate (h : m.Denotes L) (h' : m'.Denotes L') :
    ∃ p, Checked.concatenate m m' = .ok p ∧ p.Denotes (L * L') := by
  refine ⟨_, checked_concatenate h.tidy.closed h'.tidy.closed, tidy_concatenate h.tidy h'.tidy, ?_⟩
  rw [language_concatenate h.tidy.closed h'.tidy.closed, h.language_eq, h'.language_eq]

theorem Denotes.plus (h : m.Denotes L) : m.plus.Denotes (L * L∗) :=
  ⟨tidy_plus h.tidy, by rw [language_plus, h.language_eq]⟩

theorem Denotes.star (h : m.Denotes L) : m.star.Denotes L∗ :=
  ⟨tidy_star h.tidy, by rw [language_star h.tidy.closed, h.language_eq]⟩

theorem Denotes.optional (h : m.Denotes L) : m.optional.Denotes (L + 1) :=
  ⟨tidy_optional h.tidy, by rw [language_optional h.tidy.closed, h.language_eq]⟩

section Lists

variable {ms : List Automaton} {Ls : List (Language Label)}

theorem denotes_all (hs : List.Forall₂ Denotes ms Ls) :
    (∀ m ∈ ms, m.Tidy) ∧ ms.map language = Ls := by
  induction hs with
  | nil => exact ⟨nofun, rfl⟩
  | cons h _ ih =>
    exact ⟨List.forall_mem_cons.2 ⟨h.tidy, ih.1⟩, by rw [List.map_cons, h.language_eq, ih.2]⟩

theorem Denotes.foldlM_concatenate (h : m.Denotes L) (hs : List.Forall₂ Denotes ms Ls) :
    ∃ p, ms.foldlM Checked.concatenate m = .ok p ∧ p.Denotes (L * Ls.prod) := by
  obtain ⟨htidy, rfl⟩ := denotes_all hs
  obtain ⟨p, hp, ht, hL⟩ := exists_foldlM_concatenate Tidy.closed tidy_concatenate h.tidy htidy
  exact ⟨p, hp, ht, by rw [hL, h.language_eq]⟩

theorem Denotes.foldl_union (h : m.Denotes L) (hs : List.Forall₂ Denotes ms Ls) :
    (ms.foldl Automaton.union m).Denotes (L + Ls.sum) := by
  obtain ⟨htidy, rfl⟩ := denotes_all hs
  obtain ⟨ht, hL⟩ := language_foldl_union Tidy.closed tidy_union h.tidy htidy
  exact ⟨ht, by rw [hL, h.language_eq]⟩

end Lists

end Automaton

/-- A scope says what a draft declares, and which languages its macros have. -/
structure Scope.Describes (s : Scope) (d : Draft) : Prop where
  kind_eq : s.kind = d.kind
  isNonterminal_eq : ∀ name, s.isNonterminal name = d.isNonterminal name
  macros : ∀ name, Option.Rel Automaton.Denotes (d.macros.get? name) (s.macros name)

theorem Scope.Describes.macros_cases {s : Scope} {d : Draft} (h : s.Describes d) (name : String) :
    (d.macros.get? name = .none ∧ s.macros name = .none) ∨
      ∃ m L, d.macros.get? name = some m ∧ s.macros name = some L ∧ m.Denotes L := by
  have hmacro := h.macros name
  generalize d.macros.get? name = x at hmacro
  generalize s.macros name = y at hmacro
  cases hmacro with
  | none => exact .inl ⟨rfl, rfl⟩
  | some hd => exact .inr ⟨_, _, rfl, rfl, hd⟩

namespace Expr

open Automaton (Denotes ActionFree)

variable {s : Scope} {d : Draft} {m m' : Automaton} {L L' : Language Label}

theorem denotes_symbolAutomaton (h : s.Describes d) (name : String) :
    (symbolAutomaton d name).Denotes (language s (.symbol name)) := by
  unfold symbolAutomaton language
  rcases h.macros_cases name with ⟨hm, hL⟩ | ⟨m, L, hm, hL, hd⟩
  · rw [hm, hL]
    have hlabel : s.label name = d.label name := by
      rw [Scope.label, h.kind_eq, h.isNonterminal_eq]
      rfl
    rw [hlabel]
    exact ⟨Automaton.tidy_ofLabel, Automaton.language_ofLabel⟩
  · rw [hm, hL]
    exact hd

theorem denotes_literalAutomaton (h : s.Describes d) (text : String) :
    (literalAutomaton d.kind text).Denotes (language s (.literal text)) := by
  unfold literalAutomaton language
  dsimp only
  rw [h.kind_eq]
  split
  · refine ⟨Automaton.tidy_ofWord, Automaton.language_ofWord.trans ?_⟩
    simp only [Scope.terminal, h.kind_eq]
  · refine ⟨Automaton.tidy_ofLabel, Automaton.language_ofLabel.trans ?_⟩
    simp only [Scope.terminal, h.kind_eq]

theorem succeedsIff_ofCode (h : s.Describes d) (n : Nat) :
    SucceedsIff (Automaton.ofCode n (.defaultFor d.kind false)) n.isValidChar
      (Denotes · (language s (.code n))) := by
  constructor
  · refine (Automaton.exists_ofCodes le_rfl).trans ⟨fun hk ↦ hk n le_rfl le_rfl,
      fun hn k hk hk' ↦ ?_⟩
    rwa [← Nat.le_antisymm hk hk']
  · intro m hm
    obtain ⟨ht, hL⟩ := Automaton.ofCodes_spec le_rfl hm
    refine ⟨ht, hL.trans (Language.ext fun w ↦ exists_congr fun c ↦ ?_)⟩
    rw [Scope.terminal, h.kind_eq, ← and_assoc, ← Nat.le_antisymm_iff, eq_comm (a := n)]

theorem succeedsIff_rangeAutomaton (h : s.Describes d) (lower upper : Expr) :
    SucceedsIff (rangeAutomaton (.defaultFor d.kind false) lower upper)
      ((range lower upper).WellFormed s)
      (Denotes · (language s (.range lower upper))) := by
  unfold rangeAutomaton
  cases hb : rangeBounds? lower upper with
  | none =>
    refine .error fun hw ↦ ?_
    obtain ⟨lo, hi, hlu, -⟩ := hw
    rw [rangeBounds?_eq_some.2 hlu] at hb
    cases hb
  | some b =>
    obtain ⟨lo, hi⟩ := b
    have hbounds := rangeBounds?_eq_some.1 hb
    have hunique : ∀ {lo' hi'}, Bounds lower upper lo' hi' → lo' = lo ∧ hi' = hi := by
      intro lo' hi' h'
      have := (rangeBounds?_eq_some.2 h').symm.trans hb
      exact Prod.mk.inj (Option.some.inj this)
    dsimp only
    by_cases hlt : hi < lo
    · rw [if_pos hlt]
      refine .error fun hw ↦ ?_
      obtain ⟨lo', hi', hb', hle, -⟩ := hw
      obtain ⟨rfl, rfl⟩ := hunique hb'
      exact absurd hlt (Nat.not_lt.2 hle)
    · rw [if_neg hlt]
      have hle := Nat.le_of_not_lt hlt
      refine SucceedsIff.mapError _ ⟨(Automaton.exists_ofCodes hle).trans ?_, fun m hm ↦ ?_⟩
      · refine ⟨fun hk ↦ ⟨lo, hi, hbounds, hle, hk⟩, fun hw ↦ ?_⟩
        obtain ⟨lo', hi', hb', -, hk⟩ := hw
        obtain ⟨rfl, rfl⟩ := hunique hb'
        exact hk
      · obtain ⟨ht, hL⟩ := Automaton.ofCodes_spec hle hm
        refine ⟨ht, hL.trans (Language.ext fun w ↦ ?_)⟩
        constructor
        · intro hw
          obtain ⟨c, hc, hc', rfl⟩ := hw
          exact ⟨lo, hi, hbounds, c, hc, hc', by rw [Scope.terminal, h.kind_eq]⟩
        · intro hw
          obtain ⟨lo', hi', hb', c, hc, hc', rfl⟩ := hw
          obtain ⟨rfl, rfl⟩ := hunique hb'
          exact ⟨c, hc, hc', by rw [Scope.terminal, h.kind_eq]⟩

theorem succeedsIff_concatenateAll {ms : List Automaton} {l : List Expr}
    (h : List.Forall₂ Denotes ms (languages s l)) :
    SucceedsIff (Automaton.Checked.concatenateAll ms) (l ≠ [])
      (Denotes · (language s (.sequence l))) := by
  cases l with
  | nil =>
    obtain rfl := List.forall₂_nil_right_iff.1 h
    exact .error fun hw ↦ hw rfl
  | cons e l =>
    obtain ⟨m, ms, hd, hs, rfl⟩ := List.forall₂_cons_right_iff.1 h
    obtain ⟨p, hp, hd⟩ := hd.foldlM_concatenate hs
    rw [Automaton.Checked.concatenateAll, hp, language, languages, List.prod_cons]
    exact .ok (List.cons_ne_nil _ _) hd

theorem succeedsIff_orAll {ms : List Automaton} {l : List Expr}
    (h : List.Forall₂ Denotes ms (languages s l)) :
    SucceedsIff (Automaton.orAll ms) (l ≠ []) (Denotes · (language s (.alternation l))) := by
  cases l with
  | nil =>
    obtain rfl := List.forall₂_nil_right_iff.1 h
    exact .error fun hw ↦ hw rfl
  | cons e l =>
    obtain ⟨m, ms, hd, hs, rfl⟩ := List.forall₂_cons_right_iff.1 h
    rw [Automaton.orAll, language, languages, List.sum_cons]
    exact .ok (List.cons_ne_nil _ _) (hd.foldl_union hs)

theorem succeedsIff_combine (c : Automaton.Connective) (h : m.Denotes L) (h' : m'.Denotes L') :
    SucceedsIff (Automaton.Checked.combine c m m') (ActionFree L ∧ ActionFree L')
      (Denotes · {w | c.Asks L L' w}) := by
  obtain ⟨ht, rfl⟩ := h
  obtain ⟨ht', rfl⟩ := h'
  rw [Automaton.checked_combine ht.closed ht'.closed]
  exact ⟨Automaton.exists_combine ht ht', fun p hp ↦
    ⟨Automaton.tidy_combine hp ht.unentered,
      Language.ext fun w ↦ Automaton.mem_language_combine hp⟩⟩

theorem succeedsIff_withWords (words : List String) (h : m.Denotes L) :
    SucceedsIff (withWords m words)
      (ActionFree L ∧ ((∀ word ∈ words, (AttributeWord.ofString? word).isSome) ∨ ∀ w ∈ L, w = []))
      (Denotes · (Label.appliedTo words L)) := by
  obtain ⟨ht, rfl⟩ := h
  exact ⟨exists_withWords ht, fun p hp ↦ ⟨tidy_withWords ht hp, language_withWords ht hp⟩⟩

theorem succeedsIff_action (name : String) (arguments : List Argument) (buildsTree : Bool) :
    SucceedsIff (Draft.action name arguments buildsTree) (Text.isIdentifier name)
      (Denotes · (language s (.action name arguments buildsTree))) := by
  unfold Draft.action language
  split
  · exact .ok ‹_› ⟨Automaton.tidy_ofLabel, Automaton.language_ofLabel⟩
  · exact .error ‹_›

theorem succeedsIff_referenceAutomaton (h : s.Describes d) (name : String) :
    SucceedsIff (referenceAutomaton d name) (s.macros name).isSome
      (Denotes · (language s (.reference name))) := by
  unfold referenceAutomaton language
  rcases h.macros_cases name with ⟨hm, hL⟩ | ⟨m, L, hm, hL, hd⟩
  · rw [hm, hL]
    exact .error (by simp)
  · rw [hm, hL]
    exact .ok rfl hd

mutual

/-- An expression has an automaton exactly if it is well formed, and its automaton has
its language. -/
theorem succeedsIff_toAutomaton (h : s.Describes d) (e : Expr) :
    SucceedsIff (e.toAutomaton d) (e.WellFormed s) (Denotes · (e.language s)) := by
  cases e with
  | symbol n => exact .ok trivial (denotes_symbolAutomaton h n)
  | literal t => exact .ok trivial (denotes_literalAutomaton h t)
  | code n => exact (succeedsIff_ofCode h n).mapError _
  | range lower upper => exact succeedsIff_rangeAutomaton h lower upper
  | sequence l =>
    refine (succeedsIff_toAutomata h l).bind fun ms hs ↦ ?_
    exact (succeedsIff_concatenateAll hs).mapError _
  | alternation l =>
    refine (succeedsIff_toAutomata h l).bind fun ms hs ↦ ?_
    exact (succeedsIff_orAll hs).mapError _
  | star e => exact (succeedsIff_toAutomaton h e).bind_ok fun m hm ↦ hm.star
  | plus e => exact (succeedsIff_toAutomaton h e).bind_ok fun m hm ↦ hm.plus
  | optional e => exact (succeedsIff_toAutomaton h e).bind_ok fun m hm ↦ hm.optional
  | intersection a b =>
    refine (succeedsIff_toAutomaton h a).bind fun m hm ↦ ?_
    refine (succeedsIff_toAutomaton h b).bind fun m' hm' ↦ ?_
    exact (succeedsIff_combine .intersect hm hm').mapError _
  | difference a b =>
    refine (succeedsIff_toAutomaton h a).bind fun m hm ↦ ?_
    refine (succeedsIff_toAutomaton h b).bind fun m' hm' ↦ ?_
    exact (succeedsIff_combine .difference hm hm').mapError _
  | attributed e words =>
    exact (succeedsIff_toAutomaton h e).bind fun m hm ↦ succeedsIff_withWords words hm
  | action n l b => exact (succeedsIff_action n l b).mapError _
  | reference n => exact succeedsIff_referenceAutomaton h n
  | empty => exact .ok trivial ⟨Automaton.tidy_empty, Automaton.language_empty⟩

theorem succeedsIff_toAutomata (h : s.Describes d) (l : List Expr) :
    SucceedsIff (toAutomata d l) (AllWellFormed s l) (List.Forall₂ Denotes · (languages s l)) := by
  cases l with
  | nil => exact .ok trivial .nil
  | cons e l =>
    refine (succeedsIff_toAutomaton h e).bind fun m hm ↦ ?_
    exact (succeedsIff_toAutomata h l).bind_ok fun ms hs ↦ .cons hm hs

end

end Expr

end RightPart
