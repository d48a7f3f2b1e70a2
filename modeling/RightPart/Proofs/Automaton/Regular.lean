import RightPart.Proofs.Automaton.Iteration

namespace RightPart.Automaton

open Computability

variable {m m' : Automaton} {l : List Automaton} {w : List Label}

section Lists

variable {P : Automaton → Prop}

theorem exists_foldlM_concatenate (hclosed : ∀ {m}, P m → m.Closed)
    (hstep : ∀ {m m'}, P m → P m' → P (m.concatenate m')) (h : P m) (hl : ∀ m' ∈ l, P m') :
    ∃ p, l.foldlM Checked.concatenate m = .ok p ∧ P p ∧
      p.language = m.language * (l.map language).prod := by
  induction l generalizing m with
  | nil => exact ⟨m, rfl, h, by rw [List.map_nil, List.prod_nil, mul_one]⟩
  | cons m' l ih =>
    obtain ⟨h', hl⟩ := List.forall_mem_cons.1 hl
    obtain ⟨p, hp, hP, hL⟩ := ih (hstep h h') hl
    refine ⟨p, ?_, hP, ?_⟩
    · rw [List.foldlM_cons, checked_concatenate (hclosed h) (hclosed h')]
      exact hp
    · rw [hL, language_concatenate (hclosed h) (hclosed h'), List.map_cons, List.prod_cons,
        mul_assoc]

theorem language_foldl_union (hclosed : ∀ {m}, P m → m.Closed)
    (hstep : ∀ {m m'}, P m → P m' → P (m.union m')) (h : P m) (hl : ∀ m' ∈ l, P m') :
    P (l.foldl union m) ∧ (l.foldl union m).language = m.language + (l.map language).sum := by
  induction l generalizing m with
  | nil => exact ⟨h, by rw [List.foldl_nil, List.map_nil, List.sum_nil, add_zero]⟩
  | cons m' l ih =>
    obtain ⟨h', hl⟩ := List.forall_mem_cons.1 hl
    obtain ⟨hP, hL⟩ := ih (hstep h h') hl
    refine ⟨hP, ?_⟩
    rw [List.foldl_cons, hL, language_union (hclosed h) (hclosed h'), List.map_cons, List.sum_cons,
      add_assoc]

end Lists

theorem mem_sum_language : w ∈ (l.map language).sum ↔ ∃ m ∈ l, w ∈ m.language := by
  induction l with
  | nil => simp [Language.notMem_zero]
  | cons m l ih => rw [List.map_cons, List.sum_cons, Language.mem_add, ih, List.exists_mem_cons_iff]

theorem mem_language_plus :
    w ∈ m.plus.language ↔ ∃ ws, ws ≠ [] ∧ (∀ v ∈ ws, v ∈ m.language) ∧ ws.flatten = w := by
  rw [language_plus, Language.mem_mul]
  constructor
  · intro h
    obtain ⟨u, hu, v, hv, rfl⟩ := h
    obtain ⟨ws, rfl, hws⟩ := Language.mem_kstar.1 hv
    exact ⟨u :: ws, List.cons_ne_nil _ _, List.forall_mem_cons.2 ⟨hu, hws⟩, rfl⟩
  · intro h
    obtain ⟨ws, hne, hws, rfl⟩ := h
    obtain ⟨u, ws, rfl⟩ := List.exists_cons_of_ne_nil hne
    obtain ⟨hu, hws⟩ := List.forall_mem_cons.1 hws
    exact ⟨u, hu, ws.flatten, Language.mem_kstar.2 ⟨ws, rfl, hws⟩, rfl⟩

/-- Two closed automata are joined into one whose states are all useful and which accepts a word of
the first followed by a word of the second. A list of closed automata has the product of their
languages in their order, and is refused only if it is empty. -/
theorem concatenate_of_closed (hc : m.Closed) (hc' : m'.Closed) (hl : ∀ m ∈ l, m.Closed) :
    (∃ p, Checked.concatenate m m' = .ok p ∧
        (∀ w, w ∈ p.language ↔ ∃ u ∈ m.language, ∃ v ∈ m'.language, u ++ v = w) ∧
        ∀ i < p.size, p.Useful i) ∧
      (l ≠ [] → ∃ p, Checked.concatenateAll l = .ok p ∧ p.language = (l.map language).prod) ∧
      ∀ e, Checked.concatenateAll l = .error e ↔ l = [] ∧ e = .emptyOperands .concatenateAll := by
  refine ⟨⟨_, checked_concatenate hc hc', fun w ↦ ?_, useful_trim⟩, ?_⟩
  · rw [language_concatenate hc hc', Language.mem_mul]
  cases l with
  | nil =>
    refine ⟨absurd rfl, fun e ↦ ?_⟩
    rw [Checked.concatenateAll, Except.error.injEq, eq_comm]
    exact (and_iff_right rfl).symm
  | cons m l =>
    obtain ⟨h, hl⟩ := List.forall_mem_cons.1 hl
    obtain ⟨p, hp, -, hL⟩ := exists_foldlM_concatenate id closed_concatenate h hl
    have hall : Checked.concatenateAll (m :: l) = .ok p := hp
    refine ⟨fun _ ↦ ⟨p, hall, by rw [hL, List.map_cons, List.prod_cons]⟩, fun e ↦ ?_⟩
    rw [hall]
    exact iff_of_false nofun fun h ↦ List.cons_ne_nil _ _ h.1

def loop : Automaton :=
  ⟨#[{ isInitial := true, isFinal := true, transitions := [⟨.symbol "z" .parserTerminal, 0⟩] }]⟩

/-- A way round: the initial state is entered again from the final one. -/
def circle : Automaton :=
  ⟨#[{ isInitial := true, isFinal := false, transitions := [⟨.symbol "x" .parserTerminal, 1⟩] },
    { isInitial := false, isFinal := true, transitions := [⟨.symbol "y" .parserTerminal, 0⟩] }]⟩

theorem concatenate_loop_circle :
    (∃ p, Checked.concatenate loop circle = .ok p ∧ [.symbol "x" .parserTerminal] ∈ p.language ∧
        [.symbol "z" .parserTerminal, .symbol "x" .parserTerminal] ∈ p.language ∧ [] ∉ p.language) ∧
      ∃ p, Checked.concatenateAll [circle, loop, circle] = .ok p ∧
        [.symbol "x" .parserTerminal, .symbol "x" .parserTerminal] ∈ p.language := by
  obtain ⟨⟨p, hp, hw, -⟩, hall, -⟩ := concatenate_of_closed (l := [circle, loop, circle])
    (show loop.Closed by decide) (show circle.Closed by decide) (by decide)
  obtain ⟨q, hq, hL⟩ := hall (List.cons_ne_nil _ _)
  refine ⟨⟨p, hp, (hw _).2 ?_, (hw _).2 ?_, fun h ↦ ?_⟩, q, hq, ?_⟩
  · exact ⟨[], by decide +kernel, [.symbol "x" .parserTerminal], by decide +kernel, rfl⟩
  · exact ⟨[.symbol "z" .parserTerminal], by decide +kernel, [.symbol "x" .parserTerminal],
      by decide +kernel, rfl⟩
  · obtain ⟨u, -, v, hv, huv⟩ := (hw _).1 h
    obtain ⟨-, rfl⟩ := List.append_eq_nil_iff.1 huv
    exact absurd hv (by decide +kernel)
  · have hx : [.symbol "x" .parserTerminal] ∈ circle.language := by decide +kernel
    have hempty : [] ∈ loop.language := by decide +kernel
    rw [hL, List.map_cons, List.map_cons, List.map_cons, List.map_nil, List.prod_cons,
      List.prod_cons, List.prod_singleton]
    exact Language.append_mem_mul hx (Language.append_mem_mul hempty hx)

/-- Closed automata side by side accept the words of each, one that is repeated accepts its words
one after another, and one that may be left out accepts the empty word besides. -/
theorem languages_of_closed (hc : m.Closed) (hc' : m'.Closed) (hl : ∀ m ∈ l, m.Closed) :
    (m.union m').language = m.language + m'.language ∧
      (l ≠ [] → ∃ p, orAll l = .ok p ∧ ∀ w, w ∈ p.language ↔ ∃ m ∈ l, w ∈ m.language) ∧
      (∀ w, w ∈ m.plus.language ↔ ∃ ws, ws ≠ [] ∧ (∀ v ∈ ws, v ∈ m.language) ∧ ws.flatten = w) ∧
      m.star.language = m.language∗ ∧ m.optional.language = m.language + 1 := by
  refine ⟨language_union hc hc', fun hne ↦ ?_, fun w ↦ mem_language_plus, language_star hc,
    language_optional hc⟩
  obtain ⟨m, l, rfl⟩ := List.exists_cons_of_ne_nil hne
  obtain ⟨h, hl⟩ := List.forall_mem_cons.1 hl
  obtain ⟨-, hL⟩ := language_foldl_union id closed_union h hl
  refine ⟨_, rfl, fun w ↦ ?_⟩
  rw [hL, ← List.sum_cons, ← List.map_cons, mem_sum_language]

theorem languages_circle :
    [.symbol "x" .parserTerminal, .symbol "x" .parserTerminal] ∈ circle.plus.language ∧
      [] ∉ circle.plus.language ∧ [] ∈ circle.star.language ∧ [] ∈ circle.optional.language ∧
      [.symbol "z" .parserTerminal] ∈ (circle.union loop).language ∧
      ∃ p, orAll [circle, loop] = .ok p ∧ [.symbol "x" .parserTerminal] ∈ p.language := by
  obtain ⟨hunion, hall, hplus, hstar, hoptional⟩ := languages_of_closed (l := [circle, loop])
    (show circle.Closed by decide) (show loop.Closed by decide) (by decide)
  obtain ⟨p, hp, hw⟩ := hall (List.cons_ne_nil _ _)
  have hx : [.symbol "x" .parserTerminal] ∈ circle.language := by decide +kernel
  refine ⟨(hplus _).2 ?_, fun h ↦ ?_, ?_, ?_, ?_, p, hp, (hw _).2 ⟨circle, List.mem_cons_self, hx⟩⟩
  · exact ⟨[[.symbol "x" .parserTerminal], [.symbol "x" .parserTerminal]], List.cons_ne_nil _ _,
      List.forall_mem_cons.2 ⟨hx, List.forall_mem_singleton.2 hx⟩, rfl⟩
  · obtain ⟨ws, hne, hws, hflat⟩ := (hplus _).1 h
    obtain ⟨w, ws, rfl⟩ := List.exists_cons_of_ne_nil hne
    obtain ⟨rfl, -⟩ := List.append_eq_nil_iff.1 hflat
    exact absurd (hws _ List.mem_cons_self) (by decide +kernel)
  · exact hstar ▸ Language.nil_mem_kstar _
  · exact hoptional ▸ .inr rfl
  · have hz : [.symbol "z" .parserTerminal] ∈ loop.language := by decide +kernel
    exact hunion ▸ .inr hz

end RightPart.Automaton
