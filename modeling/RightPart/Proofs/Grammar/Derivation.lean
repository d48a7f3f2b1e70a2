import RightPart.Automaton.Trim
import RightPart.Grammar.Basic

namespace RightPart

theorem Label.isRead_of_isAction {l : Label} (h : l.isAction) : l.isRead = false := by
  cases l <;> simp_all [isAction, isRead]

theorem Label.isAction_of_isRead {l : Label} (h : l.isRead) : l.isAction = false := by
  cases l <;> simp_all [isAction, isRead]

namespace Automaton

/-- A way through an automaton, with the labels met on it. -/
inductive Path (m : Automaton) : Nat → List Label → Nat → Prop
  | nil (i : Nat) : Path m i [] i
  | cons {i j : Nat} {t : Transition} {w : List Label} :
      t ∈ m.transitionsFrom i → Path m t.target w j → Path m i (t.label :: w) j

theorem Path.one {m : Automaton} {i : Nat} {t : Transition} (h : t ∈ m.transitionsFrom i) :
    m.Path i [t.label] t.target := .cons h (.nil _)

theorem Path.append {m : Automaton} {i j k : Nat} {w w' : List Label} (h : m.Path i w j)
    (h' : m.Path j w' k) : m.Path i (w ++ w') k := by
  induction h with
  | nil => exact h'
  | cons ht _ ih => exact .cons ht (ih h')

theorem Path.label {m : Automaton} {i j : Nat} {w : List Label} (h : m.Path i w j) {l : Label}
    (hl : l ∈ w) : ∃ e ∈ m.transitions, e.2.label = l := by
  induction h with
  | nil => cases hl
  | cons ht _ ih =>
    rcases List.mem_cons.1 hl with rfl | hl
    · exact ⟨_, mem_transitions.2 ht, rfl⟩
    · exact ih hl

def Accepts (m : Automaton) (w : List Label) : Prop :=
  ∃ i ∈ m.initials, ∃ j, m.Path i w j ∧ m.isFinalAt j

theorem mem_initials {m : Automaton} {i : Nat} : i ∈ m.initials ↔ m.isInitialAt i := by
  unfold initials ids
  rw [List.mem_filter, List.mem_range, and_iff_right_iff_imp]
  intro h
  refine Nat.lt_of_not_le fun hi ↦ ?_
  simp [isInitialAt, Array.getElem?_eq_none hi] at h

end Automaton

namespace Grammar

def labels (g : Grammar) : List Label :=
  g.productions.values.flatMap fun p ↦ p.body.transitions.map (·.2.label)

theorem mem_labels {g : Grammar} {id : ProductionId} {p : Production} {i : Nat} {t : Transition}
    (hp : g.productions.get? id = some p) (ht : t ∈ p.body.transitionsFrom i) :
    t.label ∈ g.labels := by
  have hv : p ∈ g.productions.values := OrderedMap.snd_mem_values (OrderedMap.get?_eq_some.1 hp)
  exact List.mem_flatMap.2 ⟨p, hv, List.mem_map.2 ⟨(i, t), Automaton.mem_transitions.2 ht, rfl⟩⟩

/-- The texts that a word of labels stands for: actions and looks vanish, a terminal that is read
stays, and a nonterminal that is read gives way to a text of a word of its right part. -/
inductive Expands (g : Grammar) : List Label → List String → Prop
  | nil : Expands g [] []
  | silent {l : Label} {w : List Label} {x : List String} :
      l.isRead = false → Expands g w x → Expands g (l :: w) x
  | terminal {l : Label} {w : List Label} {x : List String} :
      g.isReadTerminal l → Expands g w x → Expands g (l :: w) (l.name :: x)
  | nonterminal {l : Label} {w v : List Label} {x y : List String} {id : ProductionId}
      {p : Production} :
      l.isRead → g.isNonterminal l.name → g.productionFor? l.name = some (id, p) →
      p.body.Accepts v → Expands g v y → Expands g w x → Expands g (l :: w) (y ++ x)

/-- The terminal texts of a nonterminal. -/
def Derives (g : Grammar) (name : String) (x : List String) : Prop :=
  ∃ id p w, g.productionFor? name = some (id, p) ∧ p.body.Accepts w ∧ g.Expands w x

theorem Expands.append {g : Grammar} {w w' : List Label} {x x' : List String} (h : g.Expands w x)
    (h' : g.Expands w' x') : g.Expands (w ++ w') (x ++ x') := by
  induction h with
  | nil => exact h'
  | silent hl _ ih => exact .silent hl ih
  | terminal hl _ ih => exact .terminal hl ih
  | nonterminal hl hn hp ha hv _ _ ih =>
    rw [List.append_assoc]
    exact .nonterminal hl hn hp ha hv ih

theorem Expands.of_silent {g : Grammar} {l : Label} (h : l.isRead = false) : g.Expands [l] [] :=
  .silent h .nil

theorem Expands.of_terminal {g : Grammar} {l : Label} (h : g.isReadTerminal l) :
    g.Expands [l] [l.name] :=
  .terminal h .nil

theorem Derives.expands {g : Grammar} {l : Label} {x : List String} (h : g.Derives l.name x)
    (hl : l.isRead) (hn : g.isNonterminal l.name) : g.Expands [l] x := by
  obtain ⟨id, p, w, hp, ha, hx⟩ := h
  have := Expands.nonterminal hl hn hp ha hx .nil
  rwa [List.append_nil] at this

theorem derives_of_transition {g : Grammar} {name : String} {l : Label} {i j : Nat}
    {x : List String} (h : ∃ e ∈ (g.productionFor? name).toList, e.2.body.isInitialAt i ∧
      e.2.body.isFinalAt j ∧ ⟨l, j⟩ ∈ e.2.body.transitionsFrom i) (hx : g.Expands [l] x) :
    g.Derives name x := by
  obtain ⟨e, he, hi, hj, ht⟩ := h
  exact ⟨e.1, e.2, [l], Option.mem_toList.1 he, ⟨i, Automaton.mem_initials.2 hi, j, .one ht, hj⟩,
    hx⟩

theorem isNonterminalLabel_of_isRead {g : Grammar} {l : Label} (hl : l.isRead)
    (hn : g.isNonterminal l.name) : g.isNonterminalLabel l := by
  cases l <;> simp_all [isNonterminalLabel, Label.isAction, Label.isRead]

end Grammar

end RightPart
