import RightPart.Proofs.Grammar.First

namespace RightPart

def readSymbols (w : List Label) : List String := (w.filter Label.isRead).map Label.name

variable {l : Label} {w : List Label}

theorem readSymbols_cons_of_isRead (h : l.isRead) :
    readSymbols (l :: w) = l.name :: readSymbols w := by
  rw [readSymbols, List.filter_cons_of_pos h]
  rfl

theorem readSymbols_cons_of_silent (h : l.isRead = false) :
    readSymbols (l :: w) = readSymbols w := by
  rw [readSymbols, List.filter_cons_of_neg (by simp [h])]
  rfl

namespace Grammar

variable {g : Grammar} {name t c : String} {form form' x y : List String}

/-- A nonterminal in a form gives way to the symbols that a word of its right part reads. -/
inductive Rewrites (g : Grammar) : List String → List String → Prop
  | intro {name : String} {id : ProductionId} {p : Production} {w : List Label}
      (x y : List String) :
      g.isNonterminal name → g.productionFor? name = some (id, p) → p.body.Accepts w →
      Rewrites g (x ++ name :: y) (x ++ (readSymbols w ++ y))

theorem Rewrites.of_accepts (w : List Label) (x y : List String) (hn : g.isNonterminal name)
    (h : ∃ e ∈ (g.productionFor? name).toList, e.2.body.Accepts w) :
    g.Rewrites (x ++ name :: y) (x ++ (readSymbols w ++ y)) := by
  obtain ⟨e, he, hw⟩ := h
  exact .intro x y hn (Option.mem_toList.1 he) hw

/-- The forms that a nonterminal derives, of terminals and of nonterminals that are read. -/
def Sentential (g : Grammar) (name : String) : List String → Prop :=
  Relation.ReflTransGen g.Rewrites [name]

/-- What can come first in a form with a symbol behind it that counts as a terminal. -/
inductive Starts (g : Grammar) (t : String) : List String → String → Prop
  | nil : Starts g t [] t
  | terminal {c : String} {y : List String} : g.isNonterminal c = false → Starts g t (c :: y) c
  | first {b c : String} {y : List String} : g.isNonterminal b → c ∈ g.firsts b →
      Starts g t (b :: y) c
  | skip {b c : String} {y : List String} : b ∈ g.nullables → Starts g t y c → Starts g t (b :: y) c

def Opens (g : Grammar) (l : Label) (c : String) : Prop :=
  g.isReadTerminal l ∧ c = l.name ∨ g.isNonterminalLabel l ∧ c ∈ g.firsts l.name

/-- A symbol is the first that is met on the way through a right part from `i` to `j`, or on a way
that meets none it comes first in the form behind. -/
def Meets (g : Grammar) (t : String) (m : Automaton) (i j : Nat) (y : List String)
    (c : String) : Prop :=
  (∃ k, m.SilentTo g.nullables i k ∧ ∃ u ∈ m.transitionsFrom k, g.Opens u.label c) ∨
    m.SilentTo g.nullables i j ∧ g.Starts t y c

theorem Meets.of_silent {m : Automaton} {i j : Nat} {u : Transition} (hu : u ∈ m.transitionsFrom i)
    (hl : u.label.isSilent g.nullables) (h : g.Meets t m u.target j y c) : g.Meets t m i j y c := by
  have hone := Automaton.SilentTo.one hu hl
  rcases h with ⟨k, hk, hopens⟩ | ⟨hj, hc⟩
  · exact .inl ⟨k, hone.trans hk, hopens⟩
  · exact .inr ⟨hone.trans hj, hc⟩

theorem Starts.meets {m : Automaton} {i j : Nat} (hw : m.Path i w j)
    (h : g.Starts t (readSymbols w ++ y) c) : g.Meets t m i j y c := by
  induction hw with
  | nil => exact .inr ⟨.refl, h⟩
  | @cons i j u w hu _ ih =>
    by_cases hread : u.label.isRead = false
    · rw [readSymbols_cons_of_silent hread] at h
      exact (ih h).of_silent hu (Label.isSilent_iff.2 (.inl hread))
    · have hread := Bool.eq_true_of_not_eq_false hread
      rw [readSymbols_cons_of_isRead hread] at h
      cases h with
      | terminal hn => exact .inl ⟨i, .refl, u, hu, .inl ⟨by simp [isReadTerminal, hread, hn], rfl⟩⟩
      | first hn hc =>
        exact .inl ⟨i, .refl, u, hu, .inr ⟨isNonterminalLabel_of_isRead hread hn, hc⟩⟩
      | skip hb h => exact (ih h).of_silent hu (Label.isSilent_iff.2 (.inr hb))

section Rewrites

variable (hr : g.Registered) (ha : g.Analyzed) {id : ProductionId} {p : Production}
  (hn : g.isNonterminal name) (hp : g.productionFor? name = some (id, p)) (hw : p.body.Accepts w)

include hr ha hn hp hw

theorem Starts.of_rewrites (h : g.Starts t (x ++ (readSymbols w ++ y)) c) :
    g.Starts t (x ++ name :: y) c := by
  obtain ⟨hid, hname⟩ := productionFor?_eq_some hp
  obtain ⟨i, hi, j, hw, hj⟩ := hw
  induction x with
  | nil =>
    rcases h.meets hw with ⟨k, hk, u, hu, hopens⟩ | ⟨hij, h⟩
    · refine .first hn (hname ▸ ?_)
      have hclosed := firstClosed_firsts hr ha
      rcases hopens with ⟨hl, rfl⟩ | ⟨hl, hc⟩
      · exact hclosed.terminal id p hid i hi k hk u hu hl
      · obtain ⟨id', q, hq, hleft⟩ := exists_production_of_mem_firsts hc
        have hfor := hr.productionFor? hq
        rw [hleft] at hfor
        exact hclosed.nonterminal id p hid i hi k hk u hu hl id' q hfor (hleft ▸ hc)
    · have hnull := ha.nullable id p hid (Automaton.acceptsSilently_iff.2 ⟨i, hi, j, hij, hj⟩)
      exact .skip (hname ▸ hnull) h
  | cons b x ih =>
    cases h with
    | terminal hb => exact .terminal hb
    | first hb hc => exact .first hb hc
    | skip hb h => exact .skip hb (ih h)

end Rewrites

end Grammar

end RightPart
