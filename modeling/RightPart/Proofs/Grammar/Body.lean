import RightPart.Proofs.Automaton.Trim
import RightPart.Proofs.Grammar.Registered

namespace RightPart

namespace Automaton

variable {m : Automaton} {name : String} {i j : Nat} {w : List Label}

@[simp] theorem size_setLeft : (m.setLeft name).size = m.size := Array.size_map

@[simp] theorem transitionsFrom_setLeft :
    (m.setLeft name).transitionsFrom i = m.transitionsFrom i := by
  simp only [transitionsFrom, setLeft, Array.getElem?_map, Option.map_map]
  rfl

@[simp] theorem isInitialAt_setLeft : (m.setLeft name).isInitialAt i = m.isInitialAt i := by
  simp only [isInitialAt, setLeft, Array.getElem?_map, Option.map_map]
  rfl

@[simp] theorem isFinalAt_setLeft : (m.setLeft name).isFinalAt i = m.isFinalAt i := by
  simp only [isFinalAt, setLeft, Array.getElem?_map, Option.map_map]
  rfl

@[simp] theorem path_setLeft : (m.setLeft name).Path i w j ↔ m.Path i w j := by
  constructor
  · intro h
    induction h with
    | nil => exact .nil _
    | cons ht _ ih => exact .cons (transitionsFrom_setLeft ▸ ht) ih
  · intro h
    induction h with
    | nil => exact .nil _
    | cons ht _ ih => exact .cons (transitionsFrom_setLeft.symm ▸ ht) ih

@[simp] theorem reaches_setLeft : (m.setLeft name).Reaches w i ↔ m.Reaches w i := by
  simp only [Reaches, mem_initials, isInitialAt_setLeft, path_setLeft]

@[simp] theorem language_setLeft : (m.setLeft name).language = m.language := by
  refine Language.ext fun w ↦ ?_
  simp only [mem_language_iff_reaches, reaches_setLeft, isFinalAt_setLeft]

theorem useful_setLeft (h : m.Useful i) : (m.setLeft name).Useful i := by
  obtain ⟨⟨w, hw⟩, v, j, hv, hj⟩ := h
  exact ⟨⟨w, reaches_setLeft.2 hw⟩, v, j, path_setLeft.2 hv, by rwa [isFinalAt_setLeft]⟩

theorem tidy_setLeft (h : m.Tidy) : (m.setLeft name).Tidy := by
  refine ⟨closed_iff.2 fun i t ht ↦ ?_, fun i hi ↦ ?_, fun i t ht ↦ ?_⟩
  · rw [size_setLeft]
    exact closed_iff.1 h.closed i t (transitionsFrom_setLeft ▸ ht)
  · exact useful_setLeft (h.useful i (size_setLeft ▸ hi))
  · rw [isInitialAt_setLeft]
    exact h.unentered i t (transitionsFrom_setLeft ▸ ht)

theorem exists_isInitialAt (h : ∀ i < m.size, m.Useful i) (hm : m.isEmpty = false) :
    ∃ i, m.isInitialAt i := by
  have hsize : 0 < m.size := by
    rw [Nat.pos_iff_ne_zero]
    intro h0
    simp [isEmpty, Array.isEmpty, size] at hm h0
    exact hm h0
  obtain ⟨w, i, hi, -⟩ := (h 0 hsize).reached
  exact ⟨i, mem_initials.1 hi⟩

end Automaton

namespace Draft

variable {d : Draft} {g : Grammar} {id : ProductionId} {p : Production} {left : String}
  {r : RightSide}

/-- The draft whose rules become the productions. -/
def prepared (d : Draft) : Draft := if d.kind = .parser then d.wrapGoals else d

/-- A production carries the trimmed body of a rule. -/
structure Carries (left : String) (r : RightSide) (p : Production) : Prop where
  left_eq : p.left = left
  lookahead_eq : p.lookahead = r.lookahead
  body_eq : p.body = r.body.trim.setLeft left
  nonempty : r.body.trim.isEmpty = false

theorem carries_of_register (h : register left r = .ok p) : Carries left r p := by
  unfold register at h
  split at h
  · cases h
  · rename_i m hm
    obtain rfl := Automaton.eq_trim_of_checked hm
    split at h
    · cases h
    · rename_i he
      cases h
      exact ⟨rfl, rfl, rfl, by simpa using he⟩

theorem Carries.tidy {r : RightSide} (hc : Carries left r p) (h : r.body.Tidy) : p.body.Tidy := by
  rw [hc.body_eq]
  exact Automaton.tidy_setLeft (Automaton.tidy_trim h.closed h.unentered)

theorem exists_of_registerAll {i : ProductionId} {l : List (String × RightSide)}
    {ps ps' : OrderedMap ProductionId Production} (h : registerAll i l ps = .ok ps') :
    ∀ e ∈ ps'.entries, e ∈ ps.entries ∨ ∃ r, (e.2.left, r) ∈ l ∧ Carries e.2.left r e.2 := by
  induction l generalizing i ps with
  | nil =>
    cases h
    exact fun e he ↦ .inl he
  | cons x l ih =>
    obtain ⟨left, r⟩ := x
    rw [registerAll] at h
    cases hr : register left r with
    | error e => simp [hr, bind, Except.bind] at h
    | ok p =>
      have hp := carries_of_register hr
      intro e he
      rcases ih (by simpa [hr, bind, Except.bind] using h) e he with he | ⟨r', hr', hc⟩
      · rcases OrderedMap.mem_alter he with he | rfl
        · exact .inl he
        · exact .inr ⟨r, hp.left_eq ▸ List.mem_cons_self, hp.left_eq.symm ▸ hp⟩
      · exact .inr ⟨r', List.mem_cons_of_mem _ hr', hc⟩

theorem exists_registerAll (h : d.finish = .ok g) :
    ∃ ps, registerAll 0 d.prepared.rules.entries ∅ = .ok ps ∧
      g = ({ d.prepared with productions := ps, nullables := ∅ } : Grammar).analyze := by
  have hd : (if d.kind = .parser then d.wrapGoals else d) = d.prepared := rfl
  simp only [finish, bind, Except.bind, hd] at h
  split at h
  · cases h
  · split at h
    · cases h
    · rename_i ps hps
      exact ⟨ps, hps, analyze_eq_ok h⟩

theorem exists_rule (h : d.finish = .ok g) (hp : g.productions.get? id = some p) :
    ∃ r, (p.left, r) ∈ d.prepared.rules.entries ∧ Carries p.left r p := by
  obtain ⟨ps, hps, rfl⟩ := exists_registerAll h
  have hm := OrderedMap.get?_eq_some.1 hp
  rw [Grammar.analyze, OrderedMap.entries_mapValues] at hm
  obtain ⟨e, he, heq⟩ := List.mem_map.1 hm
  obtain ⟨rfl, rfl⟩ := Prod.mk.inj heq
  obtain ⟨r, hr, hc⟩ := (exists_of_registerAll hps e he).resolve_left List.not_mem_nil
  exact ⟨r, hr, hc.left_eq, hc.lookahead_eq, hc.body_eq, hc.nonempty⟩

/-- Each state of a right part lies on a way from where it begins to where it ends. -/
theorem useful_body (h : d.finish = .ok g) (hp : g.productions.get? id = some p) :
    ∀ i < p.body.size, p.body.Useful i := by
  obtain ⟨r, -, hc⟩ := exists_rule h hp
  intro i hi
  rw [hc.body_eq] at hi ⊢
  exact Automaton.useful_setLeft (Automaton.useful_trim i (Automaton.size_setLeft ▸ hi))

theorem exists_isInitialAt_body (h : d.finish = .ok g) (hp : g.productions.get? id = some p) :
    ∃ i, p.body.isInitialAt i := by
  obtain ⟨r, -, hc⟩ := exists_rule h hp
  obtain ⟨i, hi⟩ := Automaton.exists_isInitialAt Automaton.useful_trim hc.nonempty
  rw [hc.body_eq]
  exact ⟨i, Automaton.isInitialAt_setLeft.trans hi⟩

end Draft

end RightPart
