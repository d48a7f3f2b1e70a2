import RightPart.Proofs.Grammar.Registered
import RightPart.Proofs.Readback.Graph

namespace RightPart.Grammar

def Ends (g : Grammar) (i : Item) (p : Production) : Prop :=
  g.productions.get? i.production = some p ∧ p.body.isFinalAt i.state

variable {g : Grammar}

theorem completed?_eq_some (hg : g.Registered) {i : Item} {n : String} :
    g.completed? i = some n ↔ ∃ p, g.Ends i p ∧ n = p.left := by
  unfold completed? Ends Automaton.isFinalAt
  cases hp : g.productions.get? i.production with
  | none => simp
  | some p =>
    cases hs : p.body.states[i.state]? with
    | none => simp [hs]
    | some s =>
      have hl := hg.left_eq _ (OrderedMap.get?_eq_some.1 hp) s (Array.mem_of_getElem? hs)
      by_cases hf : s.isFinal = true
      · simp only [hs, hf, hl, Option.bind_eq_bind, Option.bind_some, if_true, Option.some.injEq]
        constructor
        · intro h
          exact ⟨p, ⟨rfl, by simp [hs, hf]⟩, h.symm⟩
        · intro h
          obtain ⟨p', ⟨rfl, -⟩, rfl⟩ := h
          rfl
      · simp only [hs, hf, Option.bind_eq_bind, Option.bind_some, Option.some.injEq]
        refine ⟨nofun, fun h ↦ ?_⟩
        obtain ⟨p', ⟨rfl, he⟩, rfl⟩ := h
        simp [hs, hf] at he

/-- The places where a right part is complete in a state. -/
def IsCompletion (g : Grammar) (n : Nat) (id : ProductionId) (p : Production)
    (k : List Place) : Prop :=
  ∀ q, q ∈ k ↔ q.readahead = n ∧ g.automaton.Holds n q.item ∧ q.item.production = id ∧
    g.Ends q.item p

theorem of_mem_completions (hg : g.Registered) {n : Nat} {s : ReadaheadNode}
    (hs : g.automaton.nodes[n]? = some s) {c : String × Production × OrderedSet Place}
    (hc : c ∈ g.completions n s) :
    ∃ id, g.productions.get? id = some c.2.1 ∧ c.1 = c.2.1.left ∧
      g.IsCompletion n id c.2.1 c.2.2.toList ∧ ∃ q, q ∈ c.2.2 := by
  obtain ⟨⟨name, places⟩, he, hc⟩ := List.mem_filterMap.1 hc
  obtain ⟨⟨id, p⟩, hp, rfl⟩ := Option.map_eq_some_iff.1 hc
  obtain ⟨hid, hname⟩ := productionFor?_eq_some hp
  have hmem : ∀ q, q ∈ places ↔ q.readahead = n ∧ g.automaton.Holds n q.item ∧
      ∃ p', g.Ends q.item p' ∧ name = p'.left := by
    intro q
    rw [Family.mem_of_mem_gather he, List.mem_filterMap, ReadaheadAutomaton.holds_iff hs]
    simp only [Option.map_eq_some_iff, Prod.mk.injEq, completed?_eq_some hg]
    constructor
    · intro h
      obtain ⟨i, hi, m, hm, rfl, rfl⟩ := h
      exact ⟨rfl, hi, hm⟩
    · intro h
      obtain ⟨rfl, hi, hm⟩ := h
      exact ⟨q.item, hi, name, hm, rfl, rfl⟩
  refine ⟨id, hid, hname.symm, fun q ↦ (hmem q).trans ?_, Family.exists_mem_of_mem_gather he⟩
  refine and_congr_right fun _ ↦ and_congr_right fun _ ↦ ⟨fun h ↦ ?_, fun h ↦ ?_⟩
  · obtain ⟨p', hp', hl⟩ := h
    obtain ⟨rfl, rfl⟩ := hg.id_inj hp'.1 hid (hl.symm.trans hname.symm)
    exact ⟨rfl, hp'⟩
  · exact ⟨p, h.2, hname.symm⟩

theorem exists_mem_completions (hg : g.Registered) {n : Nat} {s : ReadaheadNode}
    (hs : g.automaton.nodes[n]? = some s) {i : Item} {p : Production} (hi : g.automaton.Holds n i)
    (hp : g.Ends i p) : ∃ c ∈ g.completions n s, c.2.1 = p := by
  have hm : (p.left, (⟨i, n⟩ : Place)) ∈ s.items.toList.filterMap fun i ↦
      (g.completed? i).map (·, (⟨i, n⟩ : Place)) :=
    List.mem_filterMap.2 ⟨i, (ReadaheadAutomaton.holds_iff hs).1 hi,
      Option.map_eq_some_iff.2 ⟨_, (completed?_eq_some hg).2 ⟨p, hp, rfl⟩, rfl⟩⟩
  obtain ⟨places, he, -⟩ := Family.exists_mem_gather hm
  refine ⟨(p.left, p, places), List.mem_filterMap.2 ⟨_, he, ?_⟩, rfl⟩
  rw [hg.productionFor? hp.1]
  rfl

end RightPart.Grammar
