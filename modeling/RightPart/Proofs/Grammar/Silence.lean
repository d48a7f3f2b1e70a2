import RightPart.Proofs.Grammar.Total
import RightPart.Proofs.Ordered.Closure

namespace RightPart.Automaton

universe u v

variable {m : Automaton} {nullables : OrderedSet String} {states : List Nat}

/-- A transition leads from one state to another without consuming input: it is taken on an action,
on a look, or on a symbol named in the set. -/
def SilentStep (m : Automaton) (nullables : OrderedSet String) (i j : Nat) : Prop :=
  ∃ t ∈ m.transitionsFrom i,
    (t.label.isAction ∨ t.label.isRead = false ∨ t.label.name ∈ nullables) ∧ t.target = j

theorem isClosure_silentClosure :
    IsClosure (m.SilentStep nullables) states (m.silentClosure nullables states) := by
  have hsilent : ∀ l : Label, l.isAction ∨ l.isRead = false ∨ l.name ∈ nullables ↔
      l.isSilent nullables := by
    intro l
    rw [Label.isSilent_iff]
    exact ⟨fun h ↦ h.elim (fun ha ↦ .inl (Label.isRead_of_isAction ha)) id, .inr⟩
  have hstep : m.SilentStep nullables = fun i j ↦ j ∈ m.silentSuccessors nullables i := by
    funext i j
    simp only [SilentStep, hsilent, mem_silentSuccessors]
  rw [hstep]
  exact OrderedSet.isClosure_closure states

/-- Closures hold exactly what can be reached, along the triples of a relation, forth and
back, or along the transitions of an automaton that consume nothing. The loops that make them
come to an end. -/
theorem closures_exact {α : Type u} {ρ : Type v} [Ord α] [Std.TransOrd α] [Std.LawfulEqOrd α]
    [DecidableEq α] [Ord ρ] [Std.TransOrd ρ] [Std.LawfulEqOrd ρ] (r : Relation α ρ) (m : Automaton)
    (nullables : OrderedSet String) :
    (∀ l, IsClosure (fun a b ↦ ∃ k, (a, k, b) ∈ r.triples) l (r.star l) ∧
        Sweep.Ends r.successors l (r.star l)) ∧
      (∀ a b, b ∈ r.star [a] ↔ a ∈ r.inverted.star [b]) ∧
      ∀ states, IsClosure (m.SilentStep nullables) states (m.silentClosure nullables states) ∧
        Sweep.Ends (m.silentSuccessors nullables) states (m.silentClosure nullables states) ∧
        (m.Closed → (∀ i ∈ states, i < m.size) →
          Checked.silentClosure m nullables states = .ok (m.silentClosure nullables states)) :=
  ⟨fun l ↦ ⟨r.isClosure_star l, OrderedSet.ends_closure l⟩, fun _ _ ↦ Relation.mem_star_inverted,
    fun states ↦ ⟨isClosure_silentClosure, OrderedSet.ends_closure states,
      fun hc hstates ↦ if_neg (not_silentMissing hc hstates)⟩⟩

namespace Circles

def triples : Relation Nat Char :=
  .ofList [(1, 'a', 2), (2, 'b', 3), (3, 'a', 1), (3, 'c', 4), (5, 'a', 6)]

def automaton : Automaton := ⟨#[
  { isInitial := true, isFinal := false, transitions := [⟨.action "mark" [] false, 1⟩] },
  { isInitial := false, isFinal := false,
    transitions := [⟨.look "a", 2⟩, ⟨.symbol "a" .parserTerminal, 3⟩] },
  { isInitial := false, isFinal := false, transitions := [⟨.symbol "E" .parserNonterminal, 0⟩] },
  { isInitial := false, isFinal := true }]⟩

theorem closures_exact_circles :
    [2, 5] <+: (triples.star [2, 5, 2]).toList ∧ 2 ∈ triples.inverted.star [4] ∧
      (∃ w, Sweep.Runs triples.successors 6 ⟨.ofList [2, 5, 2], 0⟩ w ∧
        w.step triples.successors = .none) ∧
      Checked.silentClosure automaton (.ofList ["E"]) [1] =
        .ok (automaton.silentClosure (.ofList ["E"]) [1]) ∧
      ∃ i ∈ [1], Relation.ReflTransGen (automaton.SilentStep (.ofList ["E"])) i 0 := by
  obtain ⟨hstar, hback, hsilent⟩ := closures_exact triples automaton (.ofList ["E"])
  obtain ⟨hclosure, w, hruns, hend, -⟩ := hstar [2, 5, 2]
  obtain ⟨hsilentClosure, -, hchecked⟩ := hsilent [1]
  have hsize : (triples.star [2, 5, 2]).size = 6 := by decide +kernel
  have hfour : 4 ∈ triples.star [2] := by decide +kernel
  have hzero : 0 ∈ automaton.silentClosure (.ofList ["E"]) [1] := by decide +kernel
  exact ⟨hclosure.first, (hback 2 4).1 hfour, ⟨w, hsize ▸ hruns, hend⟩,
    hchecked (by decide) (by decide), (hsilentClosure.mem_iff 0).1 hzero⟩

end Circles

end RightPart.Automaton
