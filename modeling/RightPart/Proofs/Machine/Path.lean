import RightPart.Proofs.Machine.Basic
import RightPart.Proofs.Readahead.Restart
import RightPart.Proofs.Readback.Graph

namespace RightPart.Grammar

/-- The frames of a stack are the reading steps on a way through the readahead automaton, which
begins where the bottom says and ends in the given state. -/
inductive OnPath (g : Grammar) (i : Nat) : List Frame → Nat → Prop
  | bottom : OnPath g i [⟨endOfInput, i⟩] i
  | silent {σ : List Frame} {n m : Nat} {l : Label} :
      OnPath g i σ n → g.automaton.Edge n l m → l.isRead = false → OnPath g i σ m
  | push {σ : List Frame} {n m : Nat} {l : Label} :
      OnPath g i σ n → g.automaton.Edge n l m → l.isRead → OnPath g i (⟨l.name, m⟩ :: σ) m

variable {g : Grammar} {i n : Nat} {σ : List Frame} {f : Frame}

theorem OnPath.ne_nil (h : g.OnPath i σ n) : σ ≠ [] := by
  induction h with
  | bottom | push => exact List.cons_ne_nil _ _
  | silent _ _ _ ih => exact ih

theorem OnPath.top (h : g.OnPath i (f :: σ) n) :
    g.OnPath i (f :: σ) f.state ∧ Relation.ReflTransGen g.automaton.Silent f.state n := by
  generalize hσ : f :: σ = σ' at h
  induction h with
  | bottom =>
    obtain ⟨rfl, rfl⟩ := List.cons.inj hσ
    exact ⟨.bottom, .refl⟩
  | silent _ he hl ih =>
    obtain ⟨h, hs⟩ := ih hσ
    exact ⟨h, hs.tail ⟨_, he, hl⟩⟩
  | push h he hl _ =>
    obtain ⟨rfl, rfl⟩ := List.cons.inj hσ
    exact ⟨.push h he hl, .refl⟩

theorem OnPath.trans_silent {m : Nat} (h : g.OnPath i σ n)
    (hs : Relation.ReflTransGen g.automaton.Silent n m) : g.OnPath i σ m := by
  induction hs with
  | refl => exact h
  | tail _ he ih =>
    obtain ⟨l, he, hl⟩ := he
    exact .silent ih he hl

theorem OnPath.pop (h : g.OnPath i (f :: σ) n) (hσ : σ ≠ []) :
    ∃ m l, g.OnPath i σ m ∧ g.automaton.Edge m l f.state ∧ l.isRead ∧ f.symbol = l.name := by
  generalize hσ' : f :: σ = σ' at h
  induction h with
  | bottom => exact absurd (List.cons.inj hσ').2 hσ
  | silent _ _ _ ih => exact ih hσ'
  | push h he hl _ =>
    obtain ⟨rfl, rfl⟩ := List.cons.inj hσ'
    exact ⟨_, _, h, he, hl, rfl⟩

theorem OnPath.bottom_eq (h : g.OnPath i [f] n) : f = ⟨endOfInput, i⟩ := by
  generalize hσ' : [f] = σ' at h
  induction h with
  | bottom => exact (List.cons.inj hσ').1
  | silent _ _ _ ih => exact ih hσ'
  | push h he hl _ => exact absurd (List.cons.inj hσ').2.symm h.ne_nil

theorem OnPath.exists_node {id : ProductionId} (hi : (i, id) ∈ g.automaton.seeds)
    (h : g.OnPath i σ n) : ∃ s, g.automaton.nodes[n]? = some s := by
  cases h with
  | bottom => exact exists_node_of_seed hi
  | silent _ he | push _ he => exact exists_node_of_edge he

theorem OnPath.mem_stackable {id : ProductionId} (hi : (i, id) ∈ g.automaton.seeds)
    (h : g.OnPath i (f :: σ) n) : f.state ∈ g.automaton.stackable := by
  rw [ReadaheadAutomaton.mem_stackable]
  by_cases hσ : σ = []
  · subst hσ
    rw [h.bottom_eq]
    exact .inl ⟨_, hi, rfl⟩
  · obtain ⟨m, l, -, he, hl, -⟩ := h.pop hσ
    exact .inr ⟨m, l, he, hl⟩

theorem exists_onPath {s : ReadaheadNode} (hs : g.automaton.nodes[n]? = some s) :
    ∃ i id σ, (i, id) ∈ g.automaton.seeds ∧ g.OnPath i σ n := by
  refine node_induction (Q := fun n ↦ ∃ i id σ, (i, id) ∈ g.automaton.seeds ∧ g.OnPath i σ n)
    ?_ ?_ hs
  · intro n id hseed
    exact ⟨n, id, _, hseed, .bottom⟩
  · intro n l m hn he
    obtain ⟨i, id, σ, hseed, hpath⟩ := hn
    by_cases hl : l.isRead = true
    · exact ⟨i, id, _, hseed, .push hpath he hl⟩
    · exact ⟨i, id, σ, hseed, .silent hpath he (by simpa using hl)⟩

theorem under_of_calls {k j : Item} (h : Relation.ReflTransGen g.Calls k j)
    (hk : g.automaton.Holds n k) : Relation.ReflTransGen (Place.Under g) ⟨j, n⟩ ⟨k, n⟩ := by
  induction h with
  | refl => exact .refl
  | @tail b c hb hc ih =>
    have hh : g.automaton.Holds n b := by
      obtain ⟨k', hk', h⟩ := holds_iff.1 hk
      exact holds_iff.2 ⟨k', hk', h.trans hb⟩
    have hu : Place.Under g ⟨c, n⟩ ⟨b, n⟩ := .inl ⟨rfl, hh, hc⟩
    exact .head hu ih

/-- From an item that a state on the path holds one gets back to where the top of the
stack was pushed. -/
theorem OnPath.exists_under {id : ProductionId} (hi : (i, id) ∈ g.automaton.seeds)
    (h : g.OnPath i (f :: σ) n) {c : Item} (hc : g.automaton.Holds n c) :
    ∃ j, Relation.ReflTransGen (Place.Under g) ⟨c, n⟩ ⟨j, f.state⟩ ∧
      ((∃ l q, Place.Follows g ⟨j, f.state⟩ l q ∧ l.isRead ∧ f.symbol = l.name) ∨
        (∃ id, (f.state, id) ∈ g.automaton.seeds) ∧ g.automaton.Enters f.state j ∧
          f.symbol = endOfInput) := by
  generalize hσ : f :: σ = σ' at h
  induction h generalizing c with
  | bottom =>
    obtain ⟨rfl, rfl⟩ := List.cons.inj hσ
    obtain ⟨k, hk, hkc⟩ := holds_iff.1 hc
    exact ⟨k, under_of_calls hkc (holds_of_enters hk), .inr ⟨⟨id, hi⟩, hk, rfl⟩⟩
  | @silent σ m n l _ he hl ih =>
    obtain ⟨k, hk, hkc⟩ := holds_iff.1 hc
    obtain ⟨b, hb, hbk⟩ := (enters_of_edge he).1 hk
    obtain ⟨j, hj, hf⟩ := ih hb hσ
    have hu : Place.Under g ⟨k, n⟩ ⟨b, m⟩ := .inr ⟨l, ⟨he, hb, hbk⟩, hl⟩
    exact ⟨j, (under_of_calls hkc (holds_of_enters hk)).trans (.head hu hj), hf⟩
  | @push σ m n l _ he hl _ =>
    obtain ⟨rfl, rfl⟩ := List.cons.inj hσ
    obtain ⟨k, hk, hkc⟩ := holds_iff.1 hc
    obtain ⟨b, hb, hbk⟩ := (enters_of_edge he).1 hk
    have hf : Place.Follows g ⟨k, n⟩ l ⟨b, m⟩ := ⟨he, hb, hbk⟩
    exact ⟨k, under_of_calls hkc (holds_of_enters hk), .inl ⟨l, _, hf, hl, rfl⟩⟩

end RightPart.Grammar
