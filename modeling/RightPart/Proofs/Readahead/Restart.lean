import RightPart.Proofs.Readahead.Graph
import RightPart.Tables.Restart

namespace RightPart.ReadaheadAutomaton

def Silent (a : ReadaheadAutomaton) (n m : Nat) : Prop := ∃ l, a.Edge n l m ∧ l.isRead = false

variable {a : ReadaheadAutomaton}

theorem mem_silentBack {n m : Nat} {l : Label} :
    m ∈ a.silentBack.image n l ↔ a.Edge m l n ∧ l.isRead = false := by
  unfold silentBack
  rw [Relation.mem_image_ofList, List.mem_map]
  constructor
  · intro h
    obtain ⟨⟨m, l, n⟩, he, h⟩ := h
    obtain ⟨rfl, rfl, rfl⟩ : n = _ ∧ l = _ ∧ m = _ := by simpa using h
    simpa [mem_edges] using List.mem_filter.1 he
  · intro h
    exact ⟨(m, l, n), List.mem_filter.2 ⟨mem_edges.2 h.1, by simp [h.2]⟩, rfl⟩

theorem mem_star_silentBack {n m : Nat} :
    m ∈ a.silentBack.star [n] ↔ Relation.ReflTransGen a.Silent m n := by
  rw [Relation.mem_star, ← Relation.reflTransGen_swap]
  simp only [List.mem_singleton, exists_eq_left, mem_silentBack]
  rfl

theorem mem_directRestarts {g : Grammar} {name : String} {r : Restart} :
    r ∈ a.directRestarts g name ↔
      a.Edge r.source r.label r.target ∧ g.isNonterminalLabel r.label ∧ r.label.name = name := by
  unfold directRestarts
  rw [OrderedSet.mem_ofList, List.mem_map]
  constructor
  · intro h
    obtain ⟨⟨n, l, m⟩, he, rfl⟩ := h
    simpa [mem_edges] using List.mem_filter.1 he
  · intro h
    exact ⟨(r.source, r.label, r.target), List.mem_filter.2 ⟨mem_edges.2 h.1, by simp [h.2]⟩, rfl⟩

/-- A restart belongs to a step over the nonterminal, either at the source of the step or at a state
on the stack from which nothing is read up to there. -/
theorem mem_restarts {g : Grammar} {name : String} {r : Restart} :
    r ∈ a.restarts g a.stackable a.silentBack name ↔
      ∃ n, a.Edge n r.label r.target ∧ g.isNonterminalLabel r.label ∧ r.label.name = name ∧
        (r.source = n ∨ Relation.ReflTransGen a.Silent r.source n ∧ r.source ≠ n ∧
          r.source ∈ a.stackable) := by
  unfold restarts
  simp only [OrderedSet.mem_extend, mem_directRestarts, List.mem_flatMap, indirectRestarts,
    List.mem_map, List.mem_filter, Bool.and_eq_true, decide_eq_true_eq]
  constructor
  · intro h
    rcases h with h | h
    · exact ⟨r.source, h.1, h.2.1, h.2.2, .inl rfl⟩
    · obtain ⟨r, hr, i, ⟨hi, hne, hs⟩, rfl⟩ := h
      obtain ⟨he, hl, hn⟩ := mem_directRestarts.1 hr
      exact ⟨r.source, he, hl, hn, .inr ⟨mem_star_silentBack.1 hi, hne, hs⟩⟩
  · intro h
    obtain ⟨n, he, hl, hn, h⟩ := h
    rcases h with rfl | h
    · exact .inl ⟨he, hl, hn⟩
    · exact .inr ⟨⟨n, r.label, r.target⟩, mem_directRestarts.2 ⟨he, hl, hn⟩, r.source,
        ⟨mem_star_silentBack.2 h.1, h.2⟩, rfl⟩

theorem mem_restarts_of_silent {g : Grammar} {k n m : Nat} {l : Label} (he : a.Edge n l m)
    (hl : g.isNonterminalLabel l) (hsilent : Relation.ReflTransGen a.Silent k n)
    (hk : k ∈ a.stackable) :
    (⟨k, l, m⟩ : Restart) ∈ a.restarts g a.stackable a.silentBack l.name := by
  refine mem_restarts.2 ⟨n, he, hl, rfl, ?_⟩
  by_cases hkn : k = n
  · exact .inl hkn
  · exact .inr ⟨hsilent, hkn, hk⟩

end RightPart.ReadaheadAutomaton
