import RightPart.Grammar.Draft
import RightPart.Proofs.Ordered.Group
import RightPart.Proofs.Ordered.Relation

namespace RightPart

theorem eq_ok_of_toOption {ε α : Type} {e : Except ε α} {a : α} (h : e.toOption = some a) :
    e = .ok a := by
  cases e with
  | ok => exact congrArg _ (Option.some.inj h)
  | error => cases h

namespace Grammar

/-- Every nonterminal has one production at most, and the states of a right part bear its name. -/
structure Registered (g : Grammar) : Prop where
  left_inj : ∀ e ∈ g.productions.entries, ∀ e' ∈ g.productions.entries, e.2.left = e'.2.left →
    e = e'
  left_eq : ∀ e ∈ g.productions.entries, ∀ s ∈ e.2.body.states, s.left = some e.2.left

variable {g : Grammar} {id : ProductionId} {p : Production}

theorem exists_get? (hp : p ∈ g.productions.values) : ∃ id, g.productions.get? id = some p := by
  rw [← OrderedMap.map_snd_entries] at hp
  obtain ⟨⟨id, p⟩, he, rfl⟩ := List.mem_map.1 hp
  exact ⟨id, OrderedMap.get?_eq_some.2 he⟩

theorem productionFor?_eq_some {n : String} (h : g.productionFor? n = some (id, p)) :
    g.productions.get? id = some p ∧ p.left = n := by
  have hp := List.find?_some h
  exact ⟨OrderedMap.get?_eq_some.2 (List.mem_of_find?_eq_some h), by simpa using hp⟩

theorem mem_goals : (id, p) ∈ g.goals ↔ g.productions.get? id = some p ∧ p.isGoal := by
  rw [goals, List.mem_filter, OrderedMap.get?_eq_some]

theorem Registered.productionFor? (h : g.Registered) (hp : g.productions.get? id = some p) :
    g.productionFor? p.left = some (id, p) := by
  have hm := OrderedMap.get?_eq_some.1 hp
  cases hf : g.productionFor? p.left with
  | none => simpa using List.find?_eq_none.1 hf _ hm
  | some e =>
    obtain ⟨he, hl⟩ := productionFor?_eq_some hf
    rw [h.left_inj e (OrderedMap.get?_eq_some.1 he) _ hm hl]

theorem Registered.id_inj (h : g.Registered) {id' : ProductionId} {p' : Production}
    (hp : g.productions.get? id = some p) (hp' : g.productions.get? id' = some p')
    (hl : p.left = p'.left) : id = id' ∧ p = p' := by
  have he := h.left_inj _ (OrderedMap.get?_eq_some.1 hp) _ (OrderedMap.get?_eq_some.1 hp') hl
  exact Prod.mk.inj he

end Grammar

namespace Draft

/-- What registration has built so far from distinct names, of which `names` are still to come. -/
structure Registering (names : List String) (ps : OrderedMap ProductionId Production) : Prop where
  left_inj : ∀ e ∈ ps.entries, ∀ e' ∈ ps.entries, e.2.left = e'.2.left → e = e'
  left_eq : ∀ e ∈ ps.entries, ∀ s ∈ e.2.body.states, s.left = some e.2.left
  fresh : ∀ e ∈ ps.entries, e.2.left ∉ names

theorem register_eq_ok {left : String} {r : RightSide} {p : Production}
    (h : register left r = .ok p) : p.left = left ∧ ∀ s ∈ p.body.states, s.left = some left := by
  unfold register at h
  split at h
  · cases h
  · split at h
    · cases h
    · cases h
      refine ⟨rfl, fun s hs ↦ ?_⟩
      obtain ⟨s', -, rfl⟩ := Array.mem_map.1 hs
      rfl

theorem Registering.insert {left : String} {names : List String} {p : Production} {i : ProductionId}
    {ps : OrderedMap ProductionId Production} (h : Registering (left :: names) ps)
    (hp : p.left = left) (hs : ∀ s ∈ p.body.states, s.left = some left) (hn : left ∉ names) :
    Registering names (ps.insert i p) := by
  refine ⟨fun e he e' he' hl ↦ ?_, fun e he ↦ ?_, fun e he ↦ ?_⟩
  · rcases OrderedMap.mem_alter he with he | rfl <;> rcases OrderedMap.mem_alter he' with he' | rfl
    · exact h.left_inj e he e' he' hl
    · exact absurd (hl.trans hp) fun e' ↦ h.fresh e he (e' ▸ List.mem_cons_self)
    · exact absurd (hl.symm.trans hp) fun e ↦ h.fresh e' he' (e ▸ List.mem_cons_self)
    · rfl
  · rcases OrderedMap.mem_alter he with he | rfl
    · exact h.left_eq e he
    · exact hp.symm ▸ hs
  · rcases OrderedMap.mem_alter he with he | rfl
    · exact fun hm ↦ h.fresh e he (List.mem_cons_of_mem _ hm)
    · exact hp.symm ▸ hn

theorem registering_registerAll {i : ProductionId} {l : List (String × RightSide)}
    {ps ps' : OrderedMap ProductionId Production} (h : registerAll i l ps = .ok ps')
    (hl : (l.map Prod.fst).Nodup) (hps : Registering (l.map Prod.fst) ps) : Registering [] ps' := by
  induction l generalizing i ps with
  | nil =>
    cases h
    exact hps
  | cons e l ih =>
    obtain ⟨left, r⟩ := e
    rw [registerAll] at h
    cases hr : register left r with
    | error e => simp [hr, bind, Except.bind] at h
    | ok p =>
      obtain ⟨hp, hs⟩ := register_eq_ok hr
      have hn := List.nodup_cons.1 hl
      exact ih (by simpa [hr, bind, Except.bind] using h) hn.2 (hps.insert hp hs hn.1)

theorem analyze_eq_ok {g₀ g : Grammar}
    (h : (Grammar.Checked.analyze g₀).mapError GrammarError.algebra = .ok g) : g = g₀.analyze := by
  unfold Grammar.Checked.analyze at h
  split at h
  · cases h
  · exact (Except.ok.inj h).symm

theorem finish_eq_ok {d : Draft} {g : Grammar} (h : d.finish = .ok g) :
    ∃ g₀ : Grammar, g = g₀.analyze ∧ g₀.Registered := by
  simp only [finish, bind, Except.bind] at h
  split at h
  · cases h
  · generalize (if d.kind = .parser then d.wrapGoals else d) = d' at h
    split at h
    · cases h
    · rename_i ps hps
      have hn : (d'.rules.entries.map Prod.fst).Nodup :=
        d'.rules.map_fst_entries ▸ d'.rules.keySet.nodup
      have hps' := registering_registerAll hps hn ⟨by simp, by simp, by simp⟩
      exact ⟨_, analyze_eq_ok h, hps'.left_inj, hps'.left_eq⟩

theorem registered_of_finish {d : Draft} {g : Grammar} (h : d.finish = .ok g) : g.Registered := by
  obtain ⟨g₀, rfl, hg⟩ := finish_eq_ok h
  have hm : ∀ e ∈ g₀.analyze.productions.entries, ∃ e₀ ∈ g₀.productions.entries,
      e.1 = e₀.1 ∧ e.2.left = e₀.2.left ∧ e.2.body = e₀.2.body := by
    intro e he
    rw [Grammar.analyze, OrderedMap.entries_mapValues] at he
    obtain ⟨e₀, he₀, rfl⟩ := List.mem_map.1 he
    exact ⟨e₀, he₀, rfl, rfl, rfl⟩
  refine ⟨fun e he e' he' hl ↦ ?_, fun e he ↦ ?_⟩
  · obtain ⟨e₀, he₀, h₁, h₂, -⟩ := hm e he
    obtain ⟨e₀', he₀', h₁', h₂', -⟩ := hm e' he'
    have heq : e₀ = e₀' := hg.left_inj e₀ he₀ e₀' he₀' (h₂ ▸ h₂' ▸ hl)
    have hk : e.1 = e'.1 := by rw [h₁, h₁', heq]
    have hv : some e.2 = some e'.2 := by
      rw [← OrderedMap.get?_eq_some.2 he, ← OrderedMap.get?_eq_some.2 he', hk]
    exact Prod.ext hk (Option.some.inj hv)
  · obtain ⟨e₀, he₀, -, h₂, h₃⟩ := hm e he
    rw [h₂, h₃]
    exact hg.left_eq e₀ he₀

end Draft

end RightPart
