import RightPart.Proofs.Grammar.Lookahead
import RightPart.Proofs.Grammar.Prepared

namespace RightPart

namespace Grammar

variable {g : Grammar}

theorem values_analyze : ∃ f : Production → Production,
    g.analyze.productions.values = g.productions.values.map f ∧
    ∀ p, (f p).left = p.left ∧ (f p).body = p.body ∧ (f p).lookahead = p.lookahead :=
  ⟨_, OrderedMap.values_mapValues _ _, fun _ ↦ ⟨rfl, rfl, rfl⟩⟩

theorem nullablePass_analyze : g.analyze.nullablePass = g.nullablePass := by
  obtain ⟨f, hf, hp⟩ := g.values_analyze
  funext s
  simp only [nullablePass, hf, List.foldl_map, hp]

def Vanishing (g : Grammar) (s : OrderedSet String) : Prop :=
  ∀ n ∈ s, g.isNonterminal n ∧ g.Derives n []

variable {s : OrderedSet String}

/-- A way that consumes nothing is one on which the empty text is derived. -/
theorem Vanishing.exists_path (h : g.Vanishing s) {m : Automaton} {i j : Nat}
    (hij : m.SilentTo s i j) : ∃ w, m.Path i w j ∧ g.Expands w [] := by
  induction hij with
  | refl => exact ⟨[], .nil i, .nil⟩
  | tail _ ht ih =>
    obtain ⟨w, hw, hx⟩ := ih
    obtain ⟨t, ht, hl, rfl⟩ := ht
    have hone : g.Expands [t.label] [] := by
      by_cases hread : t.label.isRead = false
      · exact .of_silent hread
      · obtain ⟨hn, hd⟩ := h _ ((Label.isSilent_iff.1 hl).resolve_left hread)
        exact hd.expands (Bool.eq_true_of_not_eq_false hread) hn
    exact ⟨w ++ [t.label], hw.append (.one ht), hx.append hone⟩

theorem Vanishing.derives (h : g.Vanishing s) (hr : g.Registered) {id : ProductionId}
    {p : Production} (hp : g.productions.get? id = some p) (ha : p.body.acceptsSilently s) :
    g.Derives p.left [] := by
  obtain ⟨i, hi, j, hij, hj⟩ := Automaton.acceptsSilently_iff.1 ha
  obtain ⟨w, hw, hx⟩ := h.exists_path hij
  exact ⟨id, p, w, hr.productionFor? hp, ⟨i, hi, j, hw, hj⟩, hx⟩

section Passes

variable (hr : g.Registered) (hn : ∀ id p, g.productions.get? id = some p → g.isNonterminal p.left)

include hr hn

theorem Vanishing.nullablePass (h : g.Vanishing s) : g.Vanishing (g.nullablePass s) := by
  refine List.foldlRecOn (motive := g.Vanishing) _ _ h fun s h p hp n hmem ↦ ?_
  obtain ⟨id, hp⟩ := exists_get? hp
  split at hmem
  · rename_i ha
    rcases OrderedSet.mem_insert.1 hmem with hmem | rfl
    · exact h n hmem
    · exact ⟨hn id p hp, h.derives hr hp ha⟩
  · exact h n hmem

theorem vanishing_iterate (k : Nat) : g.Vanishing (g.nullablePass^[k] ∅) := by
  induction k with
  | zero => exact fun n hmem ↦ absurd hmem (OrderedSet.not_mem_empty n)
  | succ k ih =>
    rw [Function.iterate_succ_apply']
    exact ih.nullablePass hr hn

end Passes

theorem nullablePass_eq_self
    (h : ∀ p ∈ g.productions.values, p.body.acceptsSilently s → p.left ∈ s) :
    g.nullablePass s = s := by
  refine List.foldlRecOn (motive := (· = s)) _ _ rfl fun s' hs p hp ↦ ?_
  subst hs
  split
  · rename_i ha
    exact OrderedSet.insert_of_mem (h p hp ha)
  · rfl

theorem Derives.mem_nullables (ha : g.Analyzed) {name : String} (h : g.Derives name []) :
    name ∈ g.nullables := by
  obtain ⟨id, p, w, hp, ⟨i, hi, j, hw, hj⟩, hx⟩ := h
  obtain ⟨hid, rfl⟩ := productionFor?_eq_some hp
  exact ha.nullable id p hid (Automaton.acceptsSilently_iff.2 ⟨i, hi, j, hx.silentTo ha rfl hw, hj⟩)

theorem generatesEmpty_analyze {id : ProductionId} {p : Production}
    (h : g.analyze.productions.get? id = some p) :
    p.generatesEmpty = decide (p.left ∈ g.analyze.nullables) := by
  have he := OrderedMap.get?_eq_some.1 h
  rw [analyze, OrderedMap.entries_mapValues] at he
  obtain ⟨e, -, heq⟩ := List.mem_map.1 he
  obtain ⟨-, rfl⟩ := Prod.mk.inj heq
  rfl

theorem exists_iterate_nullables {d : Draft} (h : d.finish = .ok g) :
    ∃ k ≤ g.productions.size, g.nullables = g.nullablePass^[k] ∅ ∧
      ∀ i < k, (g.nullablePass^[i] ∅).size < (g.nullablePass^[i + 1] ∅).size := by
  obtain ⟨g₀, rfl, -⟩ := Draft.finish_eq_ok h
  obtain ⟨k, hk, heq, hgrow⟩ := exists_iterate_saturate (P := fun s ↦ ∀ n ∈ s, n ∈ g₀.lefts)
    (fun _ h ↦ absurd h (OrderedSet.not_mem_empty _))
  have hlefts : g₀.lefts.length = g₀.productions.size := by
    rw [lefts, List.length_map, OrderedMap.length_values]
    rfl
  rw [nullablePass_analyze]
  exact ⟨k, hlefts ▸ hk, heq, hgrow⟩

/-- A nonterminal is found to be nullable exactly if it derives the empty text, however its
right part and others call each other. The search ends: each of its passes but the last
finds one at least. -/
theorem mem_nullables_iff_derives {d : Draft} (hd : d.Built) (h : d.finish = .ok g) :
    (∀ name, name ∈ g.nullables ↔ g.Derives name []) ∧
    (∀ id p, g.productions.get? id = some p → (p.generatesEmpty ↔ g.Derives p.left [])) ∧
    (∃ k ≤ g.productions.size, g.nullables = g.nullablePass^[k] ∅ ∧
      ∀ i < k, (g.nullablePass^[i] ∅).size < (g.nullablePass^[i + 1] ∅).size) ∧
    g.nullablePass g.nullables = g.nullables := by
  have ha := Draft.analyzed_of_finish h
  have hr := Draft.registered_of_finish h
  have hiterate := exists_iterate_nullables h
  have hiff : ∀ name, name ∈ g.nullables ↔ g.Derives name [] := by
    intro name
    constructor
    · intro hname
      obtain ⟨k, -, hk, -⟩ := hiterate
      rw [hk] at hname
      exact (vanishing_iterate hr (fun _ _ hp ↦ hd.isNonterminal h hp) k _ hname).2
    · exact Derives.mem_nullables ha
  refine ⟨hiff, fun id p hp ↦ ?_, hiterate, nullablePass_eq_self fun p hp hacc ↦ ?_⟩
  · obtain ⟨g₀, rfl, -⟩ := Draft.finish_eq_ok h
    rw [generatesEmpty_analyze hp, decide_eq_true_eq]
    exact hiff p.left
  · obtain ⟨id, hp⟩ := exists_get? hp
    exact ha.nullable id p hp hacc

end Grammar

namespace Mutual

def definitions : List Definition :=
  [.production "A" (.symbol "B"),
    .production "B" (.optional (.sequence [.symbol "A", .literal "y"])),
    .goal "S" (.sequence [.symbol "A", .literal "x"]) [Grammar.endOfInput]]

def grammar : Grammar := (Grammar.define .parser definitions).toOption.get (by decide +kernel)

theorem define_definitions : Grammar.define .parser definitions = .ok grammar :=
  eq_ok_of_toOption (Option.some_get _).symm

theorem mem_nullables_mutual :
    grammar.Derives "A" [] ∧ grammar.Derives "B" [] ∧ ¬ grammar.Derives "S" [] := by
  obtain ⟨d, hd, h⟩ := Draft.exists_built define_definitions
  obtain ⟨hiff, -⟩ := Grammar.mem_nullables_iff_derives hd h
  have hA : "A" ∈ grammar.nullables := by decide +kernel
  have hB : "B" ∈ grammar.nullables := by decide +kernel
  have hS : "S" ∉ grammar.nullables := by decide +kernel
  exact ⟨(hiff "A").1 hA, (hiff "B").1 hB, mt (hiff "S").2 hS⟩

end Mutual

end RightPart
