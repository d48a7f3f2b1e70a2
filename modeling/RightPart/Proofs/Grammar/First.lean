import Mathlib.Order.Bounds.Basic
import RightPart.Proofs.Grammar.Nullable

namespace RightPart

namespace Grammar

variable {g : Grammar}

/-- The sets of a family are closed under what right parts can begin with: each state that is
reached without consuming anything hands on the terminals it reads and the sets of the nonterminals
that come next. -/
structure FirstClosed (g : Grammar) (F : String → Set String) : Prop where
  terminal : ∀ id p, g.productions.get? id = some p → ∀ i ∈ p.body.initials, ∀ j,
    p.body.SilentTo g.nullables i j → ∀ t ∈ p.body.transitionsFrom j, g.isReadTerminal t.label →
    t.label.name ∈ F p.left
  nonterminal : ∀ id p, g.productions.get? id = some p → ∀ i ∈ p.body.initials, ∀ j,
    p.body.SilentTo g.nullables i j → ∀ t ∈ p.body.transitionsFrom j, g.isNonterminalLabel t.label →
    ∀ id' q, g.productionFor? t.label.name = some (id', q) → F q.left ⊆ F p.left

def firstsAfter (g : Grammar) (k : Nat) : Family String String :=
  (g.firstPass g.nullables)^[k] g.emptyFirsts

theorem firstsAfter_succ (k : Nat) :
    g.firstsAfter (k + 1) = g.firstPass g.nullables (g.firstsAfter k) :=
  Function.iterate_succ_apply' _ _ _

theorem symbolNames_analyze : g.analyze.symbolNames = g.symbolNames := by
  obtain ⟨f, hf, hp⟩ := g.values_analyze
  simp only [symbolNames, hf, List.flatMap_map, hp]

theorem firstPass_analyze : g.analyze.firstPass = g.firstPass := by
  obtain ⟨f, hf, hp⟩ := g.values_analyze
  have hbody : g.analyze.bodyFirst = g.bodyFirst := rfl
  funext nullables first
  simp only [firstPass, hf, List.foldl_map, hbody, hp]

theorem firstsAfter_analyze (k : Nat) :
    g.analyze.firstsAfter k = (g.firstPass g.findNullables)^[k] g.emptyFirsts := by
  rw [firstsAfter, firstPass_analyze, emptyFirsts, lefts_analyze]
  rfl

/-- The search ends: so many passes add something, and the next adds nothing. -/
theorem exists_firstsAfter {d : Draft} (h : d.finish = .ok g) :
    ∃ k ≤ g.lefts.length * g.symbolNames.length,
      (∀ i < k, (g.firstsAfter i).total < (g.firstsAfter (i + 1)).total) ∧
      (∀ n, ∀ c ∈ (g.firstsAfter (k + 1)).members n, c ∈ (g.firstsAfter k).members n) ∧
      ∀ id p, g.productions.get? id = some p → p.first = (g.firstsAfter k).members p.left := by
  obtain ⟨g₀, rfl, -⟩ := Draft.finish_eq_ok h
  obtain ⟨k, hk, heq, hgrow⟩ := exists_iterate_saturate (P := Family.Within g₀.lefts g₀.symbolNames)
    g₀.within_emptyFirsts
  have hfirst : g₀.findFirsts g₀.findNullables = g₀.analyze.firstsAfter k := by
    rw [firstsAfter_analyze]
    exact heq
  refine ⟨k, ?_, fun i hi ↦ ?_, fun n c hc ↦ ?_, fun id p hp ↦ ?_⟩
  · rw [lefts_analyze, symbolNames_analyze]
    exact Nat.le_trans hk (Nat.sub_le _ _)
  · rw [firstsAfter_analyze, firstsAfter_analyze]
    exact hgrow i hi
  · rw [firstsAfter_succ, firstPass_analyze, ← hfirst] at hc
    exact hfirst ▸ mem_findFirsts_of_firstPass hc
  · obtain ⟨-, -, -, -, -, hp, -⟩ := get?_analyze hp
    exact hfirst ▸ hp

def FirstsBelow (g : Grammar) (F : String → Set String) (f : Family String String) : Prop :=
  ∀ n, ∀ c ∈ f.members n, n ∈ g.lefts ∧ c ∈ F n

variable {F : String → Set String} {f : Family String String}

theorem firstsBelow_emptyFirsts : g.FirstsBelow F g.emptyFirsts := by
  intro n c hc
  have hempty : c ∉ (∅ : Family String String).members n := by simp [Family.members]
  rw [emptyFirsts, Family.mem_members_foldl_enlarge] at hc
  simp [hempty] at hc

theorem FirstClosed.mem_of_bodyFirst (hF : g.FirstClosed F) (hr : g.Registered)
    (h : g.FirstsBelow F f) {id : ProductionId} {p : Production}
    (hp : g.productions.get? id = some p) {c : String}
    (hc : c ∈ g.bodyFirst g.nullables f p.body p.body.initials) : c ∈ F p.left := by
  obtain ⟨i, hi, j, hij, t, ht, hc⟩ := mem_bodyFirst.1 hc
  rcases mem_labelFirst.1 hc with ⟨hl, rfl⟩ | ⟨hl, hc⟩
  · exact hF.terminal id p hp i hi j hij t ht hl
  · obtain ⟨hleft, hc⟩ := h _ c hc
    obtain ⟨q, hq, hname⟩ := List.mem_map.1 hleft
    obtain ⟨id', hq⟩ := exists_get? hq
    have hfor := hr.productionFor? hq
    rw [hname] at hfor
    exact hF.nonterminal id p hp i hi j hij t ht hl id' q hfor (hname ▸ hc)

theorem FirstsBelow.firstPass (h : g.FirstsBelow F f) (hF : g.FirstClosed F) (hr : g.Registered) :
    g.FirstsBelow F (g.firstPass g.nullables f) := by
  refine List.foldlRecOn (motive := g.FirstsBelow F) _ _ h fun f h p hp n c hc ↦ ?_
  rcases Family.mem_members_enlarge.1 hc with hc | ⟨rfl, hc'⟩
  · exact h n c hc
  · obtain ⟨id, hid⟩ := exists_get? hp
    exact ⟨List.mem_map.2 ⟨p, hp, rfl⟩, hF.mem_of_bodyFirst hr h hid hc'⟩

theorem firstsBelow_firstsAfter (hF : g.FirstClosed F) (hr : g.Registered) (k : Nat) :
    g.FirstsBelow F (g.firstsAfter k) := by
  induction k with
  | zero => exact firstsBelow_emptyFirsts
  | succ k ih =>
    rw [firstsAfter_succ]
    exact ih.firstPass hF hr

def firsts (g : Grammar) (name : String) : Set String := {c | c ∈ (g.first? name).getD ∅}

theorem Registered.first? (hr : g.Registered) {id : ProductionId} {p : Production}
    (hp : g.productions.get? id = some p) : g.first? p.left = some p.first := by
  rw [Grammar.first?, hr.productionFor? hp, Option.map_some]

theorem Registered.mem_firsts (hr : g.Registered) {id : ProductionId} {p : Production}
    (hp : g.productions.get? id = some p) {c : String} : c ∈ g.firsts p.left ↔ c ∈ p.first := by
  rw [firsts, Set.mem_ofPred_eq, hr.first? hp, Option.getD_some]

theorem exists_production_of_mem_firsts {name c : String} (h : c ∈ g.firsts name) :
    ∃ id p, g.productions.get? id = some p ∧ p.left = name := by
  unfold firsts Grammar.first? at h
  cases hp : g.productionFor? name with
  | none => simp [hp] at h
  | some e => exact ⟨e.1, e.2, productionFor?_eq_some hp⟩

theorem firstClosed_firsts (hr : g.Registered) (ha : g.Analyzed) : g.FirstClosed g.firsts := by
  refine ⟨fun id p hp i hi j hij t ht hl ↦ ?_, fun id p hp i hi j hij t ht hl id' q hq c hc ↦ ?_⟩
  · exact (hr.mem_firsts hp).2 (ha.first id p hp i hi j hij t ht _ (.inl ⟨hl, rfl⟩))
  · have hc' : c ∈ q.first := (hr.mem_firsts (productionFor?_eq_some hq).1).1 hc
    exact (hr.mem_firsts hp).2 (ha.first id p hp i hi j hij t ht c (.inr ⟨hl, id', q, hq, hc'⟩))

theorem Derives.exists_mem_first (ha : g.Analyzed) {name c : String} {x : List String}
    (h : g.Derives name (c :: x)) : ∃ s, g.first? name = some s ∧ c ∈ s := by
  obtain ⟨id, p, w, hp, ⟨i, hi, j, hw, -⟩, hx⟩ := h
  obtain ⟨k, hik, t, ht, hbegins⟩ := hx.exists_begins ha rfl hw
  have hmem := ha.first id p (productionFor?_eq_some hp).1 i hi k hik t ht c hbegins
  exact ⟨p.first, by rw [Grammar.first?, hp, Option.map_some], hmem⟩

/-- The first sets are the least ones that are closed under what right parts can begin with, and the
first symbol of every text that a nonterminal derives is among them. The search ends: each of its
passes but the last adds something. -/
theorem isLeast_firsts {d : Draft} (h : d.finish = .ok g) :
    IsLeast {F | g.FirstClosed F} g.firsts ∧
    (∀ id p, g.productions.get? id = some p → g.first? p.left = some p.first) ∧
    (∀ name c x, g.Derives name (c :: x) → ∃ s, g.first? name = some s ∧ c ∈ s) ∧
    ∃ k ≤ g.lefts.length * g.symbolNames.length,
      (∀ i < k, (g.firstsAfter i).total < (g.firstsAfter (i + 1)).total) ∧
      (∀ n, ∀ c ∈ (g.firstsAfter (k + 1)).members n, c ∈ (g.firstsAfter k).members n) ∧
      ∀ id p, g.productions.get? id = some p → p.first = (g.firstsAfter k).members p.left := by
  have hr := Draft.registered_of_finish h
  have ha := Draft.analyzed_of_finish h
  obtain ⟨k, hk, hgrow, hlast, hfirst⟩ := exists_firstsAfter h
  refine ⟨⟨firstClosed_firsts hr ha, fun F hF name c hc ↦ ?_⟩, fun id p hp ↦ hr.first? hp,
    fun name c x hx ↦ hx.exists_mem_first ha, k, hk, hgrow, hlast, hfirst⟩
  obtain ⟨id, p, hp, rfl⟩ := exists_production_of_mem_firsts hc
  have hmem : c ∈ (g.firstsAfter k).members p.left := hfirst id p hp ▸ (hr.mem_firsts hp).1 hc
  exact (firstsBelow_firstsAfter hF hr k p.left c hmem).2

end Grammar

theorem Mutual.isLeast_firsts_mutual : (∀ c x, grammar.Derives "A" (c :: x) → c = "y") ∧
    ∀ F, grammar.FirstClosed F → "y" ∈ F "S" := by
  obtain ⟨d, -, h⟩ := Draft.exists_built define_definitions
  obtain ⟨⟨-, hleast⟩, -, hfirst, -⟩ := Grammar.isLeast_firsts h
  constructor
  · intro c x hx
    obtain ⟨s, hs, hc⟩ := hfirst "A" c x hx
    have hA : (grammar.first? "A").map OrderedSet.toList = some ["y"] := by decide +kernel
    rw [hs, Option.map_some, Option.some_inj] at hA
    rw [OrderedSet.mem_def, hA] at hc
    exact List.mem_singleton.1 hc
  · intro F hF
    have hS : "y" ∈ (grammar.first? "S").getD ∅ := by decide +kernel
    exact hleast hF "S" hS

end RightPart
