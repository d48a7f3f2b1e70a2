import RightPart.Proofs.Grammar.Derivation
import RightPart.Proofs.Grammar.Registered
import RightPart.Proofs.Ordered.Saturate
import RightPart.Tables.Lookahead

namespace RightPart

theorem Label.isSilent_iff {nullables : OrderedSet String} {l : Label} :
    l.isSilent nullables ↔ l.isRead = false ∨ l.name ∈ nullables := by
  cases l <;> simp [isSilent, isRead, name]

namespace Automaton

/-- A way on which no input is consumed. -/
def SilentTo (m : Automaton) (nullables : OrderedSet String) : Nat → Nat → Prop :=
  Relation.ReflTransGen fun i j ↦
    ∃ t ∈ m.transitionsFrom i, t.label.isSilent nullables ∧ t.target = j

variable {m : Automaton} {nullables nullables' : OrderedSet String} {i j : Nat}

theorem SilentTo.one {t : Transition} (ht : t ∈ m.transitionsFrom i)
    (hl : t.label.isSilent nullables) :
    m.SilentTo nullables i t.target := .single ⟨t, ht, hl, rfl⟩

theorem mem_silentSuccessors : j ∈ m.silentSuccessors nullables i ↔
    ∃ t ∈ m.transitionsFrom i, t.label.isSilent nullables ∧ t.target = j := by
  simp only [silentSuccessors, List.mem_map, List.mem_filter, and_assoc]

theorem mem_silentClosure {states : List Nat} :
    j ∈ m.silentClosure nullables states ↔ ∃ i ∈ states, m.SilentTo nullables i j := by
  rw [silentClosure, OrderedSet.mem_closure]
  simp only [OrderedSet.mem_ofList, mem_silentSuccessors]
  rfl

theorem SilentTo.mono (h : m.SilentTo nullables i j) (hn : ∀ n ∈ nullables, n ∈ nullables') :
    m.SilentTo nullables' i j := by
  induction h with
  | refl => exact .refl
  | tail _ ht ih =>
    obtain ⟨t, ht, hl, rfl⟩ := ht
    exact .tail ih ⟨t, ht, Label.isSilent_iff.2 ((Label.isSilent_iff.1 hl).imp_right (hn _)), rfl⟩

theorem acceptsSilently_iff :
    m.acceptsSilently nullables ↔
      ∃ i ∈ m.initials, ∃ j, m.SilentTo nullables i j ∧ m.isFinalAt j := by
  rw [acceptsSilently, List.any_eq_true]
  constructor
  · intro h
    obtain ⟨j, hj, hf⟩ := h
    obtain ⟨i, hi, hij⟩ := mem_silentClosure.1 hj
    exact ⟨i, hi, j, hij, hf⟩
  · intro h
    obtain ⟨i, hi, j, hij, hf⟩ := h
    exact ⟨j, mem_silentClosure.2 ⟨i, hi, hij⟩, hf⟩

end Automaton

namespace Grammar

variable {g : Grammar}

theorem lefts_analyze : g.analyze.lefts = g.lefts := by
  rw [lefts, analyze, OrderedMap.values_mapValues, List.map_map]
  rfl

theorem mem_nullablePass_step {s : OrderedSet String} {p : Production} {n : String} (h : n ∈ s) :
    n ∈ if p.body.acceptsSilently s then s.insert p.left else s := by
  split
  · exact OrderedSet.mem_insert.2 (.inl h)
  · exact h

/-- The nullable nonterminals are closed: no further right part can be passed. -/
theorem left_mem_findNullables {p : Production} (hp : p ∈ g.productions.values)
    (h : p.body.acceptsSilently g.findNullables) : p.left ∈ g.findNullables := by
  have hpass : ∀ (s : OrderedSet String) (q : Production) (n : String), n ∈ s →
      n ∈ if q.body.acceptsSilently s then s.insert q.left else s :=
    fun s q n hn ↦ mem_nullablePass_step hn
  obtain ⟨s, hs, hmem⟩ := exists_mem_foldl (M := fun (s : OrderedSet String) n ↦ n ∈ s) hpass
    (b := g.findNullables) hp
  have hsub : ∀ n ∈ g.findNullables, n ∈ g.nullablePass g.findNullables := fun n hn ↦
    mem_foldl (M := fun (s : OrderedSet String) n ↦ n ∈ s) hpass hn
  have hsize : (g.nullablePass g.findNullables).size ≤ g.findNullables.size := size_step_saturate _
  refine OrderedSet.mem_of_size_le hsub hsize p.left (hmem p.left ?_)
  have hacc : p.body.acceptsSilently s := by
    obtain ⟨i, hi, j, hij, hf⟩ := Automaton.acceptsSilently_iff.1 h
    exact Automaton.acceptsSilently_iff.2 ⟨i, hi, j, hij.mono hs, hf⟩
  rw [if_pos hacc]
  exact OrderedSet.mem_insert.2 (.inr rfl)

def Listed (f : Family String String) (e : String × String) : Prop := e.2 ∈ f.members e.1

theorem listed_enlarge {f : Family String String} {n : String} {l : List String}
    {e : String × String} (h : Listed f e) : Listed (f.enlarge n l) e :=
  Family.mem_members_enlarge.2 (.inl h)

theorem mem_bodyFirst {first : Family String String} {nullables : OrderedSet String} {m : Automaton}
    {states : List Nat} {n : String} : n ∈ g.bodyFirst nullables first m states ↔
      ∃ i ∈ states, ∃ j, m.SilentTo nullables i j ∧
        ∃ t ∈ m.transitionsFrom j, n ∈ g.labelFirst first t.label := by
  unfold bodyFirst
  rw [List.mem_flatMap]
  constructor
  · intro h
    obtain ⟨j, hj, h⟩ := h
    obtain ⟨t, ht, h⟩ := List.mem_flatMap.1 h
    obtain ⟨i, hi, hij⟩ := Automaton.mem_silentClosure.1 hj
    exact ⟨i, hi, j, hij, t, ht, h⟩
  · intro h
    obtain ⟨i, hi, j, hij, t, ht, h⟩ := h
    exact ⟨j, Automaton.mem_silentClosure.2 ⟨i, hi, hij⟩, List.mem_flatMap.2 ⟨t, ht, h⟩⟩

theorem mem_labelFirst {first : Family String String} {l : Label} {n : String} :
    n ∈ g.labelFirst first l ↔
      g.isReadTerminal l ∧ n = l.name ∨ g.isNonterminalLabel l ∧ n ∈ first.members l.name := by
  unfold labelFirst
  split
  · rename_i hl
    have hterminal : g.isReadTerminal l = false := by
      simp_all [isNonterminalLabel, isReadTerminal]
    simp [hl, hterminal, OrderedSet.mem_def]
  · rename_i hl
    split <;> simp_all

theorem mem_labelFirst_mono {first first' : Family String String}
    (hf : ∀ e, Listed first e → Listed first' e) {l : Label} {n : String}
    (h : n ∈ g.labelFirst first l) : n ∈ g.labelFirst first' l :=
  mem_labelFirst.2 ((mem_labelFirst.1 h).imp_right fun h ↦ ⟨h.1, hf (l.name, n) h.2⟩)

theorem mem_bodyFirst_mono {first first' : Family String String}
    (hf : ∀ e, Listed first e → Listed first' e) {nullables : OrderedSet String} {m : Automaton}
    {states : List Nat} {n : String} (h : n ∈ g.bodyFirst nullables first m states) :
    n ∈ g.bodyFirst nullables first' m states := by
  obtain ⟨i, hi, j, hij, t, ht, h⟩ := mem_bodyFirst.1 h
  exact mem_bodyFirst.2 ⟨i, hi, j, hij, t, ht, mem_labelFirst_mono hf h⟩

theorem listed_firstPass_step {nullables : OrderedSet String} (f : Family String String)
    (p : Production) (e : String × String) (h : Listed f e) :
    Listed (f.enlarge p.left (g.bodyFirst nullables f p.body p.body.initials)) e :=
  listed_enlarge h

theorem mem_findFirsts_of_firstPass {nullables : OrderedSet String} {n name : String}
    (h : name ∈ (g.firstPass nullables (g.findFirsts nullables)).members n) :
    name ∈ (g.findFirsts nullables).members n := by
  have hsub : ∀ n, ∀ name ∈ (g.findFirsts nullables).members n,
      name ∈ (g.firstPass nullables (g.findFirsts nullables)).members n := fun n name hname ↦
    mem_foldl listed_firstPass_step (i := (n, name)) hname
  have hsize : (g.firstPass nullables (g.findFirsts nullables)).total ≤
      (g.findFirsts nullables).total :=
    size_step_saturate _
  exact Family.mem_of_total_le hsub hsize n name h

theorem mem_findFirsts {nullables : OrderedSet String} {p : Production}
    (hp : p ∈ g.productions.values) {n : String}
    (h : n ∈ g.bodyFirst nullables (g.findFirsts nullables) p.body p.body.initials) :
    n ∈ (g.findFirsts nullables).members p.left := by
  obtain ⟨f, hf, hmem⟩ := exists_mem_foldl listed_firstPass_step (b := g.findFirsts nullables) hp
  refine mem_findFirsts_of_firstPass (hmem (p.left, n) ?_)
  exact Family.mem_members_enlarge.2 (.inr ⟨rfl, mem_bodyFirst_mono hf h⟩)

theorem mem_following {first follow : Family String String} {nullables : OrderedSet String}
    {p : Production} {i : Nat} {n : String} : n ∈ g.following nullables first follow p i ↔
      ∃ j, p.body.SilentTo nullables i j ∧
        ((∃ t ∈ p.body.transitionsFrom j, n ∈ g.labelFirst first t.label) ∨
        p.body.isFinalAt j ∧ n ∈ follow.members p.left) := by
  have hite : ∀ j, (n ∈ if p.body.isFinalAt j then (follow.members p.left).toList else []) ↔
      p.body.isFinalAt j ∧ n ∈ follow.members p.left := by
    intro j
    split <;> simp_all [OrderedSet.mem_def]
  unfold following
  simp only [List.mem_flatMap, List.mem_append, hite, ← OrderedSet.mem_def,
    Automaton.mem_silentClosure, List.mem_singleton, exists_eq_left]

theorem mem_calls {p : Production} {t : Transition} : (p, t) ∈ g.calls ↔
    p ∈ g.productions.values ∧ ∃ i, t ∈ p.body.transitionsFrom i ∧
    g.isNonterminalLabel t.label := by
  unfold calls
  rw [List.mem_flatMap]
  constructor
  · intro h
    obtain ⟨p, hp, h⟩ := h
    obtain ⟨⟨i, t⟩, ht, heq⟩ := List.mem_map.1 h
    obtain ⟨rfl, rfl⟩ := Prod.mk.inj heq
    obtain ⟨ht, hl⟩ := List.mem_filter.1 ht
    exact ⟨hp, i, Automaton.mem_transitions.1 ht, hl⟩
  · intro h
    obtain ⟨hp, i, ht, hl⟩ := h
    exact ⟨p, hp,
      List.mem_map.2 ⟨(i, t), List.mem_filter.2 ⟨Automaton.mem_transitions.2 ht, hl⟩, rfl⟩⟩

theorem mem_findFollows {nullables : OrderedSet String} {first : Family String String}
    {hf : first.Within g.lefts g.symbolNames} {c : Production × Transition} (hc : c ∈ g.calls)
    {n : String}
    (h : n ∈ g.following nullables first (g.findFollows nullables first hf) c.1 c.2.target) :
    n ∈ (g.findFollows nullables first hf).members c.2.label.name := by
  have hpass : ∀ (f : Family String String) (c : Production × Transition) (e : String × String),
      Listed f e →
        Listed (f.enlarge c.2.label.name (g.following nullables first f c.1 c.2.target)) e :=
    fun f c e he ↦ listed_enlarge he
  obtain ⟨f, hle, hmem⟩ := exists_mem_foldl hpass (b := g.findFollows nullables first hf) hc
  have hsub : ∀ k, ∀ a ∈ (g.findFollows nullables first hf).members k,
      a ∈ (g.followPass nullables first (g.findFollows nullables first hf)).members k :=
    fun k a ha ↦ mem_foldl hpass (i := (k, a)) ha
  have hsize : (g.followPass nullables first (g.findFollows nullables first hf)).total ≤
      (g.findFollows nullables first hf).total := size_step_saturate _
  refine Family.mem_of_total_le hsub hsize c.2.label.name n (hmem (c.2.label.name, n) ?_)
  refine Family.mem_members_enlarge.2 (.inr ⟨rfl, ?_⟩)
  obtain ⟨j, hj, h⟩ := mem_following.1 h
  exact mem_following.2 ⟨j, hj, h.imp_right (And.imp_right fun h ↦ hle (_, n) h)⟩

theorem mem_findFollows_of_lookahead {nullables : OrderedSet String} {first : Family String String}
    {hf : first.Within g.lefts g.symbolNames} {e : ProductionId × Production} (he : e ∈ g.goals)
    {names : OrderedSet String} (hl : e.2.lookahead = some names) {n : String} (hn : n ∈ names) :
    n ∈ (g.findFollows nullables first hf).members e.2.left := by
  have hpass : ∀ (f : Family String String) (p : Production) (x : String × String), Listed f x →
      Listed (f.enlarge p.left (p.lookahead.getD ∅).toList) x := fun f p x hx ↦ listed_enlarge hx
  have hgoal : Listed g.goalFollows (e.2.left, n) := by
    obtain ⟨f, -, hmem⟩ := exists_mem_foldl hpass (l := g.goals.map Prod.snd)
      (b := g.nonterminals.toList.foldl (fun f n ↦ f.enlarge n []) ∅) (List.mem_map.2 ⟨e, he, rfl⟩)
    refine hmem _ (Family.mem_members_enlarge.2 (.inr ⟨rfl, ?_⟩))
    rw [hl]
    exact hn
  refine mem_saturate (M := Listed) (fun f x hx ↦ ?_) _ hgoal
  exact mem_foldl (M := Listed) (fun f c e he ↦ listed_enlarge he) hx

theorem mem_goalFollows {left name : String} : name ∈ g.goalFollows.members left ↔
    ∃ e ∈ g.goals, e.2.left = left ∧ name ∈ e.2.lookahead.getD ∅ := by
  have hempty : name ∉ (∅ : Family String String).members left := by
    simp [Family.members]
  rw [goalFollows, List.foldl_map]
  simp only [Family.mem_members_foldl_enlarge, hempty, List.not_mem_nil, and_false, exists_false,
    or_self, false_or, ← OrderedSet.mem_def]

theorem findFollows_of_calls_eq_nil (h : g.calls = []) {nullables : OrderedSet String}
    {first : Family String String} {hf : first.Within g.lefts g.symbolNames} :
    g.findFollows nullables first hf = g.goalFollows := by
  refine saturate_eq_self _ ?_
  rw [followPass, h, List.foldl_nil]

end Grammar

end RightPart
