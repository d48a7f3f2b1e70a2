import RightPart.Grammar.First

namespace RightPart.Grammar

/-- The terminals that can come after the step into state `i` of a right part; if the right part may
end there, what follows its nonterminal is among them. -/
def following (g : Grammar) (nullables : OrderedSet String) (first follow : Family String String)
    (p : Production) (i : Nat) : List String :=
  (p.body.silentClosure nullables [i]).toList.flatMap fun j ↦
    ((p.body.transitionsFrom j).flatMap fun t ↦ g.labelFirst first t.label) ++
      if p.body.isFinalAt j then (follow.members p.left).toList else []

def calls (g : Grammar) : List (Production × Transition) :=
  g.productions.values.flatMap fun p ↦
    (p.body.transitions.filter (g.isNonterminalLabel ·.2.label)).map fun t ↦ (p, t.2)

def followPass (g : Grammar) (nullables : OrderedSet String) (first follow : Family String String) :
    Family String String :=
  g.calls.foldl (fun follow c ↦
    follow.enlarge c.2.label.name (g.following nullables first follow c.1 c.2.target)) follow

def goalFollows (g : Grammar) : Family String String :=
  (g.goals.map Prod.snd).foldl (fun f p ↦ f.enlarge p.left (p.lookahead.getD ∅).toList)
    (g.nonterminals.toList.foldl (fun f n ↦ f.enlarge n []) ∅)

def followNames (g : Grammar) : List String := g.nonterminals.toList ++ g.lefts

theorem within_goalFollows (g : Grammar) : g.goalFollows.Within g.followNames g.symbolNames := by
  refine List.foldlRecOn _ _
    (motive := fun f : Family String String ↦ f.Within g.followNames g.symbolNames) ?_ ?_
  · exact List.foldlRecOn _ _
      (motive := fun f : Family String String ↦ f.Within g.followNames g.symbolNames) nofun
      fun _ h _ hn ↦ h.enlarge (List.mem_append_left _ hn) nofun
  · intro f h p hp
    obtain ⟨e, he, rfl⟩ := List.mem_map.1 hp
    have hv : e.2 ∈ g.productions.values := OrderedMap.snd_mem_values (List.mem_filter.1 he).1
    exact h.enlarge (List.mem_append_right _ (List.mem_map.2 ⟨_, hv, rfl⟩))
      fun n hn ↦ mem_symbolNames_of_lookahead hv hn

theorem within_followPass {g : Grammar} (nullables : OrderedSet String) {keys : List String}
    {first : Family String String} (hf : first.Within keys g.symbolNames)
    (follow : Family String String) (h : follow.Within g.followNames g.symbolNames) :
    (g.followPass nullables first follow).Within g.followNames g.symbolNames := by
  refine List.foldlRecOn _ _
    (motive := fun f : Family String String ↦ f.Within g.followNames g.symbolNames) h ?_
  intro f h c hc
  obtain ⟨p, hp, hc⟩ := List.mem_flatMap.1 hc
  obtain ⟨t, ht, rfl⟩ := List.mem_map.1 hc
  have hn := (List.mem_filter.1 ht).2
  simp only [isNonterminalLabel, isNonterminal, Bool.and_eq_true, decide_eq_true_eq] at hn
  refine h.enlarge (List.mem_append_left _ hn.2) fun n hn ↦ ?_
  obtain ⟨j, hj, hn⟩ := List.mem_flatMap.1 hn
  rcases List.mem_append.1 hn with hn | hn
  · exact bodyFirst_subset hf hp [t.2.target] n (List.mem_flatMap.2 ⟨j, hj, hn⟩)
  · split at hn
    · exact h.mem_range hn
    · cases hn

def findFollows (g : Grammar) (nullables : OrderedSet String) (first : Family String String)
    (hf : first.Within g.lefts g.symbolNames) : Family String String :=
  saturate (Family.Within g.followNames g.symbolNames) Family.total
    (fun _ ↦ g.followNames.length * g.symbolNames.length) (g.followPass nullables first)
    (within_followPass nullables hf) (fun _ ↦ Family.Within.total_le) g.goalFollows
    g.within_goalFollows

end RightPart.Grammar
