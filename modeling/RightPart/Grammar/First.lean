import RightPart.Grammar.Nullable

namespace RightPart.Grammar

def symbolNames (g : Grammar) : List String :=
  g.productions.values.flatMap fun p ↦
    p.body.transitions.map (·.2.label.name) ++ (p.lookahead.getD ∅).toList

theorem mem_symbolNames_of_label {g : Grammar} {p : Production} (hp : p ∈ g.productions.values)
    {i : Nat} {t : Transition} (ht : t ∈ p.body.transitionsFrom i) : t.label.name ∈ g.symbolNames :=
  List.mem_flatMap.2 ⟨p, hp, List.mem_append_left _
    (List.mem_map.2 ⟨(i, t), Automaton.mem_transitions.2 ht, rfl⟩)⟩

theorem mem_symbolNames_of_lookahead {g : Grammar} {p : Production} (hp : p ∈ g.productions.values)
    {n : String} (hn : n ∈ p.lookahead.getD ∅) : n ∈ g.symbolNames :=
  List.mem_flatMap.2 ⟨p, hp, List.mem_append_right _ hn⟩

def labelFirst (g : Grammar) (first : Family String String) (l : Label) : List String :=
  if g.isNonterminalLabel l then (first.members l.name).toList
  else if g.isReadTerminal l then [l.name] else []

/-- The terminals that can come first on the way from a set of states of a right part. -/
def bodyFirst (g : Grammar) (nullables : OrderedSet String) (first : Family String String)
    (body : Automaton) (states : List Nat) : List String :=
  (body.silentClosure nullables states).toList.flatMap fun i ↦
    (body.transitionsFrom i).flatMap fun t ↦ g.labelFirst first t.label

theorem bodyFirst_subset {g : Grammar} {nullables : OrderedSet String} {keys : List String}
    {first : Family String String} (h : first.Within keys g.symbolNames) {p : Production}
    (hp : p ∈ g.productions.values) (states : List Nat) :
    ∀ n ∈ g.bodyFirst nullables first p.body states, n ∈ g.symbolNames := by
  intro n hn
  obtain ⟨i, -, hn⟩ := List.mem_flatMap.1 hn
  obtain ⟨t, ht, hn⟩ := List.mem_flatMap.1 hn
  unfold labelFirst at hn
  split at hn
  · exact h.mem_range hn
  · split at hn
    · rw [List.mem_singleton.1 hn]
      exact mem_symbolNames_of_label hp ht
    · cases hn

def firstPass (g : Grammar) (nullables : OrderedSet String) (first : Family String String) :
    Family String String :=
  g.productions.values.foldl
    (fun first p ↦ first.enlarge p.left (g.bodyFirst nullables first p.body p.body.initials)) first

def emptyFirsts (g : Grammar) : Family String String := g.lefts.foldl (fun f n ↦ f.enlarge n []) ∅

theorem within_emptyFirsts (g : Grammar) : g.emptyFirsts.Within g.lefts g.symbolNames :=
  List.foldlRecOn _ _ (motive := fun f : Family String String ↦ f.Within g.lefts g.symbolNames)
    nofun fun _ h _ hn ↦ h.enlarge hn nofun

theorem within_firstPass {g : Grammar} (nullables : OrderedSet String)
    (first : Family String String) (h : first.Within g.lefts g.symbolNames) :
    (g.firstPass nullables first).Within g.lefts g.symbolNames :=
  List.foldlRecOn _ _ (motive := fun f : Family String String ↦ f.Within g.lefts g.symbolNames) h
    fun _ h p hp ↦ h.enlarge (List.mem_map.2 ⟨p, hp, rfl⟩) (bodyFirst_subset h hp _)

def findFirsts (g : Grammar) (nullables : OrderedSet String) : Family String String :=
  saturate (Family.Within g.lefts g.symbolNames) Family.total
    (fun _ ↦ g.lefts.length * g.symbolNames.length) (g.firstPass nullables)
    (within_firstPass nullables) (fun _ ↦ Family.Within.total_le) g.emptyFirsts g.within_emptyFirsts

theorem within_findFirsts (g : Grammar) (nullables : OrderedSet String) :
    (g.findFirsts nullables).Within g.lefts g.symbolNames :=
  saturate_prop _

end RightPart.Grammar
