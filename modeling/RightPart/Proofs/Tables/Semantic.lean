import RightPart.Proofs.Grammar.Prepared
import RightPart.Proofs.Grammar.Lookahead
import RightPart.Proofs.Tables.Linked

namespace RightPart

namespace Grammar

variable {g : Grammar} {t : Tables} {n m k : Nat} {l : Label} {i : Item} {name : String}
  {s : ReadaheadNode} {exits : List (Label × Nat)}

/-- A symbol can come next at an item: it is the first one of a text of the rest of the right part
and of a terminal that may follow the nonterminal. -/
def Ahead (g : Grammar) (i : Item) (name : String) : Prop :=
  ∃ p v j x y rest, g.productions.get? i.production = some p ∧ p.body.Path i.state v j ∧
    p.body.isFinalAt j ∧ g.Expands v x ∧ y ∈ p.follow ∧ x ++ [y] = name :: rest

theorem Ahead.mem_itemFollow (h : g.Ahead i name) (ha : g.Analyzed) : name ∈ g.itemFollow i := by
  obtain ⟨p, v, j, x, y, rest, hp, hw, hj, hx, hy, heq⟩ := h
  have hend : g.MayFollow p j y := ⟨j, .refl, .inr ⟨hj, hy⟩⟩
  exact Grammar.mem_itemFollow hp (hx.mayFollow ha hw hend heq)

/-- The steps out of a state once its actions are states of their own, which are entered with a look
at what comes next. -/
def extracted (g : Grammar) (exits : List (Label × Nat)) : List (Label × Target) :=
  exits.flatMap (ReadaheadAutomaton.exitTransitions g.automaton.semantics
    (ReadaheadAutomaton.followAt (g.automaton.follows g)))

theorem mem_extracted (he : (l, m) ∈ exits) (hl : l.isAction)
    (hk : g.automaton.semantics.toList[k]? = some ⟨l, m⟩) (hn : g.Next m name) :
    (.look name, .semantic k) ∈ g.extracted exits := by
  refine List.mem_flatMap.2 ⟨(l, m), he, ?_⟩
  rw [ReadaheadAutomaton.exitTransitions, if_pos hl, OrderedSet.indexOf_eq hk]
  exact List.mem_map.2 ⟨name, mem_followAt.2 hn, rfl⟩

theorem filter_extracted : (g.extracted exits).filter (·.2.kind ≠ .semantic) =
    (exits.filter (!·.1.isAction)).map fun e ↦ (e.1, .readahead e.2) := by
  unfold extracted
  induction exits with
  | nil => rfl
  | cons e exits ih =>
    rw [List.flatMap_cons, List.filter_append, ih, ReadaheadAutomaton.exitTransitions]
    cases hl : e.1.isAction with
    | true => simp [hl, Target.kind]
    | false => simp [hl, Target.kind]

theorem exists_extracted (ht : g.construct = .ok t) (hs : g.automaton.nodes[n]? = some s) :
    ∃ u rest, t.readaheads[n]? = some u ∧ u.finalItems = s.items ∧
      (∀ name, name ∈ u.follow ↔ g.Next n name) ∧
      u.transitions = g.extracted (s.exits.filter (!g.isNonterminalLabel ·.1)) ++ rest := by
  by_cases hk : g.kind.isScanner
  · have hexits : s.exits.filter (!g.isNonterminalLabel ·.1) = s.exits := by
      refine List.filter_eq_self.2 fun e he ↦ ?_
      have hstep := isStep_of_edge ⟨s, hs, he⟩
      rwa [isStep, hk, Bool.true_and] at hstep
    refine ⟨g.scannerState s n, g.automaton.bridges g n s (g.scannerMoves s), ?_, rfl,
      fun _ ↦ mem_followAt, ?_⟩
    · rw [eq_scannerTables ht hk, getElem?_scannerReadaheads, hs, Option.map_some]
    · rw [hexits]
      rfl
  · have hparser : t = g.parserTables g.automaton g.itemGraph :=
      (construct_eq_ok ht).trans (if_neg hk)
    refine ⟨g.aheadState s n, g.completionTransitions g.readbackNodes.indexOf n s, ?_, rfl,
      fun _ ↦ mem_followAt, rfl⟩
    rw [hparser, getElem?_readaheads, hs, Option.map_some]

/-- No action is lost for want of lookahead: whatever can come next after it, at any item of the
state that it leads to, is a symbol on which the action is performed. The other steps of the state
stay as they are, and no action is there twice. -/
theorem mem_extracted_of_ahead {d : Draft} (h : d.finish = .ok g) (ht : g.construct = .ok t) :
    t.semantics.toList.Nodup ∧ ∀ (n : Nat) (s : ReadaheadNode), g.automaton.nodes[n]? = some s →
      (g.extracted s.exits).filter (·.2.kind ≠ .semantic) =
        ((s.exits.filter (!·.1.isAction)).map fun e ↦ (e.1, .readahead e.2)) ∧
      ∃ (u : ReadaheadState) (rest : List (Label × Target)), t.readaheads[n]? = some u ∧
        u.transitions = g.extracted (s.exits.filter (!g.isNonterminalLabel ·.1)) ++ rest ∧
        ∀ l m, (l, m) ∈ s.exits → l.isAction → ∃ (v : ReadaheadState) (k : Nat),
          t.readaheads[m]? = some v ∧ t.semantics.toList[k]? = some ⟨l, m⟩ ∧
          ∀ i ∈ v.finalItems, ∀ name, g.Ahead i name → name ∈ v.follow ∧
            (.look name, .semantic k) ∈ g.extracted s.exits ∧
            (.look name, .semantic k) ∈ u.transitions := by
  have ha := Draft.analyzed_of_finish h
  refine ⟨t.semantics.nodup, fun n s hs ↦ ⟨filter_extracted, ?_⟩⟩
  obtain ⟨u, rest, hu, -, -, htransitions⟩ := exists_extracted ht hs
  refine ⟨u, rest, hu, htransitions, fun l m he hl ↦ ?_⟩
  have hedge : g.automaton.Edge n l m := ⟨s, hs, he⟩
  obtain ⟨s', hs'⟩ := exists_node_of_edge hedge
  obtain ⟨v, -, hv, hitems, hfollow, -⟩ := exists_extracted ht hs'
  have hk := OrderedSet.getElem?_indexOf (mem_semantics.2 ⟨hl, n, hedge⟩)
  rw [semantics_eq ht]
  refine ⟨v, _, hv, hk, fun i hi name hname ↦ ?_⟩
  have hholds : g.automaton.Holds m i := (ReadaheadAutomaton.holds_iff hs').2 (hitems ▸ hi)
  have hnext : g.Next m name := ⟨i, hholds, hname.mem_itemFollow ha⟩
  have hnot : g.isNonterminalLabel l = false := by simp [isNonterminalLabel, hl]
  have hkept : (l, m) ∈ s.exits.filter (!g.isNonterminalLabel ·.1) :=
    List.mem_filter.2 ⟨he, by simp [hnot]⟩
  refine ⟨(hfollow name).2 hnext, mem_extracted he hl hk hnext, ?_⟩
  rw [htransitions]
  exact List.mem_append_left _ (mem_extracted hkept hl hk hnext)

end Grammar

namespace Marks

def definitions : List Definition :=
  [.production "L" (.optional (.sequence [.literal "a", .action "mark" [] true, .symbol "L"])),
    .goal "G" (.symbol "L") [Grammar.endOfInput]]

def grammar : Grammar := (Grammar.define .parser definitions).toOption.get (by decide +kernel)

def tables : Tables := grammar.construct.toOption.get (by decide +kernel)

def mark : Label := .action "mark" [] true

def call : Label := .symbol "L" .parserNonterminal

theorem define_definitions : Grammar.define .parser definitions = .ok grammar :=
  eq_ok_of_toOption (Option.some_get _).symm

theorem construct_grammar : grammar.construct = .ok tables :=
  eq_ok_of_toOption (Option.some_get _).symm

theorem exists_production : ∃ p, grammar.productionFor? "L" = some (0, p) ∧
    p.body.transitionsFrom 2 = [⟨call, 3⟩] ∧ p.body.initials = [0, 4] ∧ p.body.isFinalAt 3 ∧
    p.body.isFinalAt 4 ∧ Grammar.endOfInput ∈ p.follow := by
  have h : (grammar.productionFor? "L").any fun e ↦ e.1 = 0 ∧
      e.2.body.transitionsFrom 2 = [⟨call, 3⟩] ∧
      e.2.body.initials = [0, 4] ∧ e.2.body.isFinalAt 3 ∧ e.2.body.isFinalAt 4 ∧
      Grammar.endOfInput ∈ e.2.follow := by
    decide +kernel
  obtain ⟨⟨id, p⟩, hp, h⟩ := (Option.any_eq_true _ _).1 h
  obtain ⟨rfl, h⟩ := of_decide_eq_true h
  exact ⟨p, hp, h⟩

theorem ahead_mark : grammar.Ahead ⟨0, 2⟩ Grammar.endOfInput := by
  obtain ⟨p, hp, htransitions, hinitials, hlast, hempty, hfollow⟩ := exists_production
  have hderives : grammar.Derives "L" [] :=
    ⟨0, p, [], hp, ⟨4, by simp [hinitials], 4, .nil 4, hempty⟩, .nil⟩
  have hcall : grammar.Expands [call] [] :=
    Grammar.Derives.expands (l := call) hderives rfl (by decide +kernel)
  have hpath : p.body.Path 2 [call] 3 := .one (t := ⟨call, 3⟩) (by simp [htransitions])
  exact ⟨p, [call], 3, [], Grammar.endOfInput, [], (Grammar.productionFor?_eq_some hp).1, hpath,
    hlast, hcall, hfollow, rfl⟩

theorem mem_extracted_marks : ∃ u k, tables.readaheads[2]? = some u ∧
    tables.semantics.toList[k]? = some ⟨mark, 3⟩ ∧
    (.look Grammar.endOfInput, .semantic k) ∈ u.transitions := by
  have hnode : grammar.automaton.nodes[2]?.map ReadaheadNode.exits = some [(mark, 3)] := by
    decide +kernel
  obtain ⟨s, hs, hexits⟩ := Option.map_eq_some_iff.1 hnode
  obtain ⟨d, -, h⟩ := Draft.exists_built define_definitions
  obtain ⟨-, hall⟩ := Grammar.mem_extracted_of_ahead h construct_grammar
  obtain ⟨-, u, -, hu, -, haction⟩ := hall 2 s hs
  obtain ⟨v, k, hv, hk, hahead⟩ := haction mark 3 (by simp [hexits]) rfl
  have hitem : ⟨0, 2⟩ ∈ v.finalItems := by
    have hitems : tables.readaheads[3]?.all (⟨0, 2⟩ ∈ ·.finalItems) := by decide +kernel
    rw [hv] at hitems
    exact of_decide_eq_true hitems
  obtain ⟨-, -, hmem⟩ := hahead _ hitem _ ahead_mark
  exact ⟨u, k, hu, hk, hmem⟩

end Marks

end RightPart
