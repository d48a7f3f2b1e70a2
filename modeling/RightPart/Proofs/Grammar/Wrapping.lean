import RightPart.Proofs.Grammar.Clause

namespace RightPart

namespace Draft

variable {d d' : Draft} {l : List (String × RightSide)} {e x : String × RightSide} {n : String}

/-- A goal of a parser that right parts refer to. -/
def Wraps (d : Draft) (e : String × RightSide) : Prop :=
  d.kind = .parser ∧ e.2.lookahead.isSome ∧ e.1 ∈ d.references

instance (d : Draft) (e : String × RightSide) : Decidable (d.Wraps e) :=
  inferInstanceAs (Decidable (_ ∧ _))

def demoted (e : String × RightSide) : String × RightSide := (e.1, { e.2 with lookahead := none })

def wrapper (e : String × RightSide) : String × RightSide :=
  (wrapperName e.1,
    { body := .ofLabel (.symbol e.1 .parserNonterminal), lookahead := e.2.lookahead })

/-- What a rule is prepared to. -/
def pieces (d : Draft) (e : String × RightSide) : List (String × RightSide) :=
  if d.Wraps e then [demoted e, wrapper e] else [e]

theorem pieces_of_wraps (h : d.Wraps e) : d.pieces e = [demoted e, wrapper e] := if_pos h

theorem pieces_of_not_wraps (h : ¬ d.Wraps e) : d.pieces e = [e] := if_neg h

theorem mem_pieces :
    x ∈ d.pieces e ↔ d.Wraps e ∧ (x = demoted e ∨ x = wrapper e) ∨ ¬ d.Wraps e ∧ x = e := by
  by_cases h : d.Wraps e
  · simp [pieces_of_wraps h, h]
  · simp [pieces_of_not_wraps h, h]

theorem pieces_eq_cons (d : Draft) (e : String × RightSide) :
    ∃ y rest, d.pieces e = (e.1, { e.2 with lookahead := y }) :: rest := by
  by_cases h : d.Wraps e
  · exact ⟨_, _, pieces_of_wraps h⟩
  · exact ⟨_, _, pieces_of_not_wraps h⟩

theorem name_of_mem_pieces (h : x ∈ d.pieces e) : x.1 = e.1 ∨ x.1 = wrapperName e.1 := by
  rcases mem_pieces.1 h with ⟨-, rfl | rfl⟩ | ⟨-, rfl⟩
  · exact .inl rfl
  · exact .inr rfl
  · exact .inl rfl

def Unnamed (d : Draft) (e : String × RightSide) : Prop :=
  ∀ x ∈ d.rules.entries, x.1 ≠ e.1 ∧ x.1 ≠ wrapperName e.1

theorem symbol_of_mem (hkind : d.kind = .parser) (hn : n ∈ d.nonterminals) :
    d.symbol n = .ofLabel (.symbol n .parserNonterminal) := by
  rw [symbol, label, hkind, isNonterminal, decide_eq_true hn]
  rfl

theorem wrap_of_wraps (h : d.Wraps e) : wrap d.references d' e = { d' with
    nonterminals := d'.nonterminals.insert (wrapperName e.1)
    rules := (d'.rules.insert e.1 (demoted e).2).insert (wrapperName e.1)
      { body := d'.symbol e.1, lookahead := e.2.lookahead } } := by
  obtain ⟨-, hgoal, hused⟩ := h
  obtain ⟨s, hs⟩ := Option.isSome_iff_exists.1 hgoal
  simp only [wrap, hs, if_pos hused, demoted]

theorem wrap_of_not_wraps (hkind : d.kind = .parser) (h : ¬ d.Wraps e) :
    wrap d.references d' e = { d' with rules := d'.rules.insert e.1 e.2 } := by
  cases hs : e.2.lookahead with
  | none => simp only [wrap, hs]
  | some s =>
    have hused : e.1 ∉ d.references := fun hused ↦ h ⟨hkind, hs ▸ rfl, hused⟩
    simp only [wrap, hs, if_neg hused]

theorem kind_wrap (used : OrderedSet String) : (wrap used d e).kind = d.kind := by
  rcases wrap_cases used d e with heq | ⟨s, -, heq⟩ <;> rw [heq]

theorem entries_wrap (hkind : d.kind = .parser) (hkind' : d'.kind = .parser)
    (he : e.1 ∈ d'.nonterminals) (hne : e.1 ≠ wrapperName e.1) (h : d'.Unnamed e) :
    (wrap d.references d' e).rules.entries = d'.rules.entries ++ d.pieces e := by
  have hleft : e.1 ∉ d'.rules.keySet := fun hk ↦ by
    obtain ⟨x, hx, heq⟩ := OrderedMap.mem_keySet_iff.1 hk
    exact (h x hx).1 heq
  by_cases hwraps : d.Wraps e
  · have hwrapper : wrapperName e.1 ∉ (d'.rules.insert e.1 (demoted e).2).keySet := fun hk ↦ by
      obtain ⟨x, hx, heq⟩ := OrderedMap.mem_keySet_iff.1 hk
      rcases OrderedMap.mem_alter hx with hx | rfl
      · exact (h x hx).2 heq
      · exact hne heq
    rw [wrap_of_wraps hwraps, pieces_of_wraps hwraps]
    dsimp only
    rw [OrderedMap.entries_insert_of_not_mem hwrapper, OrderedMap.entries_insert_of_not_mem hleft,
      symbol_of_mem hkind' he, List.append_assoc]
    rfl
  · rw [wrap_of_not_wraps hkind hwraps, pieces_of_not_wraps hwraps]
    exact OrderedMap.entries_insert_of_not_mem hleft _

theorem mem_nonterminals_wrap (hkind : d.kind = .parser) :
    n ∈ (wrap d.references d' e).nonterminals ↔
      n ∈ d'.nonterminals ∨ d.Wraps e ∧ n = wrapperName e.1 := by
  by_cases hwraps : d.Wraps e
  · rw [wrap_of_wraps hwraps, and_iff_right hwraps]
    exact OrderedSet.mem_insert
  · rw [wrap_of_not_wraps hkind hwraps]
    exact (or_iff_left fun hn ↦ hwraps hn.1).symm

theorem wrapperName_ne {name : String} (h : Text.isIdentifier name) (n : String) :
    name ≠ wrapperName n := by
  rintro rfl
  rw [wrapperName, Text.isIdentifier_append_prime] at h
  cases h

theorem entries_foldl_wrap (hkind : d.kind = .parser) (hkind' : d'.kind = .parser)
    (hnames : ∀ e ∈ l, Text.isIdentifier e.1 ∧ e.1 ∈ d'.nonterminals) (hl : (l.map Prod.fst).Nodup)
    (h : ∀ e ∈ l, d'.Unnamed e) :
    (l.foldl (wrap d.references) d').rules.entries = d'.rules.entries ++ l.flatMap d.pieces := by
  induction l generalizing d' with
  | nil => exact (List.append_nil _).symm
  | cons e l ih =>
    obtain ⟨⟨hid, hmem⟩, hnames⟩ := List.forall_mem_cons.1 hnames
    obtain ⟨he, hl⟩ := List.nodup_cons.1 hl
    obtain ⟨hunnamed, h⟩ := List.forall_mem_cons.1 h
    have hentries := entries_wrap hkind hkind' hmem (wrapperName_ne hid _) hunnamed
    rw [List.foldl_cons, ih ((kind_wrap _).trans hkind') ?_ hl ?_, hentries, List.flatMap_cons,
      List.append_assoc]
    · exact fun y hy ↦ ⟨(hnames y hy).1, (mem_nonterminals_wrap hkind).2 (.inl (hnames y hy).2)⟩
    · intro y hy x hx
      rw [hentries] at hx
      rcases List.mem_append.1 hx with hx | hx
      · exact h y hy x hx
      · have hne : e.1 ≠ y.1 := fun heq ↦ he (heq ▸ List.mem_map_of_mem hy)
        rcases name_of_mem_pieces hx with hx | hx <;> rw [hx]
        · exact ⟨hne, wrapperName_ne hid _⟩
        · exact ⟨(wrapperName_ne (hnames y hy).1 _).symm, fun heq ↦ hne (wrapperName_inj heq)⟩

/-- Preparation puts in place of every rule what it is prepared to. -/
theorem entries_prepared (h : d.HasNamedRules) :
    d.prepared.rules.entries = d.rules.entries.flatMap d.pieces := by
  unfold prepared
  split
  · rename_i hkind
    have hnodup : (d.rules.entries.map Prod.fst).Nodup :=
      d.rules.map_fst_entries ▸ d.rules.keySet.nodup
    have hstart : ({ d with rules := ∅ } : Draft).kind = .parser := hkind
    rw [wrapGoals_eq, entries_foldl_wrap hkind hstart h hnodup fun _ _ _ hx ↦
      absurd hx List.not_mem_nil]
    rfl
  · rename_i hkind
    have hpieces : ∀ e ∈ d.rules.entries, d.pieces e = [e] := fun e _ ↦
      pieces_of_not_wraps fun hw ↦ hkind hw.1
    rw [List.flatMap_congr hpieces, List.flatMap_singleton']

theorem mem_nonterminals_foldl_wrap (hkind : d.kind = .parser) :
    n ∈ (l.foldl (wrap d.references) d').nonterminals ↔
      n ∈ d'.nonterminals ∨ ∃ e ∈ l, d.Wraps e ∧ n = wrapperName e.1 := by
  induction l generalizing d' with
  | nil => simp
  | cons e l ih =>
    rw [List.foldl_cons, ih, mem_nonterminals_wrap hkind, List.exists_mem_cons_iff, or_assoc]

theorem mem_nonterminals_prepared :
    n ∈ d.prepared.nonterminals ↔
      n ∈ d.nonterminals ∨ ∃ e ∈ d.rules.entries, d.Wraps e ∧ n = wrapperName e.1 := by
  unfold prepared
  split
  · rename_i hkind
    exact mem_nonterminals_foldl_wrap hkind
  · rename_i hkind
    exact (or_iff_left fun ⟨_, _, hw, _⟩ ↦ hkind hw.1).symm

theorem mem_references :
    n ∈ d.references ↔ ∃ e ∈ d.rules.entries, ∃ a ∈ e.2.body.labels, a.isAction = false ∧
      a.name = n := by
  rw [references, OrderedSet.mem_ofList, ← OrderedMap.map_snd_entries, List.flatMap_map,
    List.mem_flatMap]
  refine exists_congr fun e ↦ and_congr_right fun _ ↦ ?_
  simp only [Automaton.labels, List.mem_map, List.mem_filter, Bool.not_eq_true', and_assoc]
  constructor
  · rintro ⟨t, ht, ha, hn⟩
    exact ⟨_, ⟨t, ht, rfl⟩, ha, hn⟩
  · rintro ⟨_, ⟨t, ht, rfl⟩, ha, hn⟩
    exact ⟨t, ht, ha, hn⟩

theorem mem_prepared_of_mem_pieces (hd : d.HasNamedRules) (he : e ∈ d.rules.entries)
    (hx : x ∈ d.pieces e) : x ∈ d.prepared.rules.entries := by
  rw [entries_prepared hd]
  exact List.mem_flatMap.2 ⟨e, he, hx⟩

theorem forall_pieces {P : Automaton → Prop} (h : P e.2.body)
    (hsymbol : ∀ n, P (.ofLabel (.symbol n .parserNonterminal))) :
    ∀ x ∈ d.pieces e, P x.2.body := by
  intro x hx
  rcases mem_pieces.1 hx with ⟨-, rfl | rfl⟩ | ⟨-, rfl⟩
  · exact h
  · exact hsymbol e.1
  · exact h

theorem forall_prepared {P : Automaton → Prop} (hd : d.HasNamedRules)
    (h : ∀ e ∈ d.rules.entries, P e.2.body)
    (hsymbol : ∀ n, P (.ofLabel (.symbol n .parserNonterminal))) :
    ∀ e ∈ d.prepared.rules.entries, P e.2.body := by
  intro x hx
  rw [entries_prepared hd] at hx
  obtain ⟨e, he, hx⟩ := List.mem_flatMap.1 hx
  exact forall_pieces (h e he) hsymbol x hx

section Collects

variable {clauses : List Clause}

theorem Collects.mem_references (h : d.Collects clauses) :
    n ∈ d.references ↔ Clause.Mentions clauses n := by
  rw [Draft.mem_references, h.entries_eq]
  constructor
  · rintro ⟨e, he, a, ha, hn⟩
    obtain ⟨m, -, rfl⟩ := List.mem_map.1 he
    obtain ⟨c, hc, -, ha⟩ := Clause.mem_labels_rightSide.1 ha
    exact ⟨c, hc, a, ha, hn⟩
  · rintro ⟨c, hc, a, ha, hn⟩
    exact ⟨_, List.mem_map_of_mem (Clause.mem_lefts.2 ⟨c, hc, rfl⟩), a,
      Clause.mem_labels_rightSide.2 ⟨c, hc, rfl, ha⟩, hn⟩

theorem Collects.wraps_iff (h : d.Collects clauses) :
    d.Wraps (n, Clause.rightSide clauses n) ↔ Clause.IsWrapped d.kind clauses n := by
  rw [Wraps, h.mem_references, Clause.IsWrapped]
  exact and_congr_right fun _ ↦ and_congr_left fun _ ↦ Clause.isSome_follow?

theorem Collects.entries_prepared (h : d.Collects clauses) (hd : d.HasNamedRules) :
    d.prepared.rules.entries =
      (Clause.lefts clauses).flatMap fun n ↦ d.pieces (n, Clause.rightSide clauses n) := by
  rw [Draft.entries_prepared hd, h.entries_eq, List.flatMap_map]

def names (kind : Kind) (clauses : List Clause) : List String :=
  (Clause.lefts clauses).flatMap fun n ↦
    if Clause.IsWrapped kind clauses n then [n, wrapperName n] else [n]

theorem length_names (kind : Kind) (clauses : List Clause) :
    (names kind clauses).length =
      (Clause.lefts clauses).length +
      (Clause.lefts clauses).countP (Clause.IsWrapped kind clauses ·) := by
  unfold names
  induction Clause.lefts clauses with
  | nil => rfl
  | cons n ns ih =>
    rw [List.flatMap_cons, List.length_append, ih, List.length_cons, List.countP_cons]
    by_cases hn : Clause.IsWrapped kind clauses n
    · rw [if_pos hn, if_pos (decide_eq_true hn)]
      simp only [List.length_cons, List.length_nil]
      omega
    · rw [if_neg hn, if_neg (by simpa using hn)]
      simp only [List.length_cons, List.length_nil]
      omega

theorem head?_names (kind : Kind) (clauses : List Clause) :
    (names kind clauses).head? = (Clause.lefts clauses).head? := by
  unfold names
  cases Clause.lefts clauses with
  | nil => rfl
  | cons n ns =>
    rw [List.flatMap_cons]
    split <;> rfl

theorem Collects.keys_prepared (h : d.Collects clauses) (hd : d.HasNamedRules) :
    d.prepared.rules.keys = names d.kind clauses := by
  rw [← OrderedMap.map_fst_entries, h.entries_prepared hd, List.map_flatMap, names]
  refine List.flatMap_congr fun n _ ↦ ?_
  by_cases hn : Clause.IsWrapped d.kind clauses n
  · rw [pieces_of_wraps (h.wraps_iff.2 hn), if_pos hn]
    rfl
  · rw [pieces_of_not_wraps (mt h.wraps_iff.1 hn), if_neg hn]
    rfl

end Collects

end Draft

end RightPart
