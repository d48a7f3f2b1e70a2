import RightPart.Proofs.Automaton.Trim
import RightPart.Proofs.Ordered.Relation

namespace RightPart.Automaton

variable {c : Connective} {m m' : Automaton} {d e : StatePair} {i j k : Nat} {l : Label}
  {w : List Label}

theorem mem_move {states : List Nat} :
    i ∈ move (m.moves states) l ↔ ∃ j ∈ states, ⟨l, i⟩ ∈ m.transitionsFrom j := by
  simp only [move, moves, mem_sorted, ← OrderedSet.mem_def, Family.mem_members_gather, List.mem_map,
    List.mem_flatMap, Prod.mk.injEq]
  constructor
  · intro h
    obtain ⟨t, ⟨j, hj, ht⟩, rfl, rfl⟩ := h
    exact ⟨j, hj, ht⟩
  · intro h
    obtain ⟨j, hj, ht⟩ := h
    exact ⟨⟨l, i⟩, ⟨j, hj, ht⟩, rfl, rfl⟩

theorem mem_keySet_of_mem_move {states : List Nat} (h : i ∈ move (m.moves states) l) :
    l ∈ (m.moves states).keySet := by
  have hk :=
    List.mem_map_of_mem (f := Prod.fst) (Family.mem_entries_of_mem_members (mem_sorted.1 h))
  rwa [OrderedMap.map_fst_entries] at hk

def track (m : Automaton) (states : List Nat) (w : List Label) : List Nat :=
  w.foldl (fun s l ↦ move (m.moves s) l) states

theorem mem_track : i ∈ m.track (sorted m.initials) w ↔ m.Reaches w i := by
  induction w using List.reverseRecOn generalizing i with
  | nil => rw [track, List.foldl_nil, mem_sorted, mem_initials, reaches_nil]
  | append_singleton w l ih =>
    rw [track, List.foldl_append, reaches_append_singleton]
    exact mem_move.trans (exists_congr fun j ↦ and_congr_left fun _ ↦ ih)

namespace StatePair

def next (m m' : Automaton) (d : StatePair) (l : Label) : StatePair :=
  ⟨move (m.moves d.left) l, move (m'.moves d.right) l⟩

def after (m m' : Automaton) (d : StatePair) (w : List Label) : StatePair := w.foldl (next m m') d

@[simp] theorem after_nil : d.after m m' [] = d := rfl

@[simp] theorem after_cons : d.after m m' (l :: w) = (d.next m m' l).after m m' w := rfl

theorem after_eq : d.after m m' w = ⟨m.track d.left w, m'.track d.right w⟩ := by
  induction w generalizing d with
  | nil => rfl
  | cons l w ih => exact ih

theorem mem_left_after_start : i ∈ ((start m m').after m m' w).left ↔ m.Reaches w i := by
  rw [after_eq]
  exact mem_track

theorem mem_right_after_start : i ∈ ((start m m').after m m' w).right ↔ m'.Reaches w i := by
  rw [after_eq]
  exact mem_track

end StatePair

open StatePair

theorem isLive_iff : c.isLive d ↔ (∃ i, i ∈ d.left) ∧ (c = .intersect → ∃ i, i ∈ d.right) := by
  cases c <;> simp [Connective.isLive, List.eq_nil_iff_forall_not_mem]

theorem mem_pairMoves : (l, e) ∈ pairMoves c m m' d ↔ d.next m m' l = e ∧ c.isLive e := by
  simp only [pairMoves, List.mem_filter, List.mem_map, Prod.mk.injEq]
  constructor
  · intro h
    obtain ⟨⟨l, -, rfl, rfl⟩, hlive⟩ := h
    exact ⟨rfl, hlive⟩
  · intro h
    obtain ⟨rfl, hlive⟩ := h
    obtain ⟨i, hi⟩ := (isLive_iff.1 hlive).1
    refine ⟨⟨l, ?_, rfl, rfl⟩, hlive⟩
    exact OrderedSet.mem_extend.2 (.inl (mem_keySet_of_mem_move hi))

theorem nodup_pairMoves : ((pairMoves c m m' d).map Prod.fst).Nodup := by
  have hlabels :
      (((m.moves d.left).keySet.extend (m'.moves d.right).keys).toList.map fun l ↦
        ((l, ⟨move (m.moves d.left) l, move (m'.moves d.right) l⟩) :
          Label × StatePair)).map Prod.fst =
        ((m.moves d.left).keySet.extend (m'.moves d.right).keys).toList := by
    rw [List.map_map]
    exact List.map_id _
  refine List.Nodup.sublist (List.Sublist.map Prod.fst List.filter_sublist) ?_
  rw [hlabels]
  exact OrderedSet.nodup _

theorem isLive_of_next (h : c.isLive (d.next m m' l)) : c.isLive d := by
  obtain ⟨⟨i, hi⟩, hr⟩ := isLive_iff.1 h
  obtain ⟨j, hj, -⟩ := mem_move.1 hi
  refine isLive_iff.2 ⟨⟨j, hj⟩, fun hc ↦ ?_⟩
  obtain ⟨i, hi⟩ := hr hc
  obtain ⟨j, hj, -⟩ := mem_move.1 hi
  exact ⟨j, hj⟩

theorem isLive_of_after (h : c.isLive (d.after m m' w)) : c.isLive d := by
  induction w generalizing d with
  | nil => exact h
  | cons l w ih => exact isLive_of_next (ih h)

theorem isLive_of_mem_pairs (h : d ∈ (pairs c m m').nodes.toList) : c.isLive d := by
  refine Found.search_induction (Q := fun d : StatePair ↦ c.isLive d) ?_ ?_ 0 d h
  · intro d hd
    obtain ⟨hlive, rfl⟩ := mem_starts.1 (Found.mem_ofList hd)
    exact hlive
  · intro d _ e he
    obtain ⟨⟨l, e⟩, hm, rfl⟩ := List.mem_map.1 he
    exact (mem_pairMoves.1 hm).2

theorem getElem?_pairs_zero (h : c.isLive (start m m')) :
    (pairs c m m').nodes[0]? = some (start m m') :=
  Found.getElem?_search (Found.getElem?_ofList_zero (congrArg List.head? (if_pos h)))

theorem isLive_start_of_mem_pairs (h : d ∈ (pairs c m m').nodes.toList) :
    c.isLive (start m m') := by
  refine Found.search_induction (Q := fun _ ↦ c.isLive (start m m')) (fun d hd ↦ ?_)
    (fun _ h _ _ ↦ h) 0 d h
  exact (mem_starts.1 (Found.mem_ofList hd)).1

theorem next_mem_keys (hd : d ∈ (pairs c m m').keys) (h : c.isLive (d.next m m' l)) :
    d.next m m' l ∈ (pairs c m m').keys := by
  obtain ⟨d, hnode, rfl⟩ := Found.mem_keys.1 hd
  exact Found.next_search d hnode _
    (List.mem_map.2 ⟨(l, d.next m m' l), mem_pairMoves.2 ⟨rfl, h⟩, rfl⟩)

theorem after_mem_keys (hd : d ∈ (pairs c m m').keys) (h : c.isLive (d.after m m' w)) :
    d.after m m' w ∈ (pairs c m m').keys := by
  induction w generalizing d with
  | nil => exact hd
  | cons l w ih => exact ih (next_mem_keys hd (isLive_of_after h)) h

theorem exists_state_after_start (h : c.isLive ((start m m').after m m' w)) :
    ∃ k : Nat, (pairs c m m').nodes[k]? = some ((start m m').after m m' w) := by
  have hstart := getElem?_pairs_zero (isLive_of_after h)
  have hkey := Found.key_mem_keys (List.mem_of_getElem? ((Array.getElem?_toList ..).trans hstart))
  obtain ⟨e, he, rfl⟩ := Found.getElem?_indexOf (after_mem_keys hkey h)
  exact ⟨_, he⟩

section PairAutomaton

abbrev product (c : Connective) (m m' : Automaton) : Automaton :=
  pairAutomaton c m m' (pairs c m m')

theorem getElem?_product : (product c m m').states[k]? = (pairs c m m').nodes[k]?.map fun d ↦ {
    isInitial := k == 0
    isFinal := c.isFinal (d.left.any m.isFinalAt) (d.right.any m'.isFinalAt)
    transitions := (pairMoves c m m' d).map fun e ↦ ⟨e.1, (pairs c m m').indexOf e.2⟩ } := by
  rw [product, pairAutomaton, Array.getElem?_mapIdx]

theorem mem_transitionsFrom_product (hd : (pairs c m m').nodes[k]? = some d) :
    ⟨l, j⟩ ∈ (product c m m').transitionsFrom k ↔
      c.isLive (d.next m m' l) ∧ (pairs c m m').indexOf (d.next m m' l) = j := by
  rw [transitionsFrom, getElem?_product, hd, Option.map_some, Option.map_some, Option.getD_some,
    List.mem_map]
  constructor
  · intro h
    obtain ⟨⟨l, e⟩, he, heq⟩ := h
    obtain ⟨rfl, rfl⟩ := Transition.mk.inj heq
    obtain ⟨rfl, hlive⟩ := mem_pairMoves.1 he
    exact ⟨hlive, rfl⟩
  · intro h
    obtain ⟨hlive, rfl⟩ := h
    exact ⟨(l, d.next m m' l), mem_pairMoves.2 ⟨rfl, hlive⟩, rfl⟩

theorem exists_node_of_lt_product (h : k < (product c m m').size) :
    ∃ d, (pairs c m m').nodes[k]? = some d := by
  obtain ⟨s, hs⟩ := exists_state h
  rw [getElem?_product, Option.map_eq_some_iff] at hs
  obtain ⟨d, hd, -⟩ := hs
  exact ⟨d, hd⟩

theorem lt_product_of_node (h : (pairs c m m').nodes[k]? = some d) : k < (product c m m').size := by
  rw [size, product, pairAutomaton, Array.size_mapIdx]
  exact (Array.getElem?_eq_some_iff.1 h).1

theorem getElem?_indexOf_next (hd : (pairs c m m').nodes[k]? = some d)
    (h : c.isLive (d.next m m' l)) :
    (pairs c m m').nodes[(pairs c m m').indexOf (d.next m m' l)]? = some (d.next m m' l) := by
  have hkey := Found.key_mem_keys (List.mem_of_getElem? ((Array.getElem?_toList ..).trans hd))
  obtain ⟨e, he, hid⟩ := Found.getElem?_indexOf (next_mem_keys hkey h)
  exact he.trans (congrArg some hid)

/-- The product runs as the pairs of sets do. -/
theorem path_product (hd : (pairs c m m').nodes[k]? = some d) :
    (product c m m').Path k w j ↔ (pairs c m m').nodes[j]? = some (d.after m m' w) := by
  induction w generalizing k d with
  | nil =>
    rw [after_nil]
    constructor
    · intro h
      cases h
      exact hd
    · intro h
      have hk : (pairs c m m').indexOf d = k := Found.indexOf_key hd
      have hj : (pairs c m m').indexOf d = j := Found.indexOf_key h
      rw [← hk, ← hj]
      exact .nil _
  | cons l w ih =>
    rw [after_cons]
    constructor
    · intro h
      cases h with
      | cons ht h =>
        obtain ⟨hlive, hj⟩ := (mem_transitionsFrom_product hd).1 ht
        exact (ih (hj ▸ getElem?_indexOf_next hd hlive)).1 h
    · intro h
      have hlive : c.isLive (d.next m m' l) :=
        isLive_of_after
          (isLive_of_mem_pairs (List.mem_of_getElem? ((Array.getElem?_toList ..).trans h)))
      have ht := (mem_transitionsFrom_product hd).2 ⟨hlive, rfl⟩
      exact .step ht ((ih (getElem?_indexOf_next hd hlive)).2 h)

theorem isInitialAt_product :
    (product c m m').isInitialAt k ↔ k = 0 ∧ c.isLive (start m m') := by
  rw [isInitialAt, getElem?_product, Option.map_map]
  constructor
  · intro h
    cases hk : (pairs c m m').nodes[k]? with
    | none => simp [hk] at h
    | some d =>
      rw [hk] at h
      exact ⟨beq_iff_eq.1 h, isLive_start_of_mem_pairs
        (Array.mem_toList_iff.2 (Array.mem_of_getElem? hk))⟩
  · intro h
    obtain ⟨rfl, hlive⟩ := h
    rw [getElem?_pairs_zero hlive]
    rfl

theorem isFinalAt_product (hd : (pairs c m m').nodes[k]? = some d) : (product c m m').isFinalAt k =
    c.isFinal (d.left.any m.isFinalAt) (d.right.any m'.isFinalAt) := by
  rw [isFinalAt, getElem?_product, hd]
  rfl

theorem any_isFinalAt_left : ((start m m').after m m' w).left.any m.isFinalAt ↔ w ∈ m.language := by
  simp only [List.any_eq_true, mem_left_after_start, mem_language_iff_reaches]

theorem any_isFinalAt_right :
    ((start m m').after m m' w).right.any m'.isFinalAt ↔ w ∈ m'.language := by
  simp only [List.any_eq_true, mem_right_after_start, mem_language_iff_reaches]

def Connective.Asks (c : Connective) (L M : Language Label) (w : List Label) : Prop :=
  match c with
  | .intersect => w ∈ L ∧ w ∈ M
  | .difference => w ∈ L ∧ w ∉ M

theorem isFinal_after_start : c.isFinal (((start m m').after m m' w).left.any m.isFinalAt)
    (((start m m').after m m' w).right.any m'.isFinalAt) ↔ c.Asks m.language m'.language w := by
  cases c with
  | intersect =>
    rw [Connective.isFinal, Bool.and_eq_true, any_isFinalAt_left, any_isFinalAt_right,
      Connective.Asks]
  | difference =>
    rw [Connective.isFinal, Bool.and_eq_true, Bool.not_eq_true', ← Bool.not_eq_true,
      any_isFinalAt_left, any_isFinalAt_right, Connective.Asks]

theorem isLive_of_asks (h : c.Asks m.language m'.language w) :
    c.isLive ((start m m').after m m' w) := by
  have hleft : w ∈ m.language := by
    cases c with
    | intersect => exact h.1
    | difference => exact h.1
  rw [isLive_iff]
  obtain ⟨i, hi, -⟩ := mem_language_iff_reaches.1 hleft
  refine ⟨⟨i, mem_left_after_start.2 hi⟩, fun hc ↦ ?_⟩
  subst hc
  obtain ⟨j, hj, -⟩ := mem_language_iff_reaches.1 h.2
  exact ⟨j, mem_right_after_start.2 hj⟩

theorem mem_language_product :
    w ∈ (product c m m').language ↔ c.Asks m.language m'.language w := by
  rw [mem_language]
  constructor
  · intro h
    obtain ⟨i, hi, j, hw, hj⟩ := h
    obtain ⟨rfl, hlive⟩ := isInitialAt_product.1 hi
    have hnode := (path_product (getElem?_pairs_zero hlive)).1 hw
    rw [isFinalAt_product hnode] at hj
    exact isFinal_after_start.1 hj
  · intro h
    have hlive := isLive_of_asks h
    obtain ⟨k, hk⟩ := exists_state_after_start hlive
    have hstart := isLive_of_after hlive
    refine ⟨0, isInitialAt_product.2 ⟨rfl, hstart⟩, k,
      (path_product (getElem?_pairs_zero hstart)).2 hk, ?_⟩
    rw [isFinalAt_product hk]
    exact isFinal_after_start.2 h

theorem closed_product : (product c m m').Closed := by
  rw [closed_iff]
  intro k t ht
  obtain ⟨d, hd⟩ := exists_node_of_lt_product (lt_size_of_mem ht)
  obtain ⟨hlive, he⟩ := (mem_transitionsFrom_product hd).1 ht
  rw [← he]
  exact lt_product_of_node (getElem?_indexOf_next hd hlive)

theorem deterministic_product : (product c m m').Deterministic where
  start i j hi hj := (isInitialAt_product.1 hi).1.trans (isInitialAt_product.1 hj).1.symm
  label k := by
    rw [transitionsFrom, getElem?_product]
    cases (pairs c m m').nodes[k]? with
    | none => exact List.nodup_nil
    | some d =>
      rw [Option.map_some, Option.map_some, Option.getD_some, List.map_map]
      exact nodup_pairMoves

/-- The first pair holds initial states, which no transition of a tidy automaton enters. -/
theorem unentered_product (hu : m.Unentered) : (product c m m').Unentered := by
  intro k t ht
  obtain ⟨d, hd⟩ := exists_node_of_lt_product (lt_size_of_mem ht)
  obtain ⟨hlive, he⟩ := (mem_transitionsFrom_product hd).1 ht
  rw [Bool.eq_false_iff]
  intro hinit
  obtain ⟨h0, hstart⟩ := isInitialAt_product.1 hinit
  have hnext := getElem?_indexOf_next hd hlive
  rw [he, h0, getElem?_pairs_zero hstart] at hnext
  obtain ⟨⟨i, hi⟩, -⟩ := isLive_iff.1 hlive
  have hi' : i ∈ (start m m').left := Option.some.inj hnext ▸ hi
  obtain ⟨j, -, hj⟩ := mem_move.1 hi
  have hfalse := hu j _ hj
  rw [mem_initials.1 (mem_sorted.1 hi')] at hfalse
  cases hfalse

end PairAutomaton

theorem hasAction_iff (h : m.Tidy) : m.hasAction ↔ ∃ w ∈ m.language, ∃ l ∈ w, l.isAction := by
  rw [hasAction, List.any_eq_true]
  constructor
  · intro hm
    obtain ⟨⟨i, t⟩, ht, hl⟩ := hm
    obtain ⟨w, hw, hlw⟩ := h.exists_mem_language (mem_transitions.1 ht)
    exact ⟨w, hw, t.label, hlw, hl⟩
  · intro hm
    obtain ⟨w, ⟨i, -, j, hw, -⟩, l, hl, hact⟩ := hm
    obtain ⟨e, he, rfl⟩ := hw.label hl
    exact ⟨e, he, hact⟩

theorem hasAction_eq_false_iff (h : m.Tidy) : m.hasAction = false ↔ ActionFree m.language := by
  rw [← Bool.not_eq_true, hasAction_iff h, ActionFree]
  simp

theorem not_pairMissing (hc : m.Closed) (hc' : m'.Closed) : ¬ PairMissing m m' (pairs c m m') := by
  have hlt : ∀ {m : Automaton} {i : Nat}, m.Closed → i ∈ m.initials ++ m.targets → i < m.size := by
    intro m i hc hi
    rcases List.mem_append.1 hi with hi | hi
    · exact lt_size_of_isInitialAt (mem_initials.1 hi)
    · obtain ⟨e, he, rfl⟩ := List.mem_map.1 hi
      exact closed_iff.1 hc _ _ (mem_transitions.1 he)
  rintro ⟨d, hd, h⟩
  have hpair : IsPair m m' d := (pairs c m m').keys_mem d (Found.key_mem_keys hd)
  rcases h with ⟨i, hi, hle⟩ | ⟨i, hi, hle⟩
  · exact Nat.not_lt_of_le hle (hlt hc (hpair.1.2 i hi))
  · exact Nat.not_lt_of_le hle (hlt hc' (hpair.2.2 i hi))

theorem checked_combine (hc : m.Closed) (hc' : m'.Closed) :
    Checked.combine c m m' = combine c m m' := by
  rw [Checked.combine, combine]
  dsimp only
  rw [if_neg (not_pairMissing hc hc')]

theorem exists_combine (h : m.Tidy) (h' : m'.Tidy) :
    (∃ p, combine c m m' = .ok p) ↔ ActionFree m.language ∧ ActionFree m'.language := by
  rw [← hasAction_eq_false_iff h, ← hasAction_eq_false_iff h', combine]
  constructor
  · intro hp
    obtain ⟨p, hp⟩ := hp
    split at hp
    · cases hp
    · rename_i ha
      simpa using ha
  · intro ha
    rw [ha.1, ha.2]
    exact ⟨_, rfl⟩

theorem combine_eq_ok {p : Automaton} (h : combine c m m' = .ok p) : p = (product c m m').trim := by
  unfold combine at h
  split at h
  · cases h
  · exact (Except.ok.inj h).symm

theorem mem_language_combine {p : Automaton} (h : combine c m m' = .ok p) :
    w ∈ p.language ↔ c.Asks m.language m'.language w := by
  rw [combine_eq_ok h, language_trim, mem_language_product]

theorem tidy_combine {p : Automaton} (h : combine c m m' = .ok p) (hu : m.Unentered) : p.Tidy :=
  combine_eq_ok h ▸ tidy_trim closed_product (unentered_product hu)

end RightPart.Automaton
