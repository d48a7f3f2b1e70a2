import Mathlib.Data.Nat.Count
import RightPart.Proofs.Automaton.Trim

namespace RightPart

theorem List.getElem?_filter_range {p : Nat → Bool} {n j : Nat} (hj : j < n) (hp : p j) :
    ((List.range n).filter p)[(List.range j).countP p]? = some j := by
  obtain ⟨k, rfl⟩ : ∃ k, n = j + (k + 1) := ⟨n - j - 1, by omega⟩
  have hsplit : List.range (j + (k + 1)) = List.range j ++ j :: (List.range k).map (j + 1 + ·) := by
    rw [List.range_add, List.range_succ_eq_map, List.map_cons, List.map_map, Nat.add_zero]
    congr 2
    apply List.map_congr_left
    intro i _
    simp only [Function.comp_apply]
    omega
  rw [hsplit, List.filter_append, List.countP_eq_length_filter,
    List.getElem?_append_right (Nat.le_refl _), Nat.sub_self, List.filter_cons_of_pos hp,
    List.getElem?_cons_zero]

theorem List.filterMap_getElem?_range {α : Type} (l : List α) :
    (List.range l.length).filterMap (l[·]?) = l := by
  induction l with
  | nil => rfl
  | cons a l ih =>
    rw [List.length_cons, List.range_succ_eq_map,
      List.filterMap_cons_some (f := ((a :: l)[·]?)) rfl, List.filterMap_map]
    exact congrArg (a :: ·) ih

namespace Automaton

variable {m : Automaton} {i j : Nat}

instance (m : Automaton) : DecidablePred m.Useful :=
  fun i ↦ decidable_of_iff (i ∈ m.useful) mem_useful

/-- The number of a state once the useless ones before it are gone. -/
def rank (m : Automaton) (i : Nat) : Nat := Nat.count m.Useful i

def keep (m : Automaton) (s : State) : State :=
  { s with transitions := (s.transitions.filter (m.Useful ·.target)).map fun t ↦
      { t with target := m.rank t.target } }

theorem filterMap_ids : m.ids.filterMap (m.states[·]?) = m.states.toList := by
  simp only [ids, size, ← Array.getElem?_toList, ← Array.length_toList,
    List.filterMap_getElem?_range]

theorem toList_useful : m.useful.toList = m.ids.filter (m.Useful ·) := by
  have hnodup : (m.ids.filter fun i ↦ i ∈ m.reachable ∧ i ∈ m.coreachable).Nodup :=
    List.nodup_range.filter _
  rw [useful, OrderedSet.toList_ofList_of_nodup hnodup]
  apply List.filter_congr
  intro i _
  apply decide_eq_decide.2
  rw [mem_reachable, mem_coreachable]
  exact ⟨fun h ↦ ⟨h.1, h.2⟩, fun h ↦ ⟨h.reached, h.finishes⟩⟩

theorem indexOf?_useful (hi : m.Useful i) : m.useful.indexOf? i = some (m.rank i) := by
  rw [OrderedSet.indexOf?_eq_some, toList_useful]
  exact List.getElem?_filter_range hi.lt_size (decide_eq_true hi)

theorem indexOf?_useless (hi : ¬ m.Useful i) : m.useful.indexOf? i = .none :=
  OrderedSet.indexOf?_eq_none.2 (mt mem_useful.1 hi)

theorem transitions_keep (l : List Transition) :
    (l.filterMap fun t ↦ (m.useful.indexOf? t.target).map fun j ↦ { t with target := j }) =
      (l.filter (m.Useful ·.target)).map fun t ↦ { t with target := m.rank t.target } := by
  induction l with
  | nil => rfl
  | cons t l ih =>
    by_cases ht : m.Useful t.target
    · rw [List.filterMap_cons_some (by rw [indexOf?_useful ht, Option.map_some]), ih,
        List.filter_cons, if_pos (decide_eq_true ht), List.map_cons]
    · rw [List.filterMap_cons_none (by rw [indexOf?_useless ht, Option.map_none]), ih,
        List.filter_cons, if_neg (by simpa using ht)]

theorem toList_restrict : (m.restrict m.useful).states.toList =
    ((m.ids.filter (m.Useful ·)).filterMap (m.states[·]?)).map m.keep := by
  rw [restrict, Array.toList_map, Array.toList_filterMap, ← toList_useful]
  apply List.map_congr_left
  intro s _
  rw [keep, transitions_keep]

theorem filter_ids (h : ∀ i < m.size, m.Useful i) : m.ids.filter (m.Useful ·) = m.ids :=
  List.filter_eq_self.2 fun i hi ↦ decide_eq_true (h i (List.mem_range.1 hi))

theorem keep_eq_self (h : ∀ i < m.size, m.Useful i) {s : State}
    (hs : ∀ t ∈ s.transitions, t.target < m.size) : m.keep s = s := by
  have hfilter : s.transitions.filter (m.Useful ·.target) = s.transitions :=
    List.filter_eq_self.2 fun t ht ↦ decide_eq_true (h t.target (hs t ht))
  have hrank : ∀ t ∈ s.transitions, { t with target := m.rank t.target } = t := by
    intro t ht
    rw [rank, Nat.count_of_forall fun _ hj ↦ h _ (Nat.lt_trans hj (hs t ht))]
  rw [keep, hfilter, List.map_congr_left hrank, List.map_id']

theorem restrict_eq_self (hc : m.Closed) (h : ∀ i < m.size, m.Useful i) :
    m.restrict m.useful = m := by
  have hkeep : ∀ s ∈ m.states.toList, m.keep s = s := fun s hs ↦
    keep_eq_self h (hc s (Array.mem_toList_iff.1 hs))
  have hlist : (m.restrict m.useful).states.toList = m.states.toList := by
    rw [toList_restrict, filter_ids h, filterMap_ids, List.map_congr_left hkeep, List.map_id']
  exact congrArg Automaton.mk (Array.toList_inj.1 hlist)

theorem trim_eq_restrict (hc : m.Closed) : m.trim = m.restrict m.useful := by
  unfold trim
  dsimp only
  split
  · rename_i hsize
    exact (restrict_eq_self hc fun i hi ↦ useful_of_size_eq hsize hi).symm
  · rfl

theorem size_useful (h : ∀ i < m.size, m.Useful i) : m.useful.size = m.size := by
  rw [← OrderedSet.length_toList, toList_useful, filter_ids h, ids, List.length_range]

theorem checked_trim_eq_self (h : ∀ i < m.size, m.Useful i) : Checked.trim m = .ok m :=
  if_pos (size_useful h)

theorem isEmpty_iff (h : ∀ i < m.size, m.Useful i) : m.isEmpty ↔ m.language = 0 := by
  rw [isEmpty, Array.isEmpty_iff_size_eq_zero]
  constructor
  · intro hsize
    refine Language.ext fun w ↦ iff_of_false (fun hw ↦ ?_) (Language.notMem_zero w)
    obtain ⟨i, hi, -⟩ := mem_language.1 hw
    have hlt : i < m.size := lt_size_of_isInitialAt hi
    exact absurd hsize (Nat.ne_of_gt (Nat.zero_lt_of_lt hlt))
  · intro hlanguage
    by_contra hsize
    obtain ⟨⟨w, i, hi, hw⟩, v, j, hv, hj⟩ := h 0 (Nat.pos_of_ne_zero hsize)
    have hmem : w ++ v ∈ m.language := mem_language.2 ⟨i, mem_initials.1 hi, j, hw.append hv, hj⟩
    rw [hlanguage] at hmem
    exact Language.notMem_zero _ hmem

/-- Trimming a closed automaton leaves the states on the way of an accepted word, in their order and
as they were, with the transitions between them. The same words are accepted, none exactly if no
state is left, and there is nothing more to trim. -/
theorem trim_of_closed (hc : m.Closed) :
    Checked.trim m = .ok m.trim ∧
      m.trim.states.toList = ((m.ids.filter (m.Useful ·)).filterMap (m.states[·]?)).map m.keep ∧
      m.trim.language = m.language ∧ (m.trim.isEmpty ↔ m.language = 0) ∧
      Checked.trim m.trim = .ok m.trim := by
  refine ⟨checked_trim hc, ?_, language_trim, ?_, checked_trim_eq_self useful_trim⟩
  · rw [trim_eq_restrict hc, toList_restrict]
  · rw [isEmpty_iff useful_trim, language_trim]

def gap : Automaton :=
  ⟨#[{ isInitial := true, isFinal := false, left := some "A", transitions :=
        [⟨.symbol "x" .parserTerminal, 1⟩, ⟨.symbol "y" .parserTerminal, 3⟩] },
    { isInitial := false, isFinal := false, transitions := [⟨.symbol "x" .parserTerminal, 1⟩] },
    { isInitial := false, isFinal := true, transitions := [⟨.symbol "x" .parserTerminal, 3⟩] },
    { isInitial := false, isFinal := true, left := some "A", transitions :=
        [⟨.symbol "y" .parserTerminal, 0⟩] }]⟩

theorem trim_gap : ∃ p, Checked.trim gap = .ok p ∧ p.states.toList =
    [{ isInitial := true, isFinal := false, left := some "A", transitions :=
        [⟨.symbol "y" .parserTerminal, 1⟩] },
      { isInitial := false, isFinal := true, left := some "A", transitions :=
        [⟨.symbol "y" .parserTerminal, 0⟩] }] := by
  obtain ⟨htrim, hstates, -⟩ := trim_of_closed (m := gap) (by decide)
  refine ⟨_, htrim, hstates.trans ?_⟩
  decide +kernel

end Automaton

end RightPart
