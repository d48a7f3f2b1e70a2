import Mathlib.Data.List.Nodup
import RightPart.Proofs.Automaton.Codes
import RightPart.Proofs.Automaton.Product
import RightPart.Proofs.Automaton.Relabel

namespace RightPart

theorem State.nodup_addTransitions {s : State} (h : s.transitions.Nodup) (l : List Transition) :
    (s.addTransitions l).transitions.Nodup := by
  refine h.append (OrderedSet.nodup _) fun t ht ht' ↦ ?_
  rw [← OrderedSet.mem_def, OrderedSet.mem_ofList, List.mem_filter, decide_eq_true_eq] at ht'
  exact ht'.2 (OrderedSet.mem_ofList.2 ht)

theorem State.nodup_withTransitions (s : State) (l : List Transition) :
    (s.withTransitions l).transitions.Nodup :=
  OrderedSet.nodup _

namespace Automaton

variable {m m' p : Automaton} {n : Nat} {labels w : List Label}

def Distinct (m : Automaton) : Prop := ∀ s ∈ m.states, s.transitions.Nodup

theorem distinct_iff : m.Distinct ↔ ∀ i, (m.transitionsFrom i).Nodup := by
  constructor
  · intro h i
    by_cases hi : i < m.size
    · obtain ⟨s, hs⟩ := exists_state hi
      rw [transitionsFrom_of_state hs]
      exact h s (Array.mem_of_getElem? hs)
    · rw [transitionsFrom, Array.getElem?_eq_none (Nat.le_of_not_lt hi)]
      exact List.nodup_nil
  · intro h s hs
    obtain ⟨i, hi⟩ := Array.mem_iff_getElem?.1 hs
    exact transitionsFrom_of_state hi ▸ h i

theorem distinct_ofWord (w : List Label) : (ofWord w).Distinct := by
  rw [distinct_iff]
  intro i
  rw [transitionsFrom, getElem?_ofWord]
  split
  · exact List.nodup_nil
  · cases w[i]? with
    | none => exact List.nodup_nil
    | some l => exact List.nodup_singleton _

theorem distinct_ofLabels (h : labels.Nodup) : (ofLabels labels).Distinct := by
  intro s hs
  rcases List.mem_pair.1 (Array.mem_toList_iff.2 hs) with rfl | rfl
  · exact h.map fun _ _ he ↦ (Transition.mk.inj he).1
  · exact List.nodup_nil

theorem distinct_ofLabel (l : Label) : (ofLabel l).Distinct :=
  distinct_ofLabels (List.nodup_singleton l)

theorem symbolsOfCodes_eq {before : Array String} {lo : Nat} {ts : List String}
    (h : symbolsOfCodes before lo n = .ok ts) :
    ts = before.toList ++ (List.range' lo n).map fun k ↦ (Char.ofNat k).toString := by
  induction n generalizing before lo with
  | zero => rw [← Except.ok.inj h, List.range'_zero, List.map_nil, List.append_nil]
  | succ n ih =>
    rw [symbolsOfCodes] at h
    split at h
    · rename_i s hs
      obtain ⟨c, rfl, rfl⟩ := symbolOfCode_eq_ok.1 hs
      rw [ih h, Array.toList_push, List.append_assoc, List.singleton_append, List.range'_succ,
        List.map_cons, Char.ofNat_toNat]
    · cases h

theorem nodup_symbolsOfCodes {lo : Nat} {ts : List String} (h : symbolsOfCodes #[] lo n = .ok ts) :
    ts.Nodup := by
  have hvalid := (exists_symbolsOfCodes #[]).1 ⟨ts, h⟩
  rw [symbolsOfCodes_eq h]
  refine List.Nodup.map_on (fun k hk k' hk' he ↦ ?_) List.nodup_range'
  obtain ⟨hle, hlt⟩ := List.mem_range'_1.1 hk
  obtain ⟨hle', hlt'⟩ := List.mem_range'_1.1 hk'
  obtain ⟨c, rfl⟩ := exists_char_iff.2 (hvalid k hle hlt)
  obtain ⟨c', rfl⟩ := exists_char_iff.2 (hvalid k' hle' hlt')
  simp only [Char.ofNat_toNat] at he
  have hlist : [c] = [c'] := by simpa using congrArg String.toList he
  rw [List.singleton_inj.1 hlist]

theorem distinct_ofCodes {lo hi : Nat} {a : Attributes} (h : ofCodes lo hi a = .ok m) :
    m.Distinct := by
  unfold ofCodes at h
  split at h
  · cases h
  · cases hts : symbolsOfCodes #[] lo (hi + 1 - lo) with
    | error e => rw [hts] at h; cases h
    | ok ts =>
      rw [hts] at h
      obtain rfl := Except.ok.inj h
      exact distinct_ofLabels ((nodup_symbolsOfCodes hts).map fun _ _ he ↦ (Label.symbol.inj he).1)

theorem Distinct.shift (h : m.Distinct) (n : Nat) : (m.shift n).Distinct := by
  intro s hs
  obtain ⟨r, hr, rfl⟩ := Array.mem_map.1 hs
  refine (h r hr).map fun t t' he ↦ ?_
  obtain ⟨hlabel, htarget⟩ := Transition.mk.inj he
  cases t; cases t'
  rw [Transition.mk.injEq]
  exact ⟨hlabel, Nat.add_right_cancel htarget⟩

theorem Distinct.union (h : m.Distinct) (h' : m'.Distinct) : (m.union m').Distinct := by
  intro s hs
  rcases Array.mem_append.1 hs with hs | hs
  · exact h s hs
  · exact h'.shift m.size s hs

theorem Distinct.plus (h : m.Distinct) : m.plus.Distinct := by
  intro s hs
  obtain ⟨r, hr, rfl⟩ := Array.mem_map.1 hs
  split
  · exact State.nodup_addTransitions (h r hr) _
  · exact h r hr

theorem Distinct.join (h : m.Distinct) (h' : m'.Distinct) : (m.join m').Distinct := by
  intro s hs
  rcases Array.mem_append.1 hs with hs | hs
  · obtain ⟨r, hr, rfl⟩ := Array.mem_map.1 hs
    split
    · exact State.nodup_addTransitions (h r hr) _
    · exact h r hr
  · obtain ⟨r, hr, rfl⟩ := Array.mem_map.1 hs
    exact h'.shift m.size r hr

theorem distinct_mapLabels (m : Automaton) (f : Label → Label) : (m.mapLabels f).Distinct := by
  intro s hs
  obtain ⟨r, -, rfl⟩ := Array.mem_map.1 hs
  exact State.nodup_withTransitions _ _

/-- Kept states have different numbers, so renumbering makes no two transitions equal. -/
theorem Distinct.restrict (h : m.Distinct) (u : OrderedSet Nat) : (m.restrict u).Distinct := by
  intro s hs
  obtain ⟨r, hr, rfl⟩ := Array.mem_map.1 hs
  obtain ⟨i, -, hi⟩ := Array.mem_filterMap.1 hr
  refine (h r (Array.mem_of_getElem? hi)).filterMap fun t t' b hb hb' ↦ ?_
  obtain ⟨j, hj, rfl⟩ := Option.map_eq_some_iff.1 hb
  obtain ⟨j', hj', he⟩ := Option.map_eq_some_iff.1 hb'
  obtain ⟨hlabel, rfl⟩ := Transition.mk.inj he
  have htarget := (OrderedSet.indexOf?_eq_some.1 hj).symm.trans (OrderedSet.indexOf?_eq_some.1 hj')
  cases t; cases t'
  rw [Transition.mk.injEq]
  exact ⟨hlabel.symm, Option.some.inj htarget⟩

theorem Distinct.trim (h : m.Distinct) : m.trim.Distinct := by
  unfold Automaton.trim
  dsimp only
  split
  · exact h
  · exact h.restrict _

theorem Deterministic.distinct (h : m.Deterministic) : m.Distinct :=
  distinct_iff.2 fun i ↦ (h.label i).of_map

theorem distinct_combine {c : Connective} (h : combine c m m' = .ok p) : p.Distinct :=
  combine_eq_ok h ▸ deterministic_product.distinct.trim

end Automaton

end RightPart
