import RightPart.Ordered.Set

namespace RightPart

universe u v

/-- A finite map that remembers the order in which its keys came in. -/
structure OrderedMap (κ : Type u) (ν : Type v) [Ord κ] [Std.TransOrd κ] where
  keySet : OrderedSet κ
  valueArray : Array ν
  size_eq : valueArray.size = keySet.size

namespace OrderedMap

variable {κ : Type u} {ν : Type v} [Ord κ] [Std.TransOrd κ]

def empty : OrderedMap κ ν := ⟨∅, #[], rfl⟩

instance : EmptyCollection (OrderedMap κ ν) := ⟨empty⟩

instance : Inhabited (OrderedMap κ ν) := ⟨∅⟩

def keys (m : OrderedMap κ ν) : List κ := m.keySet.toList

def values (m : OrderedMap κ ν) : List ν := m.valueArray.toList

def entries (m : OrderedMap κ ν) : List (κ × ν) := m.keys.zip m.values

def size (m : OrderedMap κ ν) : Nat := m.keySet.size

def get? (m : OrderedMap κ ν) (k : κ) : Option ν := (m.keySet.indexOf? k).bind (m.valueArray[·]?)

def contains (m : OrderedMap κ ν) (k : κ) : Bool := k ∈ m.keySet

def mapValues {ν' : Type v} (f : ν → ν') (m : OrderedMap κ ν) : OrderedMap κ ν' :=
  ⟨m.keySet, m.valueArray.map f, by rw [Array.size_map, m.size_eq]⟩

@[simp] theorem entries_empty : (∅ : OrderedMap κ ν).entries = [] := rfl

@[simp] theorem get?_empty (k : κ) : (∅ : OrderedMap κ ν).get? k = none := by
  have h : (∅ : OrderedSet κ).indexOf? k = none :=
    OrderedSet.indexOf?_eq_none.2 (OrderedSet.not_mem_empty k)
  change ((∅ : OrderedSet κ).indexOf? k).bind _ = none
  rw [h, Option.bind_none]

theorem length_values (m : OrderedMap κ ν) : m.values.length = m.keys.length := m.size_eq

theorem map_fst_entries (m : OrderedMap κ ν) : m.entries.map Prod.fst = m.keys :=
  List.map_fst_zip (Nat.le_of_eq m.length_values.symm)

theorem map_snd_entries (m : OrderedMap κ ν) : m.entries.map Prod.snd = m.values :=
  List.map_snd_zip (Nat.le_of_eq m.length_values)

theorem snd_mem_values {m : OrderedMap κ ν} {e : κ × ν} (h : e ∈ m.entries) : e.2 ∈ m.values :=
  m.map_snd_entries ▸ List.mem_map_of_mem h

theorem get?_eq_some {m : OrderedMap κ ν} {k : κ} {v : ν} :
    m.get? k = some v ↔ (k, v) ∈ m.entries := by
  simp only [get?, Option.bind_eq_some_iff, OrderedSet.indexOf?_eq_some, entries,
    List.mem_iff_getElem?, List.getElem?_zip_eq_some, keys, values, Array.getElem?_toList]

theorem mem_keySet_iff {m : OrderedMap κ ν} {k : κ} : k ∈ m.keySet ↔ ∃ e ∈ m.entries, e.1 = k := by
  rw [OrderedSet.mem_def, ← keys, ← map_fst_entries, List.mem_map]

theorem isSome_get? {m : OrderedMap κ ν} {k : κ} : (m.get? k).isSome ↔ k ∈ m.keySet := by
  rw [Option.isSome_iff_exists, mem_keySet_iff]
  constructor
  · rintro ⟨v, h⟩
    exact ⟨_, get?_eq_some.1 h, rfl⟩
  · rintro ⟨⟨_, v⟩, h, rfl⟩
    exact ⟨v, get?_eq_some.2 h⟩

variable [Std.LawfulEqOrd κ]

/-- Puts `f` of the present value under `k`: an old key keeps its place, a new one goes
to the end. -/
def alter (m : OrderedMap κ ν) (k : κ) (f : Option ν → ν) : OrderedMap κ ν :=
  match h : m.keySet.indexOf? k with
  | some i =>
    ⟨m.keySet, m.valueArray.modify i fun v ↦ f (some v), by rw [Array.size_modify, m.size_eq]⟩
  | none => ⟨m.keySet.insert k, m.valueArray.push (f none), by
      rw [Array.size_push, m.size_eq, ← OrderedSet.length_toList, ← OrderedSet.length_toList,
        OrderedSet.toList_insert, if_neg (OrderedSet.indexOf?_eq_none.1 h), List.length_append]
      rfl⟩

def insert (m : OrderedMap κ ν) (k : κ) (v : ν) : OrderedMap κ ν := m.alter k fun _ ↦ v

theorem keySet_alter (m : OrderedMap κ ν) (k : κ) (f : Option ν → ν) :
    (m.alter k f).keySet = m.keySet.insert k := by
  unfold alter
  split
  · rename_i h
    exact (OrderedSet.insert_of_mem (OrderedSet.isSome_indexOf?.1 (h ▸ rfl))).symm
  · rfl

theorem get?_alter_self (m : OrderedMap κ ν) (k : κ) (f : Option ν → ν) :
    (m.alter k f).get? k = some (f (m.get? k)) := by
  unfold get?
  rw [keySet_alter, OrderedSet.indexOf?_insert_self, Option.bind_some, OrderedSet.indexOf]
  unfold alter
  split
  · rename_i i h
    obtain ⟨hi, -⟩ := List.getElem?_eq_some_iff.1 (OrderedSet.indexOf?_eq_some.1 h)
    rw [OrderedSet.length_toList, ← m.size_eq] at hi
    simp [h, hi, Array.getElem_modify]
  · rename_i h
    simp [h, ← m.size_eq]

theorem get?_alter_of_ne (m : OrderedMap κ ν) {k k' : κ} (hk : k' ≠ k) (f : Option ν → ν) :
    (m.alter k f).get? k' = m.get? k' := by
  unfold get?
  rw [keySet_alter, OrderedSet.indexOf?_insert_of_ne _ hk]
  cases h' : m.keySet.indexOf? k' with
  | none => rfl
  | some j =>
    have hj := OrderedSet.indexOf?_eq_some.1 h'
    obtain ⟨hlt, -⟩ := List.getElem?_eq_some_iff.1 hj
    rw [OrderedSet.length_toList, ← m.size_eq] at hlt
    simp only [Option.bind_some]
    unfold alter
    split
    · rename_i i h
      have hi := OrderedSet.indexOf?_eq_some.1 h
      have hij : i ≠ j := fun e ↦ hk (Option.some.inj (hj.symm.trans (e ▸ hi)))
      simp [Array.getElem?_modify, hij]
    · simp [Array.getElem?_push, Nat.ne_of_lt hlt]

theorem get?_alter [DecidableEq κ] (m : OrderedMap κ ν) (k k' : κ) (f : Option ν → ν) :
    (m.alter k f).get? k' = if k' = k then some (f (m.get? k)) else m.get? k' := by
  split
  · subst k'
    exact m.get?_alter_self k f
  · rename_i h
    exact m.get?_alter_of_ne h f

theorem get?_insert [DecidableEq κ] (m : OrderedMap κ ν) (k k' : κ) (v : ν) :
    (m.insert k v).get? k' = if k' = k then some v else m.get? k' :=
  get?_alter m k k' _

theorem mem_insert_self (m : OrderedMap κ ν) (k : κ) (v : ν) : (k, v) ∈ (m.insert k v).entries :=
  get?_eq_some.1 (get?_alter_self m k _)

theorem mem_insert_of_ne {m : OrderedMap κ ν} {e : κ × ν} (h : e ∈ m.entries) {k : κ} (hk : e.1 ≠ k)
    (v : ν) : e ∈ (m.insert k v).entries :=
  get?_eq_some.1 ((get?_alter_of_ne m hk _).trans (get?_eq_some.2 h))

theorem mem_insert {m : OrderedMap κ ν} {k : κ} {v : ν} {e : κ × ν}
    (h : e ∈ (m.insert k v).entries) : e = (k, v) ∨ e ∈ m.entries ∧ e.1 ≠ k := by
  obtain ⟨k', v'⟩ := e
  rw [← get?_eq_some] at h
  by_cases hk : k' = k
  · subst hk
    rw [insert, get?_alter_self] at h
    exact .inl (Option.some.inj h ▸ rfl)
  · rw [insert, get?_alter_of_ne _ hk] at h
    exact .inr ⟨get?_eq_some.1 h, hk⟩

theorem entries_insert_of_not_mem {m : OrderedMap κ ν} {k : κ} (h : k ∉ m.keySet) (v : ν) :
    (m.insert k v).entries = m.entries ++ [(k, v)] := by
  have hkeys : (m.insert k v).keys = m.keys ++ [k] := by
    rw [keys, insert, keySet_alter, OrderedSet.toList_insert, if_neg h, keys]
  have hvalues : (m.insert k v).values = m.values ++ [v] := by
    unfold insert alter
    split
    · rename_i hi
      rw [OrderedSet.indexOf?_eq_none.2 h] at hi
      cases hi
    · exact Array.toList_push
  rw [entries, hkeys, hvalues, List.zip_append m.length_values.symm, entries, List.zip_cons_cons,
    List.zip_nil_left]

theorem mem_alter {m : OrderedMap κ ν} {k : κ} {f : Option ν → ν} {e : κ × ν}
    (h : e ∈ (m.alter k f).entries) :
    e ∈ m.entries ∨ e = (k, f (m.get? k)) := by
  obtain ⟨k', v⟩ := e
  rw [← get?_eq_some] at h
  by_cases hk : k' = k
  · subst k'
    rw [get?_alter_self] at h
    exact .inr (Option.some.inj h ▸ rfl)
  · rw [get?_alter_of_ne _ hk] at h
    exact .inl (get?_eq_some.1 h)

theorem forall_alter {m : OrderedMap κ ν} {k : κ} {f : Option ν → ν} {P : ν → Prop}
    (h : ∀ e ∈ m.entries, P e.2) (hnone : P (f none)) (hsome : ∀ v, P v → P (f (some v))) :
    ∀ e ∈ (m.alter k f).entries, P e.2 := by
  intro e he
  rcases mem_alter he with he | rfl
  · exact h e he
  · cases hv : m.get? k with
    | none => exact hnone
    | some v => exact hsome v (h _ (get?_eq_some.1 hv))

/-- The map with the given keys and values; of entries with one key the last counts. -/
def ofList (l : List (κ × ν)) : OrderedMap κ ν := l.foldl (fun m e ↦ m.insert e.1 e.2) ∅

theorem entries_foldl_insert {m : OrderedMap κ ν} {l : List (κ × ν)}
    (h : (m.keys ++ l.map Prod.fst).Nodup) :
    (l.foldl (fun m e ↦ m.insert e.1 e.2) m).entries = m.entries ++ l := by
  induction l generalizing m with
  | nil => exact (List.append_nil _).symm
  | cons e l ih =>
    have hnew : e.1 ∉ m.keySet := fun hk ↦
      (List.nodup_append.1 h).2.2 e.1 hk e.1 List.mem_cons_self rfl
    have hentries := entries_insert_of_not_mem hnew e.2
    have hkeys : (m.insert e.1 e.2).keys = m.keys ++ [e.1] := by
      rw [← map_fst_entries, hentries, List.map_append, map_fst_entries]
      rfl
    have hnodup : ((m.insert e.1 e.2).keys ++ l.map Prod.fst).Nodup := by
      rwa [hkeys, List.append_assoc]
    rw [List.foldl_cons, ih hnodup, hentries, List.append_assoc]
    rfl

def filter (p : κ → ν → Bool) (m : OrderedMap κ ν) : OrderedMap κ ν :=
  .ofList (m.entries.filter fun e ↦ p e.1 e.2)

theorem entries_filter (p : κ → ν → Bool) (m : OrderedMap κ ν) :
    (m.filter p).entries = m.entries.filter fun e ↦ p e.1 e.2 := by
  have hkeys : (m.entries.map Prod.fst).Nodup := by
    rw [map_fst_entries]
    exact m.keySet.nodup
  exact entries_foldl_insert (hkeys.sublist (List.filter_sublist.map _))

def group (l : List (κ × ν)) : OrderedMap κ (List ν) :=
  (l.foldl (fun m p ↦ m.alter p.1 fun vs ↦ p.2 :: vs.getD []) (∅ : OrderedMap κ (List ν))).mapValues
    List.reverse

end OrderedMap

end RightPart
