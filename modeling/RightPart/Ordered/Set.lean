import Std.Data.ExtTreeMap.Lemmas

namespace RightPart

universe u

/-- A finite set that remembers the order in which its members came in. -/
structure OrderedSet (α : Type u) [Ord α] [Std.TransOrd α] where
  toArray : Array α
  index : Std.ExtTreeMap α Nat
  index_iff : ∀ (a : α) (i : Nat), index[a]? = some i ↔ toArray[i]? = some a

namespace OrderedSet

variable {α : Type u} [Ord α] [Std.TransOrd α]

def toList (s : OrderedSet α) : List α := s.toArray.toList

instance : Membership α (OrderedSet α) := ⟨fun s a ↦ a ∈ s.toList⟩

theorem mem_def {s : OrderedSet α} {a : α} : a ∈ s ↔ a ∈ s.toList := .rfl

def empty : OrderedSet α := ⟨#[], ∅, by simp⟩

instance : EmptyCollection (OrderedSet α) := ⟨empty⟩

instance : Inhabited (OrderedSet α) := ⟨∅⟩

@[simp] theorem toList_empty : (∅ : OrderedSet α).toList = [] := rfl

@[simp] theorem not_mem_empty (a : α) : a ∉ (∅ : OrderedSet α) := nofun

def size (s : OrderedSet α) : Nat := s.toArray.size

@[simp] theorem length_toList (s : OrderedSet α) : s.toList.length = s.size := rfl

def isEmpty (s : OrderedSet α) : Bool := s.toArray.isEmpty

theorem isEmpty_eq_false_of_mem {s : OrderedSet α} {a : α} (h : a ∈ s) : s.isEmpty = false := by
  rw [isEmpty, Array.isEmpty_eq_false_iff]
  intro he
  rw [mem_def, toList, he] at h
  cases h

def indexOf? (s : OrderedSet α) (a : α) : Option Nat := s.index[a]?

/-- The place of a member; a value that is none has the place after the last. -/
def indexOf (s : OrderedSet α) (a : α) : Nat := (s.indexOf? a).getD s.size

theorem indexOf?_eq_some {s : OrderedSet α} {a : α} {i : Nat} :
    s.indexOf? a = some i ↔ s.toList[i]? = some a :=
  (s.index_iff a i).trans (by rw [toList, Array.getElem?_toList])

theorem isSome_indexOf? {s : OrderedSet α} {a : α} : (s.indexOf? a).isSome ↔ a ∈ s := by
  rw [Option.isSome_iff_exists, mem_def, List.mem_iff_getElem?]
  exact exists_congr fun i ↦ indexOf?_eq_some

theorem indexOf?_eq_none {s : OrderedSet α} {a : α} : s.indexOf? a = none ↔ a ∉ s := by
  rw [← isSome_indexOf?, Option.not_isSome_iff_eq_none]

instance (a : α) (s : OrderedSet α) : Decidable (a ∈ s) := decidable_of_iff _ isSome_indexOf?

theorem nodup (s : OrderedSet α) : s.toList.Nodup := by
  refine List.pairwise_iff_getElem.2 fun i j hi hj hij e ↦ ?_
  have h₁ := indexOf?_eq_some.2 (List.getElem?_eq_getElem hi)
  have h₂ := indexOf?_eq_some.2 (List.getElem?_eq_getElem hj)
  rw [e, h₂] at h₁
  exact Nat.ne_of_gt hij (Option.some.inj h₁)

variable [Std.LawfulEqOrd α]

@[ext] theorem ext {s t : OrderedSet α} (h : s.toList = t.toList) : s = t := by
  obtain ⟨l, p, hp⟩ := s
  obtain ⟨l', q, hq⟩ := t
  obtain rfl : l = l' := Array.toList_inj.1 h
  obtain rfl : p = q :=
    Std.ExtTreeMap.ext_getElem? fun a ↦ Option.ext fun i ↦ (hp a i).trans (hq a i).symm
  rfl

instance [DecidableEq α] : DecidableEq (OrderedSet α) := fun s t ↦
  decidable_of_iff (s.toArray = t.toArray) ⟨fun h ↦ ext (congrArg Array.toList h), (· ▸ rfl)⟩

/-- A member keeps its place; a newcomer goes to the end. -/
def insert (s : OrderedSet α) (a : α) : OrderedSet α :=
  if h : a ∈ s then s
  else
    let place := s.toArray.size
    { toArray := s.toArray.push a
      index := s.index.insert a place
      index_iff := fun b i ↦ by
        have ha := indexOf?_eq_none.2 h
        have hb := s.index_iff b i
        have hlt : s.toArray[i]? = some b ↔ ∃ h, s.toArray[i] = b := Array.getElem?_eq_some_iff
        simp only [Std.ExtTreeMap.getElem?_insert, Array.getElem?_push,
          Std.LawfulEqCmp.compare_eq_iff_eq]
        unfold indexOf? at ha
        grind }

theorem toList_insert (s : OrderedSet α) (a : α) :
    (s.insert a).toList = if a ∈ s then s.toList else s.toList ++ [a] := by
  unfold insert
  split
  · rfl
  · exact Array.toList_push

@[simp] theorem mem_insert {s : OrderedSet α} {a b : α} : b ∈ s.insert a ↔ b ∈ s ∨ b = a := by
  rw [mem_def, toList_insert]
  split
  · exact ⟨.inl, fun h ↦ h.elim id (· ▸ ‹_›)⟩
  · simp [mem_def]

theorem indexOf?_insert_self (s : OrderedSet α) (a : α) :
    (s.insert a).indexOf? a = some (s.indexOf a) := by
  unfold indexOf insert
  split
  · rename_i h
    obtain ⟨i, hi⟩ := Option.isSome_iff_exists.1 (isSome_indexOf?.2 h)
    rw [hi, Option.getD_some]
  · rename_i h
    rw [indexOf?_eq_none.2 h]
    simp [indexOf?, size]

theorem indexOf?_insert_of_ne (s : OrderedSet α) {a b : α} (h : b ≠ a) :
    (s.insert a).indexOf? b = s.indexOf? b := by
  unfold insert
  split
  · rfl
  · simp [indexOf?, Std.ExtTreeMap.getElem?_insert, h.symm]

theorem insert_of_mem {s : OrderedSet α} {a : α} (h : a ∈ s) : s.insert a = s := dif_pos h

def extend (s : OrderedSet α) (l : List α) : OrderedSet α := l.foldl insert s

@[simp] theorem extend_nil (s : OrderedSet α) : s.extend [] = s := rfl

@[simp] theorem extend_cons (s : OrderedSet α) (a : α) (l : List α) :
    s.extend (a :: l) = (s.insert a).extend l := rfl

@[simp] theorem mem_extend {s : OrderedSet α} {l : List α} {b : α} :
    b ∈ s.extend l ↔ b ∈ s ∨ b ∈ l := by
  induction l generalizing s with
  | nil => simp
  | cons a l ih => rw [extend_cons, ih, mem_insert, List.mem_cons, or_assoc]

theorem extend_of_subset {s : OrderedSet α} {l : List α} (h : ∀ a ∈ l, a ∈ s) : s.extend l = s := by
  induction l with
  | nil => rfl
  | cons a l ih =>
    obtain ⟨ha, hl⟩ := List.forall_mem_cons.1 h
    rw [extend_cons, insert_of_mem ha, ih hl]

theorem toList_extend_of_nodup {s : OrderedSet α} {l : List α} (h : (s.toList ++ l).Nodup) :
    (s.extend l).toList = s.toList ++ l := by
  induction l generalizing s with
  | nil => simp
  | cons a l ih =>
    have ha : a ∉ s := fun ha ↦ (List.nodup_append.1 h).2.2 a ha a List.mem_cons_self rfl
    have hs : (s.insert a).toList = s.toList ++ [a] := by rw [toList_insert, if_neg ha]
    rw [extend_cons, ih, hs, List.append_assoc]
    · rfl
    · rwa [hs, List.append_assoc]

def ofList (l : List α) : OrderedSet α := (∅ : OrderedSet α).extend l

@[simp] theorem mem_ofList {l : List α} {b : α} : b ∈ ofList l ↔ b ∈ l := by simp [ofList]

theorem toList_ofList_of_nodup {l : List α} (h : l.Nodup) : (ofList l).toList = l :=
  toList_extend_of_nodup (by simpa using h)

end OrderedSet

end RightPart
