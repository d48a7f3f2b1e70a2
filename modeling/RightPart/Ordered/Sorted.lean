namespace RightPart

universe u

variable {α : Type u} [Ord α]

def Ascending (l : List α) : Prop := l.Pairwise fun a b ↦ compare a b = .lt

def insertSorted (a : α) : List α → List α
  | [] => [a]
  | b :: l =>
    match compare a b with
    | .lt => a :: b :: l
    | .eq => b :: l
    | .gt => b :: insertSorted a l

/-- The values of a list in ascending order, each once. -/
def sorted (l : List α) : List α := l.foldr insertSorted []

section Lawful

variable [Std.LawfulEqOrd α]

@[simp] theorem mem_insertSorted {a b : α} {l : List α} :
    b ∈ insertSorted a l ↔ b = a ∨ b ∈ l := by
  induction l with
  | nil => simp [insertSorted]
  | cons c l ih =>
    unfold insertSorted
    split
    · simp
    · rename_i h
      rw [Std.LawfulEqOrd.eq_of_compare h]
      simp
    · simp only [List.mem_cons, ih]
      constructor <;> rintro (h | h | h) <;> simp [h]

@[simp] theorem mem_sorted {l : List α} {b : α} : b ∈ sorted l ↔ b ∈ l := by
  induction l with
  | nil => simp [sorted]
  | cons a l ih =>
    rw [sorted, List.foldr_cons, mem_insertSorted, List.mem_cons]; exact or_congr .rfl ih

theorem Ascending.nodup {l : List α} (h : Ascending l) : l.Nodup :=
  h.imp fun {a b} hab e ↦ by
    subst e
    simp at hab

variable [Std.TransOrd α]

theorem ascending_insertSorted (a : α) {l : List α} (h : Ascending l) :
    Ascending (insertSorted a l) := by
  induction l with
  | nil => simp [insertSorted, Ascending]
  | cons b l ih =>
    have hb := List.pairwise_cons.1 h
    unfold insertSorted
    split
    · rename_i hab
      refine List.pairwise_cons.2 ⟨fun c hc ↦ ?_, h⟩
      rcases List.mem_cons.1 hc with rfl | hc
      · exact hab
      · exact Std.TransCmp.lt_trans hab (hb.1 c hc)
    · exact h
    · rename_i hab
      refine List.pairwise_cons.2 ⟨fun c hc ↦ ?_, ih hb.2⟩
      rcases mem_insertSorted.1 hc with rfl | hc
      · exact Std.OrientedCmp.lt_of_gt hab
      · exact hb.1 c hc

theorem ascending_sorted (l : List α) : Ascending (sorted l) := by
  induction l with
  | nil => simp [sorted, Ascending]
  | cons a l ih => exact ascending_insertSorted a ih

theorem Ascending.eq_of_mem_iff {l l' : List α} (h : Ascending l) (h' : Ascending l')
    (hm : ∀ a, a ∈ l ↔ a ∈ l') : l = l' := by
  induction l generalizing l' with
  | nil =>
    cases l' with
    | nil => rfl
    | cons b l' => exact absurd ((hm b).2 List.mem_cons_self) (by simp)
  | cons a l ih =>
    cases l' with
    | nil => exact absurd ((hm a).1 List.mem_cons_self) (by simp)
    | cons b l' =>
      have ha := List.pairwise_cons.1 h
      have hb := List.pairwise_cons.1 h'
      have hab : a = b := by
        rcases List.mem_cons.1 ((hm a).1 List.mem_cons_self) with e | m
        · exact e
        · rcases List.mem_cons.1 ((hm b).2 List.mem_cons_self) with e | m'
          · exact e.symm
          · have hlt := Std.TransCmp.lt_trans (hb.1 a m) (ha.1 b m')
            simp at hlt
      subst hab
      congr 1
      refine ih ha.2 hb.2 fun c ↦ ⟨fun hc ↦ ?_, fun hc ↦ ?_⟩
      · rcases List.mem_cons.1 ((hm c).1 (List.mem_cons_of_mem _ hc)) with rfl | m
        · exact absurd (ha.1 c hc) (by simp)
        · exact m
      · rcases List.mem_cons.1 ((hm c).2 (List.mem_cons_of_mem _ hc)) with rfl | m
        · exact absurd (hb.1 c hc) (by simp)
        · exact m

end Lawful

end RightPart
