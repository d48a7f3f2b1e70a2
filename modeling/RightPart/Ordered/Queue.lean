import Std.Data.TreeSet.Basic

namespace RightPart

universe u

/-- A first-in first-out queue that refuses a value while an equal one is waiting. -/
structure Queue (α : Type u) [Ord α] where
  waiting : List α
  /-- The values that are waiting. Only membership is asked for, so its order is never observed. -/
  pending : Std.TreeSet α

namespace Queue

variable {α : Type u} [Ord α]

def empty : Queue α := ⟨[], ∅⟩

instance : EmptyCollection (Queue α) := ⟨empty⟩

/-- The flag tells whether the value was taken. -/
def push (q : Queue α) (a : α) : Queue α × Bool :=
  if q.pending.contains a then (q, false) else (⟨q.waiting ++ [a], q.pending.insert a⟩, true)

def pop? (q : Queue α) : Option (α × Queue α) :=
  match q.waiting with
  | [] => none
  | a :: l => some (a, ⟨l, q.pending.erase a⟩)

def extend (q : Queue α) (l : List α) : Queue α := l.foldl (fun q a ↦ (q.push a).1) q

def ofList (l : List α) : Queue α := (∅ : Queue α).extend l

def isEmpty (q : Queue α) : Bool := q.waiting.isEmpty

end Queue

end RightPart
