import Mathlib.Logic.Relation
import RightPart.Tables.Basic

namespace RightPart

/-- What reading a symbol leaves on the stack: the symbol and the readahead state
entered with it. -/
structure Frame where
  symbol : String
  state : Nat
deriving DecidableEq

/-- A machine at work. It is about to do what its control leads to. -/
structure Configuration where
  control : Target
  stack : List Frame
  input : List String
  performed : List String
deriving DecidableEq

inductive Failure
  | noToken
  | noMove (state : Nat) (token : String)
  | noWayBack (state : Nat) (frame : Frame)
  | stackBottom
  | noRestart (nonterminal : String) (state : Nat)
  | misplaced (target : Target)
  | missing (target : Target)
deriving DecidableEq

namespace Configuration

/-- A goal is read from its initial state on, with the end of the input at the bottom of
the stack. -/
def start (i : Nat) (input : List String) : Configuration :=
  ⟨.readahead i, [⟨Grammar.endOfInput, i⟩], input, []⟩

def ahead (c : Configuration) (token : String) (rest : List String) (e : Label × Target) :
    Except Failure Configuration :=
  match e.2 with
  | .readahead j =>
    if e.1.isRead then .ok { c with control := e.2, stack := ⟨token, j⟩ :: c.stack, input := rest }
    else .ok { c with control := e.2 }
  | .reduce i => .error (.misplaced (.reduce i))
  | target => .ok { c with control := target }

/-- Takes a transition of a readback state, which drops the top of the stack unless it ends the way
back. -/
def back (c : Configuration) (below : List Frame) (e : StackEntry × Target) :
    Except Failure Configuration :=
  match e.2 with
  | .readback i =>
    if below.isEmpty then .error .stackBottom
      else .ok { c with control := .readback i, stack := below }
  | .reduce i => .ok { c with control := .reduce i }
  | target => .error (.misplaced target)

end Configuration

def StackEntry.fits (e : StackEntry) (f : Frame) : Bool :=
  e.label.name = f.symbol ∧ e.readahead = f.state

def Failure.unless (f : Failure) (l : List (Except Failure Configuration)) :
    List (Except Failure Configuration) :=
  if l.isEmpty then [.error f] else l

namespace Tables

/-- What each transition that fits leads to. An accepted text leads nowhere. -/
def moves (t : Tables) (c : Configuration) : List (Except Failure Configuration) :=
  match c.control with
  | .readahead i =>
    match c.input, t.readaheads[i]? with
    | [], _ => [.error .noToken]
    | _, none => [.error (.missing c.control)]
    | token :: rest, some s =>
      (Failure.noMove i token).unless
        ((s.transitions.filter (·.1.name = token)).map (c.ahead token rest))
  | .semantic i =>
    match t.semantics.toList[i]? with
    | none => [.error (.missing c.control)]
    | some s => [.ok { c with
        control := .readahead s.target
        performed := c.performed ++ [s.action.name] }]
  | .readback i =>
    match c.stack, t.readbacks[i]? with
    | [], _ => [.error .stackBottom]
    | _, none => [.error (.missing c.control)]
    | frame :: below, some s =>
      (Failure.noWayBack i frame).unless
        ((s.transitions.filter (·.1.fits frame)).map (c.back below))
  | .reduce i =>
    match c.stack, t.reduces[i]? with
    | [], _ => [.error .stackBottom]
    | _, none => [.error (.missing c.control)]
    | frame :: _, some s =>
      (Failure.noRestart s.nonterminal frame.state).unless
        ((s.restarts.filter (·.source = frame.state)).map fun r ↦
          .ok { c with
            control := .readahead r.target
            stack := ⟨s.nonterminal, r.target⟩ :: c.stack })
  | .accept => []

def run (t : Tables) : Nat → Configuration → Except Failure Configuration
  | 0, c => .ok c
  | n + 1, c =>
    match (t.moves c).head? with
    | none => .ok c
    | some (.error f) => .error f
    | some (.ok c') => t.run n c'

/-- One move of a machine that is free to take any transition that fits. -/
inductive Step (t : Tables) : Configuration → Configuration → Prop
  | look {i j : Nat} {s : ReadaheadState} {l : Label} {σ : List Frame} {x f : List String} :
      t.readaheads[i]? = some s → (l, .readahead j) ∈ s.transitions → l.isRead = false →
      Step t ⟨.readahead i, σ, l.name :: x, f⟩ ⟨.readahead j, σ, l.name :: x, f⟩
  | read {i j : Nat} {s : ReadaheadState} {l : Label} {σ : List Frame} {x f : List String} :
      t.readaheads[i]? = some s → (l, .readahead j) ∈ s.transitions → l.isRead →
      Step t ⟨.readahead i, σ, l.name :: x, f⟩ ⟨.readahead j, ⟨l.name, j⟩ :: σ, x, f⟩
  | action {i j : Nat} {s : ReadaheadState} {l : Label} {σ : List Frame} {x f : List String} :
      t.readaheads[i]? = some s → (l, .semantic j) ∈ s.transitions →
      Step t ⟨.readahead i, σ, l.name :: x, f⟩ ⟨.semantic j, σ, l.name :: x, f⟩
  | complete {i j : Nat} {s : ReadaheadState} {l : Label} {σ : List Frame} {x f : List String} :
      t.readaheads[i]? = some s → (l, .readback j) ∈ s.transitions →
      Step t ⟨.readahead i, σ, l.name :: x, f⟩ ⟨.readback j, σ, l.name :: x, f⟩
  | accept {i : Nat} {s : ReadaheadState} {l : Label} {σ : List Frame} {x f : List String} :
      t.readaheads[i]? = some s → (l, .accept) ∈ s.transitions →
      Step t ⟨.readahead i, σ, l.name :: x, f⟩ ⟨.accept, σ, l.name :: x, f⟩
  | perform {i : Nat} {s : SemanticState} {σ : List Frame} {x f : List String} :
      t.semantics.toList[i]? = some s →
      Step t ⟨.semantic i, σ, x, f⟩ ⟨.readahead s.target, σ, x, f ++ [s.action.name]⟩
  | back {i j : Nat} {s : ReadbackState} {e : StackEntry} {f' : Frame} {σ : List Frame}
      {x f : List String} :
      t.readbacks[i]? = some s → (e, .readback j) ∈ s.transitions → e.fits f' → σ ≠ [] →
      Step t ⟨.readback i, f' :: σ, x, f⟩ ⟨.readback j, σ, x, f⟩
  | found {i j : Nat} {s : ReadbackState} {e : StackEntry} {f' : Frame} {σ : List Frame}
      {x f : List String} :
      t.readbacks[i]? = some s → (e, .reduce j) ∈ s.transitions → e.fits f' →
      Step t ⟨.readback i, f' :: σ, x, f⟩ ⟨.reduce j, f' :: σ, x, f⟩
  | restart {i : Nat} {s : ReduceState} {r : Restart} {n : String} {σ : List Frame}
      {x f : List String} :
      t.reduces[i]? = some s → r ∈ s.restarts →
      Step t ⟨.reduce i, ⟨n, r.source⟩ :: σ, x, f⟩
        ⟨.readahead r.target, ⟨s.nonterminal, r.target⟩ :: ⟨n, r.source⟩ :: σ, x, f⟩

abbrev Run (t : Tables) : Configuration → Configuration → Prop := Relation.ReflTransGen t.Step

theorem mem_unless {f : Failure} {l : List (Except Failure Configuration)} {c : Configuration} :
    .ok c ∈ f.unless l ↔ .ok c ∈ l := by
  unfold Failure.unless
  cases l <;> simp

theorem error_mem_unless {f f' : Failure} {l : List (Except Failure Configuration)} :
    .error f' ∈ f.unless l ↔ l = [] ∧ f' = f ∨ .error f' ∈ l := by
  unfold Failure.unless
  cases l <;> simp

theorem step_of_ahead {t : Tables} {i : Nat} {s : ReadaheadState} {e : Label × Target}
    {σ : List Frame} {x f : List String} {c : Configuration} (hs : t.readaheads[i]? = some s)
    (he : e ∈ s.transitions)
    (h : Configuration.ahead ⟨.readahead i, σ, e.1.name :: x, f⟩ e.1.name x e = .ok c) :
    t.Step ⟨.readahead i, σ, e.1.name :: x, f⟩ c := by
  obtain ⟨l, target⟩ := e
  unfold Configuration.ahead at h
  cases target with
  | readahead j =>
    by_cases hl : l.isRead = true
    · obtain rfl : _ = c := by simpa [hl] using h
      exact .read hs he hl
    · obtain rfl : _ = c := by simpa [hl] using h
      exact .look hs he (by simpa using hl)
  | readback j => exact Except.ok.inj h ▸ .complete hs he
  | reduce j => cases h
  | semantic j => exact Except.ok.inj h ▸ .action hs he
  | accept => exact Except.ok.inj h ▸ .accept hs he

theorem step_of_back {t : Tables} {i : Nat} {s : ReadbackState} {e : StackEntry × Target}
    {f' : Frame} {σ : List Frame} {x f : List String} {c : Configuration}
    (hs : t.readbacks[i]? = some s) (he : e ∈ s.transitions) (hf : e.1.fits f')
    (h : Configuration.back ⟨.readback i, f' :: σ, x, f⟩ σ e = .ok c) :
    t.Step ⟨.readback i, f' :: σ, x, f⟩ c := by
  obtain ⟨k, target⟩ := e
  unfold Configuration.back at h
  cases target with
  | readback j =>
    cases σ with
    | nil => cases h
    | cons g σ => exact Except.ok.inj h ▸ .back hs he hf (List.cons_ne_nil g σ)
  | reduce j => exact Except.ok.inj h ▸ .found hs he hf
  | readahead j => cases h
  | semantic j => cases h
  | accept => cases h

theorem step_of_mem_moves {t : Tables} {c c' : Configuration} (h : .ok c' ∈ t.moves c) :
    t.Step c c' := by
  obtain ⟨control, σ, x, f⟩ := c
  unfold moves at h
  cases control with
  | readahead i =>
    cases x with
    | nil => simp at h
    | cons token x =>
      cases hs : t.readaheads[i]? with
      | none => simp [hs] at h
      | some s =>
        simp only [hs, mem_unless, List.mem_map, List.mem_filter, decide_eq_true_eq] at h
        obtain ⟨e, ⟨he, rfl⟩, h⟩ := h
        exact step_of_ahead hs he h
  | semantic i =>
    cases hs : t.semantics.toList[i]? with
    | none => simp [hs] at h
    | some s =>
      obtain rfl : c' = _ := by simpa [hs] using h
      exact .perform hs
  | readback i =>
    cases σ with
    | nil => simp at h
    | cons f' σ =>
      cases hs : t.readbacks[i]? with
      | none => simp [hs] at h
      | some s =>
        simp only [hs, mem_unless, List.mem_map, List.mem_filter] at h
        obtain ⟨e, ⟨he, hf⟩, h⟩ := h
        exact step_of_back hs he hf h
  | reduce i =>
    cases σ with
    | nil => simp at h
    | cons f' σ =>
      cases hs : t.reduces[i]? with
      | none => simp [hs] at h
      | some s =>
        simp only [hs, mem_unless, List.mem_map, List.mem_filter, decide_eq_true_eq] at h
        obtain ⟨r, ⟨hr, hf⟩, h⟩ := h
        obtain ⟨n, i'⟩ := f'
        obtain rfl : r.source = i' := hf
        exact Except.ok.inj h ▸ .restart hs hr
  | accept => cases h

theorem mem_moves {t : Tables} {c c' : Configuration} : .ok c' ∈ t.moves c ↔ t.Step c c' := by
  refine ⟨step_of_mem_moves, fun h ↦ ?_⟩
  cases h with
  | look hs he hl | read hs he hl =>
    simp only [moves, hs, mem_unless, List.mem_map, List.mem_filter, decide_eq_true_eq]
    exact ⟨_, ⟨he, rfl⟩, by simp [Configuration.ahead, hl]⟩
  | action hs he | complete hs he | accept hs he =>
    simp only [moves, hs, mem_unless, List.mem_map, List.mem_filter, decide_eq_true_eq]
    exact ⟨_, ⟨he, rfl⟩, rfl⟩
  | perform hs => simp [moves, hs]
  | back hs he hf hσ =>
    simp only [moves, hs, mem_unless, List.mem_map, List.mem_filter]
    exact ⟨_, ⟨he, hf⟩, by simp [Configuration.back, hσ]⟩
  | found hs he hf =>
    simp only [moves, hs, mem_unless, List.mem_map, List.mem_filter]
    exact ⟨_, ⟨he, hf⟩, rfl⟩
  | restart hs hr =>
    simp only [moves, hs, mem_unless, List.mem_map, List.mem_filter, decide_eq_true_eq]
    exact ⟨_, ⟨hr, rfl⟩, rfl⟩

theorem run_of_run_eq_ok {t : Tables} {k : Nat} {c c' : Configuration} (h : t.run k c = .ok c') :
    t.Run c c' := by
  induction k generalizing c with
  | zero =>
    obtain rfl := Except.ok.inj h
    exact .refl
  | succ k ih =>
    unfold run at h
    split at h
    · obtain rfl := Except.ok.inj h
      exact .refl
    · cases h
    · rename_i c₁ hc
      exact .head (step_of_mem_moves (List.mem_of_mem_head? hc)) (ih h)

end Tables

end RightPart
