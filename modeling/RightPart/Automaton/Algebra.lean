import RightPart.Automaton.Basic
import RightPart.Automaton.Error

namespace RightPart.Automaton

def empty : Automaton := ⟨#[{ isInitial := true, isFinal := true }]⟩

def ofLabels (labels : List Label) : Automaton :=
  ⟨#[{ isInitial := true, isFinal := false, transitions := labels.map (⟨·, 1⟩) },
    { isInitial := false, isFinal := true }]⟩

def ofLabel (l : Label) : Automaton := ofLabels [l]

def ofWord (labels : List Label) : Automaton :=
  let states : List State := labels.mapIdx fun i l ↦
    { isInitial := i == 0, isFinal := false, transitions := [⟨l, i + 1⟩] }
  ⟨states.toArray.push { isInitial := labels.isEmpty, isFinal := true }⟩

def ofString (s : String) (a : Attributes) : Automaton :=
  ofWord (s.toList.map fun c ↦ .symbol c.toString a)

def symbolOfCode (code : Nat) : Except AlgebraError String :=
  if code.isValidChar then .ok (Char.ofNat code).toString else .error (.invalidCode code)

/-- The symbols of `n` successive codes, behind some that come before. -/
def symbolsOfCodes (before : Array String) (lo : Nat) : Nat → Except AlgebraError (List String)
  | 0 => .ok before.toList
  | n + 1 =>
    match symbolOfCode lo with
    | .ok s => symbolsOfCodes (before.push s) (lo + 1) n
    | .error e => .error e

def ofCodes (lo hi : Nat) (a : Attributes) : Except AlgebraError Automaton :=
  if hi < lo then .error (.emptyOperands .ofCodes)
  else (symbolsOfCodes #[] lo (hi + 1 - lo)).map fun l ↦ ofLabels (l.map (.symbol · a))

def ofCode (code : Nat) (a : Attributes) : Except AlgebraError Automaton := ofCodes code code a

def ofCharacters (lo hi : Char) (a : Attributes) : Except AlgebraError Automaton :=
  ofCodes lo.toNat hi.toNat a

/-- The same automaton with its states numbered from `offset` on. -/
def shift (offset : Nat) (m : Automaton) : Automaton :=
  ⟨m.states.map fun s ↦
    { s with transitions := s.transitions.map fun t ↦ { t with target := t.target + offset } }⟩

def union (m m' : Automaton) : Automaton := ⟨m.states ++ (m'.shift m.size).states⟩

def openings (m : Automaton) : List Transition :=
  (m.states.toList.filter State.isInitial).flatMap State.transitions

/-- Joins two automata end to end: a final state of the first goes on as the initial states of the
second do. -/
def join (m m' : Automaton) : Automaton :=
  let right := m'.shift m.size
  let left := m.states.map fun s ↦
    if s.isFinal then { s.addTransitions right.openings with isFinal := m'.acceptsEmpty } else s
  ⟨left ++ right.states.map fun s ↦ { s with isInitial := s.isInitial && m.acceptsEmpty }⟩

def plus (m : Automaton) : Automaton :=
  ⟨m.states.map fun s ↦ if s.isFinal then s.addTransitions m.openings else s⟩

def star (m : Automaton) : Automaton := m.plus.union empty

def optional (m : Automaton) : Automaton := if m.acceptsEmpty then m else m.union empty

/-- Rewrites every label; of transitions that become equal the first stays. -/
def mapLabels (f : Label → Label) (m : Automaton) : Automaton :=
  ⟨m.states.map fun s ↦ s.withTransitions (s.transitions.map fun t ↦ { t with label := f t.label })⟩

def mapAttributes (f : Attributes → Attributes) : Automaton → Automaton :=
  mapLabels fun
    | .symbol n a => .symbol n (f a)
    | .action n l b => .action n l b

def look : Automaton → Automaton := mapAttributes fun _ ↦ .look

/-- Applies a list of attribute words to every symbol. An automaton without symbols
takes any list. -/
def withAttributes (m : Automaton) (tokens : List String) : Except UnknownWord Automaton :=
  if m.transitions.all (·.2.label.isAction) then .ok (m.mapAttributes id)
  else (AttributeWord.ofStrings tokens).map fun words ↦ m.mapAttributes (·.applyWords words)

end RightPart.Automaton
