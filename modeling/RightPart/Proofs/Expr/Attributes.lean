import RightPart.Expr.Automaton
import RightPart.Proofs.Automaton.Product
import RightPart.Proofs.Automaton.Relabel

namespace RightPart

/-- What applying attribute words makes of a label; an action has no attributes. -/
inductive Label.Applied (words : List String) : Label → Label → Prop
  | symbol {name : String} {a a' : Attributes} :
      a.apply words = .ok a' → Applied words (.symbol name a) (.symbol name a')
  | action (name : String) (arguments : List Argument) (buildsTree : Bool) :
      Applied words (.action name arguments buildsTree) (.action name arguments buildsTree)

def Label.appliedTo (words : List String) (L : Language Label) : Language Label :=
  {w | ∃ v ∈ L, List.Forall₂ (Label.Applied words) v w}

theorem AttributeWord.exists_ofStrings {words : List String} :
    (∃ ws, ofStrings words = .ok ws) ↔ ∀ s ∈ words, (ofString? s).isSome := by
  induction words with
  | nil => simp [ofStrings]
  | cons s words ih =>
    rw [List.forall_mem_cons, ← ih, ofStrings]
    cases ofString? s with
    | none => simp
    | some a =>
      simp only [Option.isSome_some, true_and]
      constructor
      · intro h
        obtain ⟨ws, h⟩ := h
        cases hws : ofStrings words with
        | error e => simp [hws, Except.map] at h
        | ok ws => exact ⟨ws, rfl⟩
      · intro h
        obtain ⟨ws, h⟩ := h
        exact ⟨a :: ws, by rw [h]; rfl⟩

namespace Expr

open Automaton (ActionFree)

variable {m p : Automaton} {words : List String} {ws : List AttributeWord}

def applyLabel (ws : List AttributeWord) : Label → Label
  | .symbol n a => .symbol n (a.applyWords ws)
  | .action n l b => .action n l b

theorem applied_iff (hws : AttributeWord.ofStrings words = .ok ws) {l l' : Label} :
    Label.Applied words l l' ↔ applyLabel ws l = l' := by
  constructor
  · intro h
    cases h with
    | symbol ha =>
      rw [Attributes.apply, hws] at ha
      rw [applyLabel, Except.ok.inj ha]
    | action => rfl
  · intro h
    subst h
    cases l with
    | symbol n a => exact .symbol (by rw [Attributes.apply, hws]; rfl)
    | action n l b => exact .action n l b

theorem appliedTo_eq_map (hws : AttributeWord.ofStrings words = .ok ws) (L : Language Label) :
    Label.appliedTo words L = Language.map (applyLabel ws) L := by
  have hforall : ∀ v w, List.Forall₂ (Label.Applied words) v w ↔ v.map (applyLabel ws) = w := by
    intro v w
    have hrel : Label.Applied words = fun l l' ↦ applyLabel ws l = l' :=
      funext₂ fun _ _ ↦ propext (applied_iff hws)
    rw [hrel, ← List.forall₂_map_left_iff (R := Eq), List.forall₂_eq_eq_eq]
  refine Language.ext fun w ↦ exists_congr fun v ↦ and_congr_right fun _ ↦ hforall v w

theorem appliedTo_of_forall_eq_nil {L : Language Label} (h : ∀ w ∈ L, w = []) :
    Label.appliedTo words L = L := by
  refine Language.ext fun w ↦ ?_
  constructor
  · intro hw
    obtain ⟨v, hv, hvw⟩ := hw
    obtain rfl := h v hv
    obtain rfl := List.forall₂_nil_left_iff.1 hvw
    exact hv
  · intro hw
    obtain rfl := h w hw
    exact ⟨[], hw, .nil⟩

theorem forall_eq_nil_iff (h : m.Tidy) : m.transitions = [] ↔ ∀ w ∈ m.language, w = [] := by
  constructor
  · intro ht w hw
    obtain ⟨i, -, j, hw, -⟩ := hw
    refine List.eq_nil_iff_forall_not_mem.2 fun l hl ↦ ?_
    obtain ⟨e, he, -⟩ := hw.label hl
    rw [ht] at he
    exact List.not_mem_nil he
  · intro hw
    refine List.eq_nil_iff_forall_not_mem.2 fun e he ↦ ?_
    obtain ⟨w, hmem, hl⟩ := h.exists_mem_language (Automaton.mem_transitions.1 he)
    rw [hw w hmem] at hl
    exact List.not_mem_nil hl

theorem find?_isAction_eq_none (h : m.Tidy) :
    m.transitions.find? (·.2.label.isAction) = none ↔ ActionFree m.language := by
  rw [← Automaton.hasAction_eq_false_iff h, Automaton.hasAction, List.find?_eq_none,
    List.any_eq_false]

theorem mapAttributes_eq {f : Attributes → Attributes} {g : Label → Label}
    (hsymbol : ∀ n a, g (.symbol n a) = .symbol n (f a))
    (haction : ∀ n l b, g (.action n l b) = .action n l b) : m.mapAttributes f = m.mapLabels g := by
  refine congrArg (m.mapLabels ·) (funext fun l ↦ ?_)
  cases l with
  | symbol n a => exact (hsymbol n a).symm
  | action n l b => exact (haction n l b).symm

theorem withWords_eq (h : m.Tidy) (hact : ActionFree m.language) :
    withWords m words = if m.transitions = [] then .ok (m.mapLabels id) else
      match AttributeWord.ofStrings words with
      | .ok ws => .ok (m.mapLabels (applyLabel ws))
      | .error e => .error (.unknownAttribute e.word) := by
  have hnone := (find?_isAction_eq_none h).2 hact
  -- Unknown words are an error only if there is a label that is no action; here no label is one.
  have hall : m.transitions.all (·.2.label.isAction) ↔ m.transitions = [] := by
    rw [List.all_eq_true]
    constructor
    · intro ha
      exact List.eq_nil_iff_forall_not_mem.2 fun e he ↦ List.find?_eq_none.1 hnone e he (ha e he)
    · intro ht e he
      rw [ht] at he
      cases he
  rw [withWords, hnone]
  dsimp only
  rw [Automaton.withAttributes]
  by_cases ht : m.transitions = []
  · rw [if_pos ht, if_pos (hall.2 ht),
      mapAttributes_eq (f := id) (g := id) (fun _ _ ↦ rfl) (fun _ _ _ ↦ rfl)]
    rfl
  · rw [if_neg ht, if_neg (mt hall.1 ht)]
    cases AttributeWord.ofStrings words with
    | error e => rfl
    | ok ws =>
      have heq := mapAttributes_eq (m := m) (f := (·.applyWords ws)) (g := applyLabel ws)
        (fun _ _ ↦ rfl) (fun _ _ _ ↦ rfl)
      exact congrArg Except.ok heq

theorem actionFree_of_withWords (h : m.Tidy) (hp : withWords m words = .ok p) :
    ActionFree m.language := by
  rw [← find?_isAction_eq_none h]
  unfold withWords at hp
  split at hp
  · cases hp
  · assumption

/-- Attributes apply unless the automaton accepts a word with an action, or a word is unknown and
there is a letter to apply it to. -/
theorem exists_withWords (h : m.Tidy) : (∃ p, withWords m words = .ok p) ↔
    ActionFree m.language ∧
      ((∀ s ∈ words, (AttributeWord.ofString? s).isSome) ∨ ∀ w ∈ m.language, w = []) := by
  have hknown (hact : ActionFree m.language) : (∃ p, withWords m words = .ok p) ↔
      (∃ ws, AttributeWord.ofStrings words = .ok ws) ∨ m.transitions = [] := by
    rw [withWords_eq h hact]
    by_cases ht : m.transitions = []
    · simp [ht]
    · cases AttributeWord.ofStrings words <;> simp [ht]
  rw [← AttributeWord.exists_ofStrings, ← forall_eq_nil_iff h]
  constructor
  · intro hp
    obtain ⟨p, hp⟩ := hp
    have hact := actionFree_of_withWords h hp
    exact ⟨hact, (hknown hact).1 ⟨p, hp⟩⟩
  · intro hp
    exact (hknown hp.1).2 hp.2

theorem tidy_withWords (h : m.Tidy) (hp : withWords m words = .ok p) : p.Tidy := by
  rw [withWords_eq h (actionFree_of_withWords h hp)] at hp
  split at hp
  · exact Except.ok.inj hp ▸ Automaton.tidy_mapLabels h
  · split at hp
    · exact Except.ok.inj hp ▸ Automaton.tidy_mapLabels h
    · cases hp

theorem language_withWords (h : m.Tidy) (hp : withWords m words = .ok p) :
    p.language = Label.appliedTo words m.language := by
  rw [withWords_eq h (actionFree_of_withWords h hp)] at hp
  split at hp
  · rename_i ht
    rw [← Except.ok.inj hp, Automaton.language_mapLabels, Language.map_id,
      appliedTo_of_forall_eq_nil ((forall_eq_nil_iff h).1 ht)]
  · split at hp
    · rename_i ws hws
      rw [← Except.ok.inj hp, Automaton.language_mapLabels, appliedTo_eq_map hws]
    · cases hp

end Expr

end RightPart
