import RightPart.Proofs.Automaton.Distinct
import RightPart.Proofs.Automaton.Labels
import RightPart.Proofs.Expr.Attributes

namespace RightPart

namespace AttributeWord

variable {s : String} {tokens : List String} {words : List AttributeWord}

def text : AttributeWord → String
  | read => "read"
  | look => "look"
  | stack => "stack"
  | noStack => "noStack"
  | keep => "keep"
  | noKeep => "noKeep"
  | node => "node"
  | noNode => "noNode"

def vocabulary : List String :=
  ["read", "look", "stack", "noStack", "keep", "noKeep", "node", "noNode"]

theorem ofString?_text (w : AttributeWord) : ofString? w.text = some w := by
  cases w <;> rfl

theorem ofString?_of_mem (h : s ∈ vocabulary) : ∃ w, w.text = s ∧ ofString? s = some w := by
  simp only [vocabulary, List.mem_cons, List.not_mem_nil, or_false] at h
  rcases h with rfl | rfl | rfl | rfl | rfl | rfl | rfl | rfl <;> exact ⟨_, rfl, rfl⟩

theorem ofString?_of_not_mem (h : s ∉ vocabulary) : ofString? s = none := by
  unfold ofString?
  split
  case h_9 => rfl
  all_goals exact absurd (by decide) h

theorem exists_text_of_forall_mem (h : ∀ s ∈ tokens, s ∈ vocabulary) :
    ∃ words, words.map text = tokens ∧ ofStrings tokens = .ok words := by
  induction tokens with
  | nil => exact ⟨[], rfl, rfl⟩
  | cons s tokens ih =>
    obtain ⟨hs, htokens⟩ := List.forall_mem_cons.1 h
    obtain ⟨w, rfl, hw⟩ := ofString?_of_mem hs
    obtain ⟨words, rfl, hwords⟩ := ih htokens
    exact ⟨w :: words, rfl, by rw [ofStrings, hw, hwords]; rfl⟩

theorem ofStrings_eq_error_iff {e : UnknownWord} :
    ofStrings tokens = .error e ↔ tokens.find? (· ∉ vocabulary) = some e.word := by
  induction tokens with
  | nil => simp [ofStrings]
  | cons s tokens ih =>
    by_cases hs : s ∈ vocabulary
    · obtain ⟨w, -, hw⟩ := ofString?_of_mem hs
      rw [List.find?_cons_of_neg (by simpa using hs), ← ih, ofStrings, hw]
      cases ofStrings tokens <;> simp [Except.map]
    · rw [List.find?_cons_of_pos (by simpa using hs), ofStrings, ofString?_of_not_mem hs]
      cases e
      simp

end AttributeWord

/-- What a word says about an attribute that one word turns on and another one off. -/
def mention (on off s : String) : Option Bool :=
  if s = on then some true else if s = off then some false else none

def lastMention (on off : String) (tokens : List String) : Option Bool :=
  (tokens.filterMap (mention on off)).getLast?

namespace Attributes

open AttributeWord

/-- The attributes after a list of known words, each attribute from its own words. -/
def settled (a : Attributes) (tokens : List String) : Attributes :=
  if "look" ∈ tokens then look else
    { read := a.read || "read" ∈ tokens
      stack := (lastMention "stack" "noStack" tokens).getD a.stack
      keep := (lastMention "keep" "noKeep" tokens).getD a.keep
      node := (lastMention "node" "noNode" tokens).getD a.node }

variable {a : Attributes} {words : List AttributeWord} {tokens : List String}

theorem read_foldl_set : (words.foldl set a).read = (a.read || .read ∈ words) := by
  induction words generalizing a with
  | nil => simp
  | cons w words ih =>
    rw [List.foldl_cons, ih]
    cases w <;> simp [set]

/-- An attribute that two words turn on and off is as the last of them says. -/
theorem get_foldl_set (get : Attributes → Bool) (on off : String)
    (hset : ∀ a w, get (set a w) = (mention on off w.text).getD (get a))
    (words : List AttributeWord) (a : Attributes) :
    get (words.foldl set a) = (lastMention on off (words.map AttributeWord.text)).getD (get a) := by
  induction words generalizing a with
  | nil => rfl
  | cons w words ih =>
    rw [List.foldl_cons, ih, hset, lastMention, lastMention, List.map_cons, List.filterMap_cons]
    cases mention on off w.text with
    | none => rfl
    | some b => rw [List.getLast?_cons, Option.getD_some, Option.getD_some]

theorem applyWords_eq : a.applyWords words = a.settled (words.map AttributeWord.text) := by
  have hmem (w : AttributeWord) : w.text ∈ words.map AttributeWord.text ↔ w ∈ words := by
    refine List.mem_map_of_injective fun v w h ↦ ?_
    exact Option.some.inj ((ofString?_text v).symm.trans (h ▸ ofString?_text w))
  have hlook : "look" ∈ words.map AttributeWord.text ↔ .look ∈ words := hmem .look
  have hread : "read" ∈ words.map AttributeWord.text ↔ .read ∈ words := hmem .read
  have hstack := get_foldl_set stack "stack" "noStack" (fun _ w ↦ by cases w <;> rfl) words a
  have hkeep := get_foldl_set keep "keep" "noKeep" (fun _ w ↦ by cases w <;> rfl) words a
  have hnode := get_foldl_set node "node" "noNode" (fun _ w ↦ by cases w <;> rfl) words a
  simp only [applyWords, settled, hlook, hread, ← read_foldl_set, ← hstack, ← hkeep, ← hnode]

theorem apply_of_forall_mem (h : ∀ s ∈ tokens, s ∈ vocabulary) :
    a.apply tokens = .ok (a.settled tokens) := by
  obtain ⟨words, rfl, hwords⟩ := exists_text_of_forall_mem h
  rw [apply, hwords, ← applyWords_eq]
  rfl

end Attributes

namespace Automaton

open AttributeWord (ofStrings vocabulary)

variable {m p : Automaton} {f g : Label → Label} {tokens : List String} {words : List AttributeWord}

theorem withTransitions_nil_mapLabels : (m.mapLabels f).states.map (·.withTransitions []) =
    m.states.map (·.withTransitions []) := by
  rw [mapLabels, Array.map_map]
  rfl

theorem mapLabels_congr (h : ∀ l ∈ m.labels, f l = g l) : m.mapLabels f = m.mapLabels g := by
  refine congrArg Automaton.mk (Array.map_congr_left fun s hs ↦ ?_)
  refine congrArg s.withTransitions (List.map_congr_left fun t ht ↦ ?_)
  obtain ⟨i, hi⟩ := Array.mem_iff_getElem?.1 hs
  rw [h t.label (mem_labels.2 ⟨i, t, transitionsFrom_of_state hi ▸ ht, rfl⟩)]

theorem all_isAction_iff : m.transitions.all (·.2.label.isAction) ↔ ∀ l ∈ m.labels, l.isAction := by
  rw [List.all_eq_true, labels, List.forall_mem_map]

theorem forall_isAction_or_exists (m : Automaton) :
    (∀ l ∈ m.labels, l.isAction) ∨ ∃ l ∈ m.labels, l.isAction = false := by
  by_cases h : ∀ l ∈ m.labels, l.isAction
  · exact .inl h
  · simp only [not_forall, exists_prop, Bool.not_eq_true] at h
    exact .inr h

theorem withAttributes_of_isAction (h : ∀ l ∈ m.labels, l.isAction) :
    m.withAttributes tokens = .ok (m.mapLabels id) := by
  rw [withAttributes, if_pos (all_isAction_iff.2 h),
    Expr.mapAttributes_eq (f := id) (g := id) (fun _ _ ↦ rfl) (fun _ _ _ ↦ rfl)]

theorem withAttributes_of_symbol (h : ∃ l ∈ m.labels, l.isAction = false) :
    m.withAttributes tokens = (ofStrings tokens).map fun words ↦
      m.mapLabels (Expr.applyLabel words) := by
  obtain ⟨l, hl, hsymbol⟩ := h
  have hall : ¬ m.transitions.all (·.2.label.isAction) := fun h ↦ by
    rw [all_isAction_iff.1 h l hl] at hsymbol
    cases hsymbol
  rw [withAttributes, if_neg hall]
  refine congrArg (Except.map · (ofStrings tokens)) (funext fun words ↦ ?_)
  exact Expr.mapAttributes_eq (fun _ _ ↦ rfl) fun _ _ _ ↦ rfl

theorem withAttributes_of_known (h : ofStrings tokens = .ok words) :
    m.withAttributes tokens = .ok (m.mapLabels (Expr.applyLabel words)) := by
  rcases m.forall_isAction_or_exists with hact | hsymbol
  · rw [withAttributes_of_isAction hact]
    refine congrArg Except.ok (mapLabels_congr fun l hl ↦ ?_)
    cases l with
    | symbol n a => cases hact _ hl
    | action n l b => rfl
  · rw [withAttributes_of_symbol hsymbol, h]
    rfl

theorem withAttributes_eq_error_iff {e : UnknownWord} : m.withAttributes tokens = .error e ↔
    (∃ l ∈ m.labels, l.isAction = false) ∧ tokens.find? (· ∉ vocabulary) = some e.word := by
  rw [← AttributeWord.ofStrings_eq_error_iff]
  rcases m.forall_isAction_or_exists with hact | hsymbol
  · rw [withAttributes_of_isAction hact]
    constructor
    · intro h
      cases h
    · rintro ⟨⟨l, hl, hsymbol⟩, -⟩
      rw [hact l hl] at hsymbol
      cases hsymbol
  · rw [withAttributes_of_symbol hsymbol]
    cases ofStrings tokens with
    | error e' => simp [hsymbol, Except.map]
    | ok words => simp [Except.map]

theorem applied_iff_of_isAction {l l' : Label} (h : l.isAction) :
    Label.Applied tokens l l' ↔ l = l' := by
  cases l with
  | symbol n a => cases h
  | action n args b =>
    constructor
    · intro ha
      cases ha
      rfl
    · rintro rfl
      exact .action n args b

theorem appliedTo_of_isAction {L : Language Label} (h : ∀ w ∈ L, ∀ l ∈ w, l.isAction) :
    Label.appliedTo tokens L = L := by
  refine Language.ext fun w ↦ ⟨?_, fun hw ↦ ?_⟩
  · rintro ⟨v, hv, hvw⟩
    have heq : List.Forall₂ Eq v w :=
      (List.forall₂_and_left v w).2 ⟨h v hv, hvw⟩ |>.imp fun _ _ hl ↦
        (applied_iff_of_isAction hl.1).1 hl.2
    rw [List.forall₂_eq_eq_eq] at heq
    exact heq ▸ hv
  · exact ⟨w, hw, List.forall₂_same.2 fun l hl ↦ (applied_iff_of_isAction (h w hw l hl)).2 rfl⟩

theorem language_withAttributes (h : m.withAttributes tokens = .ok p) :
    p.language = Label.appliedTo tokens m.language := by
  cases hwords : ofStrings tokens with
  | ok words =>
    rw [withAttributes_of_known hwords] at h
    rw [← Except.ok.inj h, language_mapLabels, Expr.appliedTo_eq_map hwords]
  | error e =>
    rcases m.forall_isAction_or_exists with hact | hsymbol
    · rw [withAttributes_of_isAction hact] at h
      rw [← Except.ok.inj h, language_mapLabels, Language.map_id, appliedTo_of_isAction]
      exact fun w hw l hl ↦ hact l (mem_labels_of_mem_language hw hl)
    · rw [withAttributes_of_symbol hsymbol, hwords] at h
      cases h

theorem withAttributes_of_look (h : ∀ s ∈ tokens, s ∈ vocabulary) (hlook : "look" ∈ tokens) :
    m.withAttributes tokens = .ok m.look := by
  obtain ⟨words, rfl, hwords⟩ := AttributeWord.exists_text_of_forall_mem h
  rw [withAttributes_of_known hwords, look, Expr.mapAttributes_eq (g := Expr.applyLabel words)]
  · intro n a
    rw [Expr.applyLabel, Attributes.applyWords_eq, Attributes.settled, if_pos hlook]
  · exact fun _ _ _ ↦ rfl

/-- Relabelling acts letter by letter: on words as a function does, and with a list of
attribute words as the list makes attributes of attributes. It fails only for an unknown word
that meets a symbol. -/
theorem relabel_letterwise (m : Automaton) (f : Label → Label) (tokens : List String) :
    ((m.mapLabels f).language = Language.map f m.language ∧
      (m.mapLabels f).states.map (·.withTransitions []) = m.states.map (·.withTransitions []) ∧
      (m.mapLabels f).Distinct) ∧
    (∀ e, m.withAttributes tokens = .error e ↔
      (∃ l ∈ m.labels, l.isAction = false) ∧ tokens.find? (· ∉ vocabulary) = some e.word) ∧
    (∀ p, m.withAttributes tokens = .ok p → p.language = Label.appliedTo tokens m.language) ∧
    ((∀ s ∈ tokens, s ∈ vocabulary) →
      (∀ a : Attributes, a.apply tokens = .ok (a.settled tokens)) ∧
      ("look" ∈ tokens → m.withAttributes tokens = .ok m.look)) :=
  ⟨⟨language_mapLabels, withTransitions_nil_mapLabels, distinct_mapLabels m f⟩,
    fun _ ↦ withAttributes_eq_error_iff, fun _ ↦ language_withAttributes,
    fun h ↦ ⟨fun _ ↦ Attributes.apply_of_forall_mem h, withAttributes_of_look h⟩⟩

theorem relabel_letterwise_words :
    (∃ p, (ofString "ab" .scanner).withAttributes ["noKeep", "keep", "node"] = .ok p ∧
      p.language = Label.appliedTo ["noKeep", "keep", "node"] (ofString "ab" .scanner).language) ∧
    Attributes.scanner.apply ["noKeep", "keep", "node"] = .ok ⟨true, false, true, true⟩ ∧
    (ofString "ab" .scanner).withAttributes ["keep", "look"] = .ok (ofString "ab" .scanner).look ∧
    (ofString "ab" .scanner).withAttributes ["keep", "peek", "look"] = .error ⟨"peek"⟩ := by
  have hab := relabel_letterwise (ofString "ab" .scanner) id
  obtain ⟨-, -, hlanguage, hknown⟩ := hab ["noKeep", "keep", "node"]
  refine ⟨⟨_, rfl, hlanguage _ rfl⟩, (hknown (by decide)).1 _, ?_, ?_⟩
  · exact ((hab ["keep", "look"]).2.2.2 (by decide)).2 (by decide)
  · exact ((hab ["keep", "peek", "look"]).2.1 _).2 (by decide)

end Automaton

end RightPart
