import RightPart.Proofs.Automaton.Distinct

namespace RightPart.Automaton

variable {lo hi : Char} {a : Attributes}

theorem char_le_iff {c d : Char} : c ≤ d ↔ c.toNat ≤ d.toNat := UInt32.le_iff_toNat_le

theorem char_lt_iff {c d : Char} : c < d ↔ c.toNat < d.toNat := UInt32.lt_iff_toNat_lt

theorem valid_between_iff :
    (∀ k, lo.toNat ≤ k → k ≤ hi.toNat → k.isValidChar) ↔
      ¬ (lo.toNat < 0xd800 ∧ 0xdfff < hi.toNat) := by
  have hlo : lo.toNat.isValidChar := lo.valid
  have hhi : hi.toNat.isValidChar := hi.valid
  simp only [Nat.isValidChar] at hlo hhi ⊢
  constructor
  · intro h hgap
    have hsurrogate := h 0xd800 (by omega) (by omega)
    omega
  · intro h k hk hk'
    omega

/-- A code that is no character is reported, the first one if there are several. -/
theorem symbolsOfCodes_eq_error {before : Array String} {lo n k : Nat} (hk : lo ≤ k)
    (hk' : k < lo + n) (hvalid : ∀ j, lo ≤ j → j < k → j.isValidChar) (h : ¬ k.isValidChar) :
    symbolsOfCodes before lo n = .error (.invalidCode k) := by
  induction n generalizing before lo with
  | zero => omega
  | succ n ih =>
    rw [symbolsOfCodes]
    rcases Nat.eq_or_lt_of_le hk with rfl | hlt
    · rw [symbolOfCode, if_neg h]
    · obtain ⟨c, rfl⟩ := exists_char_iff.2 (hvalid lo le_rfl hlt)
      rw [symbolOfCode_toNat]
      exact ih hlt (by omega) fun j hj hjk ↦ hvalid j (by omega) hjk

theorem ofCharacters_eq_error (hlo : lo.toNat < 0xd800) (hhi : 0xdfff < hi.toNat) :
    ofCharacters lo hi a = .error (.invalidCode 0xd800) := by
  rw [ofCharacters, ofCodes, if_neg (by omega),
    symbolsOfCodes_eq_error (k := 0xd800) (by omega) (by omega) _
    (by decide)]
  · rfl
  · intro j _ hj
    exact .inl hj

def charsBetween (lo hi : Char) : List Char :=
  (List.range' lo.toNat (hi.toNat + 1 - lo.toNat)).map Char.ofNat

theorem mem_charsBetween (h : ¬ (lo.toNat < 0xd800 ∧ 0xdfff < hi.toNat)) {c : Char} :
    c ∈ charsBetween lo hi ↔ lo ≤ c ∧ c ≤ hi := by
  simp only [charsBetween, List.mem_map, List.mem_range'_1, char_le_iff]
  constructor
  · intro hc
    obtain ⟨k, ⟨hk, hk'⟩, rfl⟩ := hc
    obtain ⟨c, rfl⟩ := exists_char_iff.2 (valid_between_iff.2 h k hk (by omega))
    rw [Char.ofNat_toNat]
    omega
  · intro hc
    exact ⟨c.toNat, by omega, Char.ofNat_toNat c⟩

theorem pairwise_charsBetween (h : ¬ (lo.toNat < 0xd800 ∧ 0xdfff < hi.toNat)) :
    (charsBetween lo hi).Pairwise (· < ·) := by
  rw [charsBetween, List.pairwise_map]
  refine (List.pairwise_lt_range' _).imp_of_mem fun {j k} hj hk hlt ↦ ?_
  have hvalid := valid_between_iff.2 h
  rw [List.mem_range'_1] at hj hk
  obtain ⟨c, rfl⟩ := exists_char_iff.2 (hvalid j hj.1 (by omega))
  obtain ⟨d, rfl⟩ := exists_char_iff.2 (hvalid k hk.1 (by omega))
  rwa [Char.ofNat_toNat, Char.ofNat_toNat, char_lt_iff]

theorem ofCharacters_eq_ok (h : lo ≤ hi) (hgap : ¬ (lo.toNat < 0xd800 ∧ 0xdfff < hi.toNat)) :
    ofCharacters lo hi a =
      .ok (ofLabels ((charsBetween lo hi).map fun c ↦ .symbol c.toString a)) := by
  have hle := char_le_iff.1 h
  obtain ⟨ts, hts⟩ := (exists_symbolsOfCodes (n := hi.toNat + 1 - lo.toNat) #[]).2 fun k hk hk' ↦
    valid_between_iff.2 hgap k hk (by omega)
  rw [ofCharacters, ofCodes, if_neg (by omega), hts, symbolsOfCodes_eq hts]
  simp [Except.map, charsBetween, Function.comp_def]

theorem transitions_ofLabels (labels : List Label) :
    (ofLabels labels).transitions = labels.map fun l ↦ (0, ⟨l, 1⟩) := by
  simp [transitions, ids, size, ofLabels, transitionsFrom, List.range_succ]

/-- A range of characters accepts each of them as a word of its own, with one transition for each
character in their order. A range from below the surrogates to above them is refused, as it is
walked code by code. -/
theorem ofCharacters_of_le (h : lo ≤ hi) :
    (lo.toNat < 0xd800 ∧ 0xdfff < hi.toNat → ofCharacters lo hi a = .error (.invalidCode 0xd800)) ∧
      (¬ (lo.toNat < 0xd800 ∧ 0xdfff < hi.toNat) → ∃ m, ofCharacters lo hi a = .ok m ∧
        m.language = {w | ∃ c : Char, lo ≤ c ∧ c ≤ hi ∧ w = [.symbol c.toString a]} ∧
        ∃ cs : List Char, cs.Pairwise (· < ·) ∧ (∀ c, c ∈ cs ↔ lo ≤ c ∧ c ≤ hi) ∧
          m.transitions = cs.map fun c ↦ (0, ⟨.symbol c.toString a, 1⟩)) := by
  refine ⟨fun hgap ↦ ofCharacters_eq_error hgap.1 hgap.2, fun hgap ↦ ?_⟩
  have heq := ofCharacters_eq_ok (a := a) h hgap
  refine ⟨_, heq, ?_, charsBetween lo hi, pairwise_charsBetween hgap,
    fun _ ↦ mem_charsBetween hgap, ?_⟩
  · have hlanguage := (ofCodes_spec (char_le_iff.1 h) heq).2
    simpa only [char_le_iff] using hlanguage
  · rw [transitions_ofLabels, List.map_map]
    rfl

theorem ofCharacters_beside_gap : 'a' ≤ '\ud7ff' ∧ '\ud7ff' ≤ '\ue000' ∧
    (∃ m, ofCharacters 'a' '\ud7ff' .scanner = .ok m ∧ [.symbol "\ud7ff" .scanner] ∈ m.language) ∧
    ofCharacters '\ud7ff' '\ue000' .scanner = .error (.invalidCode 0xd800) := by
  have hbelow : 'a' ≤ '\ud7ff' := by decide
  have haround : '\ud7ff' ≤ '\ue000' := by decide
  obtain ⟨m, hm, hlanguage, -⟩ := (ofCharacters_of_le (a := .scanner) hbelow).2 (by decide)
  refine ⟨hbelow, haround, ⟨m, hm, ?_⟩, (ofCharacters_of_le haround).1 (by decide)⟩
  rw [hlanguage]
  exact ⟨'\ud7ff', hbelow, Char.le_refl _, rfl⟩

/-- Not every range of characters has an automaton: between these two lie no characters,
but codes. -/
theorem not_ofCharacters_of_gap :
    ¬ ∀ (lo hi : Char) (a : Attributes), lo ≤ hi → ∃ m, ofCharacters lo hi a = .ok m := by
  intro h
  obtain ⟨m, hm⟩ := h '\ud7ff' '\ue000' .scanner (by decide)
  rw [ofCharacters_eq_error (by decide) (by decide)] at hm
  cases hm

end RightPart.Automaton
