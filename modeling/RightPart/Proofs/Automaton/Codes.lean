import RightPart.Proofs.Automaton.Iteration

namespace RightPart.Automaton

theorem exists_char_iff {n : Nat} : (∃ c : Char, c.toNat = n) ↔ n.isValidChar := by
  constructor
  · intro h
    obtain ⟨c, rfl⟩ := h
    exact c.valid
  · intro h
    exact ⟨Char.ofNatAux n h, rfl⟩

theorem symbolOfCode_eq_ok {n : Nat} {t : String} :
    symbolOfCode n = .ok t ↔ ∃ c : Char, c.toNat = n ∧ t = c.toString := by
  unfold symbolOfCode
  by_cases h : n.isValidChar
  · rw [if_pos h]
    constructor
    · intro he
      obtain ⟨c, rfl⟩ := exists_char_iff.2 h
      exact ⟨c, rfl, by rw [← Except.ok.inj he, Char.ofNat_toNat]⟩
    · intro he
      obtain ⟨c, rfl, rfl⟩ := he
      rw [Char.ofNat_toNat]
  · rw [if_neg h]
    constructor
    · intro he
      cases he
    · intro he
      obtain ⟨c, rfl, -⟩ := he
      exact absurd c.valid h

theorem symbolOfCode_toNat (c : Char) : symbolOfCode c.toNat = .ok c.toString :=
  symbolOfCode_eq_ok.2 ⟨c, rfl, rfl⟩

/-- Codes have symbols exactly if each is that of a character; the symbols are then
these characters. -/
theorem exists_symbolsOfCodes (before : Array String) {lo n : Nat} :
    (∃ ts, symbolsOfCodes before lo n = .ok ts) ↔ ∀ k, lo ≤ k → k < lo + n → k.isValidChar := by
  induction n generalizing before lo with
  | zero => exact ⟨fun _ k hk hk' ↦ absurd hk' (Nat.not_lt.2 hk), fun _ ↦ ⟨_, rfl⟩⟩
  | succ n ih =>
    have hstep : (∃ ts, symbolsOfCodes before lo (n + 1) = .ok ts) ↔
        lo.isValidChar ∧ ∀ k, lo + 1 ≤ k → k < lo + 1 + n → k.isValidChar := by
      rw [← exists_char_iff]
      constructor
      · intro h
        obtain ⟨ts, h⟩ := h
        rw [symbolsOfCodes] at h
        split at h
        · rename_i t ht
          obtain ⟨c, hc, -⟩ := symbolOfCode_eq_ok.1 ht
          exact ⟨⟨c, hc⟩, (ih _).1 ⟨ts, h⟩⟩
        · cases h
      · intro h
        obtain ⟨⟨c, rfl⟩, h⟩ := h
        obtain ⟨ts, hts⟩ := (ih _).2 h
        exact ⟨ts, by rw [symbolsOfCodes, symbolOfCode_toNat]; exact hts⟩
    rw [hstep]
    constructor
    · intro h k hk hk'
      rcases Nat.eq_or_lt_of_le hk with rfl | hk
      · exact h.1
      · exact h.2 k hk (by omega)
    · intro h
      exact ⟨h lo le_rfl (by omega), fun k hk hk' ↦ h k (by omega) (by omega)⟩

theorem mem_symbolsOfCodes {before : Array String} {lo n : Nat} {ts : List String}
    (h : symbolsOfCodes before lo n = .ok ts) {t : String} :
    t ∈ ts ↔ t ∈ before ∨ ∃ c : Char, lo ≤ c.toNat ∧ c.toNat < lo + n ∧ t = c.toString := by
  induction n generalizing before lo with
  | zero =>
    rw [← Except.ok.inj h, Array.mem_toList_iff]
    refine ⟨.inl, fun ht ↦ ht.resolve_right fun hc ↦ ?_⟩
    obtain ⟨c, hc, hc', -⟩ := hc
    exact absurd hc' (Nat.not_lt.2 hc)
  | succ n ih =>
    rw [symbolsOfCodes] at h
    split at h
    · rename_i s hs
      obtain ⟨c, rfl, rfl⟩ := symbolOfCode_eq_ok.1 hs
      rw [ih h, Array.mem_push, or_assoc]
      refine or_congr_right ⟨?_, ?_⟩
      · intro ht
        rcases ht with rfl | ⟨c', hc, hc', rfl⟩
        · exact ⟨c, le_rfl, by omega, rfl⟩
        · exact ⟨c', by omega, by omega, rfl⟩
      · intro ht
        obtain ⟨c', hc, hc', rfl⟩ := ht
        rcases Nat.eq_or_lt_of_le hc with heq | hlt
        · rw [Char.toNat_inj.1 heq]
          exact .inl rfl
        · exact .inr ⟨c', hlt, by omega, rfl⟩
    · cases h

theorem exists_ofCodes {lo hi : Nat} {a : Attributes} (h : lo ≤ hi) :
    (∃ m, ofCodes lo hi a = .ok m) ↔ ∀ k, lo ≤ k → k ≤ hi → k.isValidChar := by
  have hbound : (∀ k, lo ≤ k → k < lo + (hi + 1 - lo) → k.isValidChar) ↔
      ∀ k, lo ≤ k → k ≤ hi → k.isValidChar :=
    forall₂_congr fun k hk ↦ by rw [show k < lo + (hi + 1 - lo) ↔ k ≤ hi by omega]
  rw [← hbound, ← exists_symbolsOfCodes #[], ofCodes, if_neg (by omega)]
  cases symbolsOfCodes #[] lo (hi + 1 - lo) <;> simp [Except.map]

theorem ofCodes_spec {lo hi : Nat} {a : Attributes} {m : Automaton} (hle : lo ≤ hi)
    (h : ofCodes lo hi a = .ok m) :
    m.Tidy ∧ m.language = {w | ∃ c : Char, lo ≤ c.toNat ∧ c.toNat ≤ hi ∧
      w = [.symbol c.toString a]} := by
  have hvalid := (exists_ofCodes hle).1 ⟨m, h⟩
  rw [ofCodes, if_neg (by omega)] at h
  cases hts : symbolsOfCodes #[] lo (hi + 1 - lo) with
  | error e => rw [hts] at h; cases h
  | ok ts =>
    rw [hts] at h
    obtain rfl := Except.ok.inj h
    have hmem : ∀ t, t ∈ ts ↔ ∃ c : Char, lo ≤ c.toNat ∧ c.toNat ≤ hi ∧ t = c.toString := by
      intro t
      rw [mem_symbolsOfCodes hts]
      simp only [Array.not_mem_empty, false_or]
      exact exists_congr fun c ↦ and_congr_right fun _ ↦ by
        rw [show c.toNat < lo + (hi + 1 - lo) ↔ c.toNat ≤ hi by omega]
    have hne : ts.map (Label.symbol · a) ≠ [] := by
      obtain ⟨c, rfl⟩ := exists_char_iff.2 (hvalid lo le_rfl hle)
      exact List.ne_nil_of_mem (List.mem_map_of_mem ((hmem _).2 ⟨c, le_rfl, hle, rfl⟩))
    refine ⟨tidy_ofLabels hne, ?_⟩
    rw [language_ofLabels]
    refine Language.ext fun w ↦ ?_
    constructor
    · intro hw
      obtain ⟨l, hl, rfl⟩ := hw
      obtain ⟨t, ht, rfl⟩ := List.mem_map.1 hl
      obtain ⟨c, hc, hc', rfl⟩ := (hmem t).1 ht
      exact ⟨c, hc, hc', rfl⟩
    · intro hw
      obtain ⟨c, hc, hc', rfl⟩ := hw
      exact ⟨_, List.mem_map_of_mem ((hmem _).2 ⟨c, hc, hc', rfl⟩), rfl⟩

end RightPart.Automaton
