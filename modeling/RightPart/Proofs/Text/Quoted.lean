import RightPart.Text.Quoted

namespace RightPart.Text

def hexValue (c : Char) : Nat := if c.isDigit then c.toNat - '0'.toNat else c.toNat - 'a'.toNat + 10

theorem hexValue_digitChar : ∀ k < 16, hexValue k.digitChar = k := by decide

theorem foldl_hex (n : Nat) : (hex n).foldl (fun v c ↦ 16 * v + hexValue c) 0 = n := by
  unfold hex
  induction n using Nat.base_induction 16 (by decide) with
  | single k hk => simp [Nat.toDigits_of_lt_base hk, hexValue_digitChar k hk]
  | digit n k hk hn ih =>
    rw [← Nat.toDigits_append_toDigits (by decide) hn hk, List.foldl_append, ih,
      Nat.toDigits_of_lt_base hk, List.foldl_cons, List.foldl_nil, hexValue_digitChar k hk]

theorem exists_digitChar_of_mem_hex {c : Char} {n : Nat} (h : c ∈ hex n) :
    ∃ k < 16, c = k.digitChar := by
  unfold hex at h
  induction n using Nat.base_induction 16 (by decide) with
  | single k hk => exact ⟨k, hk, List.mem_singleton.1 (Nat.toDigits_of_lt_base hk ▸ h)⟩
  | digit n k hk hn ih =>
    rw [← Nat.toDigits_append_toDigits (by decide) hn hk, Nat.toDigits_of_lt_base hk] at h
    rcases List.mem_append.1 h with h | h
    · exact ih h
    · exact ⟨k, hk, List.mem_singleton.1 h⟩

theorem mem_codeEscape {c x : Char} (h : x ∈ codeEscape c) :
    x ∈ ['\\', 'u', '\x7b', '\x7d'] ∨ ∃ k < 16, x = k.digitChar := by
  simp only [codeEscape, List.mem_append, List.mem_cons, List.not_mem_nil, or_false] at h ⊢
  rcases h with ((h | h) | h)
  · exact .inl (h.imp_right (Or.imp_right .inl))
  · exact .inr (exists_digitChar_of_mem_hex h)
  · exact .inl (.inr (.inr (.inr h)))

theorem isControl_of_mem_codeEscape {c x : Char} (h : x ∈ codeEscape c) : isControl x = false := by
  have hsigns : ['\\', 'u', '\x7b', '\x7d'].all (isControl · = false) := by decide
  have hdigits : ∀ k < 16, isControl (Nat.digitChar k) = false := by decide
  rcases mem_codeEscape h with h | ⟨k, hk, rfl⟩
  · exact of_decide_eq_true (List.all_eq_true.1 hsigns x h)
  · exact hdigits k hk

theorem isControl_of_mem_pair {c x : Char} (h : x ∈ ['\\', c]) (hc : isControl c = false) :
    isControl x = false := by
  rcases List.mem_cons.1 h with rfl | h
  · decide
  · exact List.mem_singleton.1 h ▸ hc

theorem isControl_of_mem_quoteChar {c x : Char} (h : x ∈ quoteChar c) : isControl x = false := by
  unfold quoteChar at h
  split at h
  · exact isControl_of_mem_pair h (by decide)
  · exact isControl_of_mem_pair h (by decide)
  · exact isControl_of_mem_pair h (by decide)
  · exact isControl_of_mem_pair h (by decide)
  · exact isControl_of_mem_pair h (by decide)
  · split at h
    · exact isControl_of_mem_codeEscape h
    · obtain rfl := List.mem_singleton.1 h
      exact Bool.eq_false_iff.2 ‹_›

theorem isControl_of_mem_quoted {s : String} {x : Char} (h : x ∈ (quoted s).toList) :
    isControl x = false := by
  rw [quoted, String.toList_ofList, List.mem_append, List.mem_cons, List.mem_singleton] at h
  rcases h with (rfl | h) | rfl
  · decide
  · obtain ⟨c, -, hx⟩ := List.mem_flatMap.1 h
    exact isControl_of_mem_quoteChar hx
  · decide

/-- Where in a quoted text a reader is. -/
inductive Phase
  | plain
  | escape
  | brace
  /-- In a code whose digits so far have the value. -/
  | code (value : Nat)
  | closed

/-- What a reader knows that has passed the opening quote: where it is, and the characters so far,
of which the last comes first. -/
structure Opened where
  phase : Phase
  done : List Char

namespace Opened

/-- After a backslash, a character stands for another one or for itself, or a code follows. -/
def unescape (l : List Char) : Char → Opened
  | 'n' => ⟨.plain, '\n' :: l⟩
  | 't' => ⟨.plain, '\t' :: l⟩
  | 'r' => ⟨.plain, '\r' :: l⟩
  | 'u' => ⟨.brace, l⟩
  | c => ⟨.plain, c :: l⟩

def next : Opened → Char → Option Opened
  | ⟨.plain, l⟩, c =>
    some (if c = '"' then ⟨.closed, l⟩ else if c = '\\' then ⟨.escape, l⟩ else ⟨.plain, c :: l⟩)
  | ⟨.escape, l⟩, c => some (unescape l c)
  | ⟨.brace, l⟩, _ => some ⟨.code 0, l⟩
  | ⟨.code v, l⟩, c =>
    some (if c = '\x7d' then ⟨.plain, .ofNat v :: l⟩ else ⟨.code (16 * v + hexValue c), l⟩)
  | ⟨.closed, _⟩, _ => none

theorem foldlM_next_hex {cs : List Char} (h : '\x7d' ∉ cs) (v : Nat) (l : List Char) :
    cs.foldlM next ⟨.code v, l⟩ = some ⟨.code (cs.foldl (fun v c ↦ 16 * v + hexValue c) v), l⟩ := by
  induction cs generalizing v with
  | nil => rfl
  | cons c cs ih =>
    have hc : c ≠ '\x7d' := fun hc ↦ h (hc ▸ List.mem_cons_self)
    rw [List.foldlM_cons, next, if_neg hc]
    exact ih (fun hcs ↦ h (List.mem_cons_of_mem c hcs)) _

theorem foldlM_next_codeEscape (c : Char) (l : List Char) :
    (codeEscape c).foldlM next ⟨.plain, l⟩ = some ⟨.plain, c :: l⟩ := by
  have hbrace : '\x7d' ∉ hex c.toNat := fun h ↦ by
    obtain ⟨k, hk, heq⟩ := exists_digitChar_of_mem_hex h
    revert k
    decide
  rw [codeEscape, List.append_assoc, List.foldlM_append]
  change ((hex c.toNat ++ ['\x7d']).foldlM next ⟨.code 0, l⟩) = _
  rw [List.foldlM_append, foldlM_next_hex hbrace, foldl_hex]
  change some _ = _
  rw [if_pos rfl, Char.ofNat_toNat]

theorem foldlM_next_quoteChar (c : Char) (l : List Char) :
    (quoteChar c).foldlM next ⟨.plain, l⟩ = some ⟨.plain, c :: l⟩ := by
  unfold quoteChar
  split
  · rfl
  · rfl
  · rfl
  · rfl
  · rfl
  · rename_i hquote hbackslash _ _ _
    split
    · exact foldlM_next_codeEscape c l
    · rw [List.foldlM_cons, next, if_neg hquote, if_neg hbackslash]
      rfl

theorem foldlM_next_flatMap (s l : List Char) :
    (s.flatMap quoteChar).foldlM next ⟨.plain, l⟩ = some ⟨.plain, s.reverse ++ l⟩ := by
  induction s generalizing l with
  | nil => rfl
  | cons c s ih =>
    rw [List.flatMap_cons, List.foldlM_append, foldlM_next_quoteChar]
    exact (ih (c :: l)).trans (by rw [List.reverse_cons, List.append_assoc, List.singleton_append])

theorem foldlM_next_quoted (s : List Char) :
    (s.flatMap quoteChar ++ ['"']).foldlM next ⟨.plain, []⟩ = some ⟨.closed, s.reverse⟩ := by
  rw [List.foldlM_append, foldlM_next_flatMap, List.append_nil]
  rfl

/-- Reads on to the closing quote, and gives the text and what comes after it. -/
def read : Opened → List Char → Option (List Char × List Char)
  | ⟨.closed, l⟩, cs => some (l.reverse, cs)
  | _, [] => none
  | o, c :: cs => (o.next c).bind (read · cs)

theorem read_cons {o o' : Opened} {c : Char} (h : o.next c = some o') (cs : List Char) :
    o.read (c :: cs) = o'.read cs := by
  obtain ⟨phase, l⟩ := o
  cases phase with
  | closed => cases h
  | plain | escape | brace | code =>
    rw [read, h, Option.bind_some]
    nofun

theorem read_append {o o' : Opened} {cs : List Char} (h : cs.foldlM next o = some o')
    (rest : List Char) : o.read (cs ++ rest) = o'.read rest := by
  induction cs generalizing o with
  | nil =>
    obtain rfl := Option.some.inj h
    rfl
  | cons c cs ih =>
    rw [List.foldlM_cons] at h
    obtain ⟨o₁, hnext, h⟩ := Option.bind_eq_some_iff.1 h
    rw [List.cons_append, read_cons hnext]
    exact ih h

end Opened

def unquote (s : String) : Option (String × String) :=
  match s.toList with
  | '"' :: cs => (Opened.read ⟨.plain, []⟩ cs).map fun p ↦ (.ofList p.1, .ofList p.2)
  | _ => none

theorem unquote_quoted_append (s rest : String) : unquote (quoted s ++ rest) = some (s, rest) := by
  have htext : (quoted s ++ rest).toList = '"' ::
      (s.toList.flatMap quoteChar ++ ['"'] ++ rest.toList) := by
    rw [String.toList_append, quoted, String.toList_ofList]
    rfl
  rw [unquote, htext]
  simp only [Opened.read_append (Opened.foldlM_next_quoted s.toList), Opened.read,
    List.reverse_reverse, Option.map_some, String.ofList_toList]

def backslashes (l : List Char) : Nat := (l.reverse.takeWhile (· = '\\')).length

/-- Every quote is escaped: the number of backslashes right before it is odd. -/
def QuotesEscaped (l : List Char) : Prop :=
  ∀ i < l.length, l[i]? = some '"' → backslashes (l.take i) % 2 = 1

instance (l : List Char) : Decidable (QuotesEscaped l) :=
  inferInstanceAs (Decidable (∀ i < l.length, _))

theorem quotesEscaped_of_not_mem {l : List Char} (h : '"' ∉ l) : QuotesEscaped l := fun _ _ hi ↦
  absurd (List.mem_of_getElem? hi) h

theorem backslashes_concat {c : Char} (h : c ≠ '\\') (l : List Char) :
    backslashes (l ++ [c]) = 0 := by
  rw [backslashes, List.reverse_concat, List.takeWhile_cons_of_neg (by simpa using h),
    List.length_nil]

/-- Backslashes that go in pairs do not count for what comes after them. -/
theorem backslashes_append {l : List Char} (h : backslashes l % 2 = 0) (l' : List Char) :
    backslashes (l ++ l') % 2 = backslashes l' % 2 := by
  rw [backslashes, List.reverse_append, List.takeWhile_append]
  split
  · rename_i hall
    rw [List.length_append]
    change (_ + backslashes l) % 2 = _
    rw [← hall]
    change (backslashes l' + backslashes l) % 2 = _
    omega
  · rfl

theorem QuotesEscaped.append {l l' : List Char} (h : QuotesEscaped l) (hl : backslashes l % 2 = 0)
    (h' : QuotesEscaped l') : QuotesEscaped (l ++ l') := by
  intro i hi hquote
  rcases Nat.lt_or_ge i l.length with hlt | hge
  · rw [List.getElem?_append_left hlt] at hquote
    rw [List.take_append_of_le_length (Nat.le_of_lt hlt)]
    exact h i hlt hquote
  · rw [List.getElem?_append_right hge] at hquote
    rw [List.take_append, List.take_of_length_le hge, backslashes_append hl]
    rw [List.length_append] at hi
    exact h' _ (by omega) hquote

theorem quotesEscaped_quoteChar (c : Char) :
    QuotesEscaped (quoteChar c) ∧ backslashes (quoteChar c) % 2 = 0 := by
  unfold quoteChar
  split
  · decide
  · decide
  · decide
  · decide
  · decide
  · rename_i hquote hbackslash _ _ _
    split
    · have hplain : '"' ∉ codeEscape c := fun h ↦ by
        rcases mem_codeEscape h with h | ⟨k, hk, heq⟩
        · revert h
          decide
        · revert k
          decide
      exact ⟨quotesEscaped_of_not_mem hplain, by rw [codeEscape, backslashes_concat (by decide)]⟩
    · refine ⟨quotesEscaped_of_not_mem ?_,
        by rw [← List.nil_append [c], backslashes_concat hbackslash]⟩
      rw [List.mem_singleton]
      exact fun h ↦ hquote h.symm

theorem quotesEscaped_flatMap (s : List Char) : QuotesEscaped (s.flatMap quoteChar) := by
  induction s with
  | nil => exact quotesEscaped_of_not_mem List.not_mem_nil
  | cons c s ih =>
    obtain ⟨hc, hpairs⟩ := quotesEscaped_quoteChar c
    exact hc.append hpairs ih

/-- A quoted text can be read back whatever comes after it. Between its quotes it has no controls,
and no quotes but escaped ones. -/
theorem quoted_delimited :
    (∀ s rest, unquote (quoted s ++ rest) = some (s, rest)) ∧
      ∀ s, ∃ body, (quoted s).toList = '"' :: (body ++ ['"']) ∧ (∀ c ∈ body, isControl c = false) ∧
        ∀ i < body.length, body[i]? = some '"' → backslashes (body.take i) % 2 = 1 := by
  refine ⟨unquote_quoted_append,
    fun s ↦ ⟨_, String.toList_ofList, fun c hc ↦ ?_, quotesEscaped_flatMap s.toList⟩⟩
  obtain ⟨c', -, hc⟩ := List.mem_flatMap.1 hc
  exact isControl_of_mem_quoteChar hc

theorem quoted_delimited_backslash :
    unquote (quoted "a\"\x07\\" ++ "\"b") = some ("a\"\x07\\", "\"b") ∧
      ∃ body, (quoted "a\"\x07\\").toList = '"' :: (body ++ ['"']) ∧
        (∀ c ∈ body, isControl c = false) ∧
        body[2]? = some '"' ∧ backslashes (body.take 2) % 2 = 1 := by
  obtain ⟨hread, hbody⟩ := quoted_delimited
  obtain ⟨body, htext, hcontrols, hquotes⟩ := hbody "a\"\x07\\"
  have hvalue : (quoted "a\"\x07\\").toList = '"' :: ("a\\\"\\u\x7b7\x7d\\\\".toList ++ ['"']) := by
    decide +kernel
  have hsame : body = "a\\\"\\u\x7b7\x7d\\\\".toList :=
    List.append_cancel_right (List.cons.inj (htext.symm.trans hvalue)).2
  have hquote : body[2]? = some '"' := by
    rw [hsame]
    decide +kernel
  exact ⟨hread _ _, body, htext, hcontrols, hquote,
    hquotes 2 (by rw [hsame]; decide +kernel) hquote⟩

end RightPart.Text
