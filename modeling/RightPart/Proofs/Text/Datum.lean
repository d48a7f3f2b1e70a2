import RightPart.Proofs.Text.Quoted

namespace RightPart

inductive Bracket
  | round
  | square
deriving DecidableEq

namespace Bracket

def opening : Bracket → Char
  | round => '('
  | square => '['

def closing : Bracket → Char
  | round => ')'
  | square => ']'

end Bracket

/-- What rows are written with: numbers, texts, and tuples and lists of further data. -/
inductive Datum
  | number (n : Int)
  | text (s : String)
  | group (b : Bracket) (l : List Datum)

namespace Datum

mutual

def chars : Datum → List Char
  | number n => (toString n).toList
  | text s => (Text.quoted s).toList
  | group b l => b.opening :: (charsAll l ++ [b.closing])

def charsAll : List Datum → List Char
  | [] => []
  | d :: l => d.chars ++ charsRest l

def charsRest : List Datum → List Char
  | [] => []
  | d :: l => ',' :: ' ' :: (d.chars ++ charsRest l)

end

theorem charsRest_eq (l : List Datum) : charsRest l = l.flatMap fun d ↦ ',' :: ' ' :: d.chars := by
  induction l with
  | nil => rfl
  | cons d l ih => rw [charsRest, ih]; rfl

theorem charsAll_eq (l : List Datum) : charsAll l = [',', ' '].intercalate (l.map chars) := by
  cases l with
  | nil => rfl
  | cons d l =>
    rw [charsAll, List.map_cons]
    induction l generalizing d with
    | nil => rw [charsRest, List.append_nil, List.map_nil, List.intercalate_singleton]
    | cons d' l ih =>
      rw [charsRest, ih, List.map_cons, List.intercalate_cons_cons, List.append_assoc]
      rfl

theorem toList_toString (n : Nat) : (toString n).toList = Nat.toDigits 10 n := Nat.toList_repr

theorem toList_toString_negSucc (n : Nat) :
    (toString (Int.negSucc n)).toList = '-' :: Nat.toDigits 10 (n + 1) := by
  change ("-" ++ toString (n + 1)).toList = _
  rw [String.toList_append, toList_toString]
  rfl

theorem isDigit_of_mem_toDigits (n : Nat) : ∀ c ∈ Nat.toDigits 10 n, c.isDigit := fun _ hc ↦
  Nat.isDigit_of_mem_toDigits (by decide) (Nat.le_refl 10) hc

theorem isControl_of_isDigit {c : Char} (h : c.isDigit) : Text.isControl c = false := by
  obtain ⟨hlo, hhi⟩ := Bool.and_eq_true_iff.1 h
  have hlo : 48 ≤ c.toNat := of_decide_eq_true hlo
  have hhi : c.toNat ≤ 57 := of_decide_eq_true hhi
  simp only [Text.isControl, Bool.or_eq_false_iff, Bool.and_eq_false_iff, decide_eq_false_iff_not]
  omega

theorem isControl_of_mem_toString {n : Int} {x : Char} (h : x ∈ (toString n).toList) :
    Text.isControl x = false := by
  cases n with
  | ofNat m => exact isControl_of_isDigit (isDigit_of_mem_toDigits m x (toList_toString m ▸ h))
  | negSucc m =>
    rcases List.mem_cons.1 (toList_toString_negSucc m ▸ h) with rfl | h
    · decide
    · exact isControl_of_isDigit (isDigit_of_mem_toDigits (m + 1) x h)

mutual

theorem isControl_of_mem_chars {x : Char} : (d : Datum) → x ∈ d.chars → Text.isControl x = false
  | number _, h => isControl_of_mem_toString h
  | text _, h => Text.isControl_of_mem_quoted h
  | group b l, h => by
    rcases List.mem_cons.1 h with rfl | h
    · cases b <;> decide
    · rcases List.mem_append.1 h with h | h
      · exact isControl_of_mem_charsAll l h
      · obtain rfl := List.mem_singleton.1 h
        cases b <;> decide

theorem isControl_of_mem_charsAll {x : Char} :
    (l : List Datum) → x ∈ charsAll l → Text.isControl x = false
  | d :: l, h => by
    rcases List.mem_append.1 h with h | h
    · exact isControl_of_mem_chars d h
    · exact isControl_of_mem_charsRest l h

theorem isControl_of_mem_charsRest {x : Char} :
    (l : List Datum) → x ∈ charsRest l → Text.isControl x = false
  | d :: l, h => by
    rcases List.mem_cons.1 h with rfl | h
    · decide
    rcases List.mem_cons.1 h with rfl | h
    · decide
    rcases List.mem_append.1 h with h | h
    · exact isControl_of_mem_chars d h
    · exact isControl_of_mem_charsRest l h

end

end Datum

/-- A number or a text of which the beginning has been read, or nothing yet. -/
inductive Token
  | nothing
  | number (negative : Bool) (value : Nat)
  | text (o : Text.Opened)

namespace Token

def digitValue (c : Char) : Nat := c.toNat - '0'.toNat

def next : Token → Char → Option Token
  | nothing, c =>
    if c = '"' then some (text ⟨.plain, []⟩)
    else if c = '-' then some (number true 0)
    else if c.isDigit then some (number false (digitValue c))
    else none
  | number negative v, c =>
    if c.isDigit then some (number negative (10 * v + digitValue c)) else none
  | text o, c => (o.next c).map text

def data : Token → Option (List Datum)
  | nothing => some []
  | number negative v => some [.number (if negative then -v else v)]
  | text ⟨.closed, l⟩ => some [.text (.ofList l.reverse)]
  | text _ => none

end Token

structure Reader where
  token : Token
  done : List Datum
  /-- The groups around it, the innermost one first, each with the data in it before the
  next one. -/
  outer : List (Bracket × List Datum)

namespace Reader

def close (b : Bracket) (done : List Datum) : List (Bracket × List Datum) → Option Reader
  | [] => none
  | (b', before) :: outer =>
    if b = b' then some ⟨.nothing, .group b done.reverse :: before, outer⟩ else none

def punctuate (done : List Datum) (outer : List (Bracket × List Datum)) : Char → Option Reader
  | '(' => some ⟨.nothing, [], (.round, done) :: outer⟩
  | '[' => some ⟨.nothing, [], (.square, done) :: outer⟩
  | ')' => close .round done outer
  | ']' => close .square done outer
  | ',' | ' ' | '\n' => some ⟨.nothing, done, outer⟩
  | _ => none

/-- A token lasts as long as characters can be added to it. -/
def step (r : Reader) (c : Char) : Option Reader :=
  match r.token.next c with
  | some token => some { r with token }
  | none => r.token.data.bind fun l ↦ punctuate (l ++ r.done) r.outer c

end Reader

def Datum.readAll (l : List Char) : Option (List Datum) :=
  match l.foldlM Reader.step ⟨.nothing, [], []⟩ with
  | some ⟨.nothing, done, []⟩ => some done.reverse
  | _ => none

/-- What may follow a datum. A number ends where something comes that is no digit, so what is read
of it depends on what follows. -/
def delimiters : List Char := [',', ')', ']', '\n']

def Delimited : List Char → Prop
  | [] => False
  | c :: _ => c ∈ delimiters

namespace Token

variable {c : Char}

theorem next_nothing (hc : c ∈ delimiters) : nothing.next c = none := by
  simp only [delimiters, List.mem_cons, List.not_mem_nil, or_false] at hc
  rcases hc with rfl | rfl | rfl | rfl <;> rfl

theorem next_number (hc : c ∈ delimiters) (negative : Bool) (v : Nat) :
    (number negative v).next c = none := by
  simp only [delimiters, List.mem_cons, List.not_mem_nil, or_false] at hc
  rcases hc with rfl | rfl | rfl | rfl <;> rfl

theorem foldlM_next_digits {cs : List Char} (h : ∀ c ∈ cs, c.isDigit) (negative : Bool) (v : Nat) :
    cs.foldlM next (number negative v) = some (number negative (Nat.ofDigitChars 10 cs v)) := by
  induction cs generalizing v with
  | nil => rfl
  | cons c cs ih =>
    obtain ⟨hc, hcs⟩ := List.forall_mem_cons.1 h
    rw [List.foldlM_cons, next, if_pos hc, Nat.ofDigitChars_cons]
    exact ih hcs _

theorem next_nothing_of_isDigit (hc : c.isDigit) :
    nothing.next c = some (number false (digitValue c)) := by
  have hquote : c ≠ '"' := by rintro rfl; exact absurd hc (by decide)
  have hminus : c ≠ '-' := by rintro rfl; exact absurd hc (by decide)
  rw [next, if_neg hquote, if_neg hminus, if_pos hc]

theorem foldlM_next_toDigits (n : Nat) :
    (Nat.toDigits 10 n).foldlM next nothing = some (number false n) := by
  have hdigits := Datum.isDigit_of_mem_toDigits n
  have hvalue : Nat.ofDigitChars 10 (Nat.toDigits 10 n) 0 = n := Nat.ofDigitChars_ten_toDigits
  obtain ⟨c, cs, heq⟩ := List.exists_cons_of_ne_nil (Nat.toDigits_ne_nil (n := n) (b := 10))
  rw [heq] at hdigits hvalue ⊢
  obtain ⟨hc, hcs⟩ := List.forall_mem_cons.1 hdigits
  rw [Nat.ofDigitChars_cons, Nat.mul_zero, Nat.zero_add] at hvalue
  rw [List.foldlM_cons, next_nothing_of_isDigit hc]
  exact (foldlM_next_digits hcs false _).trans (by rw [digitValue, hvalue])

theorem exists_number (n : Int) : ∃ negative v,
    (toString n).toList.foldlM next nothing = some (number negative v) ∧
      (number negative v).data = some [.number n] := by
  cases n with
  | ofNat m =>
    refine ⟨false, m, ?_, rfl⟩
    rw [← foldlM_next_toDigits m]
    exact congrArg (List.foldlM next nothing) (Datum.toList_toString m)
  | negSucc m =>
    refine ⟨true, m + 1, ?_, rfl⟩
    rw [Datum.toList_toString_negSucc, List.foldlM_cons]
    exact (foldlM_next_digits (Datum.isDigit_of_mem_toDigits (m + 1)) true 0).trans
      (by rw [Nat.ofDigitChars_ten_toDigits])

theorem foldlM_next_text {cs : List Char} {o o' : Text.Opened}
    (h : cs.foldlM Text.Opened.next o = some o') : cs.foldlM next (text o) = some (text o') := by
  induction cs generalizing o with
  | nil => rw [Option.some.inj h]; rfl
  | cons c cs ih =>
    obtain ⟨o₁, hc, h⟩ := Option.bind_eq_some_iff.1 h
    rw [List.foldlM_cons, next, hc]
    exact ih h

theorem foldlM_next_quoted (s : String) :
    (Text.quoted s).toList.foldlM next nothing = some (text ⟨.closed, s.toList.reverse⟩) := by
  rw [Text.quoted, String.toList_ofList]
  exact foldlM_next_text (Text.Opened.foldlM_next_quoted s.toList)

end Token

namespace Reader

variable {token token' : Token} {d : Datum} {cs rest : List Char} {done : List Datum}
  {outer : List (Bracket × List Datum)}

theorem foldlM_step_token (h : cs.foldlM Token.next token = some token') :
    (cs ++ rest).foldlM step ⟨token, done, outer⟩ = rest.foldlM step ⟨token', done, outer⟩ := by
  induction cs generalizing token with
  | nil => rw [Option.some.inj h]; rfl
  | cons c cs ih =>
    obtain ⟨token₁, hc, h⟩ := Option.bind_eq_some_iff.1 h
    have hstep : step ⟨token, done, outer⟩ c = some ⟨token₁, done, outer⟩ := by rw [step, hc]
    rw [List.cons_append, List.foldlM_cons, hstep]
    exact ih h

/-- A token that is complete is put with the data when something else comes. -/
theorem foldlM_step_datum (h : cs.foldlM Token.next .nothing = some token)
    (hdata : token.data = some [d]) (hnext : ∀ c ∈ delimiters, token.next c = none)
    (hrest : Delimited rest) :
    (cs ++ rest).foldlM step ⟨.nothing, done, outer⟩ =
      rest.foldlM step ⟨.nothing, d :: done, outer⟩ := by
  rw [foldlM_step_token h]
  cases rest with
  | nil => exact hrest.elim
  | cons c rest =>
    have hstep : step ⟨token, done, outer⟩ c = step ⟨.nothing, d :: done, outer⟩ c := by
      rw [step, step, hnext c hrest, Token.next_nothing hrest, hdata]
      rfl
    rw [List.foldlM_cons, List.foldlM_cons, hstep]

end Reader

namespace Datum

theorem delimited_closing (b : Bracket) (l : List Char) : Delimited (b.closing :: l) := by
  cases b <;> simp [Delimited, delimiters, Bracket.closing]

theorem delimited_charsRest (l : List Datum) {rest : List Char} (hrest : Delimited rest) :
    Delimited (charsRest l ++ rest) := by
  cases l with
  | nil => exact hrest
  | cons d l => exact List.mem_cons_self

mutual

/-- A reader that comes to a datum and passes it has the datum, and has everything else
as it was. -/
theorem foldlM_step_chars :
    (d : Datum) → {rest : List Char} → Delimited rest → (done : List Datum) →
    (outer : List (Bracket × List Datum)) →
    (d.chars ++ rest).foldlM Reader.step ⟨.nothing, done, outer⟩ =
      rest.foldlM Reader.step ⟨.nothing, d :: done, outer⟩
  | number n, rest, hrest, done, outer => by
    obtain ⟨negative, v, htoken, hdata⟩ := Token.exists_number n
    exact Reader.foldlM_step_datum htoken hdata (fun c hc ↦ Token.next_number hc negative v) hrest
  | text s, rest, hrest, done, outer => by
    refine Reader.foldlM_step_datum (Token.foldlM_next_quoted s) ?_ (fun c _ ↦ rfl) hrest
    rw [Token.data, List.reverse_reverse, String.ofList_toList]
  | group b l, rest, hrest, done, outer => by
    have hopening : Reader.step ⟨.nothing, done, outer⟩ b.opening =
        some ⟨.nothing, [], (b, done) :: outer⟩ := by
      cases b <;> rfl
    have hclosing : Reader.step ⟨.nothing, l.reverse, (b, done) :: outer⟩ b.closing =
        some ⟨.nothing, group b l.reverse.reverse :: done, outer⟩ := by
      cases b <;> rfl
    rw [chars, List.cons_append, List.foldlM_cons, hopening, List.append_assoc,
      List.singleton_append]
    refine (foldlM_step_charsAll l (delimited_closing b rest) [] _).trans ?_
    rw [List.append_nil, List.foldlM_cons, hclosing, List.reverse_reverse]
    rfl

theorem foldlM_step_charsAll :
    (l : List Datum) → {rest : List Char} → Delimited rest → (done : List Datum) →
    (outer : List (Bracket × List Datum)) →
    (charsAll l ++ rest).foldlM Reader.step ⟨.nothing, done, outer⟩ =
      rest.foldlM Reader.step ⟨.nothing, l.reverse ++ done, outer⟩
  | [], _, _, done, outer => rfl
  | d :: l, rest, hrest, done, outer => by
    rw [charsAll, List.append_assoc, foldlM_step_chars d (delimited_charsRest l hrest),
      foldlM_step_charsRest l hrest, List.reverse_cons, List.append_assoc, List.singleton_append]

theorem foldlM_step_charsRest :
    (l : List Datum) → {rest : List Char} → Delimited rest → (done : List Datum) →
    (outer : List (Bracket × List Datum)) →
    (charsRest l ++ rest).foldlM Reader.step ⟨.nothing, done, outer⟩ =
      rest.foldlM Reader.step ⟨.nothing, l.reverse ++ done, outer⟩
  | [], _, _, done, outer => rfl
  | d :: l, rest, hrest, done, outer => by
    have hcomma : ∀ cs, (',' :: ' ' :: cs).foldlM Reader.step ⟨.nothing, done, outer⟩ =
        cs.foldlM Reader.step ⟨.nothing, done, outer⟩ := fun cs ↦ rfl
    rw [charsRest, List.cons_append, List.cons_append, hcomma, List.append_assoc,
      foldlM_step_chars d (delimited_charsRest l hrest), foldlM_step_charsRest l hrest,
      List.reverse_cons, List.append_assoc, List.singleton_append]

end

theorem readAll_lines (l : List Datum) :
    readAll (l.flatMap fun d ↦ d.chars ++ ['\n']) = some l := by
  have hlines : ∀ done, (l.flatMap fun d ↦ d.chars ++ ['\n']).foldlM Reader.step
      ⟨.nothing, done, []⟩ = some ⟨.nothing, l.reverse ++ done, []⟩ := by
    induction l with
    | nil => exact fun _ ↦ rfl
    | cons d l ih =>
      intro done
      have hnewline : ∀ cs, Delimited (['\n'] ++ cs) := fun cs ↦ by simp [Delimited, delimiters]
      rw [List.flatMap_cons, List.append_assoc, foldlM_step_chars d (hnewline _), List.reverse_cons,
        List.append_assoc, List.singleton_append]
      exact ih (d :: done)
  rw [readAll, hlines, List.append_nil]
  exact congrArg some (List.reverse_reverse l)

end Datum

end RightPart
