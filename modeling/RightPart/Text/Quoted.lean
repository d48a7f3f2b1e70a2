namespace RightPart.Text

/-- The control characters: codes below 20 and from 7F to 9F, in hexadecimal. -/
def isControl (c : Char) : Bool := c.toNat < 0x20 || 0x7f ≤ c.toNat && c.toNat ≤ 0x9f

def hex (n : Nat) : List Char := Nat.toDigits 16 n

def codeEscape (c : Char) : List Char := ['\\', 'u', '\x7b'] ++ hex c.toNat ++ ['\x7d']

def quoteChar (c : Char) : List Char :=
  match c with
  | '"' => ['\\', '"']
  | '\\' => ['\\', '\\']
  | '\n' => ['\\', 'n']
  | '\t' => ['\\', 't']
  | '\r' => ['\\', 'r']
  | c => if isControl c then codeEscape c else [c]

/-- A text as a double-quoted literal in which quotes, backslashes and controls are escaped. -/
def quoted (s : String) : String := .ofList ('"' :: s.toList.flatMap quoteChar ++ ['"'])

end RightPart.Text
