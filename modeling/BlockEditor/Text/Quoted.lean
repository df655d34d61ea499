import BlockEditor.Text.Bytes

/-!
# Quoted text

The two halves of a string literal's body: decoding its backslash escapes, and writing a text so
that decoding gives it back.
-/

namespace BlockEditor.Text

/-! ## Hexadecimal digits -/

/-- The value of a hexadecimal digit of either case. -/
def hexValue? (c : Char) : Option Nat :=
  if '0' ≤ c ∧ c ≤ '9' then some (c.toNat - '0'.toNat)
  else if 'a' ≤ c ∧ c ≤ 'f' then some (c.toNat - 'a'.toNat + 10)
  else if 'A' ≤ c ∧ c ≤ 'F' then some (c.toNat - 'A'.toNat + 10)
  else none

/-- The number that a run of hexadecimal digits denotes. -/
def hexNumber (digits : List Char) : Nat :=
  digits.foldl (fun n c => 16 * n + (hexValue? c).getD 0) 0

/-- The hexadecimal digit of a value below sixteen, in lower case. -/
def hexDigit (n : Nat) : Char := if n < 10 then Char.ofNat (48 + n) else Char.ofNat (87 + n)

/-- The leading hexadecimal digits of a text, at most `width` of them, and the rest. -/
def hexRun : Nat → List Char → List Char × List Char
  | width + 1, c :: cs =>
    if (hexValue? c).isSome then
      let (digits, rest) := hexRun width cs
      (c :: digits, rest)
    else ([], c :: cs)
  | _, cs => ([], cs)

/-- The run of digits and the rest make up the text. -/
theorem hexRun_append (width : Nat) (cs : List Char) :
    (hexRun width cs).1 ++ (hexRun width cs).2 = cs := by
  induction cs generalizing width with
  | nil => cases width <;> rfl
  | cons c cs ih =>
    cases width with
    | zero => rfl
    | succ width =>
      simp only [hexRun]
      split
      · simp [ih]
      · rfl

/-! ## Decoding -/

/-- The character that a one-letter escape stands for. -/
def letterEscape? : Char → Option Char
  | 'n' => some '\n'
  | 't' => some '\t'
  | 'r' => some '\r'
  | '0' => some '\x00'
  | 'a' => some '\x07'
  | 'b' => some '\x08'
  | 'f' => some '\x0c'
  | 'v' => some '\x0b'
  | '\\' => some '\\'
  | '\'' => some '\''
  | '"' => some '"'
  | _ => none

/-- The number of hexadecimal digits that an escape by code point takes. -/
def codePointWidth? : Char → Option Nat
  | 'x' => some 2
  | 'u' => some 4
  | 'U' => some 8
  | _ => none

/-- The text of an escape by code point whose digits are `digits`.  It denotes one character if
the digits are complete and name one; otherwise it stands for itself. -/
def decodeCodePoint (marker : Char) (width : Nat) (digits : List Char) : List Char :=
  let n := hexNumber digits
  if digits.length = width ∧ n.isValidChar then [Char.ofNat n]
  else '\\' :: marker :: digits

/-- Decodes with at most `fuel` steps, each of which takes at least one character. -/
def decodeWithin : Nat → List Char → List Char
  | 0, _ => []
  | _, [] => []
  | _, ['\\'] => ['\\']
  | fuel + 1, '\\' :: c :: cs =>
    match letterEscape? c with
    | some d => d :: decodeWithin fuel cs
    | none =>
      match codePointWidth? c with
      | some width =>
        let (digits, rest) := hexRun width cs
        decodeCodePoint c width digits ++ decodeWithin fuel rest
      | none => if c = '\n' then decodeWithin fuel cs else '\\' :: c :: decodeWithin fuel cs
  | fuel + 1, c :: cs => c :: decodeWithin fuel cs

/-- Decodes the backslash escapes in the body of a string literal.  A backslash before a line feed
vanishes with it; one that starts no known escape stays. -/
def decodeEscapes (body : List Char) : List Char := decodeWithin body.length body

/-! ## Encoding -/

/-- One character inside a literal delimited by `quote`. -/
def encodeChar (quote c : Char) : List Char :=
  if c = '\\' then ['\\', '\\']
  else if c = quote then ['\\', quote]
  else if c = '\n' then ['\\', 'n']
  else if c = '\r' then ['\\', 'r']
  else if c = '\t' then ['\\', 't']
  else if c.toNat < 32 ∨ c.toNat = 127 then
    ['\\', 'x', hexDigit (c.toNat / 16), hexDigit (c.toNat % 16)]
  else [c]

/-- The literal for `cs` between two marks `quote`. -/
def encodeQuoted (quote : Char) (cs : List Char) : List Char :=
  quote :: cs.flatMap (encodeChar quote) ++ [quote]

/-- The mark around the literal of a text: a double quote exactly if the text holds single quotes
and no double quote. -/
def preferredQuote (cs : List Char) : Char :=
  if cs.contains '\'' && !cs.contains '"' then '"' else '\''

example : String.ofList (decodeEscapes "a\\tb\\x41\\x4\\q\\u00e9".toList) = "a\tbA\\x4\\qé" := by
  decide

example : String.ofList (encodeQuoted '\'' "it's\n\x01".toList) = "'it\\'s\\n\\x01'" := by
  decide

end BlockEditor.Text
