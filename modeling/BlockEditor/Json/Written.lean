import BlockEditor.Text.Quoted

/-!
# Written data

Data notation as it stands in a text: numbers by their digits, strings by their characters between
the quotes with escapes undone by nobody yet.  Reading is strict: nothing is left out, added or
abbreviated.  A reader returns what it read with the text behind it.
-/

namespace BlockEditor.Json

/-! ## Written trees -/

/-- A number by its digits.  The exponent has a sign and digits. -/
structure Numeral where
  negative : Bool
  whole : List Char
  fraction : List Char
  exponent : Option (Bool × List Char)
  deriving DecidableEq, Repr

/-- A tree of data as it is written. -/
inductive Written where
  | null
  | bool (b : Bool)
  | number (n : Numeral)
  | string (body : List Char)
  | array (items : List Written)
  | object (members : List (List Char × Written))

/-! ## Numbers -/

/-- One or more digits, and what follows them. -/
def readDigits (cs : List Char) : Option (List Char × List Char) :=
  let digits := cs.takeWhile Char.isDigit
  if digits.isEmpty then none else some (digits, cs.dropWhile Char.isDigit)

/-- The digits in front of the point: a zero stands alone. -/
def readWhole : List Char → Option (List Char × List Char)
  | '0' :: cs =>
    match cs.head?.map Char.isDigit with
    | some true => none
    | _ => some (['0'], cs)
  | cs => readDigits cs

/-- The digits behind the point, if there is one. -/
def readFraction : List Char → Option (List Char × List Char)
  | '.' :: cs => readDigits cs
  | cs => some ([], cs)

/-- The sign of an exponent, where plus may be left out. -/
def readExponentSign : List Char → Bool × List Char
  | '-' :: cs => (true, cs)
  | '+' :: cs => (false, cs)
  | cs => (false, cs)

/-- The exponent, if there is one. -/
def readExponent : List Char → Option (Option (Bool × List Char) × List Char)
  | [] => some (none, [])
  | c :: cs =>
    if c = 'e' ∨ c = 'E' then
      let (negative, rest) := readExponentSign cs
      (readDigits rest).map fun (digits, rest) => (some (negative, digits), rest)
    else some (none, c :: cs)

/-- An unsigned number. -/
def readMagnitude (negative : Bool) (cs : List Char) : Option (Numeral × List Char) := do
  let (whole, cs) ← readWhole cs
  let (fraction, cs) ← readFraction cs
  let (exponent, cs) ← readExponent cs
  return (⟨negative, whole, fraction, exponent⟩, cs)

/-- A number. -/
def readNumeral : List Char → Option (Numeral × List Char)
  | '-' :: cs => readMagnitude true cs
  | cs => readMagnitude false cs

example : (readNumeral "-10.5e+3,".toList).map Prod.snd = some [','] ∧
    (readNumeral "05".toList).isNone ∧ (readNumeral ".5".toList).isNone ∧
    (readNumeral "5.".toList).isNone ∧ (readNumeral "5e".toList).isNone := by
  decide

/-! ## Strings -/

/-- The letters behind a backslash, the escape by code point apart. -/
def escapeLetters : List Char := ['"', '\\', '/', 'b', 'f', 'n', 'r', 't']

/-- The body of a string up to the quote that ends it, and what follows that.  Control characters
must be escaped. -/
def readBody : List Char → Option (List Char × List Char)
  | [] => none
  | '"' :: cs => some ([], cs)
  | '\\' :: 'u' :: a :: b :: c :: d :: cs =>
    if [a, b, c, d].all fun digit => (Text.hexValue? digit).isSome then
      (readBody cs).map fun (body, rest) => ('\\' :: 'u' :: a :: b :: c :: d :: body, rest)
    else none
  | '\\' :: c :: cs =>
    if escapeLetters.contains c then (readBody cs).map fun (body, rest) => ('\\' :: c :: body, rest)
    else none
  | c :: cs =>
    if c.toNat < 32 ∨ c = '\\' then none
    else (readBody cs).map fun (body, rest) => (c :: body, rest)

/-! ## Trees -/

/-- Drops the blanks between parts. -/
def skipBlanks (cs : List Char) : List Char :=
  cs.dropWhile fun c => c = ' ' || c = '\n' || c = '\t' || c = '\r'

/-- One of the words of the notation. -/
def readWord (word : String) (value : Written) (cs : List Char) : Option (Written × List Char) :=
  (Text.dropLead word.toList cs).map fun rest => (value, rest)

mutual

/-- A tree.  Every call takes one from `fuel`. -/
def readTree : Nat → List Char → Option (Written × List Char)
  | 0, _ => none
  | fuel + 1, cs =>
    match skipBlanks cs with
    | '"' :: cs => (readBody cs).map fun (body, rest) => (.string body, rest)
    | '[' :: cs =>
      match skipBlanks cs with
      | ']' :: cs => some (.array [], cs)
      | cs => (readItems fuel cs).map fun (items, rest) => (.array items, rest)
    | '\x7b' :: cs =>
      match skipBlanks cs with
      | '\x7d' :: cs => some (.object [], cs)
      | cs => (readMembers fuel cs).map fun (members, rest) => (.object members, rest)
    | 'n' :: cs => readWord "ull" .null cs
    | 't' :: cs => readWord "rue" (.bool true) cs
    | 'f' :: cs => readWord "alse" (.bool false) cs
    | cs => (readNumeral cs).map fun (n, rest) => (.number n, rest)

/-- The items of an array up to its bracket. -/
def readItems : Nat → List Char → Option (List Written × List Char)
  | 0, _ => none
  | fuel + 1, cs => do
    let (item, cs) ← readTree fuel cs
    match skipBlanks cs with
    | ',' :: cs => (readItems fuel cs).map fun (items, rest) => (item :: items, rest)
    | ']' :: cs => some ([item], cs)
    | _ => none

/-- The members of an object up to its brace. -/
def readMembers : Nat → List Char → Option (List (List Char × Written) × List Char)
  | 0, _ => none
  | fuel + 1, cs =>
    match skipBlanks cs with
    | '"' :: cs => do
      let (key, cs) ← readBody cs
      match skipBlanks cs with
      | ':' :: cs => do
        let (value, cs) ← readTree fuel cs
        match skipBlanks cs with
        | ',' :: cs =>
          (readMembers fuel cs).map fun (members, rest) => ((key, value) :: members, rest)
        | '\x7d' :: cs => some ([(key, value)], cs)
        | _ => none
      | _ => none
    | _ => none

end

/-- The tree that makes up a whole text.  Two calls are made for each character at most. -/
def readWritten? (cs : List Char) : Option Written := do
  let (tree, rest) ← readTree (2 * cs.length + 2) cs
  if (skipBlanks rest).isEmpty then some tree else none

example : (readWritten? " [1, true] ".toList).isSome ∧ (readWritten? "[1,]".toList).isNone ∧
    (readWritten? "1 2".toList).isNone ∧ (readWritten? "[".toList).isNone := by
  decide +kernel

end BlockEditor.Json
