import BlockEditor.Diagnostic
import BlockEditor.Number.Reading
import BlockEditor.Syntax.Tree
import BlockEditor.Text.Quoted

/-!
# Literals

The values of number and string tokens.
-/

namespace BlockEditor

/-! ## Numbers -/

/-- A failure to read a number. -/
def invalidNumber (kind : String) (span : Span) (lexeme : List Char) : Fault :=
  ⟨.invalidLiteral kind (String.ofList lexeme), span⟩

/-- The digits of a number without the underscores between them. -/
def ungrouped (lexeme : List Char) : List Char := lexeme.filter (· ≠ '_')

/-- The base that the first two characters of an integer announce, and its digits. -/
def integerBase : List Char → Nat × List Char
  | '0' :: c :: digits =>
    if c = 'x' ∨ c = 'X' then (16, digits)
    else if c = 'o' ∨ c = 'O' then (8, digits)
    else if c = 'b' ∨ c = 'B' then (2, digits)
    else (10, '0' :: c :: digits)
  | digits => (10, digits)

/-- The value of an integer token.  A decimal one that does not fit into a word is a float; one in
another base must fit. -/
def integerConstant (span : Span) (lexeme : List Char) : Except Fault Constant :=
  let (base, digits) := integerBase (ungrouped lexeme)
  match Number.readDigits? base digits with
  | none => .error (invalidNumber "integer" span lexeme)
  | some n =>
    match Number.toInt64? n with
    | some w => .ok (.int w)
    | none =>
      if base = 10 then .ok (.float (Number.Decimal.toFloat ⟨n, 0⟩))
      else .error (invalidNumber "integer" span lexeme)

/-- The value of a float token. -/
def floatConstant (span : Span) (lexeme : List Char) : Except Fault Constant :=
  match Number.readDecimal? (ungrouped lexeme) with
  | some d => .ok (.float d.toFloat)
  | none => .error (invalidNumber "float" span lexeme)

/-- The value of an imaginary token, which ends in its unit. -/
def imaginaryConstant (span : Span) (lexeme : List Char) : Except Fault Constant :=
  match Number.readDecimal? (ungrouped lexeme.dropLast) with
  | some d => .ok (.imaginary d.toFloat)
  | none => .error (invalidNumber "imaginary" span lexeme)

/-! ## Strings -/

/-- The text of string tokens that stand side by side, and which letters stood in front of any of
them. -/
structure StringText where
  text : List Char
  bytes : Bool
  formatted : Bool

/-- Splits a string token into its letters, in lower case, and the text between its quotes. -/
def splitString (lexeme : List Char) : List Char × List Char :=
  let isQuote (c : Char) := c = '"' || c = '\''
  let letters := (lexeme.takeWhile fun c => !isQuote c).map Char.toLower
  let quoted := lexeme.dropWhile fun c => !isQuote c
  let width := match quoted with
    | c :: d :: e :: _ :: _ => if c = d ∧ d = e then 3 else 1
    | _ => 1
  (letters, (quoted.drop width).take (quoted.length - 2 * width))

/-- The text of one string token. -/
def stringText (lexeme : List Char) : StringText :=
  let (letters, body) := splitString lexeme
  ⟨if letters.contains 'r' then body else Text.decodeEscapes body, letters.contains 'b',
    letters.contains 'f'⟩

/-- The text of two neighbouring strings. -/
def StringText.append (a b : StringText) : StringText :=
  ⟨a.text ++ b.text, a.bytes || b.bytes, a.formatted || b.formatted⟩

/-- The expression for string tokens that stand side by side.  A single formatted one makes the
whole a template, and otherwise a single one of bytes makes it bytes. -/
def stringExpr (span : Span) (lexemes : List (List Char)) : Expr :=
  let all := (lexemes.map stringText).foldl StringText.append ⟨[], false, false⟩
  let text := String.ofList all.text
  if all.formatted then .formatted span text
  else if all.bytes then .constant span (.bytes text.toUTF8.toList)
  else .constant span (.str text)

end BlockEditor
