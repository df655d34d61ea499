import BlockEditor.Syntax.Pattern

/-!
# Tokens

The reserved words and the tokens of a logical line, each with the pattern of its text.
-/

namespace BlockEditor

/-! ## Reserved words -/

/-- A word that cannot be an identifier. -/
inductive Word where
  | falseWord | noneWord | trueWord | andWord | assertWord | asyncWord | asWord | awaitWord
  | breakWord | classWord | continueWord | defWord | delWord | elifWord | elseWord | exceptWord
  | finallyWord | forWord | fromWord | globalWord | ifWord | importWord | inWord | isWord
  | lambdaWord | nonlocalWord | notWord | orWord | passWord | raiseWord | returnWord | tryWord
  | whileWord | withWord | yieldWord
  deriving DecidableEq, Repr

namespace Word

/-- The spelling of a reserved word. -/
def spelling : Word → String
  | falseWord => "False"
  | noneWord => "None"
  | trueWord => "True"
  | andWord => "and"
  | assertWord => "assert"
  | asyncWord => "async"
  | asWord => "as"
  | awaitWord => "await"
  | breakWord => "break"
  | classWord => "class"
  | continueWord => "continue"
  | defWord => "def"
  | delWord => "del"
  | elifWord => "elif"
  | elseWord => "else"
  | exceptWord => "except"
  | finallyWord => "finally"
  | forWord => "for"
  | fromWord => "from"
  | globalWord => "global"
  | ifWord => "if"
  | importWord => "import"
  | inWord => "in"
  | isWord => "is"
  | lambdaWord => "lambda"
  | nonlocalWord => "nonlocal"
  | notWord => "not"
  | orWord => "or"
  | passWord => "pass"
  | raiseWord => "raise"
  | returnWord => "return"
  | tryWord => "try"
  | whileWord => "while"
  | withWord => "with"
  | yieldWord => "yield"

/-- All reserved words.  One that begins another stands behind it. -/
def all : List Word :=
  [falseWord, noneWord, trueWord, andWord, assertWord, asyncWord, asWord, awaitWord, breakWord,
    classWord, continueWord, defWord, delWord, elifWord, elseWord, exceptWord, finallyWord,
    forWord, fromWord, globalWord, ifWord, importWord, inWord, isWord, lambdaWord, nonlocalWord,
    notWord, orWord, passWord, raiseWord, returnWord, tryWord, whileWord, withWord, yieldWord]

theorem mem_all (w : Word) : w ∈ all := by cases w <;> decide

end Word

/-! ## Token names -/

/-- The kinds of tokens. -/
inductive Token where
  | word (w : Word)
  | identifier
  | dottedName
  | modulePath
  | augOp
  | trailingComma
  | paramStar
  | opEq | opNe | opLe | opGe | opLt | opGt
  | opAdd | opSub | opFloorDiv | opDiv | opMul | opMod | powOp
  | noneLit | trueLit | falseLit | ellipsis
  | imaginary | float | integer
  | string
  | endOfLine
  deriving DecidableEq, Repr

/-! ## Patterns of words -/

open Pattern

/-- A reserved word, which no identifier character follows. -/
def wordPattern (w : Word) : Pattern := lit w.spelling ++ absent (one .identifierContinue)

/-- Any reserved word. -/
def reservedPattern : Pattern :=
  firstOf (Word.all.map fun w => lit w.spelling) ++ absent (one .identifierContinue)

/-- An identifier. -/
def identifierPattern : Pattern :=
  absent reservedPattern ++ (one .identifierStart <|> lit "_") ++ many (one .identifierContinue)

/-- Identifiers joined by points. -/
def dottedNamePattern : Pattern := identifierPattern ++ many (lit "." ++ identifierPattern)

/-- The place to import from: leading points, a dotted name, or both. -/
def modulePathPattern : Pattern := many (lit ".") ++ dottedNamePattern <|> many1 (lit ".")

/-! ## Patterns of numbers -/

/-- Digits of a class with single underscores between them. -/
def groupedDigits (k : CharClass) : Pattern := many1 (opt (lit "_") ++ one k)

/-- Decimal digits with single underscores between them. -/
def digitPart : Pattern := one .digit ++ many (opt (lit "_") ++ one .digit)

/-- The exponent of a float. -/
def exponentPart : Pattern := one (.oneOf ['e', 'E']) ++ opt (one (.oneOf ['+', '-'])) ++ digitPart

/-- A float: with a point, an exponent or both. -/
def floatPattern : Pattern :=
  digitPart ++ lit "." ++ opt digitPart ++ opt exponentPart
    <|> lit "." ++ digitPart ++ opt exponentPart
    <|> digitPart ++ exponentPart

/-- An imaginary number. -/
def imaginaryPattern : Pattern := (floatPattern <|> digitPart) ++ one (.oneOf ['j', 'J'])

/-- An integer in one of four bases. -/
def integerPattern : Pattern :=
  (lit "0x" <|> lit "0X") ++ groupedDigits .hexDigit
    <|> (lit "0o" <|> lit "0O") ++ groupedDigits .octDigit
    <|> (lit "0b" <|> lit "0B") ++ groupedDigits .binDigit
    <|> digitPart

/-! ## Patterns of strings -/

/-- The letters in front of a string literal, in any mix of cases. -/
def stringLetters : Pattern :=
  let r := one (.oneOf ['r', 'R'])
  let b := one (.oneOf ['b', 'B'])
  let f := one (.oneOf ['f', 'F'])
  let u := one (.oneOf ['u', 'U'])
  r ++ b <|> b ++ r <|> r ++ f <|> f ++ r <|> r <|> b <|> f <|> u

/-- A backslash with the character behind it. -/
def escapePair : Pattern := lit "\\" ++ one .any

/-- A string literal between triple quotes. -/
def longStringPattern (quotes : String) : Pattern :=
  lit quotes ++ many (escapePair <|> absent (lit quotes) ++ one .any) ++ lit quotes

/-- A string literal between single quotes, which a line feed cannot be in without a backslash. -/
def shortStringPattern (quote : String) : Pattern :=
  lit quote ++ many (escapePair <|> absent (lit quote <|> lit "\n") ++ one .any) ++ lit quote

/-- A string literal. -/
def stringPattern : Pattern :=
  opt stringLetters ++
    (longStringPattern "\"\"\"" <|> longStringPattern "'''" <|>
      shortStringPattern "\"" <|> shortStringPattern "'")

/-! ## All tokens -/

/-- The pattern of a token. -/
def Token.pattern : Token → Pattern
  | word w => wordPattern w
  | identifier => identifierPattern
  | dottedName => dottedNamePattern
  | modulePath => modulePathPattern
  | augOp => firstOf (["+=", "-=", "**=", "*=", "//=", "/=", "%="].map lit)
  | trailingComma => lit ","
  | paramStar => lit "**" <|> lit "*"
  | opEq => lit "=="
  | opNe => lit "!="
  | opLe => lit "<="
  | opGe => lit ">="
  | opLt => lit "<"
  | opGt => lit ">"
  | opAdd => lit "+"
  | opSub => lit "-"
  | opFloorDiv => lit "//"
  | opDiv => lit "/"
  | opMul => lit "*"
  | opMod => lit "%"
  | powOp => lit "**"
  | noneLit => wordPattern .noneWord
  | trueLit => wordPattern .trueWord
  | falseLit => wordPattern .falseWord
  | ellipsis => lit "..."
  | imaginary => imaginaryPattern
  | float => floatPattern
  | integer => integerPattern
  | string => stringPattern
  | endOfLine => absent (one .any)

end BlockEditor
