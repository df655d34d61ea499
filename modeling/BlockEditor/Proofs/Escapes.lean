import BlockEditor.Number.Reading
import BlockEditor.Proofs.Dissection
import BlockEditor.Text.Quoted

/-!
# Escapes

What the body of a string literal denotes is said here escape by escape, apart from how it is
decoded.  Decoding gives it exactly if no octal escape stands for anything but the null character
with a single digit: a zero behind a backslash is taken for the whole of an escape, and any other
octal digit for none.
-/

namespace BlockEditor.Text

open Lexeme Number

/-! ## What escapes denote -/

/-- The forms of an escape, by the character behind the backslash. -/
inductive EscapeForm where
  /-- the character stands for another one -/
  | letter (denoted : Char)
  /-- one to three octal digits, of which the character is the first -/
  | octal
  /-- so many hexadecimal digits behind the character -/
  | codePoint (width : Nat)
  /-- the escape vanishes -/
  | lineFeed
  /-- the name of a character in braces -/
  | name
  /-- no escape: the pair stands for itself -/
  | other
  deriving DecidableEq

/-- Whether a character is an octal digit. -/
def isOctalDigit (c : Char) : Bool := '0' ≤ c && c ≤ '7'

/-- The form of the escape that a backslash and a character begin. -/
def escapeForm : Char → EscapeForm
  | '\\' => .letter '\\'
  | '\'' => .letter '\''
  | '"' => .letter '"'
  | 'a' => .letter '\x07'
  | 'b' => .letter '\x08'
  | 'f' => .letter '\x0c'
  | 'n' => .letter '\n'
  | 'r' => .letter '\r'
  | 't' => .letter '\t'
  | 'v' => .letter '\x0b'
  | 'x' => .codePoint 2
  | 'u' => .codePoint 4
  | 'U' => .codePoint 8
  | '\n' => .lineFeed
  | 'N' => .name
  | c => if isOctalDigit c then .octal else .other

/-- The body of a string literal denotes a text.  An octal escape takes as many digits as there are,
up to three; one by code point takes exactly its number of digits.  Nothing is said of escapes by
name, nor of those that name no character. -/
inductive Denotes : List Char → List Char → Prop
  | nil : Denotes [] []
  | plain {c : Char} {cs text : List Char} : c ≠ '\\' → Denotes cs text →
      Denotes (c :: cs) (c :: text)
  | letter {c d : Char} {cs text : List Char} : escapeForm c = .letter d → Denotes cs text →
      Denotes ('\\' :: c :: cs) (d :: text)
  | octal {c : Char} {digits cs text : List Char} {n : Nat} : escapeForm c = .octal →
      readDigits? 8 (c :: digits) = some n → digits.length ≤ 2 →
      (digits.length = 2 ∨ ∀ d ∈ cs.head?, isOctalDigit d = false) → Denotes cs text →
      Denotes ('\\' :: c :: (digits ++ cs)) (Char.ofNat n :: text)
  | codePoint {c : Char} {digits cs text : List Char} {n : Nat} :
      escapeForm c = .codePoint digits.length → readDigits? 16 digits = some n → n.isValidChar →
      Denotes cs text → Denotes ('\\' :: c :: (digits ++ cs)) (Char.ofNat n :: text)
  | lineFeed {c : Char} {cs text : List Char} : escapeForm c = .lineFeed → Denotes cs text →
      Denotes ('\\' :: c :: cs) text
  | other {c : Char} {cs text : List Char} : escapeForm c = .other → Denotes cs text →
      Denotes ('\\' :: c :: cs) ('\\' :: c :: text)

/-- Whether a character and the text behind it make an escape that is no error: a code point needs
all its digits and has to be that of a character.  Names are left out. -/
def isEscape (c : Char) (cs : List Char) : Bool :=
  match escapeForm c with
  | .codePoint width => (cs.take width).length = width &&
      (readDigits? 16 (cs.take width)).any fun n => decide n.isValidChar
  | .name => false
  | _ => true

/-- Whether no escape in a body is an error. -/
def isAccepted : List Char → Bool
  | '\\' :: c :: cs => isEscape c cs && isAccepted cs
  | _ :: cs => isAccepted cs
  | [] => true

/-- Whether every octal escape in a body is a single zero. -/
def onlyNulls : List Char → Bool
  | '\\' :: c :: cs =>
    (!isOctalDigit c || c = '0' && cs.head?.all fun d => !isOctalDigit d) && onlyNulls cs
  | _ :: cs => onlyNulls cs
  | [] => true

variable {c d : Char} {cs : List Char}

/-! ## Digits -/

/-- Characters are ordered by their code points. -/
theorem char_le_iff (c d : Char) : c ≤ d ↔ c.toNat ≤ d.toNat := by
  rw [Char.le_def, UInt32.le_iff_toNat_le]
  rfl

/-- A hexadecimal digit is worth less than sixteen. -/
theorem hexValue?_lt {n : Nat} (h : hexValue? c = some n) : n < 16 := by
  have nine : '9'.toNat = 57 := rfl
  have f : 'f'.toNat = 102 := rfl
  have F : 'F'.toNat = 70 := rfl
  simp only [hexValue?, char_le_iff] at h
  grind

/-- The digits to base sixteen are the hexadecimal ones. -/
theorem digitValue?_sixteen (c : Char) : digitValue? 16 c = hexValue? c := by
  change (hexValue? c).filter (· < 16) = hexValue? c
  cases value : hexValue? c with
  | none => rfl
  | some n => simpa using hexValue?_lt value

/-- The octal digits are the digits to base eight. -/
theorem isOctalDigit_eq (c : Char) : isOctalDigit c = (digitValue? 8 c).isSome := by
  have zero : '0'.toNat = 48 := rfl
  have seven : '7'.toNat = 55 := rfl
  have nine : '9'.toNat = 57 := rfl
  rw [Bool.eq_iff_iff]
  simp only [isOctalDigit, digitValue?, Option.isSome_filter, char_le_iff, Bool.and_eq_true,
    decide_eq_true_eq]
  grind

/-- A text denotes a number exactly if it is not empty and all of it are digits. -/
theorem readDigitsFrom?_isSome (base : Nat) (digits : List Char) (n : Nat) :
    (readDigitsFrom? base n digits).isSome = digits.all fun c => (digitValue? base c).isSome := by
  induction digits generalizing n with
  | nil => rfl
  | cons c digits ih =>
    rw [readDigitsFrom?, List.all_cons]
    cases digitValue? base c with
    | none => rfl
    | some d => simpa using ih _

/-- A number is read exactly if there are digits and nothing else. -/
theorem readDigits?_isSome_iff {base : Nat} {digits : List Char} :
    (readDigits? base digits).isSome = true ↔
      digits ≠ [] ∧ ∀ c ∈ digits, (digitValue? base c).isSome = true := by
  unfold readDigits?
  split
  · simp_all
  · simp_all [readDigitsFrom?_isSome]

/-- The hexadecimal number of some digits is what they are read as. -/
theorem hexNumber_eq {digits : List Char} {n : Nat} (h : readDigits? 16 digits = some n) :
    hexNumber digits = n := by
  have run : ∀ (digits : List Char) (m : Nat), readDigitsFrom? 16 m digits = some n →
      digits.foldl (fun n c => 16 * n + (hexValue? c).getD 0) m = n := by
    intro digits
    induction digits with
    | nil => intro m value; exact Option.some.inj value
    | cons c digits ih =>
      intro m value
      rw [readDigitsFrom?, Option.bind_eq_some_iff] at value
      obtain ⟨d, digit, value⟩ := value
      rw [digitValue?_sixteen] at digit
      rw [List.foldl_cons, digit]
      exact ih _ value
  unfold readDigits? at h
  split at h
  · cases h
  · exact run digits 0 h

/-- A run of hexadecimal digits is taken as long as it was asked for. -/
theorem hexRun_digits {digits : List Char} (hex : ∀ c ∈ digits, (hexValue? c).isSome = true) :
    hexRun digits.length (digits ++ cs) = (digits, cs) := by
  induction digits with
  | nil => cases cs <;> rfl
  | cons c digits ih =>
    rw [List.length_cons, List.cons_append, hexRun, if_pos (hex c (by simp)),
      ih fun c member => hex c (by simp [member])]

/-- Digits hold no backslash. -/
theorem backslash_notMem_of_readDigits? {base : Nat} {digits : List Char} {n : Nat}
    (h : readDigits? base digits = some n) : '\\' ∉ digits := by
  intro member
  have digit := (readDigits?_isSome_iff.mp (Option.isSome_of_mem h)).2 _ member
  simp [digitValue?] at digit

/-! ## The characters behind a backslash -/

/-- What the form of an escape says of the decoder: a zero is a letter for it, and any other octal
digit begins no escape. -/
theorem escapeForm_spec (c : Char) :
    match escapeForm c with
    | .letter d => isOctalDigit c = false ∧ letterEscape? c = some d
    | .octal => isOctalDigit c = true ∧ (c ≠ '0' →
        letterEscape? c = none ∧ codePointWidth? c = none ∧ c ≠ '\n')
    | .codePoint width => isOctalDigit c = false ∧ letterEscape? c = none ∧
        codePointWidth? c = some width
    | .lineFeed => isOctalDigit c = false ∧ c = '\n'
    | .name => isOctalDigit c = false ∧ c = 'N'
    | .other => isOctalDigit c = false ∧ letterEscape? c = none ∧ codePointWidth? c = none ∧
        c ≠ '\n' := by
  fun_cases escapeForm c
  case case16 digit =>
    refine ⟨digit, fun nonzero => ⟨?_, ?_, by assumption⟩⟩
    · unfold letterEscape?
      split <;> first | rfl | contradiction
    · unfold codePointWidth?
      split <;> first | rfl | contradiction
  case case17 noDigit =>
    have nonzero : c ≠ '0' := by
      rintro rfl
      exact noDigit (by decide)
    refine ⟨by simpa using noDigit, ?_, ?_, by assumption⟩
    · unfold letterEscape?
      split <;> first | rfl | contradiction
    · unfold codePointWidth?
      split <;> first | rfl | contradiction
  all_goals decide

/-- Exactly the octal digits begin an octal escape. -/
theorem escapeForm_eq_octal_iff {c : Char} : escapeForm c = .octal ↔ isOctalDigit c = true := by
  have spec := escapeForm_spec c
  cases form : escapeForm c <;> rw [form] at spec <;> simp [spec.1]

/-- No other escape begins with an octal digit. -/
theorem isOctalDigit_of_ne {c : Char} (h : escapeForm c ≠ .octal) : isOctalDigit c = false := by
  simpa [escapeForm_eq_octal_iff] using h

/-- The letter of an escape is decoded to the character that it stands for. -/
theorem letterEscape?_of_letter {c d : Char} (h : escapeForm c = .letter d) :
    letterEscape? c = some d := by
  have spec := escapeForm_spec c
  rw [h] at spec
  exact spec.2

/-- An octal digit other than zero begins no escape for the decoder. -/
theorem escape_of_octal {c : Char} (h : escapeForm c = .octal) (nonzero : c ≠ '0') :
    letterEscape? c = none ∧ codePointWidth? c = none ∧ c ≠ '\n' := by
  have spec := escapeForm_spec c
  rw [h] at spec
  exact spec.2 nonzero

/-- An escape by code point is no letter for the decoder, and has the same width. -/
theorem escape_of_codePoint {c : Char} {width : Nat} (h : escapeForm c = .codePoint width) :
    letterEscape? c = none ∧ codePointWidth? c = some width := by
  have spec := escapeForm_spec c
  rw [h] at spec
  exact spec.2

/-- Only a line feed joins lines. -/
theorem eq_lineFeed {c : Char} (h : escapeForm c = .lineFeed) : c = '\n' := by
  have spec := escapeForm_spec c
  rw [h] at spec
  exact spec.2

/-- What begins no escape begins none for the decoder. -/
theorem escape_of_other {c : Char} (h : escapeForm c = .other) :
    letterEscape? c = none ∧ codePointWidth? c = none ∧ c ≠ '\n' := by
  have spec := escapeForm_spec c
  rw [h] at spec
  exact spec.2

/-! ## One escape is decoded -/

/-- A run of digits leaves no more than there was. -/
theorem length_hexRun_le (width : Nat) (cs : List Char) :
    (hexRun width cs).2.length ≤ cs.length := by
  have whole := congrArg List.length (hexRun_append width cs)
  rw [List.length_append] at whole
  omega

/-- Enough fuel is as good as any more. -/
theorem decodeWithin_eq (cs : List Char) (m n : Nat) (hm : cs.length ≤ m) (hn : cs.length ≤ n) :
    decodeWithin m cs = decodeWithin n cs := by
  fun_induction decodeWithin m cs generalizing n with
  | case1 cs =>
    obtain rfl : cs = [] := by simpa using hm
    cases n <;> rfl
  | case2 => cases n <;> rfl
  | case3 =>
    cases n with
    | zero => simp at hn
    | succ n => rfl
  | case4 fuel c cs d letter ih =>
    cases n with
    | zero => simp at hn
    | succ n =>
      simp only [List.length_cons] at hm hn
      rw [decodeWithin, letter, ih n (by omega) (by omega)]
  | case5 fuel c cs noLetter width codePoint digits rest run ih =>
    cases n with
    | zero => simp at hn
    | succ n =>
      have shorter := length_hexRun_le width cs
      simp only [run, List.length_cons] at hm hn shorter
      rw [decodeWithin, noLetter, codePoint]
      simp only [run]
      rw [ih n (by omega) (by omega)]
  | case6 fuel cs noLetter noCodePoint ih =>
    cases n with
    | zero => simp at hn
    | succ n =>
      simp only [List.length_cons] at hm hn
      rw [decodeWithin, noLetter, noCodePoint, ih n (by omega) (by omega)]
      rfl
  | case7 fuel c cs noLetter noCodePoint noLineFeed ih =>
    cases n with
    | zero => simp at hn
    | succ n =>
      simp only [List.length_cons] at hm hn
      rw [decodeWithin, noLetter, noCodePoint, ih n (by omega) (by omega)]
      simp [noLineFeed]
  | case8 fuel c cs noPair noLast ih =>
    cases n with
    | zero => simp at hn
    | succ n =>
      simp only [List.length_cons] at hm hn
      rw [decodeWithin, ih n (by omega) (by omega)]
      · assumption
      · assumption

/-- A character that is no backslash is decoded to itself. -/
theorem decodeEscapes_plain (plain : c ≠ '\\') :
    decodeEscapes (c :: cs) = c :: decodeEscapes cs := by
  rw [decodeEscapes, List.length_cons, decodeWithin]
  · rfl
  · simp [plain]
  · simp [plain]

theorem decodeEscapes_append {front : List Char} (plain : '\\' ∉ front) :
    decodeEscapes (front ++ cs) = front ++ decodeEscapes cs := by
  induction front with
  | nil => rfl
  | cons c front ih =>
    simp only [List.mem_cons, not_or] at plain
    rw [List.cons_append, decodeEscapes_plain (Ne.symm plain.1), ih plain.2, List.cons_append]

/-- A backslash and the character behind it are decoded together, with the digits behind them if
they begin an escape by code point. -/
theorem decodeEscapes_pair (c : Char) (cs : List Char) :
    decodeEscapes ('\\' :: c :: cs) =
      match letterEscape? c with
      | some d => d :: decodeEscapes cs
      | none =>
        match codePointWidth? c with
        | some width => decodeCodePoint c width (hexRun width cs).1 ++
            decodeEscapes (hexRun width cs).2
        | none => if c = '\n' then decodeEscapes cs else '\\' :: c :: decodeEscapes cs := by
  have fuel : ∀ rest : List Char, rest.length ≤ cs.length →
      decodeWithin (cs.length + 1) rest = decodeEscapes rest :=
    fun rest short => decodeWithin_eq _ _ _ (by omega) (Nat.le_refl _)
  have whole := fuel cs (Nat.le_refl _)
  rw [decodeEscapes, List.length_cons, List.length_cons, decodeWithin]
  cases letterEscape? c with
  | some d => exact congrArg (d :: ·) whole
  | none =>
    cases codePointWidth? c with
    | some width => exact congrArg (_ ++ ·) (fuel _ (length_hexRun_le width cs))
    | none => simp only [whole]

/-- An escape by a letter is decoded to its character. -/
theorem decodeEscapes_letter (letter : letterEscape? c = some d) :
    decodeEscapes ('\\' :: c :: cs) = d :: decodeEscapes cs := by
  rw [decodeEscapes_pair, letter]

/-- An escape by code point is decoded with the digits behind it. -/
theorem decodeEscapes_codePoint {width : Nat} (noLetter : letterEscape? c = none)
    (codePoint : codePointWidth? c = some width) :
    decodeEscapes ('\\' :: c :: cs) = decodeCodePoint c width (hexRun width cs).1 ++
      decodeEscapes (hexRun width cs).2 := by
  rw [decodeEscapes_pair, noLetter, codePoint]

/-- A backslash in front of a line feed joins the lines. -/
theorem decodeEscapes_lineFeed : decodeEscapes ('\\' :: '\n' :: cs) = decodeEscapes cs :=
  decodeEscapes_pair '\n' cs

/-- A backslash that begins no escape stays with the character behind it. -/
theorem decodeEscapes_other (noLetter : letterEscape? c = none)
    (noCodePoint : codePointWidth? c = none) (noLineFeed : c ≠ '\n') :
    decodeEscapes ('\\' :: c :: cs) = '\\' :: c :: decodeEscapes cs := by
  rw [decodeEscapes_pair, noLetter, noCodePoint]
  exact if_neg noLineFeed

/-! ## What a body denotes -/

@[simp] theorem onlyNulls_plain (plain : c ≠ '\\') : onlyNulls (c :: cs) = onlyNulls cs := by
  rw [onlyNulls]
  simp [plain]

@[simp] theorem isAccepted_plain (plain : c ≠ '\\') : isAccepted (c :: cs) = isAccepted cs := by
  rw [isAccepted]
  simp [plain]

theorem onlyNulls_pair (c : Char) (cs : List Char) : onlyNulls ('\\' :: c :: cs) =
    ((!isOctalDigit c || c = '0' && cs.head?.all fun d => !isOctalDigit d) && onlyNulls cs) := rfl

theorem isAccepted_pair (c : Char) (cs : List Char) :
    isAccepted ('\\' :: c :: cs) = (isEscape c cs && isAccepted cs) := rfl

/-- A text without backslashes holds no octal escape. -/
theorem onlyNulls_append {front : List Char} (plain : '\\' ∉ front) :
    onlyNulls (front ++ cs) = onlyNulls cs := by
  induction front with
  | nil => rfl
  | cons c front ih =>
    simp only [List.mem_cons, not_or] at plain
    rw [List.cons_append, onlyNulls_plain (Ne.symm plain.1), ih plain.2]

theorem isAccepted_append {front : List Char} (plain : '\\' ∉ front) :
    isAccepted (front ++ cs) = isAccepted cs := by
  induction front with
  | nil => rfl
  | cons c front ih =>
    simp only [List.mem_cons, not_or] at plain
    rw [List.cons_append, isAccepted_plain (Ne.symm plain.1), ih plain.2]

/-- Only octal escapes are looked at. -/
theorem onlyNulls_escape (h : escapeForm c ≠ .octal) :
    onlyNulls ('\\' :: c :: cs) = onlyNulls cs := by
  simp [onlyNulls_pair, isOctalDigit_of_ne h]

/-- The decoder takes a single zero for an octal escape. -/
theorem onlyNulls_zero {digits : List Char} {n : Nat}
    (value : readDigits? 8 ('0' :: digits) = some n)
    (ends : digits.length = 2 ∨ ∀ d ∈ cs.head?, isOctalDigit d = false) :
    onlyNulls ('\\' :: '0' :: (digits ++ cs)) = true ↔ digits = [] ∧ onlyNulls cs = true := by
  have octal := (readDigits?_isSome_iff.mp (Option.isSome_of_mem value)).2
  cases digits with
  | nil =>
    have apart : (cs.head?.all fun d => !isOctalDigit d) = true := by
      simpa [Option.all_eq_true] using ends
    simp [onlyNulls_pair, apart]
  | cons d digits =>
    have digit : isOctalDigit d = true := by rw [isOctalDigit_eq]; exact octal d (by simp)
    have zero : isOctalDigit '0' = true := by decide
    simp [onlyNulls_pair, digit, zero]

/-- Decoding never falls short of what a body denotes, and gives it exactly if there is no octal
escape of more than a zero. -/
theorem Denotes.decodeEscapes {body text : List Char} (h : Denotes body text) :
    text.length ≤ (decodeEscapes body).length ∧
      (decodeEscapes body = text ↔ onlyNulls body = true) := by
  -- The decoder differs at octal escapes only: a null swallows no further digits, and any other
  -- keeps its backslash.  Neither makes the text shorter, so they cannot cancel out.
  induction h with
  | nil => exact ⟨Nat.le_refl _, iff_of_true rfl rfl⟩
  | plain noBackslash _ ih =>
    rw [decodeEscapes_plain noBackslash, onlyNulls_plain noBackslash]
    exact ⟨by simpa using ih.1, by simpa using ih.2⟩
  | letter form _ ih =>
    rw [decodeEscapes_letter (letterEscape?_of_letter form), onlyNulls_escape (by simp [form])]
    exact ⟨by simpa using ih.1, by simpa using ih.2⟩
  | @octal c digits cs text n form value short ends _ ih =>
    have plain := backslash_notMem_of_readDigits? value
    simp only [List.mem_cons, not_or] at plain
    by_cases zero : c = '0'
    · subst zero
      rw [decodeEscapes_letter (show letterEscape? '0' = some '\x00' from rfl),
        decodeEscapes_append plain.2, onlyNulls_zero value ends, ← ih.2]
      refine ⟨by simp; omega, ?_, ?_⟩
      · intro same
        obtain ⟨-, same⟩ := List.cons.inj same
        -- Equal texts are equally long, so no digit stands behind the null.
        have lengths := congrArg List.length same
        rw [List.length_append] at lengths
        obtain rfl : digits = [] := by rw [← List.length_eq_zero_iff]; omega
        exact ⟨rfl, same⟩
      · rintro ⟨rfl, rfl⟩
        obtain rfl : n = 0 := (Option.some.inj value).symm
        rfl
    · obtain ⟨noLetter, noCodePoint, noLineFeed⟩ := escape_of_octal form zero
      rw [decodeEscapes_other noLetter noCodePoint noLineFeed, decodeEscapes_append plain.2]
      have digit := escapeForm_eq_octal_iff.mp form
      refine ⟨by simp; omega, ?_, ?_⟩
      · intro same
        have lengths := congrArg List.length same
        simp at lengths
        omega
      · simp [onlyNulls_pair, digit, zero]
  | @codePoint c digits cs text n form value valid _ ih =>
    have plain := backslash_notMem_of_readDigits? value
    have hex : ∀ c ∈ digits, (hexValue? c).isSome = true := by
      intro c member
      rw [← digitValue?_sixteen]
      exact (readDigits?_isSome_iff.mp (Option.isSome_of_mem value)).2 c member
    obtain ⟨noLetter, codePoint⟩ := escape_of_codePoint form
    rw [decodeEscapes_codePoint noLetter codePoint, hexRun_digits hex, decodeCodePoint,
      hexNumber_eq value, if_pos ⟨rfl, valid⟩, onlyNulls_escape (by simp [form]),
      onlyNulls_append plain]
    exact ⟨by simpa using ih.1, by simpa using ih.2⟩
  | lineFeed form _ ih =>
    obtain rfl := eq_lineFeed form
    rwa [decodeEscapes_lineFeed, onlyNulls_escape (by simp [form])]
  | other form _ ih =>
    obtain ⟨noLetter, noCodePoint, noLineFeed⟩ := escape_of_other form
    rw [decodeEscapes_other noLetter noCodePoint noLineFeed, onlyNulls_escape (by simp [form])]
    exact ⟨by simpa using ih.1, by simpa using ih.2⟩

/-! ## Every literal denotes one text -/

/-- Octal digits that end where the escape has to end are determined by the text. -/
theorem octal_unique {digits digits' cs' : List Char}
    (octal : ∀ d ∈ digits, isOctalDigit d = true) (octal' : ∀ d ∈ digits', isOctalDigit d = true)
    (short : digits.length ≤ 2) (short' : digits'.length ≤ 2)
    (ends : digits.length = 2 ∨ ∀ d ∈ cs.head?, isOctalDigit d = false)
    (ends' : digits'.length = 2 ∨ ∀ d ∈ cs'.head?, isOctalDigit d = false)
    (same : digits ++ cs = digits' ++ cs') : digits = digits' ∧ cs = cs' := by
  have run : ∀ {digits cs : List Char}, (∀ d ∈ digits, isOctalDigit d = true) →
      digits.length ≤ 2 → (digits.length = 2 ∨ ∀ d ∈ cs.head?, isOctalDigit d = false) →
      ((digits ++ cs).takeWhile isOctalDigit).take 2 = digits := by
    intro digits cs octal short ends
    rw [List.takeWhile_append_of_pos octal]
    rcases ends with full | apart
    · rw [List.take_append_of_le_length (by omega), List.take_of_length_le (by omega)]
    · have none : cs.takeWhile isOctalDigit = [] := by
        cases cs with
        | nil => rfl
        | cons d cs => rw [List.takeWhile_cons_of_neg (by simp [apart d rfl])]
      rw [none, List.append_nil, List.take_of_length_le short]
  have digitsSame : digits = digits' := by
    rw [← run octal short ends, ← run octal' short' ends', same]
  subst digitsSame
  exact ⟨rfl, List.append_cancel_left same⟩

/-- The digits behind an octal digit that make up a number are octal digits. -/
theorem octalDigits {digits : List Char} {n : Nat} (value : readDigits? 8 (c :: digits) = some n) :
    ∀ d ∈ digits, isOctalDigit d = true := by
  intro d member
  rw [isOctalDigit_eq]
  exact (readDigits?_isSome_iff.mp (Option.isSome_of_mem value)).2 d (by simp [member])

/-- A body denotes at most one text. -/
theorem Denotes.unique {body text text' : List Char} (h : Denotes body text)
    (h' : Denotes body text') : text = text' := by
  -- The character behind a backslash decides the form of the escape, so both readings take the
  -- same step.
  induction h generalizing text' with
  | nil => cases h'; rfl
  | plain noBackslash _ ih =>
    cases h' with
    | plain _ h' => rw [ih h']
    | _ => exact absurd rfl noBackslash
  | letter form _ ih =>
    cases h' with
    | plain noBackslash _ => exact absurd rfl noBackslash
    | letter form' h' =>
      cases form.symm.trans form'
      rw [ih h']
    | octal form' _ _ _ _ | codePoint form' _ _ _ | lineFeed form' _ | other form' _ =>
      cases form.symm.trans form'
  | @octal _ digits cs _ _ form value short ends _ ih =>
    generalize whole : digits ++ cs = behind at h'
    cases h' with
    | plain noBackslash _ => exact absurd rfl noBackslash
    | octal form' value' short' ends' h' =>
      -- An octal escape is as long as it can be, which makes its digits the same.
      obtain ⟨rfl, rfl⟩ := octal_unique (octalDigits value) (octalDigits value') short short' ends
        ends' whole
      cases value.symm.trans value'
      rw [ih h']
    | letter form' _ | codePoint form' _ _ _ | lineFeed form' _ | other form' _ =>
      cases form.symm.trans form'
  | @codePoint _ digits cs _ _ form value _ _ ih =>
    generalize whole : digits ++ cs = behind at h'
    cases h' with
    | plain noBackslash _ => exact absurd rfl noBackslash
    | codePoint form' value' _ h' =>
      have widths := EscapeForm.codePoint.inj (form.symm.trans form')
      obtain ⟨rfl, rfl⟩ := List.append_inj whole widths
      cases value.symm.trans value'
      rw [ih h']
    | letter form' _ | octal form' _ _ _ _ | lineFeed form' _ | other form' _ =>
      cases form.symm.trans form'
  | lineFeed form _ ih =>
    cases h' with
    | plain noBackslash _ => exact absurd rfl noBackslash
    | lineFeed _ h' => exact ih h'
    | letter form' _ | octal form' _ _ _ _ | codePoint form' _ _ _ | other form' _ =>
      cases form.symm.trans form'
  | other form _ ih =>
    cases h' with
    | plain noBackslash _ => exact absurd rfl noBackslash
    | other _ h' => rw [ih h']
    | letter form' _ | octal form' _ _ _ _ | codePoint form' _ _ _ | lineFeed form' _ =>
      cases form.symm.trans form'

/-- Something stands behind every backslash that begins a pair. -/
inductive Paired : List Char → Prop
  | nil : Paired []
  | plain {c : Char} {cs : List Char} : c ≠ '\\' → Paired cs → Paired (c :: cs)
  | pair {c : Char} {cs : List Char} : Paired cs → Paired ('\\' :: c :: cs)

/-- In a body between single quotes, something stands behind every backslash. -/
theorem Paired.of_shortBody {quote : Char} {body : List Char} (h : ShortBody quote body) :
    Paired body := by
  induction h with
  | nil => exact .nil
  | plain _ noBackslash _ _ ih => exact .plain noBackslash ih
  | escaped _ ih => exact .pair ih

theorem Paired.of_longBody {quote : Char} {body : List Char} (h : LongBody quote body) :
    Paired body := by
  induction h with
  | nil => exact .nil
  | plain noBackslash _ _ ih => exact .plain noBackslash ih
  | escaped _ ih => exact .pair ih

/-- Behind a text without backslashes, the pairs are the same. -/
theorem Paired.behind {front : List Char} (plain : '\\' ∉ front) (h : Paired (front ++ cs)) :
    Paired cs := by
  induction front with
  | nil => exact h
  | cons c front ih =>
    simp only [List.mem_cons, not_or] at plain
    generalize behind : front ++ cs = body at ih
    rw [List.cons_append, behind] at h
    cases h with
    | plain _ h => exact ih plain.2 h
    | pair => exact absurd rfl plain.1

/-- An octal escape ends somewhere. -/
theorem exists_octalDigits (cs : List Char) :
    ∃ digits rest, cs = digits ++ rest ∧ (∀ d ∈ digits, isOctalDigit d = true) ∧
      digits.length ≤ 2 ∧ (digits.length = 2 ∨ ∀ d ∈ rest.head?, isOctalDigit d = false) := by
  match cs with
  | [] => exact ⟨[], [], rfl, by simp, by simp, by simp⟩
  | c :: cs =>
    by_cases first : isOctalDigit c = true
    · match cs with
      | [] => exact ⟨[c], [], rfl, by simp [first], by simp, by simp⟩
      | d :: cs =>
        by_cases second : isOctalDigit d = true
        · exact ⟨[c, d], cs, rfl, by simp [first, second], by simp, .inl rfl⟩
        · exact ⟨[c], d :: cs, rfl, by simp [first], by simp, .inr (by simpa using second)⟩
    · exact ⟨[], c :: cs, rfl, by simp, by simp, .inr (by simpa using first)⟩

/-- Every body denotes a text in which no escape is an error. -/
theorem exists_denotes {body : List Char} (paired : Paired body)
    (accepted : isAccepted body = true) : ∃ text, Denotes body text := by
  -- Not by induction on the body: escapes take several characters at once.
  induction size : body.length using Nat.strongRecOn generalizing body with
  | ind size ih =>
    subst size
    cases paired with
    | nil => exact ⟨[], .nil⟩
    | plain noBackslash paired =>
      rw [isAccepted_plain noBackslash] at accepted
      obtain ⟨text, h⟩ := ih _ (by simp) paired accepted rfl
      exact ⟨_, .plain noBackslash h⟩
    | @pair c cs paired =>
      rw [isAccepted_pair, Bool.and_eq_true] at accepted
      obtain ⟨escape, accepted⟩ := accepted
      cases form : escapeForm c with
      | letter d =>
        obtain ⟨text, h⟩ := ih _ (by simp only [List.length_cons]; omega) paired accepted rfl
        exact ⟨_, .letter form h⟩
      | octal =>
        obtain ⟨digits, rest, rfl, octal, short, ends⟩ := exists_octalDigits cs
        have digit : ∀ d ∈ c :: digits, (digitValue? 8 d).isSome = true := by
          simpa [← isOctalDigit_eq, escapeForm_eq_octal_iff.mp form] using octal
        obtain ⟨n, value⟩ := Option.isSome_iff_exists.mp
          (readDigits?_isSome_iff.mpr ⟨List.cons_ne_nil _ _, digit⟩)
        have plain := backslash_notMem_of_readDigits? value
        simp only [List.mem_cons, not_or] at plain
        rw [isAccepted_append plain.2] at accepted
        obtain ⟨text, h⟩ := ih _ (by simp only [List.length_cons, List.length_append]; omega)
          (paired.behind plain.2) accepted rfl
        exact ⟨_, .octal form value short ends h⟩
      | codePoint width =>
        simp only [isEscape, form, Bool.and_eq_true, decide_eq_true_eq,
          Option.any_eq_true] at escape
        obtain ⟨full, n, value, valid⟩ := escape
        have plain := backslash_notMem_of_readDigits? value
        rw [← List.take_append_drop width cs] at paired accepted ⊢
        rw [isAccepted_append plain] at accepted
        obtain ⟨text, h⟩ := ih _ (by simp only [List.length_cons, List.length_drop]; omega)
          (paired.behind plain) accepted rfl
        exact ⟨_, .codePoint (by rw [full]; exact form) value valid h⟩
      | lineFeed =>
        obtain ⟨text, h⟩ := ih _ (by simp only [List.length_cons]; omega) paired accepted rfl
        exact ⟨_, .lineFeed form h⟩
      | name => simp [isEscape, form] at escape
      | other =>
        obtain ⟨text, h⟩ := ih _ (by simp only [List.length_cons]; omega) paired accepted rfl
        exact ⟨_, .other form h⟩

/-- The body of a literal in which no escape is an error denotes one text, and is decoded to that
text exactly if every octal escape in it is a single zero. -/
theorem decodeEscapes_eq_denoted_iff {quote : Char} {body : List Char}
    (formed : ShortBody quote body ∨ LongBody quote body) (accepted : isAccepted body = true) :
    ∃ text, Denotes body text ∧ (∀ text', Denotes body text' → text' = text) ∧
      (decodeEscapes body = text ↔ onlyNulls body = true) := by
  have paired : Paired body := formed.elim .of_shortBody .of_longBody
  obtain ⟨text, h⟩ := exists_denotes paired accepted
  exact ⟨text, h, fun _ h' => h'.unique h, h.decodeEscapes.2⟩

/-- A tab, a code point, a null and a backslash that begins no escape are decoded as they should be.
-/
theorem decodeEscapes_eq_denoted_tabbed :
    ShortBody '\'' "a\\t\\x41\\0\\q".toList ∧ isAccepted "a\\t\\x41\\0\\q".toList = true ∧
      ∃ text, Denotes "a\\t\\x41\\0\\q".toList text ∧
        (∀ text', Denotes "a\\t\\x41\\0\\q".toList text' → text' = text) ∧
        (decodeEscapes "a\\t\\x41\\0\\q".toList = text ↔
          onlyNulls "a\\t\\x41\\0\\q".toList = true) := by
  have formed : ShortBody '\'' "a\\t\\x41\\0\\q".toList :=
    .plain (by decide) (by decide) (by decide) <| .escaped <| .escaped <|
      .plain (by decide) (by decide) (by decide) <| .plain (by decide) (by decide) (by decide) <|
        .escaped <| .escaped .nil
  have accepted : isAccepted "a\\t\\x41\\0\\q".toList = true := by decide
  exact ⟨formed, accepted, decodeEscapes_eq_denoted_iff (.inl formed) accepted⟩

/-- The octal digits of a capital letter stay as they are written. -/
theorem not_decodeEscapes_eq_denoted_octal :
    ¬ ∀ body text : List Char, ShortBody '\'' body → Denotes body text →
      decodeEscapes body = text := by
  intro denoted
  have formed : ShortBody '\'' ['\\', '1', '0', '1'] :=
    .escaped <| .plain (by decide) (by decide) (by decide) <|
      .plain (by decide) (by decide) (by decide) .nil
  have letter : Denotes ['\\', '1', '0', '1'] ['A'] :=
    @Denotes.octal '1' ['0', '1'] [] [] 65 rfl rfl (by decide) (by decide) .nil
  exact absurd (denoted _ _ formed letter) (by decide)

end BlockEditor.Text
