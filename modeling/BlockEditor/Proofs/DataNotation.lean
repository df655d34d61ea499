import BlockEditor.Json.Basic
import BlockEditor.Json.Scalar
import BlockEditor.Proofs.NumberCode
import BlockEditor.Proofs.Quotation

/-!
# Data notation is read back

Every tree of data has a written form, and the text that is laid out for the tree is read as this
form: strings by their escaped characters, numbers by their digits, arrays and objects with their
items in order.  Nothing is assumed of the tree, and blanks between its parts make no difference.
-/

namespace BlockEditor.Json

open Number

/-! ## Numerals -/

/-- The digits behind the point, with the point. -/
def fractionText (ds : List Char) : List Char := if ds = [] then [] else '.' :: ds

/-- The exponent with its mark and its sign. -/
def exponentText : Option (Bool × List Char) → List Char
  | none => []
  | some (negative, digits) => 'e' :: (if negative then '-' else '+') :: digits

namespace Numeral

/-- The text of a numeral without its sign. -/
def magnitudeText (n : Numeral) : List Char :=
  n.whole ++ (fractionText n.fraction ++ exponentText n.exponent)

/-- The text of a numeral. -/
def text (n : Numeral) : List Char := if n.negative then '-' :: n.magnitudeText else n.magnitudeText

/-- A numeral that the notation knows: digits stand in front of the point, with a zero in front
only if it is the only one, and digits stand behind every mark. -/
structure Proper (n : Numeral) : Prop where
  whole : IsDigits n.whole
  leading : n.whole = ['0'] ∨ n.whole.head? ≠ some '0'
  fraction : n.fraction = [] ∨ IsDigits n.fraction
  exponent : ∀ e ∈ n.exponent, IsDigits e.2

end Numeral

/-- What may stand behind a number: nothing that would carry it on. -/
def EndsNumber (rest : List Char) : Prop :=
  ∀ c ∈ rest.head?, c.isDigit = false ∧ c ≠ '.' ∧ c ≠ 'e' ∧ c ≠ 'E'

/-- A character that is no digit, no point and no mark of an exponent ends a number. -/
theorem endsNumber_cons {c : Char} (rest : List Char)
    (other : c.isDigit = false ∧ c ≠ '.' ∧ c ≠ 'e' ∧ c ≠ 'E') : EndsNumber (c :: rest) := by
  intro d head
  cases head
  exact other

/-- Digits are read up to the first other character. -/
theorem readDigits_append {ds rest : List Char} (h : IsDigits ds)
    (stop : ∀ c ∈ rest.head?, c.isDigit = false) : readDigits (ds ++ rest) = some (ds, rest) := by
  have digits : ∀ c ∈ ds, c.isDigit = true := fun c member => isDigit_of_digit (h.digits c member)
  have taken : rest.takeWhile Char.isDigit = [] ∧ rest.dropWhile Char.isDigit = rest := by
    cases rest with
    | nil => exact ⟨rfl, rfl⟩
    | cons c rest =>
      have other : ¬ c.isDigit = true := by simp [stop c rfl]
      exact ⟨List.takeWhile_cons_of_neg other, List.dropWhile_cons_of_neg other⟩
  unfold readDigits
  rw [List.takeWhile_append_of_pos digits, List.dropWhile_append_of_pos digits, taken.1, taken.2,
    List.append_nil]
  simp [h.nonempty]

/-- The digits in front of the point are read, unless they begin with a zero too many. -/
theorem readWhole_append {ds rest : List Char} (h : IsDigits ds)
    (leading : ds = ['0'] ∨ ds.head? ≠ some '0') (stop : ∀ c ∈ rest.head?, c.isDigit = false) :
    readWhole (ds ++ rest) = some (ds, rest) := by
  rcases leading with rfl | leading
  · cases rest with
    | nil => rfl
    | cons c rest =>
      have other : c.isDigit = false := stop c rfl
      simp [readWhole, other]
  · obtain ⟨c, ds, rfl⟩ := List.exists_cons_of_ne_nil h.nonempty
    have other : c ≠ '0' := by simpa using leading
    rw [List.cons_append, readWhole]
    · exact readDigits_append h stop
    · intro cs e
      exact other (List.cons.inj e).1

/-- The digits behind the point are read with the point, or there are none. -/
theorem readFraction_append {ds rest : List Char} (h : ds = [] ∨ IsDigits ds)
    (ends : ∀ c ∈ rest.head?, c.isDigit = false ∧ c ≠ '.') :
    readFraction (fractionText ds ++ rest) = some (ds, rest) := by
  unfold fractionText
  rcases h with rfl | h
  · cases rest with
    | nil => rfl
    | cons c rest =>
      have other : c ≠ '.' := (ends c rfl).2
      simp [readFraction, other]
  · rw [if_neg h.nonempty]
    exact readDigits_append h fun c head => (ends c head).1

/-- The exponent is read with its mark and its sign, or there is none. -/
theorem readExponent_append {exponent : Option (Bool × List Char)} {rest : List Char}
    (h : ∀ e ∈ exponent, IsDigits e.2) (ends : EndsNumber rest) :
    readExponent (exponentText exponent ++ rest) = some (exponent, rest) := by
  cases exponent with
  | none =>
    cases rest with
    | nil => rfl
    | cons c rest =>
      obtain ⟨-, -, small, large⟩ := ends c rfl
      simp [exponentText, readExponent, small, large]
  | some e =>
    obtain ⟨negative, ds⟩ := e
    have digits := readDigits_append (h _ rfl) fun c head => (ends c head).1
    cases negative <;> simp [exponentText, readExponent, readExponentSign, digits]

/-- The exponent of a numeral does not carry on what stands in front of it. -/
theorem head_exponentText (exponent : Option (Bool × List Char)) {rest : List Char}
    (ends : EndsNumber rest) :
    ∀ c ∈ (exponentText exponent ++ rest).head?, c.isDigit = false ∧ c ≠ '.' := by
  intro c head
  cases exponent with
  | none => exact ⟨(ends c head).1, (ends c head).2.1⟩
  | some e =>
    cases head
    decide

/-- What follows the whole digits of a numeral is no digit. -/
theorem head_fractionText (ds : List Char) {rest : List Char}
    (ends : ∀ c ∈ rest.head?, c.isDigit = false ∧ c ≠ '.') :
    ∀ c ∈ (fractionText ds ++ rest).head?, c.isDigit = false := by
  intro c head
  unfold fractionText at head
  split at head
  · exact (ends c head).1
  · cases head
    rfl

namespace Numeral.Proper

variable {n : Numeral} (h : n.Proper) {rest : List Char} (ends : EndsNumber rest)

include h

/-- The text of a proper numeral begins with a hyphen or a digit. -/
theorem exists_text_eq : ∃ c cs, n.text = c :: cs ∧ (c = '-' ∨ c.isDigit = true) := by
  obtain ⟨c, ds, digits⟩ := List.exists_cons_of_ne_nil h.whole.nonempty
  unfold text
  split
  · exact ⟨_, _, rfl, .inl rfl⟩
  · refine ⟨c, ds ++ (fractionText n.fraction ++ exponentText n.exponent), ?_, .inr ?_⟩
    · rw [magnitudeText, digits, List.cons_append]
    · exact isDigit_of_digit (h.whole.digits c (by simp [digits]))

include ends

/-- The magnitude of a proper numeral is read behind its sign. -/
theorem readMagnitude (negative : Bool) : readMagnitude negative (n.magnitudeText ++ rest) =
    some (⟨negative, n.whole, n.fraction, n.exponent⟩, rest) := by
  have behind := head_exponentText n.exponent ends
  have whole := readWhole_append h.whole h.leading (head_fractionText n.fraction behind)
  have fraction := readFraction_append h.fraction behind
  have exponent := readExponent_append h.exponent ends
  rw [magnitudeText, List.append_assoc, List.append_assoc]
  simp [Json.readMagnitude, whole, fraction, exponent]

/-- The text of a proper numeral is read as the numeral. -/
theorem readNumeral : readNumeral (n.text ++ rest) = some (n, rest) := by
  obtain ⟨c, ds, digits⟩ := List.exists_cons_of_ne_nil h.whole.nonempty
  have unsigned : c ≠ '-' := by
    rintro rfl
    have digit := h.whole.digits '-' (by simp [digits])
    revert digit
    decide
  have read := h.readMagnitude ends n.negative
  unfold text
  cases sign : n.negative with
  | true =>
    rw [sign] at read
    rw [if_pos rfl, List.cons_append, Json.readNumeral, read, ← sign]
  | false =>
    rw [sign] at read
    rw [if_neg Bool.false_ne_true, Json.readNumeral, read, ← sign]
    intro cs e
    rw [magnitudeText, digits, List.cons_append, List.cons_append] at e
    exact unsigned (List.cons.inj e).1

omit ends in
/-- The text of a proper numeral alone is read as the numeral. -/
theorem readNumeral_text : Json.readNumeral n.text = some (n, []) := by
  rw [← List.append_nil n.text]
  exact h.readNumeral nofun

end Numeral.Proper

/-! ## Texts of numbers -/

/-- The digits of a number begin with a zero only if the number is zero. -/
theorem head_digitsText {n : Nat} (positive : 0 < n) : (digitsText n).head? ≠ some '0' := by
  induction n using Nat.strongRecOn with
  | ind n ih =>
    unfold digitsText at *
    rcases Nat.lt_or_ge n 10 with small | large
    · rw [Nat.toDigits_of_lt_base small, List.head?_cons]
      revert positive
      have each : ∀ n < 10, 0 < n → ¬ some (Nat.digitChar n) = some '0' := by decide
      exact each n small
    · rw [Nat.toDigits_of_base_le (by decide) large,
        List.head?_append_of_ne_nil _ Nat.toDigits_ne_nil]
      exact ih (n / 10) (by omega) (by omega)

/-- Digits that begin with no zero, in positional form. -/
theorem exists_positional {ds : List Char} (digits : IsDigits ds) (leading : ds.head? ≠ some '0')
    (point : Int) (negative : Bool) : ∃ n : Numeral, n.Proper ∧ n.negative = negative ∧
      n.magnitudeText = positionalText true ds point := by
  unfold positionalText
  split
  · have fraction := digits.replicate_append (-point).toNat
    refine ⟨⟨negative, ['0'], _, none⟩, ⟨isDigits_zero, .inl rfl, .inr fraction, nofun⟩, rfl, ?_⟩
    rw [Numeral.magnitudeText, fractionText, if_neg fraction.nonempty, exponentText, List.append_nil]
    rfl
  · rename_i large
    have some : 0 < point.toNat := by omega
    generalize point.toNat = places at some
    have whole : IsDigits (ds.take places ++ List.replicate (places - ds.length) '0') :=
      (digits.take some).append_replicate _
    have first : (ds.take places ++ List.replicate (places - ds.length) '0').head? ≠ .some '0' := by
      obtain ⟨c, ds, rfl⟩ := List.exists_cons_of_ne_nil digits.nonempty
      obtain ⟨places, rfl⟩ : ∃ k, places = k + 1 := ⟨places - 1, by omega⟩
      exact leading
    dsimp only
    split
    · refine ⟨⟨negative, _, ['0'], none⟩, ⟨whole, .inr first, .inr isDigits_zero, nofun⟩, rfl, ?_⟩
      rw [Numeral.magnitudeText, if_pos rfl]
      rfl
    · rename_i behind
      have fraction : IsDigits (ds.drop places) := by
        apply digits.drop
        by_contra short
        exact behind (List.drop_eq_nil_of_le (Nat.le_of_not_lt short))
      refine ⟨⟨negative, _, ds.drop places, none⟩, ⟨whole, .inr first, .inr fraction, nofun⟩, rfl, ?_⟩
      rw [Numeral.magnitudeText, fractionText, if_neg fraction.nonempty, exponentText, List.append_nil]

/-- Digits that begin with no zero, in scientific form. -/
theorem exists_scientific {ds : List Char} (digits : IsDigits ds) (leading : ds.head? ≠ some '0')
    (exponent : Int) (negative : Bool) : ∃ n : Numeral, n.Proper ∧ n.negative = negative ∧
      n.magnitudeText = scientificText 1 ds exponent := by
  obtain ⟨d, ds, rfl⟩ := List.exists_cons_of_ne_nil digits.nonempty
  have size : IsDigits (padZeros 1 (digitsText exponent.natAbs)) :=
    (isDigits_digitsText _).replicate_append _
  have whole : IsDigits [d] := digits.take (by decide : 0 < 1)
  have fraction : ds = [] ∨ IsDigits ds := by
    rcases eq_or_ne ds [] with none | some
    · exact .inl none
    · exact .inr (digits.drop (n := 1) (by simpa using List.length_pos_iff.2 some))
  refine ⟨⟨negative, [d], ds, some (decide (exponent < 0), padZeros 1 (digitsText exponent.natAbs))⟩,
    ⟨whole, .inr leading, fraction, ?_⟩, rfl, ?_⟩
  · intro e member
    cases member
    exact size
  · unfold scientificText
    rw [Numeral.magnitudeText]
    cases ds <;> simp [fractionText, exponentText]

/-- A finite double is written as a proper numeral. -/
theorem exists_floatText {x : Float} (finite : isFinite x = true) :
    ∃ n : Numeral, n.Proper ∧ floatText x = n.text := by
  rw [floatText, if_pos finite]
  -- Zero has a text of its own; any other double has the digits that the search finds, in one of
  -- two layouts.
  rcases unpack_of_isFinite finite with ⟨s, u⟩ | ⟨s, m, e, h, u⟩
  · have parts : parts x = .finite (s == .negative) 0 (-1074) := by
      rw [parts_eq, u]
      rfl
    refine ⟨⟨s == .negative, ['0'], ['0'], none⟩,
      ⟨isDigits_zero, .inl rfl, .inr isDigits_zero, nofun⟩, ?_⟩
    unfold DecimalLayout.text
    rw [parts]
    cases s <;> rfl
  · have parts : parts x = .finite (s == .negative) m e := by
      rw [parts_eq, u]
      rfl
    have text : dataLayout.text x = (if s == .negative then
        '-' :: dataLayout.decimal (shortest .even m e)
        else dataLayout.decimal (shortest .even m e)) := by
      obtain ⟨n, rfl⟩ : ∃ n, m = n + 1 := ⟨m - 1, by have := h.positive; omega⟩
      unfold DecimalLayout.text
      rw [parts]
      rfl
    have some : 0 < (shortest .even m e).digits := by
      have value := (roundsTo_shortest h .even).1.positive h.positive
      apply Nat.pos_of_ne_zero
      intro zero
      rw [Decimal.value, zero] at value
      simp at value
    generalize shortest .even m e = d at text some
    have magnitude : ∃ n : Numeral, n.Proper ∧ n.negative = (s == .negative) ∧
        n.magnitudeText = dataLayout.decimal d := by
      show ∃ n : Numeral, n.Proper ∧ n.negative = (s == .negative) ∧ n.magnitudeText =
        if (decide (-5 ≤ d.exponent) && decide (d.exponent ≤ 15)) = true then
          positionalText true (digitsText d.digits) (d.exponent + 1)
        else scientificText 1 (digitsText d.digits) d.exponent
      split
      · exact exists_positional (isDigits_digitsText _) (head_digitsText some) _ _
      · exact exists_scientific (isDigits_digitsText _) (head_digitsText some) _ _
    obtain ⟨n, proper, sign, digits⟩ := magnitude
    refine ⟨n, proper, ?_⟩
    rw [text, Numeral.text, sign, digits]

/-- An integer is written as a proper numeral. -/
theorem exists_intText (k : Int) : ∃ n : Numeral, n.Proper ∧ (toString k).toList = n.text := by
  have proper : ∀ (k : Nat) (negative : Bool), Numeral.Proper ⟨negative, digitsText k, [], none⟩ := by
    intro k negative
    refine ⟨isDigits_digitsText k, ?_, .inl rfl, nofun⟩
    rcases Nat.eq_zero_or_pos k with rfl | positive
    · exact .inl rfl
    · exact .inr (head_digitsText positive)
  have text : ∀ k : Nat, (toString k).toList = digitsText k := by
    intro k
    rw [Nat.toString_eq_ofList_toDigits, String.toList_ofList, digitsText]
  cases k with
  | ofNat k =>
    refine ⟨_, proper k false, ?_⟩
    simp only [Numeral.text, Numeral.magnitudeText, fractionText, exponentText]
    show (toString k).toList = _
    rw [text]
    simp
  | negSucc k =>
    refine ⟨_, proper (k + 1) true, ?_⟩
    simp only [Numeral.text, Numeral.magnitudeText, fractionText, exponentText]
    show ("-" ++ toString (k + 1)).toList = _
    rw [String.toList_append, text]
    simp

/-! ## Strings -/

/-- The body of the string for a text. -/
def escaped (text : String) : List Char := text.toList.flatMap escapeChar

/-- The ways in which a character stands in a string. -/
inductive Escape (c : Char) : List Char → Prop
  | letter (l : Char) (known : l ∈ escapeLetters) (value : unescapeLetter l = c)
      (short : l ≠ 'u') : Escape c ['\\', l]
  | codePoint (control : c.toNat < 32) : Escape c
      ['\\', 'u', '0', '0', Text.hexDigit (c.toNat / 16), Text.hexDigit (c.toNat % 16)]
  | plain (visible : ¬ c.toNat < 32) (quote : c ≠ '"') (backslash : c ≠ '\\') : Escape c [c]

/-- Every character stands in a string in one of the known ways. -/
theorem escape_escapeChar (c : Char) : Escape c (escapeChar c) := by
  unfold escapeChar
  split_ifs with quote backslash back feed line ret tab control
  · exact .letter _ (by decide) (by rw [quote]; rfl) (by decide)
  · exact .letter _ (by decide) (by rw [backslash]; rfl) (by decide)
  · exact .letter _ (by decide) (by rw [back]; rfl) (by decide)
  · exact .letter _ (by decide) (by rw [feed]; rfl) (by decide)
  · exact .letter _ (by decide) (by rw [line]; rfl) (by decide)
  · exact .letter _ (by decide) (by rw [ret]; rfl) (by decide)
  · exact .letter _ (by decide) (by rw [tab]; rfl) (by decide)
  · exact .codePoint control
  · exact .plain control quote backslash

theorem hexValue?_zero : Text.hexValue? '0' = some 0 := by decide

/-- A character is read over as a whole in the form in which it stands in a string. -/
theorem Escape.readBody {c : Char} {text : List Char} (h : Escape c text) (cs : List Char) :
    readBody (text ++ cs) = (readBody cs).map fun (body, rest) => (text ++ body, rest) := by
  cases h with
  | letter l known value short => simp [Json.readBody, known, short]
  | codePoint control =>
    have high := Text.hexValue?_hexDigit (c.toNat / 16) (by omega)
    have low := Text.hexValue?_hexDigit (c.toNat % 16) (by omega)
    simp [Json.readBody, high, low, hexValue?_zero]
  | plain visible quote backslash =>
    rw [List.singleton_append, Json.readBody]
    · simp [visible, backslash]
    · exact quote
    · exact fun a b c d cs e _ => backslash e
    · exact fun d cs e _ => backslash e

/-- The body of the string for a text ends where it was ended. -/
theorem readBody_escaped (text : List Char) (rest : List Char) :
    readBody (text.flatMap escapeChar ++ '"' :: rest) = some (text.flatMap escapeChar, rest) := by
  induction text with
  | nil => rfl
  | cons c text ih =>
    rw [List.flatMap_cons, List.append_assoc, (escape_escapeChar c).readBody, ih]
    rfl

/-- The characters of a string are decoded one by one. -/
theorem Escape.decodeFrom {c : Char} {text : List Char} (h : Escape c text) (cs : List Char) :
    decodeFrom none (text ++ cs) = (decodeFrom none cs).map (c :: ·) := by
  cases h with
  | letter l known value short => simp [Json.decodeFrom, value, short]
  | codePoint control =>
    have high := Text.hexValue?_hexDigit (c.toNat / 16) (by omega)
    have low := Text.hexValue?_hexDigit (c.toNat % 16) (by omega)
    have value : Text.hexNumber ['0', '0', Text.hexDigit (c.toNat / 16), Text.hexDigit (c.toNat % 16)] =
        c.toNat := by
      simp only [Text.hexNumber, List.foldl_cons, List.foldl_nil, high, low, hexValue?_zero,
        Option.getD_some]
      omega
    have whole : isHighHalf c.toNat = false ∧ isLowHalf c.toNat = false := by
      unfold isHighHalf isLowHalf
      constructor
      · simp; omega
      · simp; omega
    simp [Json.decodeFrom, value, whole]
  | plain visible quote backslash =>
    rw [List.singleton_append, Json.decodeFrom]
    · exact fun a b c d cs e _ => backslash e
    · exact fun d cs e _ => backslash e

/-- The string for a text denotes the text. -/
theorem decodeBody?_escaped (text : String) : decodeBody? (escaped text) = some text := by
  have run : ∀ cs : List Char, Json.decodeFrom none (cs.flatMap escapeChar) = some cs := by
    intro cs
    induction cs with
    | nil => rfl
    | cons c cs ih => rw [List.flatMap_cons, (escape_escapeChar c).decodeFrom, ih, Option.map_some]
  rw [decodeBody?, escaped, run, Option.map_some, String.ofList_toList]

/-! ## Trees -/

/-- The numeral that a text is. -/
def numeralOf (cs : List Char) : Numeral := ((readNumeral cs).map Prod.fst).getD ⟨false, [], [], none⟩

/-- The text of a proper numeral is the numeral that it is. -/
theorem numeralOf_text {n : Numeral} (h : n.Proper) : numeralOf n.text = n := by
  rw [numeralOf, h.readNumeral_text]
  rfl

mutual

/-- A tree of data as it is written.  A number that is not finite is written as nothing. -/
def written : Json → Written
  | null => .null
  | bool b => .bool b
  | int n => .number (numeralOf (toString n).toList)
  | float x => if isFinite x then .number (numeralOf (floatText x)) else .null
  | string text => .string (escaped text)
  | array items => .array (writtenItems items)
  | object members => .object (writtenMembers members)

/-- The items of an array as they are written. -/
def writtenItems : List Json → List Written
  | [] => []
  | item :: items => written item :: writtenItems items

/-- The members of an object as they are written. -/
def writtenMembers : List (String × Json) → List (List Char × Written)
  | [] => []
  | (key, value) :: members => (escaped key, written value) :: writtenMembers members

end

/-- Whether a character is a blank between parts. -/
def isBlank (c : Char) : Bool := c = ' ' || c = '\n' || c = '\t' || c = '\r'

/-- A line break in front of a text is passed over. -/
theorem skipBlanks_lineBreak (depth : Nat) (cs : List Char) :
    skipBlanks (lineBreak depth ++ cs) = skipBlanks cs := by
  have blanks : ∀ c ∈ lineBreak depth, isBlank c = true := by
    intro c member
    rcases List.mem_cons.1 member with rfl | member
    · rfl
    · rw [List.eq_of_mem_replicate member]
      rfl
  exact List.dropWhile_append_of_pos blanks

/-- Nothing is passed over where a visible character begins the text. -/
theorem skipBlanks_cons {c : Char} (cs : List Char) (visible : isBlank c = false) :
    skipBlanks (c :: cs) = c :: cs :=
  List.dropWhile_cons_of_neg (by simpa [isBlank] using visible)

theorem skipBlanks_skipBlanks (cs : List Char) : skipBlanks (skipBlanks cs) = skipBlanks cs :=
  List.dropWhile_idempotent _ cs

/-- Blanks in front of a tree are passed over. -/
theorem readTree_skipBlanks (fuel : Nat) (cs : List Char) :
    readTree fuel (skipBlanks cs) = readTree fuel cs := by
  cases fuel with
  | zero => rw [readTree, readTree]
  | succ fuel => rw [readTree, readTree, skipBlanks_skipBlanks]

/-- Blanks in front of the items of an array are passed over. -/
theorem readItems_skipBlanks (fuel : Nat) (cs : List Char) :
    readItems fuel (skipBlanks cs) = readItems fuel cs := by
  cases fuel with
  | zero => rw [readItems, readItems]
  | succ fuel => rw [readItems, readItems, readTree_skipBlanks]

/-- Blanks in front of the members of an object are passed over. -/
theorem readMembers_skipBlanks (fuel : Nat) (cs : List Char) :
    readMembers fuel (skipBlanks cs) = readMembers fuel cs := by
  cases fuel with
  | zero => rw [readMembers, readMembers]
  | succ fuel => rw [readMembers, readMembers, skipBlanks_skipBlanks]

/-- A tree is read behind a line break as without it. -/
theorem readTree_lineBreak (fuel depth : Nat) (cs : List Char) :
    readTree fuel (lineBreak depth ++ cs) = readTree fuel cs := by
  rw [← readTree_skipBlanks, skipBlanks_lineBreak, readTree_skipBlanks]

/-- What stands behind an item or a member ends a number. -/
theorem endsNumber_lineBreak (depth : Nat) (rest : List Char) : EndsNumber (lineBreak depth ++ rest) :=
  endsNumber_cons _ (by decide)

/-- A first character of a tree: one that is no blank and closes nothing. -/
structure Begins (c : Char) : Prop where
  visible : isBlank c = false
  notBracket : c ≠ ']'
  notBrace : c ≠ '\x7d'

/-- A number begins as a tree does, with a hyphen or a digit. -/
theorem Numeral.Proper.begins {n : Numeral} (h : n.Proper) : ∃ c cs, n.text = c :: cs ∧ Begins c ∧
    ∀ d : Char, d.isDigit = false → d ≠ '-' → c ≠ d := by
  obtain ⟨c, cs, text, first⟩ := h.exists_text_eq
  have other : ∀ d : Char, d.isDigit = false → d ≠ '-' → c ≠ d := by
    rintro d noDigit noSign rfl
    rcases first with sign | digit
    · exact noSign sign
    · rw [digit] at noDigit
      cases noDigit
  refine ⟨c, cs, text, ⟨?_, other _ (by decide) (by decide), other _ (by decide) (by decide)⟩, other⟩
  simp [isBlank, other ' ' (by decide) (by decide), other '\n' (by decide) (by decide),
    other '\t' (by decide) (by decide), other '\r' (by decide) (by decide)]

/-- A number is read at its first character. -/
theorem Numeral.Proper.readTree {n : Numeral} (h : n.Proper) {rest : List Char}
    (ends : EndsNumber rest) (fuel : Nat) :
    readTree (fuel + 1) (n.text ++ rest) = some (.number n, rest) := by
  obtain ⟨c, cs, text, begins, other⟩ := h.begins
  have read := h.readNumeral ends
  rw [text, List.cons_append] at read ⊢
  rw [Json.readTree, skipBlanks_cons _ begins.visible]
  split
  · rename_i e; exact absurd (List.cons.inj e).1 (other _ (by decide) (by decide))
  · rename_i e; exact absurd (List.cons.inj e).1 (other _ (by decide) (by decide))
  · rename_i e; exact absurd (List.cons.inj e).1 (other _ (by decide) (by decide))
  · rename_i e; exact absurd (List.cons.inj e).1 (other _ (by decide) (by decide))
  · rename_i e; exact absurd (List.cons.inj e).1 (other _ (by decide) (by decide))
  · rename_i e; exact absurd (List.cons.inj e).1 (other _ (by decide) (by decide))
  · rw [read]
    rfl

/-- A number in a tree is written as a proper numeral, and what is not finite as nothing. -/
theorem textAt_float (x : Float) (depth : Nat) :
    (∃ n : Numeral, n.Proper ∧ textAt depth (.float x) = n.text ∧ written (.float x) = .number n) ∨
      (textAt depth (.float x) = textAt depth .null ∧ written (.float x) = written .null) := by
  simp only [textAt, written]
  cases finite : isFinite x with
  | true =>
    obtain ⟨n, proper, text⟩ := exists_floatText finite
    refine .inl ⟨n, proper, text, ?_⟩
    rw [if_pos rfl, text, numeralOf_text proper]
  | false =>
    right
    rw [floatText, finite]
    exact ⟨rfl, rfl⟩

/-- An integer in a tree is written as a proper numeral. -/
theorem textAt_int (k : Int) (depth : Nat) : ∃ n : Numeral, n.Proper ∧
    textAt depth (.int k) = n.text ∧ written (.int k) = .number n := by
  obtain ⟨n, proper, text⟩ := exists_intText k
  refine ⟨n, proper, by rw [textAt, text], ?_⟩
  rw [written, text, numeralOf_text proper]

/-- The text of a tree begins as a tree does. -/
theorem begins_textAt (j : Json) (depth : Nat) : ∃ c cs, textAt depth j = c :: cs ∧ Begins c := by
  have null : Begins 'n' := ⟨by decide, by decide, by decide⟩
  cases j with
  | null => exact ⟨_, _, by rw [textAt], null⟩
  | bool b => cases b <;> exact ⟨_, _, by rw [textAt]; rfl, by decide, by decide, by decide⟩
  | int k =>
    obtain ⟨n, proper, text, -⟩ := textAt_int k depth
    obtain ⟨c, cs, first, begins, -⟩ := proper.begins
    exact ⟨c, cs, text.trans first, begins⟩
  | float x =>
    rcases textAt_float x depth with ⟨n, proper, text, -⟩ | ⟨text, -⟩
    · obtain ⟨c, cs, first, begins, -⟩ := proper.begins
      exact ⟨c, cs, text.trans first, begins⟩
    · exact ⟨_, _, by rw [text, textAt], null⟩
  | string text => exact ⟨_, _, by rw [textAt, quote]; rfl, by decide, by decide, by decide⟩
  | array items => cases items <;> exact ⟨_, _, by rw [textAt], by decide, by decide, by decide⟩
  | object members => cases members <;> exact ⟨_, _, by rw [textAt], by decide, by decide, by decide⟩

/-- The text of a tree is not empty. -/
theorem length_textAt_pos (j : Json) (depth : Nat) : 0 < (textAt depth j).length := by
  obtain ⟨c, cs, text, -⟩ := begins_textAt j depth
  rw [text]
  exact Nat.succ_pos _

/-- The items of an array begin with a line break and the first of them. -/
theorem itemsAt_cons (depth : Nat) (item : Json) (items : List Json) :
    itemsAt depth (item :: items) = lineBreak depth ++ (textAt depth item ++
      if items = [] then [] else ',' :: itemsAt depth items) := by
  cases items with
  | nil => simp [itemsAt]
  | cons next items =>
    rw [itemsAt, if_neg (List.cons_ne_nil _ _), List.append_assoc]
    exact List.cons_ne_nil _ _

/-- The members of an object begin with a line break and the first key. -/
theorem membersAt_cons (depth : Nat) (key : String) (value : Json) (members : List (String × Json)) :
    membersAt depth ((key, value) :: members) = lineBreak depth ++ '"' :: (escaped key ++ '"' :: ':' ::
      ' ' :: (textAt depth value ++ if members = [] then [] else ',' :: membersAt depth members)) := by
  cases members with
  | nil => simp [membersAt, quote, escaped]
  | cons next members => simp [membersAt, quote, escaped]

/-- The first item of an array stands behind the blanks. -/
theorem first_itemsAt (depth : Nat) (item : Json) (items : List Json) (cs : List Char) :
    ∃ c tail, skipBlanks (itemsAt depth (item :: items) ++ cs) = c :: tail ∧ Begins c := by
  obtain ⟨c, tail, text, begins⟩ := begins_textAt item depth
  rw [itemsAt_cons, text, List.append_assoc, skipBlanks_lineBreak, List.cons_append, List.cons_append,
    skipBlanks_cons _ begins.visible]
  exact ⟨_, _, rfl, begins⟩

theorem first_membersAt (depth : Nat) (member : String × Json) (members : List (String × Json))
    (cs : List Char) :
    ∃ c tail, skipBlanks (membersAt depth (member :: members) ++ cs) = c :: tail ∧ Begins c := by
  rw [membersAt_cons, List.append_assoc, skipBlanks_lineBreak, List.cons_append,
    skipBlanks_cons _ (by decide)]
  exact ⟨_, _, rfl, by decide, by decide, by decide⟩

/-- An array is read if its items are. -/
theorem readTree_array {fuel : Nat} {cs rest : List Char} {items : List Written}
    (first : ∃ c tail, skipBlanks cs = c :: tail ∧ Begins c)
    (read : readItems fuel cs = some (items, rest)) :
    readTree (fuel + 1) ('[' :: cs) = some (.array items, rest) := by
  obtain ⟨c, tail, first, begins⟩ := first
  rw [← readItems_skipBlanks, first] at read
  have bracket := begins.notBracket
  rw [readTree, skipBlanks_cons _ (by decide)]
  simp only [first]
  split
  · rename_i e
    exact absurd (List.cons.inj e).1 bracket
  · rw [read]
    rfl

/-- An object is read if its members are. -/
theorem readTree_object {fuel : Nat} {cs rest : List Char} {members : List (List Char × Written)}
    (first : ∃ c tail, skipBlanks cs = c :: tail ∧ Begins c)
    (read : readMembers fuel cs = some (members, rest)) :
    readTree (fuel + 1) ('\x7b' :: cs) = some (.object members, rest) := by
  obtain ⟨c, tail, first, begins⟩ := first
  rw [← readMembers_skipBlanks, first] at read
  have brace := begins.notBrace
  rw [readTree, skipBlanks_cons _ (by decide)]
  simp only [first]
  split
  · rename_i e
    exact absurd (List.cons.inj e).1 brace
  · rw [read]
    rfl

/-- A key is read with the colon behind it, and then its value. -/
theorem readMembers_key {fuel : Nat} {key : String} {value : Written} {cs rest : List Char}
    (read : readTree fuel cs = some (value, rest)) :
    readMembers (fuel + 1) ('"' :: (escaped key ++ '"' :: ':' :: ' ' :: cs)) =
      match skipBlanks rest with
      | ',' :: cs =>
        (readMembers fuel cs).map fun (members, rest) => ((escaped key, value) :: members, rest)
      | '\x7d' :: cs => some ([(escaped key, value)], cs)
      | _ => none := by
  have body : readBody (escaped key ++ '"' :: ':' :: ' ' :: cs) =
      some (escaped key, ':' :: ' ' :: cs) := readBody_escaped _ _
  have blank : readTree fuel (' ' :: cs) = readTree fuel cs := by
    rw [← readTree_skipBlanks, ← readTree_skipBlanks fuel cs]
    rfl
  rw [readMembers, skipBlanks_cons _ (by decide)]
  simp only [body, Option.bind_eq_bind, Option.bind_some]
  rw [skipBlanks_cons _ (by decide)]
  show (readTree fuel (' ' :: cs)).bind _ = _
  rw [blank, read]
  rfl

mutual

/-- The text of a tree is read as its written form, wherever it stands. -/
theorem readTree_textAt : ∀ (j : Json) (depth fuel : Nat) (rest : List Char),
    (textAt depth j).length ≤ fuel → EndsNumber rest →
      readTree fuel (textAt depth j ++ rest) = some (written j, rest)
  | j, depth, 0, rest, enough, ends => absurd enough (Nat.not_le.2 (length_textAt_pos j depth))
  | .null, depth, fuel + 1, rest, enough, ends => by
    rw [textAt, written]
    rfl
  | .bool b, depth, fuel + 1, rest, enough, ends => by cases b <;> rfl
  | .int k, depth, fuel + 1, rest, enough, ends => by
    obtain ⟨n, proper, text, form⟩ := textAt_int k depth
    rw [text, form, proper.readTree ends]
  | .float x, depth, fuel + 1, rest, enough, ends => by
    rcases textAt_float x depth with ⟨n, proper, text, form⟩ | ⟨text, form⟩
    · rw [text, form, proper.readTree ends]
    · rw [text, form, textAt, written]
      rfl
  | .string text, depth, fuel + 1, rest, enough, ends => by
    have body := readBody_escaped text.toList rest
    rw [textAt, written, quote, readTree, List.cons_append, List.cons_append,
      skipBlanks_cons _ (by decide), List.append_assoc, List.singleton_append]
    simp only [body]
    rfl
  | .array [], depth, fuel + 1, rest, enough, ends => by
    rw [textAt, written, writtenItems]
    rfl
  | .array (item :: items), depth, fuel + 1, rest, enough, ends => by
    rw [textAt, List.length_cons, List.length_append, List.length_append] at enough
    rw [textAt, written, List.cons_append, List.append_assoc, List.append_assoc]
    apply readTree_array (first_itemsAt _ _ _ _)
    exact readItems_itemsAt item items (depth + 1) depth fuel rest (by omega)
  | .object [], depth, fuel + 1, rest, enough, ends => by
    rw [textAt, written, writtenMembers]
    rfl
  | .object (member :: members), depth, fuel + 1, rest, enough, ends => by
    rw [textAt, List.length_cons, List.length_append, List.length_append] at enough
    rw [textAt, written, List.cons_append, List.append_assoc, List.append_assoc]
    apply readTree_object (first_membersAt _ _ _ _)
    exact readMembers_membersAt member members (depth + 1) depth fuel rest (by omega)
termination_by structural _ _ fuel => fuel

/-- The items of an array are read up to its bracket. -/
theorem readItems_itemsAt : ∀ (item : Json) (items : List Json) (depth outer fuel : Nat)
    (rest : List Char), (itemsAt depth (item :: items)).length ≤ fuel →
      readItems fuel (itemsAt depth (item :: items) ++ (lineBreak outer ++ ']' :: rest)) =
        some (writtenItems (item :: items), rest)
  | item, items, depth, outer, 0, rest, enough => by
    simp [itemsAt_cons, lineBreak] at enough
  | item, [], depth, outer, fuel + 1, rest, enough => by
    rw [itemsAt_cons, lineBreak, List.length_append, List.length_append, List.length_cons] at enough
    have first := readTree_textAt item depth fuel (lineBreak outer ++ ']' :: rest) (by omega)
      (endsNumber_lineBreak _ _)
    rw [itemsAt_cons, if_pos rfl, List.append_nil, List.append_assoc, readItems,
      readTree_lineBreak, first]
    simp only [Option.bind_eq_bind, Option.bind_some]
    rw [skipBlanks_lineBreak, skipBlanks_cons _ (by decide)]
    rfl
  | item, next :: items, depth, outer, fuel + 1, rest, enough => by
    rw [itemsAt_cons, if_neg (List.cons_ne_nil _ _), lineBreak, List.length_append, List.length_append,
      List.length_cons, List.length_cons] at enough
    have others := readItems_itemsAt next items depth outer fuel rest (by omega)
    have first := readTree_textAt item depth fuel
      (',' :: (itemsAt depth (next :: items) ++ (lineBreak outer ++ ']' :: rest))) (by omega)
      (endsNumber_cons _ (by decide))
    rw [itemsAt_cons, if_neg (List.cons_ne_nil _ _), List.append_assoc, readItems, readTree_lineBreak,
      List.append_assoc, List.cons_append, first]
    simp only [Option.bind_eq_bind, Option.bind_some]
    rw [skipBlanks_cons _ (by decide)]
    simp only [others]
    rfl
termination_by structural _ _ _ _ fuel => fuel

/-- The members of an object are read up to its brace. -/
theorem readMembers_membersAt : ∀ (member : String × Json) (members : List (String × Json))
    (depth outer fuel : Nat) (rest : List Char), (membersAt depth (member :: members)).length ≤ fuel →
      readMembers fuel (membersAt depth (member :: members) ++ (lineBreak outer ++ '\x7d' :: rest)) =
        some (writtenMembers (member :: members), rest)
  | (key, value), members, depth, outer, 0, rest, enough => by
    simp [membersAt_cons, lineBreak] at enough
  | (key, value), [], depth, outer, fuel + 1, rest, enough => by
    simp only [membersAt_cons, lineBreak, List.length_append, List.length_cons] at enough
    have first := readTree_textAt value depth fuel (lineBreak outer ++ '\x7d' :: rest) (by omega)
      (endsNumber_lineBreak _ _)
    rw [membersAt_cons, if_pos rfl, List.append_nil, List.append_assoc, ← readMembers_skipBlanks,
      skipBlanks_lineBreak, readMembers_skipBlanks]
    simp only [List.cons_append, List.append_assoc]
    rw [readMembers_key first, skipBlanks_lineBreak, skipBlanks_cons _ (by decide)]
    rfl
  | (key, value), next :: members, depth, outer, fuel + 1, rest, enough => by
    simp only [membersAt_cons depth key, if_neg (List.cons_ne_nil next members), lineBreak,
      List.length_append, List.length_cons] at enough
    have others := readMembers_membersAt next members depth outer fuel rest (by omega)
    have first := readTree_textAt value depth fuel
      (',' :: (membersAt depth (next :: members) ++ (lineBreak outer ++ '\x7d' :: rest))) (by omega)
      (endsNumber_cons _ (by decide))
    rw [membersAt_cons, if_neg (List.cons_ne_nil _ _), List.append_assoc, ← readMembers_skipBlanks,
      skipBlanks_lineBreak, readMembers_skipBlanks]
    simp only [List.cons_append, List.append_assoc]
    rw [readMembers_key first, skipBlanks_cons _ (by decide)]
    simp only [others]
    rfl
termination_by structural _ _ _ _ fuel => fuel

end

/-- The text of a tree at any depth is read as its written form, also if blanks follow. -/
theorem readWritten?_textAt_append (j : Json) (depth : Nat) {rest : List Char}
    (ends : EndsNumber rest) (blank : skipBlanks rest = []) :
    readWritten? (textAt depth j ++ rest) = some (written j) := by
  have enough : (textAt depth j).length ≤ 2 * (textAt depth j ++ rest).length + 2 := by
    rw [List.length_append]
    omega
  rw [readWritten?, readTree_textAt j depth _ rest enough ends]
  show (if (skipBlanks rest).isEmpty then some (written j) else none) = _
  rw [blank]
  rfl

/-- The text of a tree at any depth is read as its written form. -/
theorem readWritten?_textAt (j : Json) (depth : Nat) :
    readWritten? (textAt depth j) = some (written j) := by
  have ends : EndsNumber [] := nofun
  have read := readWritten?_textAt_append j depth ends rfl
  rwa [List.append_nil] at read

end BlockEditor.Json
