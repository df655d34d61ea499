import BlockEditor.Proofs.StringLiterals

/-!
# Quoted texts

The literal of a text is one token for the layout of a source and for the grammar of lines, and it
denotes the text.
-/

namespace BlockEditor

open Lexeme

/-! ## Bodies of literals -/

/-- The two digits of an escape by code point are no marks. -/
theorem hexDigit_plain {quote : Char} (isQuote : IsQuote quote) (n : Nat) (below : n < 16) :
    Text.hexDigit n ≠ quote ∧ Text.hexDigit n ≠ '\\' ∧ Text.hexDigit n ≠ '\n' := by
  have all : ∀ n < 16,
      (['"', '\'', '\\', '\n'].all fun mark => Text.hexDigit n ≠ mark) = true := by decide
  have apart : ∀ mark ∈ ['"', '\'', '\\', '\n'], Text.hexDigit n ≠ mark := by
    simpa using all n below
  rcases isQuote with rfl | rfl <;>
    exact ⟨apart _ (by decide), apart _ (by decide), apart _ (by decide)⟩

/-- An encoded character in front of a body makes a longer one. -/
theorem shortBody_encodeChar {quote : Char} (isQuote : IsQuote quote) (c : Char) {cs : List Char}
    (h : ShortBody quote cs) : ShortBody quote (Text.encodeChar quote c ++ cs) := by
  unfold Text.encodeChar
  split
  · exact .escaped h
  · rename_i noBackslash
    split
    · exact .escaped h
    · rename_i noQuote
      split
      · exact .escaped h
      · rename_i noLineFeed
        split
        · exact .escaped h
        · split
          · exact .escaped h
          · split
            · rename_i control
              obtain ⟨noQuote, noEscape, noEnd⟩ :=
                hexDigit_plain isQuote (c.toNat / 16) (by omega)
              obtain ⟨noQuote', noEscape', noEnd'⟩ :=
                hexDigit_plain isQuote (c.toNat % 16) (Nat.mod_lt _ (by decide))
              exact .escaped (.plain noQuote noEscape noEnd (.plain noQuote' noEscape' noEnd' h))
            · exact .plain noQuote noBackslash noLineFeed h

/-- An encoded text can stand between its quotes. -/
theorem shortBody_encode {quote : Char} (isQuote : IsQuote quote) (cs : List Char) :
    ShortBody quote (cs.flatMap (Text.encodeChar quote)) := by
  induction cs with
  | nil => exact .nil
  | cons c cs ih =>
    rw [List.flatMap_cons]
    exact shortBody_encodeChar isQuote c ih

/-- The literal of a text. -/
theorem isLiteral_encodeQuoted {quote : Char} (isQuote : IsQuote quote) (cs : List Char) :
    IsLiteral quote (Text.encodeQuoted quote cs) :=
  .short isQuote (shortBody_encode isQuote cs)

/-- A text behind a literal that does not begin with a quote. -/
theorem parts_of_head? {quote : Char} {literal rest : List Char}
    (after : ∀ c ∈ rest.head?, c ≠ quote) : Parts quote literal rest :=
  fun _ head => after quote head rfl

/-! ## Literals as tokens -/

/-- A literal is one token of a line. -/
theorem scan_string_encodeQuoted {quote : Char} (isQuote : IsQuote quote) (cs : List Char)
    {rest : List Char} (after : ∀ c ∈ rest.head?, c ≠ quote) :
    stringPattern.scan (Text.encodeQuoted quote cs ++ rest) =
      some (Text.encodeQuoted quote cs, rest) := by
  have quoted := (isLiteral_encodeQuoted isQuote cs).scan_quotes (parts_of_head? after)
  have letters : (Pattern.opt stringLetters).scan (Text.encodeQuoted quote cs ++ rest) =
      some ([], Text.encodeQuoted quote cs ++ rest) := by
    rcases isQuote with rfl | rfl <;> rfl
  show ((Pattern.opt stringLetters).seq quotesPattern).scan _ = _
  rw [Pattern.scan_seq, letters]
  simp only [quoted, List.nil_append]

/-- The literal of a text fits the hole for a quoted text. -/
theorem fits_encodeQuoted (cs : List Char) : Hole.quoted.Fits (Text.encodeQuoted '\'' cs) where
  starts := ⟨'\'', _, rfl, rfl⟩
  taken := by
    intro t fits rest stop
    obtain rfl : t = .string := by cases t <;> first | rfl | cases fits
    refine scan_string_encodeQuoted (.inr rfl) cs fun c head => ?_
    have among := stop c head
    rintro rfl
    revert among
    decide
  refused := by
    intro t fits
    cases t <;> cases fits

/-! ## Literals in the layout -/

/-- A literal is one lexeme of the layout. -/
theorem next_encodeQuoted {quote : Char} (isQuote : IsQuote quote) (cs : List Char)
    {rest : List Char} (after : ∀ c ∈ rest.head?, c ≠ quote) :
    Lexeme.next quote (cs.flatMap (Text.encodeChar quote) ++ quote :: rest) =
      (⟨.string, Text.encodeQuoted quote cs⟩, rest) := by
  have found := (isLiteral_encodeQuoted isQuote cs).string (parts_of_head? after)
  have whole : Text.encodeQuoted quote cs ++ rest =
      quote :: (cs.flatMap (Text.encodeChar quote) ++ quote :: rest) := by simp [Text.encodeQuoted]
  rw [whole] at found
  rcases isQuote with rfl | rfl <;> exact found

/-! ## The text of a literal -/

namespace Text

/-- A digit that was written is read back. -/
theorem hexValue?_hexDigit (n : Nat) (below : n < 16) : hexValue? (hexDigit n) = some n := by
  have all : ∀ n < 16, hexValue? (hexDigit n) = some n := by decide
  exact all n below

/-- Decoding takes back the encoding of one character in one step. -/
theorem decodeWithin_encodeChar {quote : Char} (isQuote : IsQuote quote) (c : Char)
    (cs : List Char) (fuel : Nat) :
    decodeWithin (fuel + 1) (encodeChar quote c ++ cs) = c :: decodeWithin fuel cs := by
  unfold encodeChar
  split
  · subst_vars; rfl
  rename_i noBackslash
  split
  · subst_vars
    rcases isQuote with rfl | rfl <;> rfl
  split
  · subst_vars; rfl
  split
  · subst_vars; rfl
  split
  · subst_vars; rfl
  split
  -- The one escape by code point: a control is written with two hexadecimal digits.
  · rename_i control
    have high := hexValue?_hexDigit (c.toNat / 16) (by omega)
    have low := hexValue?_hexDigit (c.toNat % 16) (by omega)
    have run : hexRun 2 (hexDigit (c.toNat / 16) :: hexDigit (c.toNat % 16) :: cs) =
        ([hexDigit (c.toNat / 16), hexDigit (c.toNat % 16)], cs) := by
      cases cs <;> simp [hexRun, high, low]
    have number : hexNumber [hexDigit (c.toNat / 16), hexDigit (c.toNat % 16)] = c.toNat := by
      simp only [hexNumber, List.foldl_cons, List.foldl_nil, high, low, Option.getD_some]
      omega
    show decodeCodePoint 'x' 2
        (hexRun 2 (hexDigit (c.toNat / 16) :: hexDigit (c.toNat % 16) :: cs)).1 ++
      decodeWithin fuel
        (hexRun 2 (hexDigit (c.toNat / 16) :: hexDigit (c.toNat % 16) :: cs)).2 = _
    rw [run]
    simp only [decodeCodePoint, number]
    rw [if_pos ⟨rfl, c.valid⟩, Char.ofNat_toNat]
    rfl
  · rw [List.cons_append, List.nil_append, decodeWithin]
    · rintro rfl
      exact absurd rfl noBackslash
    · rintro d tail rfl
      exact absurd rfl noBackslash

/-- Decoding takes back the encoding of a text. -/
theorem decodeEscapes_encode {quote : Char} (isQuote : IsQuote quote) (cs : List Char) :
    decodeEscapes (cs.flatMap (encodeChar quote)) = cs := by
  have enough : ∀ cs : List Char, cs.length ≤ (cs.flatMap (encodeChar quote)).length := by
    intro cs
    induction cs with
    | nil => exact Nat.le_refl 0
    | cons c cs ih =>
      have some : 1 ≤ (encodeChar quote c).length := by
        unfold encodeChar
        repeat' split
        all_goals simp
      rw [List.flatMap_cons, List.length_append, List.length_cons]
      omega
  have decode : ∀ (cs : List Char) (fuel : Nat), cs.length ≤ fuel →
      decodeWithin fuel (cs.flatMap (encodeChar quote)) = cs := by
    intro cs
    induction cs with
    | nil => intro fuel _; cases fuel <;> rfl
    | cons c cs ih =>
      intro fuel short
      obtain ⟨fuel, rfl⟩ : ∃ n, fuel = n + 1 := ⟨fuel - 1, by simp at short; omega⟩
      rw [List.flatMap_cons, decodeWithin_encodeChar isQuote, ih fuel (by simpa using short)]
  exact decode cs _ (enough cs)

end Text

/-- A literal splits into no letters and its body. -/
theorem splitString_quoted {quote : Char} (isQuote : IsQuote quote) {body : List Char}
    (h : ShortBody quote body) : splitString (quote :: (body ++ [quote])) = ([], body) := by
  have single := h.head?_ne isQuote
  match body with
  | [] => rcases isQuote with rfl | rfl <;> rfl
  | [c] => rcases isQuote with rfl | rfl <;> simp [splitString]
  | c :: d :: body =>
    have other : quote ≠ c := by simpa using Ne.symm single
    rcases isQuote with rfl | rfl <;> cases body <;> simp [splitString, other]

/-- The expression of a literal is its text. -/
theorem stringExpr_encodeQuoted {quote : Char} (isQuote : IsQuote quote) (span : Span)
    (text : String) :
    stringExpr span [Text.encodeQuoted quote text.toList] = .constant span (.str text) := by
  have literal :
      stringText (Text.encodeQuoted quote text.toList) = ⟨text.toList, false, false⟩ := by
    rw [Text.encodeQuoted, List.cons_append, stringText,
      splitString_quoted isQuote (shortBody_encode isQuote text.toList)]
    simp [Text.decodeEscapes_encode isQuote]
  simp [stringExpr, literal, StringText.append]

end BlockEditor
