import BlockEditor.Proofs.Dissection
import BlockEditor.Proofs.Lexemes

/-!
# String literals

A string literal is one lexeme of the layout and, without the letters in front of it, one token of
the grammar, whatever stands behind it.  Only two quotes that hold nothing must not stand in front of
a third one.
-/

namespace BlockEditor

open Text

namespace Lexeme

/-! ## Literals -/

/-- A text is a string literal between single or triple quotes. -/
inductive IsLiteral (quote : Char) : List Char → Prop
  | short {body : List Char} : IsQuote quote → ShortBody quote body →
    IsLiteral quote (quote :: (body ++ [quote]))
  | long {body : List Char} : IsQuote quote → LongBody quote body →
    IsLiteral quote (quote :: quote :: quote :: (body ++ [quote, quote, quote]))

/-- A text may stand behind a literal: two quotes that hold nothing end there. -/
def Parts (quote : Char) (literal rest : List Char) : Prop :=
  literal = [quote, quote] → rest.head? ≠ some quote

namespace IsLiteral

variable {quote : Char} {literal : List Char}

/-- A literal has one of the two quotes. -/
theorem isQuote (h : IsLiteral quote literal) : IsQuote quote := by
  cases h <;> assumption

/-- It begins with its quote. -/
theorem exists_cons (h : IsLiteral quote literal) : ∃ tail, literal = quote :: tail := by
  cases h <;> exact ⟨_, rfl⟩

/-- It ends with its quote. -/
theorem getLast?_eq (h : IsLiteral quote literal) : literal.getLast? = some quote := by
  cases h with
  | short => rw [← List.cons_append, List.getLast?_concat]
  | @long body =>
    have snoc : quote :: quote :: quote :: (body ++ [quote, quote, quote]) =
        (quote :: quote :: quote :: (body ++ [quote, quote])) ++ [quote] := by simp
    rw [snoc, List.getLast?_concat]

end IsLiteral

/-- No quote is a backslash. -/
theorem IsQuote.ne_backslash {quote : Char} (h : IsQuote quote) : quote ≠ '\\' := by
  rcases h with rfl | rfl <;> decide

/-- A body between single quotes does not begin with its quote. -/
theorem ShortBody.head?_ne {quote : Char} {body : List Char} (h : ShortBody quote body)
    (isQuote : IsQuote quote) : body.head? ≠ some quote := by
  cases h with
  | nil => exact nofun
  | plain other => simpa using other
  | escaped => simpa using isQuote.ne_backslash.symm

/-- A literal between single quotes is no start of one between triple quotes. -/
theorem dropLead_triple {quote : Char} {body rest : List Char} (isQuote : IsQuote quote)
    (formed : ShortBody quote body) (parts : Parts quote (quote :: (body ++ [quote])) rest) :
    dropLead [quote, quote, quote] (quote :: (body ++ quote :: rest)) = none := by
  cases body with
  | nil =>
    have other : rest.head? ≠ some quote := parts rfl
    cases rest with
    | nil => simp [dropLead]
    | cons c rest =>
      have differs : quote ≠ c := fun same => other (by rw [same]; rfl)
      simp [dropLead, differs]
  | cons c body =>
    have differs : quote ≠ c := fun same => formed.head?_ne isQuote (by rw [same]; rfl)
    simp [dropLead, differs]

/-! ## Literals in the layout -/

/-- The layout finds the end of a literal between single quotes. -/
theorem ShortBody.shortString? {quote : Char} {body : List Char} (h : ShortBody quote body)
    (isQuote : IsQuote quote) (rest : List Char) :
    shortString? quote (body ++ quote :: rest) = some (body ++ [quote], rest) := by
  have noFeed : quote ≠ '\n' := by rcases isQuote with rfl | rfl <;> decide
  induction h with
  | nil =>
    rw [List.nil_append, Lexeme.shortString?, if_neg (not_or.2 ⟨noFeed, isQuote.ne_backslash⟩),
      if_pos rfl, List.nil_append]
    rintro d tail rfl
    exact absurd rfl isQuote.ne_backslash
  | @plain c cs other noEscape noEnd _ ih =>
    rw [List.cons_append, Lexeme.shortString?, if_neg (not_or.2 ⟨noEnd, noEscape⟩), if_neg other, ih]
    · rfl
    · rintro d tail rfl
      exact absurd rfl noEscape
  | escaped _ ih =>
    rw [List.cons_append, List.cons_append, Lexeme.shortString?, ih]
    rfl

/-- Three quotes that begin in a body begin in front of its closing quotes. -/
theorem not_triple_append {quote c : Char} {cs : List Char}
    (opens : ¬ [quote, quote, quote] <+: c :: cs ++ [quote, quote, quote]) (rest : List Char) :
    ¬ [quote, quote, quote] <+: c :: (cs ++ quote :: quote :: quote :: rest) := by
  intro begins
  have whole : c :: (cs ++ quote :: quote :: quote :: rest) =
      c :: cs ++ [quote, quote, quote] ++ rest := by simp
  rw [whole] at begins
  exact opens (List.prefix_of_prefix_length_le begins (List.prefix_append _ _) (by simp))

/-- It finds the end of one between triple quotes. -/
theorem LongBody.longString? {quote : Char} {body : List Char} (h : LongBody quote body)
    (isQuote : IsQuote quote) (rest : List Char) :
    longString? quote (body ++ quote :: quote :: quote :: rest) =
      some (body ++ [quote, quote, quote], rest) := by
  induction h with
  | nil =>
    rw [List.nil_append, Lexeme.longString?, if_pos ⟨rfl, rfl, rfl⟩, List.nil_append]
    exact isQuote.ne_backslash
  | @plain c cs noEscape opens _ ih =>
    -- at least the closing quotes stand behind the character
    obtain ⟨d, e, tail, split⟩ : ∃ d e tail,
        cs ++ quote :: quote :: quote :: rest = d :: e :: tail := by
      match cs with
      | [] => exact ⟨_, _, _, rfl⟩
      | [d] => exact ⟨_, _, _, rfl⟩
      | d :: e :: cs => exact ⟨_, _, _, rfl⟩
    have inside : ¬ (c = quote ∧ d = quote ∧ e = quote) := by
      rintro ⟨rfl, rfl, rfl⟩
      have opens := not_triple_append opens rest
      rw [split] at opens
      exact opens ⟨tail, rfl⟩
    rw [split] at ih
    rw [List.cons_append, split, Lexeme.longString?, if_neg inside, ih]
    · rfl
    · exact noEscape
  | escaped _ ih =>
    rw [List.cons_append, List.cons_append, Lexeme.longString?, ih]
    rfl

/-- A literal is the lexeme at its place. -/
theorem IsLiteral.string {quote : Char} {literal rest : List Char} (h : IsLiteral quote literal)
    (parts : Parts quote literal rest) :
    string quote (literal ++ rest) = (⟨.string, literal⟩, rest) := by
  cases h with
  | @short body isQuote formed =>
    have short : string.short quote (quote :: (body ++ quote :: rest)) =
        (⟨.string, quote :: (body ++ [quote])⟩, rest) := by
      rw [string.short]
      simp only [formed.shortString? isQuote rest]
    have noTriple := dropLead_triple isQuote formed parts
    rw [List.cons_append, List.append_assoc, List.singleton_append]
    generalize body ++ quote :: rest = tail at short noTriple ⊢
    match tail with
    | [] => exact short
    | [d] => exact short
    | d :: e :: tail =>
      have single : ¬ (d = quote ∧ e = quote) := by
        rintro ⟨rfl, rfl⟩
        simp [dropLead] at noTriple
      rw [Lexeme.string, if_neg single]
      exact short
  | @long body isQuote formed =>
    have found := formed.longString? isQuote rest
    simp only [List.cons_append, List.append_assoc, List.nil_append]
    rw [Lexeme.string, if_pos ⟨rfl, rfl⟩, found]

/-- What the layout finds as a literal is one, and it ends where it may end. -/
theorem isLiteral_of_string {quote : Char} (isQuote : IsQuote quote) {cs literal rest : List Char}
    (h : string quote (quote :: cs) = (⟨.string, literal⟩, rest)) :
    IsLiteral quote literal ∧ quote :: cs = literal ++ rest ∧ Parts quote literal rest := by
  have ofShort : string.short quote (quote :: cs) = (⟨.string, literal⟩, rest) →
      IsLiteral quote literal ∧ quote :: cs = literal ++ rest := by
    intro h
    rw [string.short] at h
    cases found : shortString? quote cs with
    | none => rw [found] at h; cases h
    | some x =>
      obtain ⟨taken, behind⟩ := x
      rw [found] at h
      cases h
      obtain ⟨rfl, body, rfl, formed⟩ := shortString?_eq_some found
      exact ⟨.short isQuote formed, rfl⟩
  -- Two further quotes make the literal one between triple quotes, so two characters are looked
  -- at.
  match cs with
  | [] => exact (ofShort h).elim fun formed whole => ⟨formed, whole, fun two => by simp [two] at whole⟩
  | [d] =>
    obtain ⟨formed, whole⟩ := ofShort h
    refine ⟨formed, whole, fun two => ?_⟩
    rw [two] at whole
    have none : rest = [] := by simpa using congrArg (List.drop 2) whole.symm
    rw [none]
    exact nofun
  | d :: e :: cs =>
    rw [Lexeme.string] at h
    split at h
    case isTrue triple =>
      obtain ⟨rfl, rfl⟩ : quote = d ∧ quote = e := ⟨triple.1.symm, triple.2.symm⟩
      cases found : longString? quote cs with
      | none => rw [found] at h; cases h
      | some x =>
        obtain ⟨taken, behind⟩ := x
        rw [found] at h
        cases h
        obtain ⟨rfl, body, rfl, formed⟩ := longString?_eq_some found
        refine ⟨.long isQuote formed, by simp, fun two => by simp at two⟩
    case isFalse single =>
      obtain ⟨formed, whole⟩ := ofShort h
      refine ⟨formed, whole, fun two => ?_⟩
      rw [two] at whole
      cases whole
      exact fun head => single ⟨rfl, Option.some.inj head⟩

end Lexeme

/-! ## Literals in the grammar -/

open Lexeme

namespace Pattern

/-- What may stand between single quotes, one item at a time. -/
def shortItem (quote : Char) : Pattern :=
  .alt escapePair (.seq (.absent (.alt (.text [quote]) (.text ['\n']))) (.one .any))

/-- What may stand between triple quotes, one item at a time. -/
def longItem (quote : Char) : Pattern :=
  .alt escapePair (.seq (.absent (.text [quote, quote, quote])) (.one .any))

/-- A literal between single quotes. -/
def short (quote : Char) : Pattern :=
  .seq (.seq (.text [quote]) (.many (shortItem quote))) (.text [quote])

/-- A literal between triple quotes. -/
def long (quote : Char) : Pattern :=
  .seq (.seq (.text [quote, quote, quote]) (.many (longItem quote))) (.text [quote, quote, quote])

end Pattern

open Pattern (shortItem longItem)

theorem quotesPattern_eq :
    quotesPattern = .alt (.long '"') (.alt (.long '\'') (.alt (.short '"') (.short '\''))) := rfl

theorem scan_escapePair (c : Char) (cs : List Char) :
    escapePair.scan ('\\' :: c :: cs) = some (['\\', c], cs) := rfl

/-- A character that is no backslash begins no escape. -/
theorem scan_escapePair_eq_none {c : Char} (plain : c ≠ '\\') (cs : List Char) :
    escapePair.scan (c :: cs) = none := by
  show (Pattern.seq (.text ['\\']) (.one .any)).scan (c :: cs) = none
  simp [Pattern.scan, dropLead, Ne.symm plain]

namespace Lexeme

variable {quote : Char} {body : List Char}

/-- The grammar takes the body of a literal between single quotes. -/
theorem ShortBody.scan_many (h : ShortBody quote body) (isQuote : IsQuote quote)
    (rest : List Char) :
    (Pattern.many (shortItem quote)).scan (body ++ quote :: rest) = some (body, quote :: rest) := by
  induction h with
  | nil =>
    apply Pattern.scan_many_none
    rw [List.nil_append, shortItem, Pattern.scan_alt, scan_escapePair_eq_none isQuote.ne_backslash]
    simp [Pattern.scan, dropLead]
  | @plain c cs other noEscape noEnd _ ih =>
    have item : (shortItem quote).scan (c :: (cs ++ quote :: rest)) =
        some ([c], cs ++ quote :: rest) := by
      rw [shortItem, Pattern.scan_alt, scan_escapePair_eq_none noEscape]
      simp [Pattern.scan, dropLead, Ne.symm other, Ne.symm noEnd, CharClass.holds]
    rw [List.cons_append, Pattern.scan_many_cons item (List.cons_ne_nil _ _), ih]
    rfl
  | @escaped c cs _ ih =>
    have item : (shortItem quote).scan ('\\' :: c :: (cs ++ quote :: rest)) =
        some (['\\', c], cs ++ quote :: rest) := by
      rw [shortItem, Pattern.scan_alt, scan_escapePair, Option.some_or]
    rw [List.cons_append, List.cons_append, Pattern.scan_many_cons item (List.cons_ne_nil _ _), ih]
    rfl

/-- It takes the body of one between triple quotes. -/
theorem LongBody.scan_many (h : LongBody quote body) (isQuote : IsQuote quote)
    (rest : List Char) :
    (Pattern.many (longItem quote)).scan (body ++ quote :: quote :: quote :: rest) =
      some (body, quote :: quote :: quote :: rest) := by
  induction h with
  | nil =>
    apply Pattern.scan_many_none
    rw [List.nil_append, longItem, Pattern.scan_alt, scan_escapePair_eq_none isQuote.ne_backslash]
    simp [Pattern.scan, dropLead]
  | @plain c cs noEscape opens _ ih =>
    have refused : dropLead [quote, quote, quote]
        (c :: (cs ++ quote :: quote :: quote :: rest)) = none := by
      rw [Option.eq_none_iff_forall_ne_some]
      intro tail found
      exact not_triple_append opens rest ⟨tail, ((dropLead_eq_some_iff _ _ _).1 found).symm⟩
    have item : (longItem quote).scan (c :: (cs ++ quote :: quote :: quote :: rest)) =
        some ([c], cs ++ quote :: quote :: quote :: rest) := by
      rw [longItem, Pattern.scan_alt, scan_escapePair_eq_none noEscape]
      simp [Pattern.scan, refused, CharClass.holds]
    rw [List.cons_append, Pattern.scan_many_cons item (List.cons_ne_nil _ _), ih]
    rfl
  | @escaped c cs _ ih =>
    have item : (longItem quote).scan ('\\' :: c :: (cs ++ quote :: quote :: quote :: rest)) =
        some (['\\', c], cs ++ quote :: quote :: quote :: rest) := by
      rw [longItem, Pattern.scan_alt, scan_escapePair, Option.some_or]
    rw [List.cons_append, List.cons_append, Pattern.scan_many_cons item (List.cons_ne_nil _ _), ih]
    rfl

/-- A literal is a string without letters, whatever stands behind it. -/
theorem IsLiteral.scan_quotes {literal rest : List Char} (h : IsLiteral quote literal)
    (parts : Parts quote literal rest) :
    quotesPattern.scan (literal ++ rest) = some (literal, rest) := by
  -- the other quote opens nothing here
  have others {cs : List Char} (other : Char) (differs : other ≠ quote) :
      (Pattern.short other).scan (quote :: cs) = none ∧
        (Pattern.long other).scan (quote :: cs) = none := by
    constructor <;> simp [Pattern.short, Pattern.long, Pattern.scan, dropLead, differs]
  cases h with
  | @short body isQuote formed =>
    have noLong : (Pattern.long quote).scan (quote :: (body ++ quote :: rest)) = none := by
      rw [Pattern.long, Pattern.scan_seq, Pattern.scan_seq, Pattern.scan,
        dropLead_triple isQuote formed parts]
      rfl
    have found : (Pattern.short quote).scan (quote :: (body ++ quote :: rest)) =
        some (quote :: (body ++ [quote]), rest) := by
      have opening : (Pattern.text [quote]).scan (quote :: (body ++ quote :: rest)) =
          some ([quote], body ++ quote :: rest) := by simp [Pattern.scan, dropLead]
      have closing : (Pattern.text [quote]).scan (quote :: rest) = some ([quote], rest) := by
        simp [Pattern.scan, dropLead]
      rw [Pattern.short, Pattern.scan_seq, Pattern.scan_seq, opening]
      simp only [formed.scan_many isQuote, closing]
      rfl
    rw [List.cons_append, List.append_assoc, List.singleton_append, quotesPattern_eq]
    rcases isQuote with rfl | rfl
    · have single := @others (body ++ '"' :: rest) '\'' (by decide)
      simp only [Pattern.scan_alt, noLong, single, found, Option.none_or, Option.some_or]
    · have double := @others (body ++ '\'' :: rest) '"' (by decide)
      simp only [Pattern.scan_alt, noLong, double, found, Option.none_or]
  | @long body isQuote formed =>
    have found : (Pattern.long quote).scan (quote :: quote :: quote :: (body ++
        quote :: quote :: quote :: rest)) =
          some (quote :: quote :: quote :: (body ++ [quote, quote, quote]), rest) := by
      have opening (cs : List Char) : (Pattern.text [quote, quote, quote]).scan
          (quote :: quote :: quote :: cs) = some ([quote, quote, quote], cs) := by
        simp [Pattern.scan, dropLead]
      rw [Pattern.long, Pattern.scan_seq, Pattern.scan_seq, opening]
      simp only [formed.scan_many isQuote, opening]
      rfl
    simp only [List.cons_append, List.append_assoc, List.nil_append]
    rw [quotesPattern_eq]
    rcases isQuote with rfl | rfl
    · rw [Pattern.scan_alt, found, Option.some_or]
    · rw [Pattern.scan_alt, (others '"' (by decide)).2, Option.none_or, Pattern.scan_alt, found,
        Option.some_or]

end Lexeme

end BlockEditor
