import BlockEditor.Proofs.Outline
import BlockEditor.Syntax.Literal
import Mathlib.Data.List.TakeWhile

/-!
# Tokens in generated lines

Identifiers, numbers without an exponent and quoted texts are read as one token each, whatever
stands behind the stop that follows them.
-/

namespace BlockEditor

/-! ## Scanning up to a stop -/

namespace Pattern

/-- Whether a pattern never takes a character that is a stop. -/
def avoidsStops : Pattern → Bool
  | text t => t.all fun c => !(stops.contains c)
  | one k => stops.all fun c => !k.holds c
  | seq p q | alt p q => p.avoidsStops && q.avoidsStops
  | opt p | many p | absent p => p.avoidsStops

/-- A pattern never takes a character of some kind. -/
def Avoids (stop : Char → Prop) : Pattern → Prop
  | text t => ∀ c ∈ t, ¬ stop c
  | one k => ∀ c, stop c → k.holds c = false
  | seq p q | alt p q => p.Avoids stop ∧ q.Avoids stop
  | opt p | many p | absent p => p.Avoids stop

/-- A pattern that never takes a stop avoids the stops. -/
theorem avoids_of_avoidsStops {p : Pattern} (h : p.avoidsStops = true) : p.Avoids (· ∈ stops) := by
  induction p with
  | text t =>
    intro c member stop
    simpa [stop] using List.all_eq_true.1 h c member
  | one k =>
    intro c stop
    simpa using List.all_eq_true.1 h c stop
  | seq p q ihp ihq | alt p q ihp ihq =>
    have both := Bool.and_eq_true_iff.1 h
    exact ⟨ihp both.1, ihq both.2⟩
  | opt p ih | many p ih | absent p ih => exact ih h

theorem scan_seq (p q : Pattern) (cs : List Char) :
    (seq p q).scan cs = match p.scan cs with
      | none => none
      | some (a, rest) =>
        match q.scan rest with
        | none => none
        | some (b, rest) => some (a ++ b, rest) := rfl

theorem scan_alt (p q : Pattern) (cs : List Char) :
    (alt p q).scan cs = (p.scan cs).or (q.scan cs) := rfl

theorem scan_opt (p : Pattern) (cs : List Char) :
    (opt p).scan cs = (p.scan cs).or (some ([], cs)) := rfl

section Repetition

variable {f : List Char → Option (List Char × List Char)}

/-- Repeating an empty item leads nowhere. -/
theorem scanMany_nil {cs : List Char} (item : f cs = some ([], cs)) (fuel : Nat) :
    scanMany f fuel cs = ([], cs) := by
  induction fuel with
  | zero => rfl
  | succ fuel ih => simp [scanMany, item, ih]

/-- Two amounts of fuel that both suffice give the same. -/
theorem scanMany_fuel (parts : ∀ cs lexeme rest, f cs = some (lexeme, rest) → lexeme ++ rest = cs)
    (n : Nat) (cs : List Char) (short : cs.length ≤ n) (a b : Nat) (ha : cs.length ≤ a)
    (hb : cs.length ≤ b) : scanMany f a cs = scanMany f b cs := by
  induction n generalizing cs a b with
  | zero =>
    -- nothing is left, so every lexeme is empty
    obtain rfl : cs = [] := List.length_eq_zero_iff.1 (Nat.le_zero.1 short)
    have nothing : ∀ n, scanMany f n [] = ([], []) := by
      intro n
      have whole := scanMany_append parts n []
      exact Prod.ext (List.append_eq_nil_iff.1 whole).1 (List.append_eq_nil_iff.1 whole).2
    rw [nothing, nothing]
  | succ n ih =>
    cases e : f cs with
    | none => cases a <;> cases b <;> simp [scanMany, e]
    | some x =>
      obtain ⟨lexeme, rest⟩ := x
      have whole := parts cs lexeme rest e
      cases lexeme with
      | nil =>
        obtain rfl : rest = cs := whole
        rw [scanMany_nil e, scanMany_nil e]
      | cons c lexeme =>
        have shorter : rest.length < cs.length := by
          rw [← whole]
          simp only [List.length_append, List.length_cons]
          omega
        obtain ⟨a, rfl⟩ : ∃ m, a = m + 1 := ⟨a - 1, by omega⟩
        obtain ⟨b, rfl⟩ : ∃ m, b = m + 1 := ⟨b - 1, by omega⟩
        simp only [scanMany, e]
        rw [ih rest (by omega) a b (by omega) (by omega)]

end Repetition

/-- One more item of a repetition. -/
theorem scan_many_cons {p : Pattern} {cs lexeme rest : List Char}
    (item : p.scan cs = some (lexeme, rest)) (progress : lexeme ≠ []) :
    (many p).scan cs = ((many p).scan rest).map fun x => (lexeme ++ x.1, x.2) := by
  have whole := scan_append item
  have shorter : rest.length < cs.length := by
    rw [← whole, List.length_append]
    have := List.length_pos_iff.2 progress
    omega
  obtain ⟨n, e⟩ : ∃ m, cs.length = m + 1 := ⟨cs.length - 1, by omega⟩
  rw [scan, scan, e, scanMany, item]
  simp only [Option.map_some]
  rw [scanMany_fuel (fun _ _ _ => scan_append) n rest (by omega) n rest.length (by omega)
    (Nat.le_refl _)]

/-- The end of a repetition. -/
theorem scan_many_none {p : Pattern} {cs : List Char} (refused : p.scan cs = none) :
    (many p).scan cs = some ([], cs) := by
  rw [scan]
  cases cs with
  | nil => rfl
  | cons c cs => rw [List.length_cons, scanMany, refused]

/-- A repetition of empty items. -/
theorem scan_many_nil {p : Pattern} {cs : List Char} (item : p.scan cs = some ([], cs)) :
    (many p).scan cs = some ([], cs) := by
  rw [scan, scanMany_nil item]

/-- A fixed text is found in front of a character that is not in it as if nothing stood there. -/
theorem dropLead_append {t rest : List Char} (ends : ∀ c ∈ rest.head?, c ∉ t) (cs : List Char) :
    Text.dropLead t (cs ++ rest) = (Text.dropLead t cs).map (· ++ rest) := by
  induction t generalizing cs with
  | nil => rfl
  | cons l ls ih =>
    cases cs with
    | nil =>
      -- the text would have to begin in what stands behind
      cases rest with
      | nil => rfl
      | cons c rest =>
        have other : l ≠ c := by
          rintro rfl
          exact ends l rfl List.mem_cons_self
        simp [Text.dropLead, other]
    | cons c cs =>
      by_cases same : l = c
      · simpa [Text.dropLead, same] using ih (fun d head inTail => ends d head (.tail _ inTail)) cs
      · simp [Text.dropLead, same]

/-- A repetition does not see what its item does not see. -/
theorem scan_many_append {p : Pattern} {rest : List Char}
    (item : ∀ cs, p.scan (cs ++ rest) = (p.scan cs).map fun x => (x.1, x.2 ++ rest))
    (cs : List Char) :
    (many p).scan (cs ++ rest) = ((many p).scan cs).map fun x => (x.1, x.2 ++ rest) := by
  -- the induction is on the length of the text, since an item takes any number of characters
  have upTo : ∀ n (cs : List Char), cs.length < n →
      (many p).scan (cs ++ rest) = ((many p).scan cs).map fun x => (x.1, x.2 ++ rest) := by
    intro n
    induction n with
    | zero => intro cs short; cases short
    | succ n upTo =>
      intro cs short
      have single := item cs
      cases e : p.scan cs with
      | none =>
        rw [e] at single
        rw [scan_many_none single, scan_many_none e]
        rfl
      | some x =>
        obtain ⟨lexeme, left⟩ := x
        rw [e] at single
        have whole := scan_append e
        cases lexeme with
        | nil =>
          obtain rfl : left = cs := whole
          rw [scan_many_nil single, scan_many_nil e]
          rfl
        | cons c lexeme =>
          have shorter : left.length < n := by
            rw [← whole] at short
            simp only [List.length_append, List.length_cons] at short
            omega
          rw [scan_many_cons single (List.cons_ne_nil c lexeme),
            scan_many_cons e (List.cons_ne_nil c lexeme), upTo left shorter]
          cases (many p).scan left <;> rfl
  exact upTo (cs.length + 1) cs (Nat.lt_succ_self _)

/-- A pattern that never takes certain characters does not see what stands behind one of them. -/
theorem scan_append_of_avoids {stop : Char → Prop} {p : Pattern} (avoids : p.Avoids stop)
    {rest : List Char} (ends : ∀ c ∈ rest.head?, stop c) (cs : List Char) :
    p.scan (cs ++ rest) = (p.scan cs).map fun x => (x.1, x.2 ++ rest) := by
  induction p generalizing cs with
  | text t =>
    have lead := dropLead_append (fun c head inText => avoids c inText (ends c head)) cs
    rw [scan, scan, lead]
    cases Text.dropLead t cs <;> rfl
  | one k =>
    cases cs with
    | nil =>
      cases rest with
      | nil => rfl
      | cons c rest =>
        have refuses := avoids c (ends c rfl)
        simp [scan, refuses]
    | cons c cs =>
      by_cases holds : k.holds c = true <;> simp [scan, holds]
  | seq p q ihp ihq =>
    rw [scan, scan, ihp avoids.1]
    cases p.scan cs with
    | none => rfl
    | some x =>
      simp only [Option.map_some]
      rw [ihq avoids.2]
      cases q.scan x.2 <;> rfl
  | alt p q ihp ihq =>
    rw [scan, scan, ihp avoids.1, ihq avoids.2]
    cases p.scan cs <;> rfl
  | opt p ih =>
    rw [scan, scan, ih avoids]
    cases p.scan cs <;> rfl
  | many p ih => exact scan_many_append (ih avoids) cs
  | absent p ih =>
    rw [scan, scan, ih avoids]
    cases p.scan cs <;> rfl

/-- A pattern that takes no stop does not see what stands behind one. -/
theorem scan_append_of_atStop {p : Pattern} (avoids : p.avoidsStops = true) {rest : List Char}
    (stop : AtStop rest) (cs : List Char) :
    p.scan (cs ++ rest) = (p.scan cs).map fun x => (x.1, x.2 ++ rest) :=
  scan_append_of_avoids (avoids_of_avoidsStops avoids) stop cs

end Pattern

/-! ## Identifiers -/

/-- A text that is an identifier as a whole. -/
def IsIdentifier (cs : List Char) : Prop := identifierPattern.scan cs = some (cs, [])

instance (cs : List Char) : Decidable (IsIdentifier cs) := inferInstanceAs (Decidable (_ = _))

/-- Repeating a class takes the characters of the class. -/
theorem scan_many_one (k : CharClass) (cs : List Char) :
    (Pattern.one k).many.scan cs = some (cs.takeWhile k.holds, cs.dropWhile k.holds) := by
  induction cs with
  | nil => rfl
  | cons c cs ih =>
    by_cases holds : k.holds c = true
    · have item : (Pattern.one k).scan (c :: cs) = some ([c], cs) := by
        rw [Pattern.scan, if_pos holds]
      rw [Pattern.scan_many_cons item (List.cons_ne_nil c []), ih,
        List.takeWhile_cons_of_pos holds, List.dropWhile_cons_of_pos holds]
      rfl
    · rw [Pattern.scan_many_none (by rw [Pattern.scan, if_neg holds]),
        List.takeWhile_cons_of_neg holds, List.dropWhile_cons_of_neg holds]

/-- The first character of an identifier is a letter or an underscore. -/
theorem scan_identifierStart (c : Char) (cs : List Char) :
    (Pattern.one .identifierStart <|> Pattern.lit "_").scan (c :: cs) =
      if Text.isIdentifierStart c ∨ c = '_' then some ([c], cs) else none := by
  show ((Pattern.one .identifierStart).alt (.text ['_'])).scan (c :: cs) = _
  by_cases start : Text.isIdentifierStart c = true
  · simp [Pattern.scan, CharClass.holds, start]
  · by_cases underscore : c = '_'
    · subst underscore
      simp [Pattern.scan, CharClass.holds, start, Text.dropLead]
    · simp [Pattern.scan, CharClass.holds, start, underscore, Text.dropLead, Ne.symm underscore]

/-- An identifier begins like one, goes on like one and is not reserved. -/
theorem isIdentifier_iff (cs : List Char) :
    IsIdentifier cs ↔ reservedPattern.scan cs = none ∧ ∃ c tail, cs = c :: tail ∧
      (Text.isIdentifierStart c ∨ c = '_') ∧ tail.all Text.isIdentifierContinue := by
  show (((Pattern.absent reservedPattern).seq (.one .identifierStart <|> .lit "_")).seq
    (Pattern.many (.one .identifierContinue))).scan cs = some (cs, []) ↔ _
  -- The pattern asks first that no reserved word stands there, then for a start and for as much
  -- as goes on.
  cases reserved : reservedPattern.scan cs with
  | some x => simp [Pattern.scan, reserved]
  | none =>
    rw [Pattern.scan, Pattern.scan, Pattern.scan, reserved]
    simp only [Option.isSome_none, Bool.false_eq_true, ↓reduceIte, true_and]
    cases cs with
    | nil =>
      have none : (Pattern.one .identifierStart <|> Pattern.lit "_").scan [] = none := rfl
      simp [none]
    | cons c tail =>
      rw [scan_identifierStart]
      by_cases start : Text.isIdentifierStart c ∨ c = '_'
      · rw [if_pos start]
        simp only [scan_many_one]
        constructor
        · intro whole
          have rest : tail.dropWhile Text.isIdentifierContinue = [] :=
            congrArg Prod.snd (Option.some.inj whole)
          exact ⟨c, tail, rfl, start, by simpa [List.dropWhile_eq_nil_iff] using rest⟩
        · rintro ⟨_, _, e, -, all⟩
          cases e
          have continues : ∀ x ∈ tail, CharClass.identifierContinue.holds x = true :=
            List.all_eq_true.1 all
          rw [List.takeWhile_eq_self_iff.2 continues, List.dropWhile_eq_nil_iff.2 continues]
          rfl
      · rw [if_neg start]
        constructor
        · intro h
          cases h
        · rintro ⟨_, _, e, first, -⟩
          cases e
          exact absurd first start

/-- No identifier begins with a quote, or goes on with one. -/
theorem IsIdentifier.not_quote {cs : List Char} (h : IsIdentifier cs) :
    ∀ c ∈ cs, c ≠ '"' ∧ c ≠ '\'' := by
  obtain ⟨-, first, tail, rfl, start, all⟩ := (isIdentifier_iff cs).1 h
  intro c member
  rcases List.mem_cons.1 member with rfl | member
  · constructor <;> rintro rfl <;> revert start <;> decide +kernel
  · have continues := List.all_eq_true.1 all c member
    constructor <;> rintro rfl <;> revert continues <;> decide +kernel

/-- No reserved word is empty. -/
theorem Word.spelling_ne_nil (w : Word) : w.spelling.toList ≠ [] := by
  have all : ∀ w ∈ Word.all, w.spelling.toList ≠ [] := by decide
  exact all w w.mem_all

/-- No reserved word is an identifier. -/
theorem Word.not_isIdentifier (w : Word) : ¬ IsIdentifier w.spelling.toList := by
  have all : ∀ w ∈ Word.all, ¬ IsIdentifier w.spelling.toList := by decide +kernel
  exact all w w.mem_all

/-- No reserved word holds a stop. -/
theorem avoidsStops_wordPattern (w : Word) : (wordPattern w).avoidsStops = true := by
  have all : ∀ w ∈ Word.all, (wordPattern w).avoidsStops = true := by decide +kernel
  exact all w w.mem_all

/-- A reserved word that an identifier begins with goes on in it. -/
theorem IsIdentifier.scan_word {cs : List Char} (h : IsIdentifier cs) (w : Word) :
    (wordPattern w).scan cs = none := by
  obtain ⟨-, first, tail, e, -, all⟩ := (isIdentifier_iff cs).1 h
  show ((Pattern.lit w.spelling).seq (.absent (.one .identifierContinue))).scan cs = none
  rw [Pattern.scan]
  cases lead : (Pattern.lit w.spelling).scan cs with
  | none => rfl
  | some x =>
    obtain ⟨lexeme, rest⟩ := x
    have whole : lexeme ++ rest = cs := Pattern.scan_append lead
    cases rest with
    | nil =>
      -- the whole text would be a reserved word
      rw [Pattern.lit, Pattern.scan, Option.map_eq_some_iff] at lead
      obtain ⟨_, -, lead⟩ := lead
      rw [List.append_nil, ← (Prod.mk.inj lead).1] at whole
      exact absurd (whole ▸ h) w.not_isIdentifier
    | cons c rest =>
      have continues : Text.isIdentifierContinue c = true := by
        cases lexeme with
        | nil =>
          rw [Pattern.lit, Pattern.scan, Option.map_eq_some_iff] at lead
          obtain ⟨_, -, lead⟩ := lead
          exact absurd (Prod.mk.inj lead).1 w.spelling_ne_nil
        | cons d lexeme =>
          rw [e] at whole
          have tails := (List.cons.inj whole).2
          exact List.all_eq_true.1 all c (by rw [← tails]; simp)
      simp [Pattern.scan, CharClass.holds, continues]

/-- A string without letters in front of it. -/
def quotesPattern : Pattern :=
  longStringPattern "\"\"\"" <|> longStringPattern "'''" <|>
    shortStringPattern "\"" <|> shortStringPattern "'"

/-- A string begins with a quote. -/
theorem scan_quotes_eq_none {cs : List Char} (start : ∀ c ∈ cs.head?, c ≠ '"' ∧ c ≠ '\'') :
    quotesPattern.scan cs = none := by
  cases cs with
  | nil => rfl
  | cons c cs =>
    obtain ⟨double, single⟩ := start c rfl
    show (Pattern.alt (.seq (.seq (.text ['"', '"', '"']) _) _)
      (Pattern.alt (.seq (.seq (.text ['\'', '\'', '\'']) _) _)
        (Pattern.alt (.seq (.seq (.text ['"']) _) _) (.seq (.seq (.text ['\'']) _) _)))).scan
          (c :: cs) = none
    simp [Pattern.scan, Text.dropLead, Ne.symm double, Ne.symm single]

/-- A text without quotes up to a stop does not begin with a string, whatever letters stand in
front of the quotes. -/
theorem scan_string_eq_none {cs : List Char} (quoteless : ∀ c ∈ cs, c ≠ '"' ∧ c ≠ '\'')
    {rest : List Char} (stop : AtStop rest) : stringPattern.scan (cs ++ rest) = none := by
  show ((Pattern.opt stringLetters).seq quotesPattern).scan (cs ++ rest) = none
  have avoids : (Pattern.opt stringLetters).avoidsStops = true := by decide
  rw [Pattern.scan, Pattern.scan_append_of_atStop avoids stop]
  cases letters : (Pattern.opt stringLetters).scan cs with
  | none => rfl
  | some x =>
    have whole := Pattern.scan_append letters
    have refused : quotesPattern.scan (x.2 ++ rest) = none := by
      apply scan_quotes_eq_none
      intro c head
      rw [List.head?_append] at head
      cases e : x.2.head? with
      | some d =>
        rw [e] at head
        cases head
        exact quoteless c (by rw [← whole]; simp [List.mem_of_mem_head? e])
      | none =>
        rw [e] at head
        have among := stop c head
        constructor <;> rintro rfl <;> revert among <;> decide
    simp only [Option.map_some, refused]

/-- An identifier fits the hole for a name. -/
theorem IsIdentifier.fits {cs : List Char} (h : IsIdentifier cs) : Hole.name.Fits cs where
  starts := by
    obtain ⟨-, first, tail, e, start, -⟩ := (isIdentifier_iff cs).1 h
    exact ⟨first, tail, e, start⟩
  taken := by
    intro t fits rest stop
    obtain rfl : t = .identifier := by cases t <;> first | rfl | cases fits
    have avoids : identifierPattern.avoidsStops = true := by decide +kernel
    show identifierPattern.scan (cs ++ rest) = _
    rw [Pattern.scan_append_of_atStop avoids stop, h]
    rfl
  refused := by
    intro t fits rest stop
    have word : ∀ w, (wordPattern w).scan (cs ++ rest) = none := by
      intro w
      rw [Pattern.scan_append_of_atStop (avoidsStops_wordPattern w) stop, h.scan_word]
      rfl
    cases t with
    | word w => exact word w
    | noneLit => exact word .noneWord
    | trueLit => exact word .trueWord
    | falseLit => exact word .falseWord
    | string => exact scan_string_eq_none h.not_quote stop
    | _ => cases fits

/-! ## Numbers -/

/-- A text of at least one digit. -/
structure IsDigits (ds : List Char) : Prop where
  nonempty : ds ≠ []
  digits : ∀ c ∈ ds, CharClass.digit.holds c = true

theorem isDigits_zero : IsDigits ['0'] := by
  constructor
  · exact List.cons_ne_nil _ _
  · intro c member
    rw [List.mem_singleton] at member
    rw [member]
    rfl

/-- A text that does not begin with a digit or an underscore. -/
def NoDigitHead (cs : List Char) : Prop := ∀ c ∈ cs.head?, CharClass.digit.holds c = false ∧ c ≠ '_'

/-- A digit is taken as one, without an underscore in front of it. -/
theorem scan_groupedDigit (c : Char) (cs : List Char) (digit : CharClass.digit.holds c = true) :
    (Pattern.opt (.lit "_") ++ Pattern.one .digit).scan (c :: cs) = some ([c], cs) := by
  show ((Pattern.opt (.text ['_'])).seq (.one .digit)).scan (c :: cs) = _
  have other : '_' ≠ c := by rintro rfl; revert digit; decide
  simp [Pattern.scan, Text.dropLead, other, digit]

/-- Nothing is taken where neither a digit nor an underscore stands. -/
theorem scan_groupedDigit_eq_none {cs : List Char} (h : NoDigitHead cs) :
    (Pattern.opt (.lit "_") ++ Pattern.one .digit).scan cs = none := by
  show ((Pattern.opt (.text ['_'])).seq (.one .digit)).scan cs = _
  cases cs with
  | nil => rfl
  | cons c cs =>
    obtain ⟨noDigit, other⟩ := h c rfl
    simp [Pattern.scan, Text.dropLead, Ne.symm other, noDigit]

/-- A run of digits is taken as a whole. -/
theorem IsDigits.scan_digitPart {ds : List Char} (h : IsDigits ds) {rest : List Char}
    (ends : NoDigitHead rest) : digitPart.scan (ds ++ rest) = some (ds, rest) := by
  have run : ∀ ds : List Char, (∀ c ∈ ds, CharClass.digit.holds c = true) →
      (Pattern.opt (.lit "_") ++ Pattern.one .digit).many.scan (ds ++ rest) = some (ds, rest) := by
    intro ds
    induction ds with
    | nil => intro _; exact Pattern.scan_many_none (scan_groupedDigit_eq_none ends)
    | cons d ds ih =>
      intro digits
      rw [List.cons_append, Pattern.scan_many_cons
        (scan_groupedDigit d (ds ++ rest) (digits d (by simp))) (List.cons_ne_nil d []),
        ih (fun c member => digits c (by simp [member]))]
      rfl
  cases ds with
  | nil => exact absurd rfl h.nonempty
  | cons d ds =>
    show ((Pattern.one .digit).seq (.many (.opt (.lit "_") ++ .one .digit))).scan (d :: (ds ++ rest)) = _
    have first : CharClass.digit.holds d = true := h.digits d (by simp)
    rw [Pattern.scan, Pattern.scan, if_pos first]
    simp only [run ds fun c member => h.digits c (by simp [member])]
    rfl

namespace IsDigits

variable {ds : List Char} (h : IsDigits ds)

include h

/-- Digits alone make up a decimal integer. -/
theorem scan_digitPart_all : digitPart.scan ds = some (ds, []) := by
  have whole : digitPart.scan (ds ++ []) = some (ds, []) :=
    h.scan_digitPart (by intro c head; cases head)
  rwa [List.append_nil] at whole

/-- No letter announces another base. -/
theorem dropLead_eq_none (letter : Char) (other : CharClass.digit.holds letter = false) :
    Text.dropLead ['0', letter] ds = none := by
  match ds, h with
  | [], _ => rfl
  | [c], _ => simp [Text.dropLead]
  | c :: d :: tail, h =>
    have differ : letter ≠ d := by
      rintro rfl
      rw [h.digits letter (by simp)] at other
      cases other
    simp [Text.dropLead, differ]

/-- Digits are an integer as a whole. -/
theorem scan_integer : integerPattern.scan ds = some (ds, []) := by
  have based : ∀ a b : Char, CharClass.digit.holds a = false → CharClass.digit.holds b = false →
      ∀ p, (Pattern.seq (.alt (.text ['0', a]) (.text ['0', b])) p).scan ds = none := by
    intro a b ha hb p
    simp [Pattern.scan, h.dropLead_eq_none a ha, h.dropLead_eq_none b hb]
  show (Pattern.alt (.seq (.alt (.text ['0', 'x']) (.text ['0', 'X'])) _)
    (.alt (.seq (.alt (.text ['0', 'o']) (.text ['0', 'O'])) _)
      (.alt (.seq (.alt (.text ['0', 'b']) (.text ['0', 'B'])) _) digitPart))).scan ds = _
  rw [Pattern.scan_alt, Pattern.scan_alt, Pattern.scan_alt, based 'x' 'X' (by decide) (by decide),
    based 'o' 'O' (by decide) (by decide), based 'b' 'B' (by decide) (by decide),
    h.scan_digitPart_all]
  rfl

/-- Digits alone are no float. -/
theorem scan_float : floatPattern.scan ds = none := by
  have point : (Pattern.lit ".").scan ds = none := by
    cases ds with
    | nil => rfl
    | cons c tail =>
      have other : '.' ≠ c := by
        rintro rfl
        have := h.digits '.' (by simp)
        revert this
        decide
      show (Pattern.text ['.']).scan (c :: tail) = none
      simp [Pattern.scan, Text.dropLead, other]
  have ended : (Pattern.lit ".").scan [] = none := rfl
  have noMark : exponentPart.scan [] = none := rfl
  show (Pattern.alt (.seq (.seq (.seq digitPart (.lit ".")) _) _)
    (.alt (.seq (.seq (.lit ".") _) _) (.seq digitPart exponentPart))).scan ds = none
  simp only [Pattern.scan_seq, Pattern.scan_alt, h.scan_digitPart_all, point, ended, noMark]
  rfl

/-- They are no imaginary number. -/
theorem scan_imaginary : imaginaryPattern.scan ds = none := by
  show (Pattern.seq (.alt floatPattern digitPart) (.one (.oneOf ['j', 'J']))).scan ds = none
  rw [Pattern.scan, Pattern.scan, h.scan_float, h.scan_digitPart_all]
  rfl

/-- They fit the hole for an integer. -/
theorem fits : Hole.integer.Fits ds where
  starts := by
    cases ds with
    | nil => exact absurd rfl h.nonempty
    | cons c tail => exact ⟨c, tail, rfl, h.digits c (by simp)⟩
  taken := by
    intro t fits rest stop
    obtain rfl : t = .integer := by cases t <;> first | rfl | cases fits
    have avoids : integerPattern.avoidsStops = true := by decide
    show integerPattern.scan (ds ++ rest) = _
    rw [Pattern.scan_append_of_atStop avoids stop, h.scan_integer]
    rfl
  refused := by
    intro t fits rest stop
    have float : floatPattern.avoidsStops = true := by decide
    have imaginary : imaginaryPattern.avoidsStops = true := by decide
    cases t with
    | float =>
      show floatPattern.scan (ds ++ rest) = _
      rw [Pattern.scan_append_of_atStop float stop, h.scan_float]
      rfl
    | imaginary =>
      show imaginaryPattern.scan (ds ++ rest) = _
      rw [Pattern.scan_append_of_atStop imaginary stop, h.scan_imaginary]
      rfl
    | _ => cases fits

end IsDigits

/-- Digits with a point among them. -/
def IsDecimal (cs : List Char) : Prop :=
  ∃ whole fraction, IsDigits whole ∧ IsDigits fraction ∧ cs = whole ++ '.' :: fraction

theorem isDecimal_zero : IsDecimal ['0', '.', '0'] :=
  ⟨['0'], ['0'], isDigits_zero, isDigits_zero, rfl⟩

namespace IsDecimal

variable {cs : List Char} (h : IsDecimal cs)

include h

/-- Digits with a point among them are a float as a whole. -/
theorem scan_float : floatPattern.scan cs = some (cs, []) := by
  obtain ⟨whole, fraction, isWhole, isFraction, rfl⟩ := h
  have before : digitPart.scan (whole ++ '.' :: fraction) = some (whole, '.' :: fraction) :=
    isWhole.scan_digitPart (by intro c head; cases head; decide)
  have point : (Pattern.lit ".").scan ('.' :: fraction) = some (['.'], fraction) := rfl
  have noMark : exponentPart.scan [] = none := rfl
  show (Pattern.alt (.seq (.seq (.seq digitPart (.lit ".")) (.opt digitPart)) (.opt exponentPart))
    _).scan (whole ++ '.' :: fraction) = _
  simp only [Pattern.scan_seq, Pattern.scan_alt, Pattern.scan_opt, before, point,
    isFraction.scan_digitPart_all, noMark, Option.some_or, Option.none_or, List.append_nil,
    List.append_assoc]
  rfl

/-- They are no imaginary number. -/
theorem scan_imaginary : imaginaryPattern.scan cs = none := by
  show (Pattern.seq (.alt floatPattern digitPart) (.one (.oneOf ['j', 'J']))).scan cs = none
  rw [Pattern.scan, Pattern.scan, h.scan_float]
  rfl

/-- They fit the hole for a decimal. -/
theorem fits : Hole.decimal.Fits cs where
  starts := by
    obtain ⟨whole, fraction, isWhole, -, rfl⟩ := h
    cases whole with
    | nil => exact absurd rfl isWhole.nonempty
    | cons c tail => exact ⟨c, tail ++ '.' :: fraction, rfl, isWhole.digits c (by simp)⟩
  taken := by
    intro t fits rest stop
    obtain rfl : t = .float := by cases t <;> first | rfl | cases fits
    have avoids : floatPattern.avoidsStops = true := by decide
    show floatPattern.scan (cs ++ rest) = _
    rw [Pattern.scan_append_of_atStop avoids stop, h.scan_float]
    rfl
  refused := by
    intro t fits rest stop
    have avoids : imaginaryPattern.avoidsStops = true := by decide
    cases t with
    | imaginary =>
      show imaginaryPattern.scan (cs ++ rest) = _
      rw [Pattern.scan_append_of_atStop avoids stop, h.scan_imaginary]
      rfl
    | _ => cases fits

end IsDecimal

end BlockEditor
