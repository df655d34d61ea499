import BlockEditor.Proofs.StringLiterals
import BlockEditor.Syntax.Grammar

/-!
# Wider gaps

A line stays what it is when gaps in it get wider: where a space stands outside of string literals,
more of them may stand.  Every token of the grammar is found in both lines or in neither.
-/

namespace BlockEditor

open Lexeme

/-! ## Texts with wider gaps -/

/-- One text is another with wider gaps. -/
inductive Wider : List Char → List Char → Prop
  | nil : Wider [] []
  | keep {c : Char} {cs ds : List Char} : ¬ IsQuote c → Wider cs ds → Wider (c :: cs) (c :: ds)
  | gap {cs ds : List Char} : Wider (' ' :: cs) ds → Wider (' ' :: cs) (' ' :: ds)
  | literal {quote : Char} {lit cs ds : List Char} : IsLiteral quote lit → Parts quote lit cs →
      Wider cs ds → Wider (lit ++ cs) (lit ++ ds)

namespace Wider

variable {cs ds : List Char}

/-- Texts that differ in gaps begin alike. -/
theorem head?_eq (h : Wider cs ds) : ds.head? = cs.head? := by
  cases h with
  | nil | keep | gap => rfl
  | literal formed =>
    obtain ⟨tail, rfl⟩ := formed.exists_cons
    rfl

/-- A text with wider gaps is empty only if the text is. -/
theorem eq_nil_iff (h : Wider cs ds) : ds = [] ↔ cs = [] := by
  rw [← List.head?_eq_none_iff, h.head?_eq, List.head?_eq_none_iff]

/-- Behind a character that is no mark, texts differ in gaps again. -/
theorem tail {c : Char} (h : Wider (c :: cs) ds) (visible : c ≠ ' ') (unquoted : ¬ IsQuote c) :
    ∃ es, ds = c :: es ∧ Wider cs es := by
  generalize e : c :: cs = text at h
  cases h with
  | nil => cases e
  | keep _ rest =>
    cases e
    exact ⟨_, rfl, rest⟩
  | gap =>
    cases e
    exact absurd rfl visible
  | literal formed =>
    obtain ⟨tail, rfl⟩ := formed.exists_cons
    cases e
    exact absurd formed.isQuote unquoted

/-- At a quote both texts hold the same literal. -/
theorem of_quote {quote : Char} (h : Wider (quote :: cs) ds) (isQuote : IsQuote quote) :
    ∃ lit cs' ds', quote :: cs = lit ++ cs' ∧ ds = lit ++ ds' ∧ IsLiteral quote lit ∧
      Parts quote lit cs' ∧ Wider cs' ds' := by
  generalize e : quote :: cs = text at h
  cases h with
  | nil => cases e
  | keep unquoted =>
    cases e
    exact absurd isQuote unquoted
  | gap =>
    cases e
    rcases isQuote with isQuote | isQuote <;> cases isQuote
  | literal formed parts rest =>
    obtain ⟨tail, rfl⟩ := formed.exists_cons
    cases e
    exact ⟨_, _, _, rfl, rfl, formed, parts, rest⟩

/-- Gaps do not matter for the end of a literal. -/
theorem Parts.congr {quote : Char} {lit : List Char} (parts : Parts quote lit cs)
    (h : Wider cs ds) : Parts quote lit ds := by
  intro two
  rw [h.head?_eq]
  exact parts two

end Wider

/-- Behind all blanks texts differ in gaps again. -/
theorem Wider.dropWhile {cs ds : List Char} (h : Wider cs ds) :
    Wider (cs.dropWhile lineGrammar.isSpace) (ds.dropWhile lineGrammar.isSpace) := by
  induction h with
  | nil => exact .nil
  | @keep c cs ds unquoted rest ih =>
    rw [List.dropWhile_cons, List.dropWhile_cons]
    split
    · exact ih
    · exact .keep unquoted rest
  | @gap cs ds _ ih =>
    rw [List.dropWhile_cons_of_pos (l := ds) (by decide)]
    exact ih
  | @literal quote lit cs ds formed parts rest =>
    have here := Wider.literal formed parts rest
    obtain ⟨tail, rfl⟩ := formed.exists_cons
    have stays : ¬ lineGrammar.isSpace quote = true := by
      rcases formed.isQuote with rfl | rfl <;> decide
    rw [List.cons_append, List.cons_append, List.dropWhile_cons_of_neg stays,
      List.dropWhile_cons_of_neg stays]
    exact here

/-! ## Patterns -/

/-- Two scans go alike: both fail, or both take the same lexeme, and what they leave differs in
gaps. -/
inductive ScansAlike : Option (List Char × List Char) → Option (List Char × List Char) → Prop
  | none : ScansAlike none none
  | some (lexeme : List Char) {cs ds : List Char} : Wider cs ds →
      ScansAlike (some (lexeme, cs)) (some (lexeme, ds))

namespace ScansAlike

variable {x y x' y' : Option (List Char × List Char)}

/-- Scans that go alike find something in both texts or in neither. -/
theorem isSome_eq (h : ScansAlike x y) : y.isSome = x.isSome := by
  cases h <;> rfl

/-- A choice goes alike if both of its sides do. -/
theorem or (h : ScansAlike x y) (h' : ScansAlike x' y') : ScansAlike (x.or x') (y.or y') := by
  cases h with
  | none => exact h'
  | some lexeme rest => exact .some lexeme rest

/-- What is taken behind a lexeme is added to it. -/
theorem map (h : ScansAlike x y) (front : List Char) :
    ScansAlike (x.map fun z => (front ++ z.1, z.2)) (y.map fun z => (front ++ z.1, z.2)) := by
  cases h with
  | none => exact .none
  | some lexeme rest => exact .some _ rest

end ScansAlike

/-- The characters at which gaps and literals begin. -/
def gapMarks : List Char := [' ', '"', '\'']

/-- Both texts go on behind the same character, if it is no mark. -/
theorem Wider.tail_of_not_mem {c : Char} {cs ds : List Char} (h : Wider (c :: cs) ds)
    (plain : c ∉ gapMarks) : ∃ es, ds = c :: es ∧ Wider cs es := by
  refine h.tail ?_ ?_
  · rintro rfl
    exact plain (by decide)
  · rintro (rfl | rfl) <;> exact plain (by decide)

namespace Pattern

/-- Whether a pattern avoids some characters can be decided. -/
instance decidableAvoids (marks : List Char) : (p : Pattern) → Decidable (p.Avoids (· ∈ marks))
  | text t => List.decidableBAll (· ∉ marks) t
  | one k => List.decidableBAll (k.holds · = false) marks
  | seq p q | alt p q =>
    have := decidableAvoids marks p
    have := decidableAvoids marks q
    inferInstanceAs (Decidable (p.Avoids (· ∈ marks) ∧ q.Avoids (· ∈ marks)))
  | opt p | many p | absent p => decidableAvoids marks p

variable {cs ds : List Char}

/-- A pattern for sequences goes alike if its parts do. -/
theorem ScansAlike.seq {p q : Pattern} (first : ScansAlike (p.scan cs) (p.scan ds))
    (second : ∀ {cs ds}, Wider cs ds → ScansAlike (q.scan cs) (q.scan ds)) :
    ScansAlike ((p.seq q).scan cs) ((p.seq q).scan ds) := by
  rw [scan_seq, scan_seq]
  generalize p.scan cs = x, p.scan ds = y at first
  cases first with
  | none => exact .none
  | @some lexeme cs ds rest =>
    have next := second rest
    dsimp only
    generalize q.scan cs = x, q.scan ds = y at next
    cases next with
    | none => exact .none
    | some more behind => exact .some _ behind

/-- A fixed text without marks is found in both or in neither. -/
theorem scansAlike_text {t : List Char} (unmarked : ∀ c ∈ t, c ∉ gapMarks) (h : Wider cs ds) :
    ScansAlike ((text t).scan cs) ((text t).scan ds) := by
  have leads : ∀ {cs ds : List Char}, Wider cs ds →
      (Text.dropLead t cs = none ∧ Text.dropLead t ds = none) ∨
        ∃ cs' ds', Text.dropLead t cs = some cs' ∧ Text.dropLead t ds = some ds' ∧ Wider cs' ds' := by
    induction t with
    | nil => exact fun h => .inr ⟨_, _, rfl, rfl, h⟩
    | cons l ls ih =>
      intro cs ds h
      obtain ⟨plain, others⟩ := List.forall_mem_cons.1 unmarked
      have head := h.head?_eq
      cases cs with
      | nil =>
        rw [h.eq_nil_iff.2 rfl]
        exact .inl ⟨rfl, rfl⟩
      | cons c cs =>
        by_cases same : l = c
        · subst same
          obtain ⟨es, rfl, rest⟩ := h.tail_of_not_mem plain
          simpa [Text.dropLead] using ih others rest
        · cases ds with
          | nil => cases head
          | cons d ds =>
            cases head
            exact .inl ⟨by simp [Text.dropLead, same], by simp [Text.dropLead, same]⟩
  rw [scan, scan]
  rcases leads h with ⟨here, there⟩ | ⟨cs', ds', here, there, rest⟩
  · rw [here, there]
    exact .none
  · rw [here, there]
    exact .some t rest

theorem scansAlike_one {k : CharClass} (unmarked : ∀ c ∈ gapMarks, k.holds c = false)
    (h : Wider cs ds) : ScansAlike ((one k).scan cs) ((one k).scan ds) := by
  have head := h.head?_eq
  cases cs with
  | nil =>
    rw [h.eq_nil_iff.2 rfl]
    exact .none
  | cons c cs =>
    cases ds with
    | nil => cases head
    | cons d ds =>
      cases head
      by_cases holds : k.holds c = true
      · have plain : c ∉ gapMarks := fun mark => by rw [unmarked c mark] at holds; cases holds
        obtain ⟨es, e, rest⟩ := h.tail_of_not_mem plain
        cases e
        simpa [scan, holds] using ScansAlike.some [c] rest
      · simpa [scan, holds] using ScansAlike.none

/-- A repetition goes alike if its items do. -/
theorem scansAlike_many {p : Pattern}
    (item : ∀ {cs ds}, Wider cs ds → ScansAlike (p.scan cs) (p.scan ds)) (h : Wider cs ds) :
    ScansAlike ((many p).scan cs) ((many p).scan ds) := by
  -- induction on the length of what is left
  induction n : cs.length using Nat.strong_induction_on generalizing cs ds with
  | _ n ih =>
    subst n
    have first := item h
    generalize here : p.scan cs = x, there : p.scan ds = y at first
    cases first with
    | none =>
      rw [scan_many_none here, scan_many_none there]
      exact .some [] h
    | @some lexeme cs' ds' rest =>
      cases lexeme with
      | nil =>
        obtain rfl : cs' = cs := scan_append here
        obtain rfl : ds' = ds := scan_append there
        rw [scan_many_nil here, scan_many_nil there]
        exact .some [] h
      | cons c lexeme =>
        have shorter : cs'.length < cs.length := by
          rw [← scan_append here, List.length_append, List.length_cons]
          omega
        rw [scan_many_cons here (List.cons_ne_nil _ _), scan_many_cons there (List.cons_ne_nil _ _)]
        exact (ih _ shorter rest rfl).map _

/-- A pattern that takes no marks goes alike. -/
theorem scansAlike {p : Pattern} (avoids : p.Avoids (· ∈ gapMarks)) (h : Wider cs ds) :
    ScansAlike (p.scan cs) (p.scan ds) := by
  induction p generalizing cs ds with
  | text t => exact scansAlike_text avoids h
  | one k => exact scansAlike_one avoids h
  | seq p q ihp ihq => exact ScansAlike.seq (ihp avoids.1 h) (ihq avoids.2)
  | alt p q ihp ihq => exact (ihp avoids.1 h).or (ihq avoids.2 h)
  | opt p ih => exact (ih avoids h).or (.some [] h)
  | many p ih => exact scansAlike_many (ih avoids) h
  | absent p ih =>
    rw [scan, scan, (ih avoids h).isSome_eq]
    split
    · exact .none
    · exact .some [] h

end Pattern

/-! ## Tokens -/

theorem scansAlike_quotes {cs ds : List Char} (h : Wider cs ds) :
    ScansAlike (quotesPattern.scan cs) (quotesPattern.scan ds) := by
  by_cases quoted : ∃ c ∈ cs.head?, IsQuote c
  · obtain ⟨c, head, isQuote⟩ := quoted
    cases cs with
    | nil => cases head
    | cons d cs =>
      cases head
      obtain ⟨lit, cs', ds', whole, rfl, formed, parts, rest⟩ := h.of_quote isQuote
      rw [whole, formed.scan_quotes parts, formed.scan_quotes (Wider.Parts.congr parts rest)]
      exact .some lit rest
  · have unquoted : ∀ c ∈ cs.head?, c ≠ '"' ∧ c ≠ '\'' := fun c head =>
      not_or.1 fun isQuote => quoted ⟨c, head, isQuote⟩
    rw [scan_quotes_eq_none unquoted, scan_quotes_eq_none (h.head?_eq ▸ unquoted)]
    exact .none

theorem scansAlike_string {cs ds : List Char} (h : Wider cs ds) :
    ScansAlike (stringPattern.scan cs) (stringPattern.scan ds) := by
  have letters : (Pattern.opt stringLetters).Avoids (· ∈ gapMarks) := by decide
  exact Pattern.ScansAlike.seq (q := quotesPattern) (Pattern.scansAlike letters h) scansAlike_quotes

theorem scansAlike_endOfLine {cs ds : List Char} (h : Wider cs ds) :
    ScansAlike (Token.endOfLine.pattern.scan cs) (Token.endOfLine.pattern.scan ds) := by
  have head := h.head?_eq
  cases cs with
  | nil =>
    rw [h.eq_nil_iff.2 rfl]
    exact .some [] .nil
  | cons c cs =>
    cases ds with
    | nil => cases head
    | cons d ds => exact .none

/-- Every token is found in both lines or in neither. -/
theorem Token.scansAlike (t : Token) {cs ds : List Char} (h : Wider cs ds) :
    ScansAlike (t.pattern.scan cs) (t.pattern.scan ds) := by
  cases t with
  | word w =>
    have words : ∀ w ∈ Word.all, (wordPattern w).Avoids (· ∈ gapMarks) := by decide +kernel
    exact Pattern.scansAlike (words w w.mem_all) h
  | string => exact scansAlike_string h
  | endOfLine => exact scansAlike_endOfLine h
  | _ => exact Pattern.scansAlike (by decide +kernel) h

end BlockEditor
