import BlockEditor.Proofs.Boundaries
import BlockEditor.Syntax.LogicalLine

/-!
# The lexemes of a source

The lexemes of a source text are, one behind the other, the whole text, and each of them has the
form that its kind promises.
-/

namespace BlockEditor

/-- The characters that have a role of their own in the layout. -/
def layoutMarks : List Char :=
  [' ', '\t', '\x0c', '\n', '\r', '#', '\\', '"', '\'', '(', '[', '\x7b', ')', ']', '\x7d']

namespace Lexeme

/-! ## Forms -/

/-- What stands between single quotes: no line feed and no closing quote, except behind a
backslash. -/
inductive ShortBody (quote : Char) : List Char → Prop
  | nil : ShortBody quote []
  | plain {c : Char} {cs : List Char} : c ≠ quote → c ≠ '\\' → c ≠ '\n' → ShortBody quote cs →
      ShortBody quote (c :: cs)
  | escaped {c : Char} {cs : List Char} : ShortBody quote cs → ShortBody quote ('\\' :: c :: cs)

/-- What stands between triple quotes: three closing quotes begin nowhere in it, except behind a
backslash. -/
inductive LongBody (quote : Char) : List Char → Prop
  | nil : LongBody quote []
  | plain {c : Char} {cs : List Char} : c ≠ '\\' →
      ¬ [quote, quote, quote] <+: c :: cs ++ [quote, quote, quote] → LongBody quote cs →
      LongBody quote (c :: cs)
  | escaped {c : Char} {cs : List Char} : LongBody quote cs → LongBody quote ('\\' :: c :: cs)

/-- A quote that opens a string literal. -/
def IsQuote (c : Char) : Prop := c = '"' ∨ c = '\''

/-- A text begins with the end of a line. -/
def StartsLineEnd (cs : List Char) : Prop := ['\n'] <+: cs ∨ ['\r', '\n'] <+: cs

/-- A lexeme has the form of its kind, in front of the rest of the text. -/
inductive Formed : Lexeme → List Char → Prop
  | space {c : Char} {rest : List Char} : c ∈ [' ', '\t', '\x0c'] → Formed ⟨.space, [c]⟩ rest
  | lineFeed {rest : List Char} : Formed ⟨.lineFeed, ['\n']⟩ rest
  | carriageReturn {rest : List Char} : Formed ⟨.carriageReturn, ['\r']⟩ rest
  | comment {body rest : List Char} : '\n' ∉ body → (∀ c ∈ rest.head?, c = '\n') →
      Formed ⟨.comment, '#' :: body⟩ rest
  | continuation {lineEnd rest : List Char} : lineEnd = ['\n'] ∨ lineEnd = ['\r', '\n'] →
      Formed ⟨.continuation, '\\' :: lineEnd⟩ rest
  | shortString {quote : Char} {body rest : List Char} : IsQuote quote → ShortBody quote body →
      Formed ⟨.string, quote :: body ++ [quote]⟩ rest
  | longString {quote : Char} {body rest : List Char} : IsQuote quote → LongBody quote body →
      Formed ⟨.string, [quote, quote, quote] ++ body ++ [quote, quote, quote]⟩ rest
  | unterminated {quote : Char} {quotes : Nat} {body : List Char} : IsQuote quote →
      quotes = 1 ∨ quotes = 3 →
      Formed ⟨.unterminated quotes, List.replicate quotes quote ++ body⟩ []
  | openBracket {c : Char} {rest : List Char} : c ∈ ['(', '[', '\x7b'] →
      Formed ⟨.openBracket, [c]⟩ rest
  | closeBracket {c : Char} {rest : List Char} : c ∈ [')', ']', '\x7d'] →
      Formed ⟨.closeBracket, [c]⟩ rest
  | other {c : Char} {rest : List Char} : c ∉ layoutMarks → Formed ⟨.other, [c]⟩ rest
  | backslash {rest : List Char} : ¬ StartsLineEnd rest → Formed ⟨.other, ['\\']⟩ rest

/-- No lexeme is empty. -/
theorem Formed.text_ne_nil {lexeme : Lexeme} {rest : List Char} (h : lexeme.Formed rest) :
    lexeme.text ≠ [] := by
  cases h with
  | @unterminated _ quotes body _ width =>
    rcases width with rfl | rfl <;> exact List.cons_ne_nil _ _
  | _ => exact List.cons_ne_nil _ _

/-! ## One lexeme -/

/-- A literal that ends is a body between quotes, and nothing of the text is lost. -/
theorem shortString?_eq_some {quote : Char} {cs taken rest : List Char}
    (h : shortString? quote cs = some (taken, rest)) :
    cs = taken ++ rest ∧ ∃ body, taken = body ++ [quote] ∧ ShortBody quote body := by
  fun_induction shortString? quote cs generalizing taken rest with
  | case1 => cases h
  | case2 c cs ih =>
    obtain ⟨⟨inner, behind⟩, found, e⟩ := Option.map_eq_some_iff.1 h
    cases e
    obtain ⟨whole, body, rfl, formed⟩ := ih found
    exact ⟨by rw [whole]; rfl, '\\' :: c :: body, rfl, formed.escaped⟩
  | case3 => cases h
  | case4 cs _ _ =>
    cases h
    exact ⟨rfl, [], rfl, .nil⟩
  | case5 c cs _ mark other ih =>
    obtain ⟨⟨inner, behind⟩, found, e⟩ := Option.map_eq_some_iff.1 h
    cases e
    obtain ⟨whole, body, rfl, formed⟩ := ih found
    have noMark : c ≠ '\n' ∧ c ≠ '\\' := not_or.1 mark
    exact ⟨by rw [whole]; rfl, c :: body, rfl, .plain other noMark.2 noMark.1 formed⟩

theorem longString?_eq_some {quote : Char} {cs taken rest : List Char}
    (h : longString? quote cs = some (taken, rest)) :
    cs = taken ++ rest ∧ ∃ body, taken = body ++ [quote, quote, quote] ∧ LongBody quote body := by
  fun_induction longString? quote cs generalizing taken rest with
  | case1 => cases h
  | case2 c cs ih =>
    obtain ⟨⟨inner, behind⟩, found, e⟩ := Option.map_eq_some_iff.1 h
    cases e
    obtain ⟨whole, body, rfl, formed⟩ := ih found
    exact ⟨by rw [whole]; rfl, '\\' :: c :: body, rfl, formed.escaped⟩
  | case3 c d e cs _ closes =>
    cases h
    obtain ⟨rfl, rfl, rfl⟩ := closes
    exact ⟨rfl, [], rfl, .nil⟩
  | case4 c d e cs escape opens ih =>
    obtain ⟨⟨inner, behind⟩, found, same⟩ := Option.map_eq_some_iff.1 h
    cases same
    obtain ⟨whole, body, rfl, formed⟩ := ih found
    refine ⟨by rw [whole]; rfl, c :: body, rfl, .plain ?_ ?_ formed⟩
    · rintro rfl
      exact escape rfl
    · intro begins
      have early : [quote, quote, quote] <+: c :: d :: e :: cs := by
        rw [whole]
        exact begins.trans (List.prefix_append _ _)
      simp only [List.cons_prefix_cons, List.nil_prefix, and_true] at early
      exact opens ⟨early.1.symm, early.2.1.symm, early.2.2.symm⟩
  | case5 c cs _ short ih =>
    -- fewer than three characters are left, so nothing can close the literal
    obtain ⟨whole, body, rfl, -⟩ := ih h
    match cs with
    | [] | [_] =>
      have size := congrArg List.length whole
      simp only [List.length_append, List.length_cons, List.length_nil] at size
      omega
    | d :: e :: cs => exact (short d e cs rfl).elim

/-- A lexeme begins a text, and the rest of the text stands behind it. -/
def Begins (text : List Char) (split : Lexeme × List Char) : Prop :=
  text = split.1.text ++ split.2 ∧ split.1.Formed split.2

/-- A quote begins a literal in single quotes, or one that never ends. -/
theorem begins_short {quote : Char} (isQuote : IsQuote quote) (rest : List Char) :
    Begins (quote :: rest) (string.short quote (quote :: rest)) := by
  unfold string.short
  dsimp only
  split
  · rename_i taken behind found
    obtain ⟨rfl, body, rfl, formed⟩ := shortString?_eq_some found
    exact ⟨rfl, .shortString isQuote formed⟩
  · exact ⟨(List.append_nil _).symm, @Formed.unterminated _ 1 _ isQuote (.inl rfl)⟩

/-- A quote begins a literal of one of the two kinds. -/
theorem begins_string {quote : Char} (isQuote : IsQuote quote) (rest : List Char) :
    Begins (quote :: rest) (string quote (quote :: rest)) := by
  unfold string
  split
  · rename_i c d e cs same
    cases same
    split
    · rename_i triple
      obtain ⟨rfl, rfl⟩ := triple
      split
      · rename_i taken behind found
        obtain ⟨rfl, body, rfl, formed⟩ := longString?_eq_some found
        exact ⟨rfl, .longString isQuote formed⟩
      · exact ⟨(List.append_nil _).symm, @Formed.unterminated _ 3 _ isQuote (.inr rfl)⟩
    · exact begins_short isQuote _
  · exact begins_short isQuote _

/-- Every character begins a lexeme of its kind. -/
theorem begins_next (c : Char) (cs : List Char) : Begins (c :: cs) (next c cs) := by
  unfold next
  split
  · exact ⟨rfl, .space (by decide)⟩
  · exact ⟨rfl, .space (by decide)⟩
  · exact ⟨rfl, .space (by decide)⟩
  · exact ⟨rfl, .lineFeed⟩
  · exact ⟨rfl, .carriageReturn⟩
  · refine ⟨congrArg ('#' :: ·) List.takeWhile_append_dropWhile.symm, .comment ?_ ?_⟩
    · intro inside
      simpa using List.all_eq_true.1 List.all_takeWhile _ inside
    · intro c head
      have refused := List.head?_dropWhile_not (fun c => decide (c ≠ '\n')) cs
      rw [Option.mem_def.1 head] at refused
      simpa using refused
  · split
    · exact ⟨rfl, .continuation (.inl rfl)⟩
    · exact ⟨rfl, .continuation (.inr rfl)⟩
    · rename_i noFeed noReturn
      refine ⟨rfl, .backslash ?_⟩
      rintro (⟨rest, rfl⟩ | ⟨rest, rfl⟩)
      · exact noFeed rest rfl
      · exact noReturn rest rfl
  · exact begins_string (.inl rfl) cs
  · exact begins_string (.inr rfl) cs
  · exact ⟨rfl, .openBracket (by decide)⟩
  · exact ⟨rfl, .openBracket (by decide)⟩
  · exact ⟨rfl, .openBracket (by decide)⟩
  · exact ⟨rfl, .closeBracket (by decide)⟩
  · exact ⟨rfl, .closeBracket (by decide)⟩
  · exact ⟨rfl, .closeBracket (by decide)⟩
  · refine ⟨rfl, .other ?_⟩
    simp_all [layoutMarks]

/-! ## All lexemes -/

/-- The text that lexemes make up. -/
def textOf (lexemes : List Lexeme) : List Char := lexemes.flatMap text

@[simp] theorem textOf_nil : textOf [] = [] := rfl

@[simp] theorem textOf_cons (lexeme : Lexeme) (lexemes : List Lexeme) :
    textOf (lexeme :: lexemes) = lexeme.text ++ textOf lexemes := rfl

@[simp] theorem textOf_append (a b : List Lexeme) : textOf (a ++ b) = textOf a ++ textOf b :=
  List.flatMap_append

/-- Every lexeme has its form in front of those behind it. -/
inductive AllFormed : List Lexeme → Prop
  | nil : AllFormed []
  | cons {lexeme : Lexeme} {lexemes : List Lexeme} : lexeme.Formed (textOf lexemes) →
      AllFormed lexemes → AllFormed (lexeme :: lexemes)

/-- A list of lexemes has its forms if the first one has its form in front of the others. -/
theorem allFormed_cons {lexeme : Lexeme} {lexemes : List Lexeme} :
    AllFormed (lexeme :: lexemes) ↔ lexeme.Formed (textOf lexemes) ∧ AllFormed lexemes := by
  constructor
  · rintro ⟨⟩
    exact ⟨‹_›, ‹_›⟩
  · exact fun h => .cons h.1 h.2

/-- With enough fuel, a text is split into lexemes that have their forms and make up the text. -/
theorem splitWithin_formed (fuel : Nat) (cs : List Char) (enough : cs.length ≤ fuel) :
    textOf (splitWithin fuel cs) = cs ∧ AllFormed (splitWithin fuel cs) := by
  induction fuel generalizing cs with
  | zero =>
    obtain rfl : cs = [] := List.length_eq_zero_iff.1 (Nat.le_zero.1 enough)
    exact ⟨rfl, .nil⟩
  | succ fuel ih =>
    cases cs with
    | nil => exact ⟨rfl, .nil⟩
    | cons c cs =>
      obtain ⟨whole, formed⟩ := begins_next c cs
      rw [splitWithin]
      generalize next c cs = split at whole formed
      obtain ⟨lexeme, rest⟩ := split
      dsimp only at whole formed ⊢
      -- a lexeme is not empty, so the rest is shorter
      have shorter : rest.length ≤ fuel := by
        have size := congrArg List.length whole
        have some := List.length_pos_iff.2 formed.text_ne_nil
        simp only [List.length_cons, List.length_append] at size enough
        omega
      obtain ⟨text, others⟩ := ih rest shorter
      refine ⟨?_, .cons ?_ others⟩
      · rw [textOf_cons, text]
        exact whole.symm
      · rw [text]
        exact formed

/-- The lexemes of a source make up the source. -/
theorem textOf_split (source : List Char) : textOf (split source) = source :=
  (splitWithin_formed source.length source (Nat.le_refl _)).1

/-- The lexemes of a source have the forms of their kinds. -/
theorem allFormed_split (source : List Char) : AllFormed (split source) :=
  (splitWithin_formed source.length source (Nat.le_refl _)).2

end Lexeme

end BlockEditor
