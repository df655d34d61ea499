import BlockEditor.Proofs.AppendedLines
import BlockEditor.Proofs.StringLiterals

/-!
# Lexemes with carriage returns

A carriage return in front of every line feed makes comments and continuations one character longer,
and is a lexeme of its own in front of other line ends.  Literals on one line stay what they are, and
those that never end still do not.
-/

namespace BlockEditor

namespace Text

/-- The text with a carriage return in front of every line feed. -/
def withReturns (cs : List Char) : List Char :=
  cs.flatMap fun c => if c = '\n' then ['\r', '\n'] else [c]

/-- A line feed gets a carriage return in front of it. -/
theorem withReturns_lineFeed (cs : List Char) :
    withReturns ('\n' :: cs) = '\r' :: '\n' :: withReturns cs := rfl

/-- Any other character stays as it is. -/
theorem withReturns_cons {c : Char} (other : c ≠ '\n') (cs : List Char) :
    withReturns (c :: cs) = c :: withReturns cs := by
  rw [withReturns, List.flatMap_cons, if_neg other]
  rfl

theorem withReturns_append (a b : List Char) :
    withReturns (a ++ b) = withReturns a ++ withReturns b := List.flatMap_append

/-- A text without line feeds stays as it is. -/
theorem withReturns_eq_self {cs : List Char} (oneLine : '\n' ∉ cs) : withReturns cs = cs := by
  induction cs with
  | nil => rfl
  | cons c cs ih =>
    obtain ⟨other, others⟩ := not_or.1 (mt List.mem_cons.2 oneLine)
    rw [withReturns_cons (Ne.symm other), ih others]

/-- Characters of a line that the new text begins with begin the old one. -/
theorem prefix_of_withReturns {l cs : List Char} (inner : ∀ c ∈ l, c ≠ '\n' ∧ c ≠ '\r')
    (begins : l <+: withReturns cs) : l <+: cs := by
  induction l generalizing cs with
  | nil => exact List.nil_prefix
  | cons d l ih =>
    obtain ⟨⟨noFeed, noReturn⟩, others⟩ := List.forall_mem_cons.1 inner
    cases cs with
    | nil => exact begins
    | cons c cs =>
      by_cases feed : c = '\n'
      · subst feed
        rw [withReturns_lineFeed, List.cons_prefix_cons] at begins
        exact absurd begins.1 noReturn
      · rw [withReturns_cons feed, List.cons_prefix_cons] at begins
        exact List.cons_prefix_cons.2 ⟨begins.1, ih others begins.2⟩

/-- Only a line feed at the start becomes another character. -/
theorem head?_withReturns (cs : List Char) :
    (withReturns cs).head? = cs.head?.map fun c => if c = '\n' then '\r' else c := by
  cases cs with
  | nil => rfl
  | cons c cs =>
    by_cases feed : c = '\n'
    · subst feed
      rfl
    · rw [withReturns_cons feed]
      simp [feed]

/-- A text is as blank as before. -/
theorem isBlankText_withReturns (cs : List Char) : isBlankText (withReturns cs) = isBlankText cs := by
  induction cs with
  | nil => rfl
  | cons c cs ih =>
    unfold isBlankText at ih ⊢
    by_cases feed : c = '\n'
    · subst feed
      rw [withReturns_lineFeed, List.all_cons, List.all_cons, List.all_cons, ih]
      rfl
    · rw [withReturns_cons feed, List.all_cons, List.all_cons, ih]

end Text

open Text

namespace Lexeme

/-! ## Literals without an end -/

/-- No quote ends a line. -/
theorem IsQuote.ne_lineEnd {quote : Char} (h : IsQuote quote) : quote ≠ '\n' ∧ quote ≠ '\r' := by
  rcases h with rfl | rfl <;> decide

/-- A line feed is no end of a short literal, and stands in none. -/
theorem shortString?_lineFeed (quote : Char) (cs : List Char) :
    shortString? quote ('\n' :: cs) = none := by
  rw [shortString?_cons (by decide), if_pos (.inl rfl)]

/-- Where a literal in single quotes finds no end, it finds none with carriage returns. -/
theorem shortString?_withReturns {quote : Char} (isQuote : IsQuote quote) {cs : List Char}
    (endless : shortString? quote cs = none) : shortString? quote (withReturns cs) = none := by
  fun_induction shortString? quote cs with
  | case1 => rfl
  | case2 c cs ih =>
    rw [withReturns_cons (by decide)]
    by_cases feed : c = '\n'
    · -- the backslash escapes the carriage return, and the line feed ends the attempt
      subst feed
      rw [withReturns_lineFeed, shortString?, shortString?_lineFeed]
      rfl
    · rw [withReturns_cons feed, shortString?, ih (Option.map_eq_none_iff.1 endless)]
      rfl
  | case3 c cs noPair mark =>
    rcases mark with rfl | rfl
    · have noReturn : '\r' ≠ quote := Ne.symm isQuote.ne_lineEnd.2
      rw [withReturns_lineFeed, shortString?_cons (by decide), if_neg (by decide), if_neg noReturn,
        shortString?_lineFeed]
      rfl
    · cases cs with
      | nil => rfl
      | cons d cs => exact (noPair d cs rfl rfl).elim
  | case4 => cases endless
  | case5 c cs noPair mark other ih =>
    obtain ⟨noFeed, noBackslash⟩ := not_or.1 mark
    rw [withReturns_cons noFeed, shortString?_cons noBackslash, if_neg mark, if_neg other,
      ih (Option.map_eq_none_iff.1 endless)]
    rfl

/-- A character that neither escapes nor closes anything does not give a literal an end. -/
theorem longString?_cons_eq_none {quote c : Char} {cs : List Char}
    (endless : longString? quote cs = none) (plain : c ≠ '\\')
    (opens : ¬ [quote, quote, quote] <+: c :: cs) : longString? quote (c :: cs) = none := by
  match cs with
  | [] | [_] =>
    rw [longString?]
    · exact endless
    all_goals simp_all
  | d :: e :: cs =>
    have inside : ¬ (c = quote ∧ d = quote ∧ e = quote) := by
      rintro ⟨rfl, rfl, rfl⟩
      exact opens ⟨cs, rfl⟩
    rw [longString?, if_neg inside, endless]
    · rfl
    · exact plain

/-- Two characters of a line end do not give a literal an end. -/
theorem longString?_lineEnd {quote : Char} (isQuote : IsQuote quote) {cs : List Char}
    (endless : longString? quote cs = none) : longString? quote ('\n' :: cs) = none ∧
      longString? quote ('\r' :: '\n' :: cs) = none := by
  obtain ⟨noFeed, noReturn⟩ := isQuote.ne_lineEnd
  have feed : longString? quote ('\n' :: cs) = none :=
    longString?_cons_eq_none endless (by decide) fun begins =>
      noFeed (List.cons_prefix_cons.1 begins).1
  refine ⟨feed, longString?_cons_eq_none feed (by decide) fun begins => ?_⟩
  exact noReturn (List.cons_prefix_cons.1 begins).1

/-- Where a literal in triple quotes finds no end, it finds none with carriage returns. -/
theorem longString?_withReturns {quote : Char} (isQuote : IsQuote quote) {cs : List Char}
    (endless : longString? quote cs = none) : longString? quote (withReturns cs) = none := by
  -- one character that is left out of the attempt
  have plain {c : Char} {cs : List Char} (ih : longString? quote (withReturns cs) = none)
      (noEscape : c ≠ '\\') (opens : ¬ [quote, quote, quote] <+: c :: cs) :
      longString? quote (withReturns (c :: cs)) = none := by
    by_cases feed : c = '\n'
    · subst feed
      exact (longString?_lineEnd isQuote ih).2
    · rw [withReturns_cons feed]
      refine longString?_cons_eq_none ih noEscape fun begins => opens ?_
      rw [← withReturns_cons feed] at begins
      exact prefix_of_withReturns (by simpa using isQuote.ne_lineEnd) begins
  fun_induction longString? quote cs with
  | case1 => rfl
  | case2 c cs ih =>
    have inner := ih (Option.map_eq_none_iff.1 endless)
    rw [withReturns_cons (by decide)]
    by_cases feed : c = '\n'
    · -- the backslash escapes the carriage return only
      subst feed
      rw [withReturns_lineFeed, longString?, (longString?_lineEnd isQuote inner).1]
      rfl
    · rw [withReturns_cons feed, longString?, inner]
      rfl
  | case3 => cases endless
  | case4 c d e cs noPair inside ih =>
    refine plain (ih (Option.map_eq_none_iff.1 endless)) noPair fun begins => inside ?_
    simpa [eq_comm] using begins
  | case5 c cs noPair short ih =>
    -- fewer than three characters are left
    obtain _ | ⟨d, _ | ⟨e, cs⟩⟩ := cs
    · by_cases escape : c = '\\'
      · subst escape
        rfl
      · exact plain (ih endless) escape (by simp)
    · refine plain (ih endless) ?_ (by simp)
      rintro rfl
      exact noPair _ _ rfl rfl
    · exact (short d e cs rfl).elim

/-- Three quotes begin a literal that may go over several lines. -/
theorem string_triple (quote : Char) (cs : List Char) :
    string quote (quote :: quote :: quote :: cs) = match longString? quote cs with
      | some (body, rest) => (⟨.string, quote :: quote :: quote :: body⟩, rest)
      | none => (⟨.unterminated 3, quote :: quote :: quote :: cs⟩, []) := by
  rw [string]
  exact if_pos ⟨rfl, rfl⟩

/-- A quote without two others behind it begins a short literal. -/
theorem string_single {quote : Char} {cs : List Char} (single : ¬ [quote, quote] <+: cs) :
    string quote (quote :: cs) = string.short quote (quote :: cs) := by
  match cs with
  | [] | [_] => rfl
  | d :: e :: cs =>
    have noTriple : ¬ (d = quote ∧ e = quote) := by
      rintro ⟨rfl, rfl⟩
      exact single ⟨cs, rfl⟩
    rw [string, if_neg noTriple]

/-- A literal without an end has none with carriage returns. -/
theorem endless_string_withReturns {quote : Char} (isQuote : IsQuote quote) {cs : List Char}
    (endless : Endless (string quote (quote :: cs)).1) :
    Endless (string quote (quote :: withReturns cs)).1 := by
  obtain ⟨quotes, endless⟩ := endless
  obtain ⟨noFeed, noReturn⟩ := isQuote.ne_lineEnd
  by_cases triple : [quote, quote] <+: cs
  · obtain ⟨cs, rfl⟩ := triple
    rw [List.cons_append, List.cons_append, List.nil_append] at endless ⊢
    rw [withReturns_cons noFeed, withReturns_cons noFeed]
    rw [string_triple] at endless ⊢
    cases found : longString? quote cs with
    | some x => rw [found] at endless; cases endless
    | none =>
      rw [longString?_withReturns isQuote found]
      exact ⟨3, rfl⟩
  · have single : ¬ [quote, quote] <+: withReturns cs := fun begins =>
      triple (prefix_of_withReturns (by simpa using isQuote.ne_lineEnd) begins)
    rw [string_single triple, string.short] at endless
    rw [string_single single, string.short]
    cases found : shortString? quote cs with
    | some x => simp only [found] at endless; cases endless
    | none =>
      simp only [shortString?_withReturns isQuote found]
      exact ⟨1, rfl⟩

/-! ## Lexemes one by one -/

/-- A lexeme takes at least one character. -/
theorem length_next_le (c : Char) (cs : List Char) : (next c cs).2.length ≤ cs.length := by
  obtain ⟨whole, formed⟩ := begins_next c cs
  have size := congrArg List.length whole
  have some := List.length_pos_iff.2 formed.text_ne_nil
  rw [List.length_append, List.length_cons] at size
  omega

/-- More fuel than characters does not matter. -/
theorem splitWithin_eq_split {fuel : Nat} {cs : List Char} (enough : cs.length ≤ fuel) :
    splitWithin fuel cs = split cs := by
  have same : ∀ fuel fuel' cs, cs.length ≤ fuel → cs.length ≤ fuel' →
      splitWithin fuel cs = splitWithin fuel' cs := by
    intro fuel
    induction fuel with
    | zero =>
      intro fuel' cs short _
      obtain rfl : cs = [] := List.length_eq_zero_iff.1 (Nat.le_zero.1 short)
      cases fuel' <;> rfl
    | succ fuel ih =>
      intro fuel' cs short short'
      cases cs with
      | nil => cases fuel' <;> rfl
      | cons c cs =>
        obtain ⟨fuel', rfl⟩ : ∃ k, fuel' = k + 1 := ⟨fuel' - 1, by simp at short'; omega⟩
        have shorter := length_next_le c cs
        rw [List.length_cons] at short short'
        show _ :: splitWithin fuel (next c cs).2 = _ :: splitWithin fuel' (next c cs).2
        rw [ih fuel' _ (by omega) (by omega)]
  exact same fuel cs.length cs enough (Nat.le_refl _)

/-- The first lexeme of a text is followed by the lexemes of what it leaves. -/
theorem split_cons (c : Char) (cs : List Char) :
    split (c :: cs) = (next c cs).1 :: split (next c cs).2 := by
  show (next c cs).1 :: splitWithin cs.length (next c cs).2 = _
  rw [splitWithin_eq_split (length_next_le c cs)]

/-- The kinds of lexemes of one character that a line keeps, or that indent it. -/
def soleKinds : List LexemeKind := [.space, .openBracket, .closeBracket, .other]

/-- Lexemes of a text, and those of the text with carriage returns. -/
inductive Returned : List Lexeme → List Lexeme → Prop
  | nil : Returned [] []
  | sole {kind : LexemeKind} {c : Char} {ls ms : List Lexeme} : kind ∈ soleKinds → ¬ IsQuote c →
      Returned ls ms → Returned (⟨kind, [c]⟩ :: ls) (⟨kind, [c]⟩ :: ms)
  | literal {quote : Char} {text : List Char} {ls ms : List Lexeme} : IsLiteral quote text →
      Parts quote text (textOf ls) → Returned ls ms →
      Returned (⟨.string, text⟩ :: ls) (⟨.string, text⟩ :: ms)
  | endless {l m : Lexeme} (ls ms : List Lexeme) : Endless l → Endless m →
      Returned (l :: ls) (m :: ms)
  | lineFeed {ls ms : List Lexeme} : Returned ls ms →
      Returned (⟨.lineFeed, ['\n']⟩ :: ls) (⟨.carriageReturn, ['\r']⟩ :: ⟨.lineFeed, ['\n']⟩ :: ms)
  | continuation {ls ms : List Lexeme} : Returned ls ms →
      Returned (⟨.continuation, ['\\', '\n']⟩ :: ls) (⟨.continuation, ['\\', '\r', '\n']⟩ :: ms)
  | comment (text : List Char) {ls ms : List Lexeme} : Returned ls ms →
      Returned (⟨.comment, '#' :: text⟩ :: ⟨.lineFeed, ['\n']⟩ :: ls)
        (⟨.comment, '#' :: (text ++ ['\r'])⟩ :: ⟨.lineFeed, ['\n']⟩ :: ms)
  | lastComment (text : List Char) :
      Returned [⟨.comment, '#' :: text⟩] [⟨.comment, '#' :: text⟩]

/-! ## Corresponding lexemes -/

/-- Marks among which none of some others is are not among those. -/
theorem notMem_of_apart {marks others : List Char}
    (apart : (marks.all fun c => !others.contains c) = true) {c : Char} (among : c ∈ marks) :
    c ∉ others := by
  simpa using List.all_eq_true.1 apart c among

/-- A character without a part in line ends, comments or literals is a lexeme on its own. -/
theorem exists_split_sole {c : Char} (plain : c ∉ ['\n', '\r', '#', '\\', '"', '\'']) :
    ∃ kind ∈ soleKinds, ∀ cs, split (c :: cs) = ⟨kind, [c]⟩ :: split cs := by
  refine ⟨(next c []).1.kind, ?_, fun cs => ?_⟩
  · unfold next
    split <;> simp_all [soleKinds]
  · have sole : next c cs = (⟨(next c []).1.kind, [c]⟩, cs) := by
      unfold next
      split <;> simp_all
    rw [split_cons, sole]

/-- A line feed is a lexeme on its own. -/
theorem split_lineFeed (cs : List Char) : split ('\n' :: cs) = ⟨.lineFeed, ['\n']⟩ :: split cs :=
  split_cons _ _

theorem split_carriageReturn (cs : List Char) :
    split ('\r' :: cs) = ⟨.carriageReturn, ['\r']⟩ :: split cs := split_cons _ _

/-- A comment may reach to the end of the text. -/
theorem split_lastComment {body : List Char} (oneLine : '\n' ∉ body) :
    split ('#' :: body) = [⟨.comment, '#' :: body⟩] := by
  have all : ∀ c ∈ body, decide (c ≠ '\n') = true := fun c member =>
    decide_eq_true fun feed => oneLine (feed ▸ member)
  have comment : next '#' body = (⟨.comment, '#' :: body⟩, []) := by
    show (Lexeme.mk .comment ('#' :: body.takeWhile (· ≠ '\n')), body.dropWhile (· ≠ '\n')) = _
    rw [List.takeWhile_eq_self_iff.2 all, List.dropWhile_eq_nil_iff.2 all]
  rw [split_cons, comment]
  rfl

/-- It ends in front of the line feed otherwise. -/
theorem split_comment {body : List Char} (oneLine : '\n' ∉ body) (cs : List Char) :
    split ('#' :: (body ++ '\n' :: cs)) =
      ⟨.comment, '#' :: body⟩ :: ⟨.lineFeed, ['\n']⟩ :: split cs := by
  have all : ∀ c ∈ body, decide (c ≠ '\n') = true := fun c member =>
    decide_eq_true fun feed => oneLine (feed ▸ member)
  have comment : next '#' (body ++ '\n' :: cs) = (⟨.comment, '#' :: body⟩, '\n' :: cs) := by
    show (Lexeme.mk .comment ('#' :: (body ++ '\n' :: cs).takeWhile (· ≠ '\n')),
      (body ++ '\n' :: cs).dropWhile (· ≠ '\n')) = _
    rw [List.takeWhile_append_of_pos all, List.dropWhile_append_of_pos all]
    simp
  rw [split_cons, comment, split_lineFeed]

/-- What begins with a character of a line begins with no line end. -/
theorem not_startsLineEnd {cs : List Char} (inner : ∀ c ∈ cs.head?, c ≠ '\n' ∧ c ≠ '\r') :
    ¬ StartsLineEnd cs := by
  rintro (⟨rest, rfl⟩ | ⟨rest, rfl⟩)
  · exact (inner '\n' rfl).1 rfl
  · exact (inner '\r' rfl).2 rfl

/-- A backslash in front of anything else than a line end is a lexeme on its own. -/
theorem split_backslash {cs : List Char} (inner : ¬ StartsLineEnd cs) :
    split ('\\' :: cs) = ⟨.other, ['\\']⟩ :: split cs := by
  rw [split_cons, next_backslash inner]

/-- A literal is a lexeme. -/
theorem split_literal {quote : Char} {literal rest : List Char} (formed : IsLiteral quote literal)
    (parts : Parts quote literal rest) :
    split (literal ++ rest) = ⟨.string, literal⟩ :: split rest := by
  obtain ⟨body, rfl⟩ := formed.exists_cons
  have found : next quote (body ++ rest) = string quote (quote :: (body ++ rest)) := by
    rcases formed.isQuote with rfl | rfl <;> rfl
  rw [List.cons_append, split_cons, found, ← List.cons_append, formed.string parts]

/-- What begins with a quote is a literal, or has no end. -/
theorem exists_literal_or_endless {quote : Char} (isQuote : IsQuote quote) (cs : List Char) :
    (∃ literal rest, IsLiteral quote literal ∧ Parts quote literal rest ∧
      quote :: cs = literal ++ rest) ∨ Endless (string quote (quote :: cs)).1 := by
  generalize found : string quote (quote :: cs) = x
  obtain ⟨⟨kind, literal⟩, rest⟩ := x
  have kinds : kind = .string ∨ Endless ⟨kind, literal⟩ := by
    unfold string string.short at found
    grind [Endless]
  rcases kinds with rfl | endless
  · obtain ⟨formed, whole, parts⟩ := isLiteral_of_string isQuote found
    exact .inl ⟨literal, rest, formed, parts, whole⟩
  · exact .inr endless

/-- What begins with a quote begins with a lexeme for a literal, with an end or without one. -/
theorem exists_split_quote {quote : Char} (isQuote : IsQuote quote) (cs : List Char) :
    ∃ ls, split (quote :: cs) = (string quote (quote :: cs)).1 :: ls := by
  have found : next quote cs = string quote (quote :: cs) := by
    rcases isQuote with rfl | rfl <;> rfl
  rw [split_cons, found]
  exact ⟨_, rfl⟩

/-! ## A text and the text with carriage returns -/

/-- A text whose lexemes correspond to those with carriage returns. -/
def ReturnsInside (cs : List Char) : Prop := Returned (split cs) (split (withReturns cs))

namespace ReturnsInside

variable {cs : List Char} (h : ReturnsInside cs)

include h

/-- A line feed in front keeps the correspondence. -/
theorem cons_lineFeed : ReturnsInside ('\n' :: cs) := by
  rw [ReturnsInside, withReturns_lineFeed, split_carriageReturn, split_lineFeed, split_lineFeed]
  exact .lineFeed h

theorem append_comment {body : List Char} (oneLine : '\n' ∉ body) :
    ReturnsInside ('#' :: (body ++ '\n' :: cs)) := by
  have outer : '\n' ∉ body ++ ['\r'] := by simpa using oneLine
  have text : withReturns ('#' :: (body ++ '\n' :: cs)) =
      '#' :: (body ++ ['\r'] ++ '\n' :: withReturns cs) := by
    rw [withReturns_cons (by decide), withReturns_append, withReturns_eq_self oneLine,
      withReturns_lineFeed, List.append_assoc]
    rfl
  rw [ReturnsInside, text, split_comment oneLine, split_comment outer]
  exact .comment body h

theorem append_continuation : ReturnsInside ('\\' :: '\n' :: cs) := by
  have here : split ('\\' :: '\n' :: cs) = ⟨.continuation, ['\\', '\n']⟩ :: split cs :=
    split_cons _ _
  have there : split ('\\' :: '\r' :: '\n' :: withReturns cs) =
      ⟨.continuation, ['\\', '\r', '\n']⟩ :: split (withReturns cs) := split_cons _ _
  rw [ReturnsInside, withReturns_cons (by decide), withReturns_lineFeed, here, there]
  exact .continuation h

theorem cons_backslash (inner : ∀ c ∈ cs.head?, c ≠ '\n' ∧ c ≠ '\r') :
    ReturnsInside ('\\' :: cs) := by
  have same : (withReturns cs).head? = cs.head? := by
    cases cs with
    | nil => rfl
    | cons c cs => rw [withReturns_cons (inner c rfl).1]; rfl
  rw [ReturnsInside, withReturns_cons (by decide), split_backslash (not_startsLineEnd inner),
    split_backslash (not_startsLineEnd (same ▸ inner))]
  exact .sole (by decide) (by unfold IsQuote; decide) h

theorem append_literal {quote : Char} {literal : List Char} (formed : IsLiteral quote literal)
    (parts : Parts quote literal cs) (oneLine : '\n' ∉ literal) : ReturnsInside (literal ++ cs) := by
  have parts' : Parts quote literal (withReturns cs) := by
    intro two head
    rw [head?_withReturns] at head
    obtain ⟨c, first, e⟩ := Option.map_eq_some_iff.1 head
    split at e
    · exact formed.isQuote.ne_lineEnd.2 e.symm
    · exact parts two (by rw [first, e])
  rw [ReturnsInside, withReturns_append, withReturns_eq_self oneLine, split_literal formed parts,
    split_literal formed parts']
  exact .literal formed (by rwa [textOf_split]) h

theorem cons_sole {c : Char} (plain : c ∉ ['\n', '\r', '#', '\\', '"', '\'']) :
    ReturnsInside (c :: cs) := by
  obtain ⟨kind, sole, split⟩ := exists_split_sole plain
  have feed : c ≠ '\n' := fun same => plain (by simp [same])
  have noQuote : ¬ IsQuote c := by
    rintro (rfl | rfl) <;> exact plain (by decide)
  rw [ReturnsInside, withReturns_cons feed, split, split]
  exact .sole sole noQuote h

end ReturnsInside

/-- A comment at the end of the text corresponds to itself. -/
theorem returnsInside_lastComment {body : List Char} (oneLine : '\n' ∉ body) :
    ReturnsInside ('#' :: body) := by
  rw [ReturnsInside, withReturns_cons (by decide), withReturns_eq_self oneLine,
    split_lastComment oneLine]
  exact .lastComment body

theorem returnsInside_endless {quote : Char} (isQuote : IsQuote quote) {cs : List Char}
    (endless : Endless (string quote (quote :: cs)).1) : ReturnsInside (quote :: cs) := by
  obtain ⟨ls, here⟩ := exists_split_quote isQuote cs
  obtain ⟨ms, there⟩ := exists_split_quote isQuote (withReturns cs)
  rw [ReturnsInside, withReturns_cons isQuote.ne_lineEnd.1, here, there]
  exact .endless ls ms endless (endless_string_withReturns isQuote endless)

/-- All literals of a text stay on their lines. -/
def LiteralsOnLines (cs : List Char) : Prop :=
  ∀ lexeme ∈ split cs, lexeme.kind = .string → '\n' ∉ lexeme.text

instance (cs : List Char) : Decidable (LiteralsOnLines cs) :=
  inferInstanceAs (Decidable (∀ lexeme ∈ split cs, _))

/-- The lexemes of a text correspond to those of the text with carriage returns, if there have been
none and all literals stay on their lines. -/
theorem returnsInside {cs : List Char} (noReturn : '\r' ∉ cs) (onLines : LiteralsOnLines cs) :
    ReturnsInside cs := by
  -- induction on the length of the text
  induction n : cs.length using Nat.strong_induction_on generalizing cs with
  | _ n ih =>
    subst n
    -- what stands behind some of the lexemes
    have behind (front rest : List Char) (lexemes : List Lexeme) (whole : cs = front ++ rest)
        (some : front ≠ []) (parts : split cs = lexemes ++ split rest) : ReturnsInside rest := by
      refine ih _ ?_ (fun member => noReturn (whole ▸ List.mem_append_right _ member))
        (fun lexeme member => onLines lexeme (parts ▸ List.mem_append_right _ member)) rfl
      have some := List.length_pos_iff.2 some
      rw [whole, List.length_append]
      omega
    cases cs with
    | nil => exact .nil
    | cons c cs =>
      by_cases feed : c = '\n'
      · subst feed
        exact (behind ['\n'] cs [_] rfl nofun (split_lineFeed cs)).cons_lineFeed
      by_cases hash : c = '#'
      · subst hash
        by_cases last : '\n' ∉ cs
        · exact returnsInside_lastComment last
        · obtain ⟨body, rest, rfl, inner⟩ := List.eq_append_cons_of_mem (not_not.1 last)
          exact (behind ('#' :: (body ++ ['\n'])) rest [_, _] (by simp) nofun
            (split_comment inner rest)).append_comment inner
      by_cases backslash : c = '\\'
      · subst backslash
        by_cases continues : ['\n'] <+: cs
        · obtain ⟨rest, rfl⟩ := continues
          exact (behind ['\\', '\n'] rest [_] rfl nofun (split_cons _ _)).append_continuation
        · have inner : ∀ c ∈ cs.head?, c ≠ '\n' ∧ c ≠ '\r' := by
            intro c head
            obtain ⟨rest, rfl⟩ := List.head?_eq_some_iff.1 head
            exact ⟨fun feed => continues (by simp [feed]), fun ret => noReturn (by simp [ret])⟩
          have noEnd : ¬ StartsLineEnd cs := not_startsLineEnd inner
          exact (behind ['\\'] cs [_] rfl nofun (split_backslash noEnd)).cons_backslash inner
      by_cases isQuote : IsQuote c
      · rcases exists_literal_or_endless isQuote cs with
          ⟨literal, rest, formed, parts, whole⟩ | endless
        · rw [whole] at behind onLines ⊢
          have lexemes := split_literal formed parts
          have some : literal ≠ [] := by
            obtain ⟨tail, rfl⟩ := formed.exists_cons
            exact List.cons_ne_nil _ _
          have onLine := onLines ⟨.string, literal⟩ (by rw [lexemes]; exact List.mem_cons_self) rfl
          exact (behind literal rest [_] rfl some lexemes).append_literal formed parts onLine
        · exact returnsInside_endless isQuote endless
      · have plain : c ∉ ['\n', '\r', '#', '\\', '"', '\''] := by
          have noReturn : c ≠ '\r' := fun same => noReturn (by simp [same])
          obtain ⟨double, single⟩ := not_or.1 isQuote
          simp [feed, noReturn, hash, backslash, double, single]
        obtain ⟨kind, -, split⟩ := exists_split_sole plain
        exact (behind [c] cs [_] rfl nofun (split cs)).cons_sole plain

end Lexeme

end BlockEditor
