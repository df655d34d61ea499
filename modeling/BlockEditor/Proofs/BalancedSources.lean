import BlockEditor.Proofs.StringLiterals
import BlockEditor.Proofs.Verdicts
import Mathlib.Data.List.Induction

/-!
# Balanced sources

A source is balanced if its string literals end and its brackets are nested, not too deep.  Strings,
comments and brackets can hide one another, so a source is read from its start in parts, each of
which begins where the one in front of it ends.  The layout pass accepts the balanced sources, and
in any other one it reports the first offence.
-/

namespace BlockEditor

open Text Lexeme

/-! ## Nested brackets -/

/-- A bracket that opens. -/
def IsOpener (c : Char) : Prop := c ∈ ['(', '[', '\x7b']

instance : DecidablePred IsOpener := fun c => inferInstanceAs (Decidable (c ∈ ['(', '[', '\x7b']))

/-- A bracket that closes. -/
def IsCloser (c : Char) : Prop := c ∈ [')', ']', '\x7d']

instance : DecidablePred IsCloser := fun c => inferInstanceAs (Decidable (c ∈ [')', ']', '\x7d']))

/-- No bracket opens and closes. -/
theorem IsCloser.not_isOpener {c : Char} (closer : IsCloser c) : ¬ IsOpener c := by
  simp only [IsCloser, List.mem_cons, List.not_mem_nil, or_false] at closer
  rcases closer with rfl | rfl | rfl <;> decide

instance : DecidablePred IsQuote := fun c => inferInstanceAs (Decidable (c = '"' ∨ c = '\''))

/-- No quote is a bracket. -/
theorem Lexeme.IsQuote.not_bracket {c : Char} (quote : IsQuote c) : ¬ (IsOpener c ∨ IsCloser c) := by
  rcases quote with rfl | rfl <;> decide

/-- Brackets with their offsets, in which every opening one has its closing one, at most `depth` of
the pairs inside one another. -/
inductive Nested : Nat → List (Char × Nat) → Prop
  | nil {depth : Nat} : Nested depth []
  | pair {depth start stop : Nat} {c : Char} {inner behind : List (Char × Nat)} : IsOpener c →
      Nested depth inner → Nested (depth + 1) behind →
      Nested (depth + 1) ((c, start) :: (inner ++ (closerOf c, stop) :: behind))

/-- Brackets that are nested but for some that are still open, the outermost first. -/
inductive LeavesOpen : Nat → List (Char × Nat) → List (Char × Nat) → Prop
  | nested {depth : Nat} {brackets : List (Char × Nat)} : Nested depth brackets →
      LeavesOpen depth brackets []
  | inside {depth start : Nat} {c : Char} {front behind opened : List (Char × Nat)} :
      Nested (depth + 1) front → IsOpener c → LeavesOpen depth behind opened →
      LeavesOpen (depth + 1) (front ++ (c, start) :: behind) ((c, start) :: opened)

/-- Nested brackets one behind the other are nested. -/
theorem Nested.append {depth : Nat} {a b : List (Char × Nat)} (front : Nested depth a)
    (behind : Nested depth b) : Nested depth (a ++ b) := by
  induction front with
  | nil => exact behind
  | pair opener inner _ _ ih =>
    rw [List.cons_append, List.append_assoc, List.cons_append]
    exact .pair opener inner (ih behind)

namespace LeavesOpen

variable {depth offset : Nat} {c : Char} {brackets opened : List (Char × Nat)}

/-- One more bracket is opened. -/
theorem snoc (h : LeavesOpen depth brackets opened) (room : opened.length < depth)
    (opener : IsOpener c) : LeavesOpen depth (brackets ++ [(c, offset)]) (opened ++ [(c, offset)]) := by
  induction h with
  | @nested depth brackets nested =>
    obtain ⟨depth, rfl⟩ := Nat.exists_eq_add_of_lt room
    rw [List.length_nil, Nat.zero_add] at nested ⊢
    exact .inside nested opener (.nested .nil)
  | inside front outer _ ih =>
    rw [List.append_assoc, List.cons_append]
    exact .inside front outer (ih (Nat.lt_of_succ_lt_succ room))

/-- The innermost bracket is closed. -/
theorem close {stop : Nat} {whole : List (Char × Nat)} (h : LeavesOpen depth brackets whole)
    (innermost : whole = opened ++ [(c, offset)]) :
    LeavesOpen depth (brackets ++ [(closerOf c, stop)]) opened := by
  induction h generalizing opened with
  | nested => simp at innermost
  | @inside depth start o front behind inner nested opener rest ih =>
    rw [List.append_assoc, List.cons_append]
    cases opened with
    | nil =>
      obtain ⟨⟨rfl, rfl⟩, rfl⟩ : (o = c ∧ start = offset) ∧ inner = [] := by simpa using innermost
      obtain ⟨within⟩ := rest
      exact .nested (nested.append (.pair opener within .nil))
    | cons outer opened =>
      obtain ⟨same, rfl⟩ := List.cons.inj innermost
      rw [← same]
      exact .inside nested opener (ih rfl)

end LeavesOpen

/-! ### Brackets one after the other -/

/-- The brackets that are open behind one more, the innermost first, if it fits there. -/
def stack? (opened : List (Char × Nat)) (bracket : Char × Nat) : Option (List (Char × Nat)) :=
  if IsOpener bracket.1 then
    if opened.length = maxNesting then none else some (bracket :: opened)
  else match opened with
    | [] => none
    | (c, _) :: outer => if closerOf c = bracket.1 then some outer else none

/-- A bracket is opened where the depth allows it. -/
theorem stack?_opener {opened : List (Char × Nat)} {c : Char} (opener : IsOpener c)
    (room : opened.length ≠ maxNesting) (offset : Nat) :
    stack? opened (c, offset) = some ((c, offset) :: opened) := by
  unfold stack?
  rw [if_pos opener, if_neg room]

/-- The bracket that closes the innermost one leaves the others open. -/
theorem stack?_closer (opened : List (Char × Nat)) (c : Char) (start stop : Nat) :
    stack? ((c, start) :: opened) (closerOf c, stop) = some opened := by
  have closer : ¬ IsOpener (closerOf c) := by
    unfold closerOf
    split <;> decide
  unfold stack?
  rw [if_neg closer]
  exact if_pos rfl

/-- Nested brackets leave the same ones open as before. -/
theorem Nested.foldlM_stack? {depth : Nat} {brackets : List (Char × Nat)} (h : Nested depth brackets)
    {opened : List (Char × Nat)} (room : opened.length + depth ≤ maxNesting) :
    brackets.foldlM stack? opened = some opened := by
  induction h generalizing opened with
  | nil => rfl
  | @pair depth start stop c inner behind opener _ _ innerIH behindIH =>
    rw [List.foldlM_cons, stack?_opener opener (by omega), Option.bind_eq_bind, Option.bind_some,
      List.foldlM_append, innerIH (by rw [List.length_cons]; omega), Option.bind_eq_bind,
      Option.bind_some, List.foldlM_cons, stack?_closer, Option.bind_eq_bind, Option.bind_some,
      behindIH room]

/-- Brackets that are left open are found on top of those that were open before. -/
theorem LeavesOpen.foldlM_stack? {depth : Nat} {brackets left : List (Char × Nat)}
    (h : LeavesOpen depth brackets left) {opened : List (Char × Nat)}
    (room : opened.length + depth ≤ maxNesting) :
    brackets.foldlM stack? opened = some (left.reverse ++ opened) := by
  induction h generalizing opened with
  | nested nested => exact nested.foldlM_stack? room
  | @inside depth start c front behind left nested opener _ ih =>
    rw [List.foldlM_append, nested.foldlM_stack? room, Option.bind_eq_bind, Option.bind_some,
      List.foldlM_cons, stack?_opener opener (by omega), Option.bind_eq_bind, Option.bind_some,
      ih (by rw [List.length_cons]; omega), List.reverse_cons, List.append_assoc]
    rfl

/-- What is found open one bracket after the other is what the brackets leave open. -/
theorem leavesOpen_of_foldlM {brackets opened : List (Char × Nat)}
    (h : brackets.foldlM stack? [] = some opened) :
    LeavesOpen maxNesting brackets opened.reverse ∧ opened.length ≤ maxNesting := by
  -- brackets are met one after the other, so the last one is taken off
  induction brackets using List.reverseRecOn generalizing opened with
  | nil =>
    cases h
    exact ⟨.nested .nil, Nat.zero_le _⟩
  | append_singleton brackets bracket ih =>
    obtain ⟨c, offset⟩ := bracket
    rw [List.foldlM_append] at h
    obtain ⟨before, front, last⟩ := Option.bind_eq_some_iff.1 h
    obtain ⟨leaves, room⟩ := ih front
    replace last : stack? before (c, offset) = some opened := by simpa using last
    unfold stack? at last
    split at last
    case isTrue opener =>
      split at last
      case isTrue => cases last
      case isFalse deeper =>
        cases last
        have room : before.length < maxNesting := Nat.lt_of_le_of_ne room deeper
        refine ⟨?_, room⟩
        rw [List.reverse_cons]
        exact leaves.snoc (by rwa [List.length_reverse]) opener
    case isFalse =>
      split at last
      case h_1 => cases last
      case h_2 o start outer =>
        split at last
        case isFalse => cases last
        case isTrue closes =>
          cases last
          subst closes
          exact ⟨leaves.close List.reverse_cons, Nat.le_of_succ_le room⟩

/-- The brackets that are left open are those that are found one after the other. -/
theorem leavesOpen_iff {brackets opened : List (Char × Nat)} :
    LeavesOpen maxNesting brackets opened ↔ brackets.foldlM stack? [] = some opened.reverse := by
  constructor
  · intro h
    rw [h.foldlM_stack? (Nat.le_of_eq (Nat.zero_add _)), List.append_nil]
  · intro h
    have leaves := (leavesOpen_of_foldlM h).1
    rwa [List.reverse_reverse] at leaves

/-! ## Parts of a source -/

/-- A part of a source that stands at an offset in front of the rest, with the brackets in it: a
comment, a string literal, a bracket, or a character that is none of these. -/
inductive Part (offset : Nat) : List Char → List Char → List (Char × Nat) → Prop
  | comment {body rest : List Char} : '\n' ∉ body → (∀ c ∈ rest.head?, c = '\n') →
      Part offset ('#' :: body) rest []
  | literal {quote : Char} {text rest : List Char} : IsLiteral quote text →
      Parts quote text rest → Part offset text rest []
  | bracket {c : Char} {rest : List Char} : IsOpener c ∨ IsCloser c →
      Part offset [c] rest [(c, offset)]
  | plain {c : Char} {rest : List Char} : c ≠ '#' → ¬ IsQuote c → ¬ IsOpener c → ¬ IsCloser c →
      Part offset [c] rest []

/-- A text that stands at an offset in front of the rest is read in parts, with the brackets in
them. -/
inductive ReadInParts : Nat → List Char → List Char → List (Char × Nat) → Prop
  | nil {offset : Nat} {rest : List Char} : ReadInParts offset [] rest []
  | cons {offset : Nat} {part behind rest : List Char} {brackets others : List (Char × Nat)} :
      Part offset part (behind ++ rest) brackets →
      ReadInParts (offset + byteLength part) behind rest others →
      ReadInParts offset (part ++ behind) rest (brackets ++ others)

/-- A source without an offence: all of it is read, and its brackets are nested. -/
def Balanced (source : List Char) : Prop :=
  ∃ brackets, ReadInParts 0 source [] brackets ∧ Nested maxNesting brackets

/-- No literal begins a text. -/
def NeverEnds (quote : Char) (text : List Char) : Prop :=
  ∀ literal rest, text = literal ++ rest → IsLiteral quote literal → ¬ Parts quote literal rest

/-- An offence at the start of the rest of a source, at an offset behind open brackets. -/
inductive Offence (opened : List (Char × Nat)) (offset : Nat) : List Char → Fault → Prop
  | unmatched {c : Char} {rest : List Char} : IsCloser c → opened = [] →
      Offence opened offset (c :: rest) (faultAt (.unmatchedBracket c) offset 1)
  | mismatched {c o : Char} {start : Nat} {outer : List (Char × Nat)} {rest : List Char} :
      IsCloser c → opened = outer ++ [(o, start)] → closerOf o ≠ c →
      Offence opened offset (c :: rest) (faultAt (.mismatchedBracket (closerOf o) c) offset 1)
  | tooDeep {c : Char} {rest : List Char} : IsOpener c → opened.length = maxNesting →
      Offence opened offset (c :: rest) (faultAt (.nestingTooDeep maxNesting) offset 1)
  | unterminated {quote : Char} {rest : List Char} : IsQuote quote →
      NeverEnds quote (quote :: rest) → Offence opened offset (quote :: rest)
        (faultAt .unterminatedString offset (if [quote, quote] <+: rest then 3 else 1))
  | unclosed {o : Char} {start : Nat} {outer : List (Char × Nat)} :
      opened = outer ++ [(o, start)] →
      Offence opened offset [] (faultAt (.unclosedBracket o) start 1)

/-- The first offence in a source: what stands in front of it is read, and its brackets are nested
but for those that are still open. -/
def FirstOffence (source : List Char) (fault : Fault) : Prop :=
  ∃ before rest brackets opened, source = before ++ rest ∧ ReadInParts 0 before rest brackets ∧
    LeavesOpen maxNesting brackets opened ∧ Offence opened (byteLength before) rest fault

/-! ## One way to read -/

namespace Part

variable {offset : Nat} {text rest text' rest' : List Char} {brackets brackets' : List (Char × Nat)}

/-- A part is never empty. -/
theorem ne_nil (h : Part offset text rest brackets) : text ≠ [] := by
  cases h with
  | literal formed =>
    obtain ⟨tail, rfl⟩ := formed.exists_cons
    exact List.cons_ne_nil _ _
  | _ => exact List.cons_ne_nil _ _

/-- A comment ends at the end of its line. -/
theorem comment_unique {body body' : List Char} (inside : '\n' ∉ body)
    (ends : ∀ c ∈ rest.head?, c = '\n') (inside' : '\n' ∉ body')
    (ends' : ∀ c ∈ rest'.head?, c = '\n') (same : body ++ rest = body' ++ rest') :
    body = body' ∧ rest = rest' := by
  -- what one body has behind the other begins with a line feed
  have empty : ∀ {more tail : List Char}, '\n' ∉ more → (∀ c ∈ (more ++ tail).head?, c = '\n') →
      more = [] := by
    rintro (_ | ⟨c, more⟩) tail inside ends
    · rfl
    · rw [ends c rfl] at inside
      exact absurd List.mem_cons_self inside
  rcases List.append_eq_append_iff.1 same with ⟨more, rfl, rfl⟩ | ⟨more, rfl, rfl⟩
  · obtain rfl := empty (fun h => inside' (List.mem_append_right _ h)) ends
    exact ⟨(List.append_nil _).symm, rfl⟩
  · obtain rfl := empty (fun h => inside (List.mem_append_right _ h)) ends'
    exact ⟨List.append_nil _, rfl⟩

/-- One part begins a text. -/
theorem unique (h : Part offset text rest brackets) (h' : Part offset text' rest' brackets')
    (same : text ++ rest = text' ++ rest') : text = text' ∧ rest = rest' ∧ brackets = brackets' := by
  have noMark : ¬ IsQuote '#' ∧ ¬ (IsOpener '#' ∨ IsCloser '#') := by
    constructor
    · rintro (h | h) <;> cases h
    · decide
  cases h with
  | comment inside ends =>
    cases h' with
    | comment inside' ends' =>
      obtain ⟨rfl, rfl⟩ := comment_unique inside ends inside' ends' (List.cons.inj same).2
      exact ⟨rfl, rfl, rfl⟩
    | literal formed =>
      obtain ⟨tail, rfl⟩ := formed.exists_cons
      obtain ⟨rfl, -⟩ := List.cons.inj same
      exact absurd formed.isQuote noMark.1
    | bracket bracket => cases same; exact absurd bracket noMark.2
    | plain noComment => cases same; exact absurd rfl noComment
  | @literal quote _ _ formed parts =>
    obtain ⟨tail, rfl⟩ := formed.exists_cons
    cases h' with
    | comment =>
      obtain ⟨rfl, -⟩ := List.cons.inj same
      exact absurd formed.isQuote noMark.1
    | literal formed' parts' =>
      obtain ⟨tail', rfl⟩ := formed'.exists_cons
      obtain ⟨rfl, -⟩ := List.cons.inj same
      have found := formed.string parts
      rw [same, formed'.string parts'] at found
      cases found
      exact ⟨rfl, rfl, rfl⟩
    | bracket bracket => cases same; exact absurd bracket formed.isQuote.not_bracket
    | plain _ noQuote => cases same; exact absurd formed.isQuote noQuote
  | bracket bracket =>
    cases h' with
    | comment => cases same; exact absurd bracket noMark.2
    | literal formed =>
      obtain ⟨tail, rfl⟩ := formed.exists_cons
      obtain ⟨rfl, -⟩ := List.cons.inj same
      exact absurd bracket formed.isQuote.not_bracket
    | bracket => cases same; exact ⟨rfl, rfl, rfl⟩
    | plain _ _ noOpener noCloser => cases same; exact absurd bracket (not_or.2 ⟨noOpener, noCloser⟩)
  | plain noComment noQuote noOpener noCloser =>
    cases h' with
    | comment => cases same; exact absurd rfl noComment
    | literal formed =>
      obtain ⟨tail, rfl⟩ := formed.exists_cons
      obtain ⟨rfl, -⟩ := List.cons.inj same
      exact absurd formed.isQuote noQuote
    | bracket bracket => cases same; exact absurd bracket (not_or.2 ⟨noOpener, noCloser⟩)
    | plain => cases same; exact ⟨rfl, rfl, rfl⟩

end Part

namespace ReadInParts

variable {offset : Nat} {text rest text' rest' : List Char} {brackets brackets' : List (Char × Nat)}

/-- One part is read as a text of one part. -/
theorem single (h : Part offset text rest brackets) : ReadInParts offset text rest brackets := by
  have part : Part offset text ([] ++ rest) brackets := h
  have whole := ReadInParts.cons part .nil
  rwa [List.append_nil, List.append_nil] at whole

/-- What stands behind a text that was read is read in further parts. -/
theorem append (h : ReadInParts offset text (text' ++ rest) brackets)
    (behind : ReadInParts (offset + byteLength text) text' rest brackets') :
    ReadInParts offset (text ++ text') rest (brackets ++ brackets') := by
  generalize whole : text' ++ rest = tail at h
  induction h with
  | nil => exact behind
  | cons part _ ih =>
    subst whole
    rw [byteLength_append, ← Nat.add_assoc] at behind
    rw [List.append_assoc, List.append_assoc]
    refine .cons ?_ (ih behind rfl)
    rwa [List.append_assoc]

/-- No bracket is read in an empty text. -/
theorem of_nil (h : ReadInParts offset [] rest brackets) : brackets = [] := by
  generalize empty : ([] : List Char) = text at h
  cases h with
  | nil => rfl
  | cons part => exact absurd (List.append_eq_nil_iff.1 empty.symm).1 part.ne_nil

/-- Of two places up to which a text is read, one is reached from the other. -/
theorem comparable (h : ReadInParts offset text rest brackets)
    (h' : ReadInParts offset text' rest' brackets') (same : text ++ rest = text' ++ rest') :
    (∃ between others, text' = text ++ between ∧ brackets' = brackets ++ others ∧
      ReadInParts (offset + byteLength text) between rest' others ∧ rest = between ++ rest') ∨
    ∃ between others, text = text' ++ between ∧ brackets = brackets' ++ others ∧
      ReadInParts (offset + byteLength text') between rest others ∧ rest' = between ++ rest := by
  induction h generalizing text' brackets' with
  | nil => exact .inl ⟨text', brackets', rfl, rfl, h', same⟩
  | @cons offset part behind rest brackets others first read ih =>
    cases h' with
    | nil => exact .inr ⟨_, _, rfl, rfl, .cons first read, same.symm⟩
    | cons first' read' =>
      rw [List.append_assoc, List.append_assoc] at same
      obtain ⟨rfl, same, rfl⟩ := first.unique first' same
      refine (ih read' same).imp ?_ ?_
      all_goals
        rintro ⟨between, others, rfl, rfl, more, rest⟩
        refine ⟨between, others, (List.append_assoc ..).symm, (List.append_assoc ..).symm, ?_, rest⟩
        rwa [byteLength_append, ← Nat.add_assoc]

end ReadInParts

namespace Offence

variable {opened opened' brackets others : List (Char × Nat)} {offset : Nat}
  {rest part behind text : List Char} {fault fault' : Fault}

/-- One offence is found at a place. -/
theorem unique (h : Offence opened offset rest fault) (h' : Offence opened offset rest fault') :
    fault = fault' := by
  cases h with
  | unmatched closer empty =>
    cases h' with
    | unmatched => rfl
    | mismatched _ last => simp [empty] at last
    | tooDeep opener => exact absurd opener closer.not_isOpener
    | unterminated quote => exact absurd (.inr closer) quote.not_bracket
  | mismatched closer last =>
    cases h' with
    | unmatched _ empty => simp [empty] at last
    | mismatched _ last' =>
      obtain ⟨-, same⟩ := List.append_inj' (last.symm.trans last') rfl
      cases same
      rfl
    | tooDeep opener => exact absurd opener closer.not_isOpener
    | unterminated quote => exact absurd (.inr closer) quote.not_bracket
  | tooDeep opener =>
    cases h' with
    | unmatched closer => exact absurd opener closer.not_isOpener
    | mismatched closer => exact absurd opener closer.not_isOpener
    | tooDeep => rfl
    | unterminated quote => exact absurd (.inl opener) quote.not_bracket
  | unterminated quote =>
    cases h' with
    | unmatched closer => exact absurd (.inr closer) quote.not_bracket
    | mismatched closer => exact absurd (.inr closer) quote.not_bracket
    | tooDeep opener => exact absurd (.inl opener) quote.not_bracket
    | unterminated => rfl
  | unclosed last =>
    cases h' with
    | unclosed last' =>
      obtain ⟨-, same⟩ := List.append_inj' (last.symm.trans last') rfl
      cases same
      rfl

/-- No part behind an offence fits the brackets that are open. -/
theorem not_fits (h : Offence opened offset (part ++ rest) fault)
    (first : Part offset part rest brackets) : brackets.foldlM stack? opened.reverse = none := by
  generalize whole : part ++ rest = text at h
  -- a bracket at the place of the offence is the part that is read
  have bracket : ∀ {c : Char} {tail : List Char}, IsOpener c ∨ IsCloser c → part ++ rest = c :: tail →
      stack? opened.reverse (c, offset) = none → brackets.foldlM stack? opened.reverse = none := by
    intro c tail mark whole refused
    obtain ⟨-, -, rfl⟩ := first.unique (.bracket mark : Part offset [c] tail _) whole
    rw [List.foldlM_cons, refused]
    rfl
  cases h with
  | unmatched closer empty =>
    refine bracket (.inr closer) whole ?_
    unfold stack?
    rw [if_neg closer.not_isOpener, empty]
    rfl
  | mismatched closer last differs =>
    refine bracket (.inr closer) whole ?_
    unfold stack?
    rw [if_neg closer.not_isOpener, last, List.reverse_concat]
    exact if_neg differs
  | tooDeep opener deep =>
    refine bracket (.inl opener) whole ?_
    unfold stack?
    rw [if_pos opener, if_pos (by rwa [List.length_reverse])]
  | unterminated quote endless =>
    cases first with
    | comment => cases whole; rcases quote with h | h <;> cases h
    | @literal other _ _ formed parts =>
      obtain ⟨tail, rfl⟩ := formed.exists_cons
      obtain ⟨rfl, -⟩ := List.cons.inj whole
      exact absurd parts (endless _ _ whole.symm formed)
    | bracket mark => cases whole; exact absurd mark quote.not_bracket
    | plain _ noQuote => cases whole; exact absurd quote noQuote
  | unclosed => exact absurd (List.append_eq_nil_iff.1 whole).1 first.ne_nil

/-- Nothing is read behind an offence. -/
theorem nothing_behind (h : Offence opened offset (text ++ rest) fault)
    (leaves : LeavesOpen maxNesting brackets opened)
    (more : ReadInParts offset text rest others)
    (leaves' : LeavesOpen maxNesting (brackets ++ others) opened') : text = [] ∧ opened' = opened := by
  have fits := leavesOpen_iff.1 leaves'
  rw [List.foldlM_append, leavesOpen_iff.1 leaves, Option.bind_eq_bind, Option.bind_some] at fits
  cases more with
  | nil => exact ⟨rfl, (List.reverse_injective (Option.some.inj fits)).symm⟩
  | cons first =>
    rw [List.append_assoc] at h
    rw [List.foldlM_append, h.not_fits first] at fits
    cases fits

end Offence

namespace FirstOffence

variable {source : List Char} {fault fault' : Fault}

/-- One offence is the first. -/
theorem unique (h : FirstOffence source fault) (h' : FirstOffence source fault') :
    fault = fault' := by
  obtain ⟨before, rest, brackets, opened, rfl, read, leaves, offence⟩ := h
  obtain ⟨before', rest', brackets', opened', same, read', leaves', offence'⟩ := h'
  rcases read.comparable read' same with
    ⟨between, others, rfl, rfl, more, rfl⟩ | ⟨between, others, rfl, rfl, more, rfl⟩
  · rw [Nat.zero_add] at more
    obtain ⟨rfl, rfl⟩ := offence.nothing_behind leaves more leaves'
    rw [List.append_nil] at offence'
    exact offence.unique offence'
  · rw [Nat.zero_add] at more
    obtain ⟨rfl, rfl⟩ := offence'.nothing_behind leaves' more leaves
    rw [List.append_nil] at offence
    exact offence.unique offence'

/-- A source with an offence is not balanced. -/
theorem not_balanced (h : FirstOffence source fault) : ¬ Balanced source := by
  rintro ⟨brackets', read', nested⟩
  obtain ⟨before, rest, brackets, opened, rfl, read, leaves, offence⟩ := h
  -- an offence at the end is a bracket that is still open
  have open_end : ∀ {offset : Nat}, ¬ Offence [] offset [] fault := by
    rintro offset ⟨⟩
    simp_all
  rcases read.comparable read' (List.append_nil _).symm with
    ⟨between, others, -, rfl, more, rfl⟩ | ⟨between, others, -, rfl, more, empty⟩
  · rw [Nat.zero_add] at more
    obtain ⟨rfl, rfl⟩ := offence.nothing_behind leaves more (.nested nested)
    exact open_end offence
  · obtain ⟨rfl, rfl⟩ := List.append_eq_nil_iff.1 empty.symm
    have closed : brackets'.foldlM stack? [] = some [] :=
      nested.foldlM_stack? (Nat.le_of_eq (Nat.zero_add _))
    rw [more.of_nil, List.append_nil, leavesOpen_iff, closed] at leaves
    obtain rfl : opened = [] := List.reverse_eq_nil_iff.1 (Option.some.inj leaves).symm
    exact open_end offence

end FirstOffence

/-! ## Lexemes as parts -/

namespace Lexeme

variable {c : Char} {cs rest : List Char} {lexeme : Lexeme}

/-- A quote begins a literal. -/
theorem IsQuote.next_eq (quote : IsQuote c) (cs : List Char) : next c cs = string c (c :: cs) := by
  rcases quote with rfl | rfl <;> rfl

/-- What the layout finds no end of is no literal. -/
theorem neverEnds_of_string {quotes : Nat} {text : List Char}
    (h : string c (c :: cs) = (⟨.unterminated quotes, text⟩, rest)) :
    NeverEnds c (c :: cs) ∧ quotes = if [c, c] <+: cs then 3 else 1 := by
  constructor
  · intro literal behind whole formed parts
    rw [whole, formed.string parts] at h
    cases h
  · have single : string.short c (c :: cs) = (⟨.unterminated quotes, text⟩, rest) → quotes = 1 := by
      intro h
      rw [string.short] at h
      split at h <;> cases h
      rfl
    obtain - | ⟨d, - | ⟨e, cs⟩⟩ := cs
    · rw [single h]
      rfl
    · rw [single h]
      simp
    · rw [string] at h
      split at h
      case isTrue triple =>
        obtain ⟨rfl, rfl⟩ := triple
        split at h <;> cases h
        simp
      case isFalse other =>
        rw [single h, if_neg]
        simp only [List.cons_prefix_cons, List.nil_prefix, and_true]
        exact fun triple => other ⟨triple.1.symm, triple.2.symm⟩

/-- Whether a lexeme is neither a bracket nor a literal that never ends. -/
def IsQuiet (lexeme : Lexeme) : Prop :=
  lexeme.kind ≠ .openBracket ∧ lexeme.kind ≠ .closeBracket ∧
    ∀ quotes, lexeme.kind ≠ .unterminated quotes

end Lexeme

/-- A lexeme is read in parts, without a bracket in them. -/
theorem readInParts_next {c : Char} {cs rest : List Char} {lexeme : Lexeme}
    (found : next c cs = (lexeme, rest)) (quiet : lexeme.IsQuiet) (offset : Nat) :
    ReadInParts offset lexeme.text rest [] := by
  have begins := begins_next c cs
  rw [found] at begins
  obtain ⟨whole, formed⟩ := begins
  dsimp only at whole formed
  -- the quote of a literal is what the lexeme begins with
  have literal : ∀ {quote : Char} {tail : List Char}, IsQuote quote → lexeme.kind = .string →
      lexeme.text = quote :: tail → ReadInParts offset lexeme.text rest [] := by
    intro quote tail isQuote kind text
    rw [text] at whole
    obtain ⟨rfl, -⟩ := List.cons.inj whole
    have same : lexeme = ⟨.string, lexeme.text⟩ := by rw [← kind]
    rw [isQuote.next_eq, same] at found
    obtain ⟨isLiteral, -, parts⟩ := isLiteral_of_string isQuote found
    exact .single (.literal isLiteral parts)
  cases formed with
  | space blank =>
    simp only [List.mem_cons, List.not_mem_nil, or_false] at blank
    rcases blank with rfl | rfl | rfl <;>
      exact .single (.plain (by decide) (by decide) (by decide) (by decide))
  | lineFeed => exact .single (.plain (by decide) (by decide) (by decide) (by decide))
  | carriageReturn => exact .single (.plain (by decide) (by decide) (by decide) (by decide))
  | comment inside ends => exact .single (.comment inside ends)
  | continuation lineEnd =>
    have backslash : ∀ behind, Part offset ['\\'] behind [] := fun behind =>
      .plain (by decide) (by decide) (by decide) (by decide)
    have return' : ∀ offset behind, Part offset ['\r'] behind [] := fun offset behind =>
      .plain (by decide) (by decide) (by decide) (by decide)
    have feed : ∀ offset, ReadInParts offset ['\n'] rest [] := fun offset =>
      .single (.plain (by decide) (by decide) (by decide) (by decide))
    rcases lineEnd with rfl | rfl
    · exact .cons (backslash _) (feed _)
    · exact .cons (backslash _) (.cons (return' _ _) (feed _))
  | shortString isQuote => exact literal isQuote rfl rfl
  | longString isQuote => exact literal isQuote rfl rfl
  | unterminated => exact absurd rfl (quiet.2.2 _)
  | openBracket => exact absurd rfl quiet.1
  | closeBracket => exact absurd rfl quiet.2.1
  | other other =>
    simp only [layoutMarks, List.mem_cons, List.not_mem_nil, or_false, not_or] at other
    refine .single (.plain other.2.2.2.2.2.1 ?_ ?_ ?_)
    · simp [IsQuote, other]
    · simp [IsOpener, other]
    · simp [IsCloser, other]
  | backslash => exact .single (.plain (by decide) (by decide) (by decide) (by decide))

/-! ## Steps of the layout pass -/

/-- A line takes a quiet lexeme, and the same brackets stay open.  A line feed ends a line that has
none. -/
theorem OpenLine.take_of_isQuiet {lexeme : Lexeme} (quiet : lexeme.IsQuiet) (line : OpenLine)
    (offset : Nat) : ∃ line', line.take offset lexeme = .ok line' ∧
      (line'.map OpenLine.brackets).getD [] = line.brackets := by
  obtain ⟨kind, text⟩ := lexeme
  cases kind with
  | lineFeed =>
    by_cases none : line.brackets = []
    · exact ⟨_, if_pos (List.isEmpty_iff.2 none), none.symm⟩
    · exact ⟨_, if_neg fun empty => none (List.isEmpty_iff.1 empty), rfl⟩
  | unterminated quotes => exact absurd rfl (quiet.2.2 quotes)
  | openBracket => exact absurd rfl quiet.1
  | closeBracket => exact absurd rfl quiet.2.1
  | _ => exact ⟨_, rfl, rfl⟩

/-- A line takes a bracket that fits, and what does not fit is an offence. -/
theorem OpenLine.meets_take_bracket {c : Char} {kind : LexemeKind}
    (bracket : kind = .openBracket ∧ IsOpener c ∨ kind = .closeBracket ∧ IsCloser c)
    (line : OpenLine) (offset : Nat) (rest : List Char) :
    Meets (Offence line.brackets.reverse offset (c :: rest))
      (fun r => ∃ line', r = some line' ∧ stack? line.brackets (c, offset) = some line'.brackets)
      (line.take offset ⟨kind, [c]⟩) := by
  rcases bracket with ⟨rfl, opener⟩ | ⟨rfl, closer⟩
  · show Meets _ _ ((line.openBracket offset c).map some)
    unfold OpenLine.openBracket
    split
    case isTrue deep => exact Offence.tooDeep opener (by rwa [List.length_reverse])
    case isFalse room => exact ⟨_, rfl, stack?_opener opener room offset⟩
  · show Meets _ _ ((line.closeBracket offset c).map some)
    unfold OpenLine.closeBracket
    split
    case h_1 none => exact Offence.unmatched closer (by rw [none, List.reverse_nil])
    case h_2 o start outer innermost =>
      split
      case isTrue closes =>
        refine ⟨_, rfl, ?_⟩
        rw [innermost, ← closes]
        exact stack?_closer outer o start offset
      case isFalse differs =>
        exact Offence.mismatched closer (by rw [innermost, List.reverse_cons]) differs

namespace LayoutState

/-- The brackets that are open, the innermost first. -/
def opened (s : LayoutState) : List (Char × Nat) := (s.line.map OpenLine.brackets).getD []

variable {s : LayoutState} {lexeme : Lexeme}

/-- A quiet lexeme is passed by, and the same brackets stay open. -/
theorem step_of_isQuiet (quiet : lexeme.IsQuiet) (s : LayoutState) :
    ∃ s', s.step lexeme = .ok s' ∧ s'.offset = s.offset + byteLength lexeme.text ∧
      s'.opened = s.opened := by
  obtain ⟨offset, column, line?, finished⟩ := s
  cases line? with
  | none =>
    obtain ⟨line', taken, brackets⟩ := OpenLine.take_of_isQuiet quiet ⟨column, offset, [], []⟩ offset
    unfold LayoutState.step
    dsimp only
    split
    case h_1 => exact ⟨_, rfl, rfl, rfl⟩
    case h_2 => exact ⟨_, rfl, rfl, rfl⟩
    case h_3 => exact ⟨_, rfl, rfl, rfl⟩
    case h_4 => exact ⟨_, rfl, rfl, rfl⟩
    case h_5 =>
      rw [taken]
      exact ⟨_, rfl, rfl, brackets⟩
    case h_6 found => cases found
  | some line =>
    obtain ⟨line', taken, brackets⟩ := line.take_of_isQuiet quiet offset
    show ∃ s', (line.take offset lexeme >>= _) = _ ∧ _
    rw [taken]
    cases line' with
    | none => exact ⟨_, rfl, rfl, brackets⟩
    | some line' => exact ⟨_, rfl, rfl, brackets⟩

/-- A bracket is an offence, or it is opened or closed. -/
theorem meets_step_bracket {c : Char} {kind : LexemeKind}
    (bracket : kind = .openBracket ∧ IsOpener c ∨ kind = .closeBracket ∧ IsCloser c)
    (s : LayoutState) (rest : List Char) :
    Meets (Offence s.opened.reverse s.offset (c :: rest))
      (fun s' => s'.offset = s.offset + byteLength [c] ∧
        stack? s.opened (c, s.offset) = some s'.opened) (s.step ⟨kind, [c]⟩) := by
  obtain ⟨offset, column, line?, finished⟩ := s
  cases line? with
  | none =>
    have begins : step ⟨offset, column, none, finished⟩ ⟨kind, [c]⟩ =
        (OpenLine.take ⟨column, offset, [], []⟩ offset ⟨kind, [c]⟩ >>= fun line =>
          .ok ⟨offset + byteLength [c], column, line, finished⟩) := by
      rcases bracket with ⟨rfl, -⟩ | ⟨rfl, -⟩ <;> rfl
    rw [begins]
    refine (OpenLine.meets_take_bracket bracket ⟨column, offset, [], []⟩ offset rest).bind ?_
    rintro _ ⟨line', rfl, fits⟩
    exact ⟨rfl, fits⟩
  | some line =>
    refine (line.meets_take_bracket bracket offset rest).bind ?_
    rintro _ ⟨line', rfl, fits⟩
    exact ⟨rfl, fits⟩

/-- A literal that never ends is an offence. -/
theorem step_unterminated (s : LayoutState) (quotes : Nat) (text : List Char) :
    s.step ⟨.unterminated quotes, text⟩ = .error (faultAt .unterminatedString s.offset quotes) := by
  obtain ⟨offset, column, _ | line, finished⟩ := s <;> rfl

/-- The text in front of the rest of a source was read, and its open brackets are known. -/
structure HasRead (s : LayoutState) (before rest : List Char) : Prop where
  offset : s.offset = byteLength before
  brackets : ∃ brackets, ReadInParts 0 before rest brackets ∧
    brackets.foldlM stack? [] = some s.opened

/-- At its start, the layout pass has read nothing. -/
theorem hasRead_initial (source : List Char) : initial.HasRead [] source :=
  ⟨rfl, [], .nil, rfl⟩

variable {before rest cs : List Char} {c : Char}

/-- What stands at the place that was read up to is the first offence. -/
theorem HasRead.firstOffence (h : s.HasRead before rest) {fault : Fault}
    (offence : Offence s.opened.reverse s.offset rest fault) :
    FirstOffence (before ++ rest) fault := by
  obtain ⟨brackets, read, fits⟩ := h.brackets
  refine ⟨before, rest, brackets, _, rfl, read, (leavesOpen_of_foldlM fits).1, ?_⟩
  rwa [← h.offset]

/-- Parts are read behind the text that was read before. -/
theorem HasRead.extend {s' : LayoutState} {part : List Char} {others : List (Char × Nat)}
    (h : s.HasRead before (part ++ rest)) (more : ReadInParts s.offset part rest others)
    (offset : s'.offset = s.offset + byteLength part)
    (fits : others.foldlM stack? s.opened = some s'.opened) : s'.HasRead (before ++ part) rest := by
  obtain ⟨brackets, read, front⟩ := h.brackets
  refine ⟨by rw [offset, h.offset, byteLength_append], brackets ++ others, read.append ?_, ?_⟩
  · rwa [Nat.zero_add, ← h.offset]
  · rw [List.foldlM_append, front, Option.bind_eq_bind, Option.bind_some, fits]

/-- A step reads a lexeme, or finds the first offence. -/
theorem HasRead.meets_step (h : s.HasRead before (c :: cs)) (found : next c cs = (lexeme, rest)) :
    Meets (FirstOffence (before ++ c :: cs)) (fun s' => s'.HasRead (before ++ lexeme.text) rest)
      (s.step lexeme) := by
  have begins := begins_next c cs
  rw [found] at begins
  obtain ⟨whole, formed⟩ := begins
  dsimp only at whole formed
  have bracket : ∀ {kind : LexemeKind} {d : Char}, lexeme = ⟨kind, [d]⟩ →
      kind = .openBracket ∧ IsOpener d ∨ kind = .closeBracket ∧ IsCloser d →
      Meets (FirstOffence (before ++ c :: cs)) (fun s' => s'.HasRead (before ++ lexeme.text) rest)
        (s.step lexeme) := by
    rintro kind d rfl mark
    rw [whole] at h ⊢
    refine ((meets_step_bracket mark s rest).mono_error fun fault offence => ?_).mono ?_
    · exact h.firstOffence offence
    · rintro s' ⟨offset, fits⟩
      refine h.extend (.single (.bracket (mark.imp And.right And.right))) offset ?_
      rw [List.foldlM_cons, fits]
      rfl
  -- Only brackets and literals without an end change what is open, or fail.
  by_cases quiet : lexeme.IsQuiet
  · obtain ⟨s', step, offset, opened⟩ := step_of_isQuiet quiet s
    rw [whole] at h
    rw [step]
    exact h.extend (readInParts_next found quiet _) offset (congrArg some opened.symm)
  · cases formed with
    | openBracket opener => exact bracket rfl (.inl ⟨rfl, opener⟩)
    | closeBracket closer => exact bracket rfl (.inr ⟨rfl, closer⟩)
    | @unterminated quote quotes body isQuote width =>
      obtain ⟨tail, text⟩ : ∃ tail, List.replicate quotes quote ++ body = quote :: tail := by
        rcases width with rfl | rfl <;> exact ⟨_, rfl⟩
      rw [text] at whole
      obtain ⟨rfl, -⟩ := List.cons.inj whole
      rw [isQuote.next_eq] at found
      obtain ⟨endless, rfl⟩ := neverEnds_of_string found
      rw [step_unterminated]
      exact h.firstOffence (.unterminated isQuote endless)
    | _ => exact absurd ⟨nofun, nofun, nofun⟩ quiet

/-- The end of a source is the end of its layout, or a bracket is never closed. -/
theorem HasRead.meets_finish (h : s.HasRead before []) :
    Meets (FirstOffence before) (fun _ => Balanced before) s.finish := by
  have done : s.opened = [] → Balanced before := by
    intro none
    obtain ⟨brackets, read, fits⟩ := h.brackets
    obtain ⟨leaves, -⟩ := leavesOpen_of_foldlM fits
    rw [none] at leaves
    obtain ⟨nested⟩ := leaves
    exact ⟨brackets, read, nested⟩
  unfold LayoutState.finish
  split
  case h_1 noLine => exact done (by rw [opened, noLine]; rfl)
  case h_2 line isOpen =>
    have brackets : s.opened = line.brackets := by rw [opened, isOpen]; rfl
    split
    case h_1 c offset outer innermost =>
      rw [← List.append_nil before]
      have whole : s.opened.reverse = outer.reverse ++ [(c, offset)] := by
        rw [brackets, innermost, List.reverse_cons]
      exact h.firstOffence (.unclosed whole)
    case h_2 none => exact done (by rw [brackets, none])

/-- The layout pass finds the first offence, or there is none. -/
theorem HasRead.meets_run {fuel : Nat} (enough : cs.length ≤ fuel) (h : s.HasRead before cs) :
    Meets (FirstOffence (before ++ cs)) (fun _ => Balanced (before ++ cs))
      ((splitWithin fuel cs).foldlM step s >>= finish) := by
  induction fuel generalizing s before cs with
  | zero =>
    obtain rfl : cs = [] := List.length_eq_zero_iff.1 (Nat.le_zero.1 enough)
    rw [List.append_nil]
    exact h.meets_finish
  | succ fuel ih =>
    cases cs with
    | nil =>
      rw [List.append_nil]
      exact h.meets_finish
    | cons c cs =>
      rw [splitWithin, List.foldlM_cons, bind_assoc]
      refine (h.meets_step rfl).bind fun s' read => ?_
      obtain ⟨whole, formed⟩ := begins_next c cs
      rw [whole, ← List.append_assoc]
      refine ih ?_ read
      -- a lexeme is not empty, so the rest is shorter
      have size := congrArg List.length whole
      have some := List.length_pos_iff.2 formed.text_ne_nil
      simp only [List.length_cons, List.length_append] at size enough
      omega

end LayoutState

/-! ## The layout pass -/

/-- A source has logical lines exactly if it is balanced, and the layout pass reports exactly the
first offence. -/
theorem logicalLines_decides (source : List Char) :
    ((∃ lines, logicalLines source = .ok lines) ↔ Balanced source) ∧
    ∀ fault, logicalLines source = .error fault ↔ FirstOffence source fault := by
  have run : Meets (FirstOffence source) (fun _ => Balanced source) (logicalLines source) :=
    (LayoutState.hasRead_initial source).meets_run (Nat.le_refl _)
  cases result : logicalLines source with
  | ok lines =>
    have balanced : Balanced source := run.of_ok result
    refine ⟨⟨fun _ => balanced, fun _ => ⟨lines, rfl⟩⟩, fun fault => ⟨nofun, fun offence => ?_⟩⟩
    exact absurd balanced offence.not_balanced
  | error found =>
    have first : FirstOffence source found := run.of_error result
    refine ⟨⟨nofun, fun balanced => absurd balanced first.not_balanced⟩, fun fault => ⟨?_, ?_⟩⟩
    · rintro ⟨⟩
      exact first
    · exact fun offence => congrArg _ (first.unique offence)

end BlockEditor
