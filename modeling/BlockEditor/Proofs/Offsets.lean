import BlockEditor.Proofs.Gathering
import BlockEditor.Proofs.Ranges
import Mathlib.Data.List.Pairwise

/-!
# Offsets of logical lines

The layout pass keeps offsets: a byte of a line stands as far behind the start of the line as in the
source, or a space stands in its place.  No visible character of the source is lost.
-/

namespace BlockEditor

open Text Lexeme

/-! ## Roles of bytes -/

namespace Lexeme

/-- The kind of the lexeme that holds the byte at an offset. -/
def roleAt : List Lexeme → Nat → Option LexemeKind
  | [], _ => none
  | lexeme :: lexemes, k => if k < lexeme.width then some lexeme.kind else roleAt lexemes (k - lexeme.width)

theorem roleAt_cons_of_lt {lexeme : Lexeme} {k : Nat} (h : k < lexeme.width)
    (lexemes : List Lexeme) : roleAt (lexeme :: lexemes) k = some lexeme.kind := if_pos h

/-- The roles behind some lexemes are those of the lexemes that follow. -/
theorem roleAt_append_add (front lexemes : List Lexeme) (k : Nat) :
    roleAt (front ++ lexemes) (byteLength (textOf front) + k) = roleAt lexemes k := by
  induction front with
  | nil => rw [List.nil_append, textOf_nil, byteLength_nil, Nat.zero_add]
  | cons lexeme front ih =>
    have behind : byteLength (textOf (lexeme :: front)) + k =
        lexeme.width + (byteLength (textOf front) + k) := by
      rw [textOf_cons, byteLength_append, Nat.add_assoc]
      rfl
    rw [List.cons_append, behind, roleAt, if_neg (Nat.not_lt.2 (Nat.le_add_right _ _)),
      Nat.add_sub_cancel_left, ih]

/-- The roles within some lexemes do not depend on what follows. -/
theorem roleAt_append_of_lt {inner : List Lexeme} {k : Nat} (h : k < byteLength (textOf inner))
    (lexemes : List Lexeme) : roleAt (inner ++ lexemes) k = roleAt inner k := by
  induction inner generalizing k with
  | nil => exact absurd h (Nat.not_lt_zero k)
  | cons lexeme inner ih =>
    rw [List.cons_append, roleAt, roleAt]
    split
    · rfl
    · rename_i behind
      rw [textOf_cons, byteLength_append] at h
      exact ih (Nat.sub_lt_left_of_lt_add (Nat.not_lt.1 behind) h)

/-- A byte that is shown is the byte that stands there, or a space for a byte that is replaced. -/
theorem bytes_shownAll (lexemes : List Lexeme) (k : Nat) :
    (bytes (shownAll lexemes))[k]? = (bytes (textOf lexemes))[k]? ∨
      (bytes (shownAll lexemes))[k]? = some 32 ∧
        ∃ kind ∈ roleAt lexemes k, kind.isReplaced = true := by
  induction lexemes generalizing k with
  | nil => exact .inl rfl
  | cons lexeme lexemes ih =>
    have sizeShown : (bytes lexeme.shown).length = lexeme.width := by
      rw [length_bytes, byteLength_shown]
    have sizeText : (bytes lexeme.text).length = lexeme.width := length_bytes _
    rw [shownAll_cons, textOf_cons, bytes_append, bytes_append, roleAt]
    -- the byte belongs to the first lexeme, or is counted from behind it
    by_cases inside : k < lexeme.width
    · rw [if_pos inside, List.getElem?_append_left (by rwa [sizeShown]),
        List.getElem?_append_left (by rwa [sizeText]), shown]
      split
      · rename_i replaced
        refine .inr ⟨?_, lexeme.kind, rfl, replaced⟩
        rw [bytes_replicate_space, List.getElem?_replicate, if_pos inside]
      · exact .inl rfl
    · rw [if_neg inside, List.getElem?_append_right (by rw [sizeShown]; omega),
        List.getElem?_append_right (by rw [sizeText]; omega), sizeShown, sizeText]
      exact ih (k - lexeme.width)

/-- An item of a list that two others make up stands in one of them. -/
theorem append_eq_append_cons {α : Type} {a b front back : List α} {c : α}
    (h : a ++ b = front ++ c :: back) : (∃ rest, a = front ++ c :: rest ∧ back = rest ++ b) ∨
      ∃ rest, front = a ++ rest ∧ b = rest ++ c :: back := by
  rcases List.append_eq_append_iff.1 h with ⟨rest, e, whole⟩ | ⟨rest, e, whole⟩
  · exact .inr ⟨rest, e, whole⟩
  · cases rest with
    | nil => exact .inr ⟨[], by simpa using e.symm, by simpa using whole.symm⟩
    | cons d rest =>
      obtain ⟨rfl, rfl⟩ := List.cons.inj whole
      exact .inl ⟨rest, e, rfl⟩

/-- What is shown and is no space stands in the source at the same offset. -/
theorem shownAll_mark {lexemes : List Lexeme} {a b : List Char} {c : Char}
    (shows : shownAll lexemes = a ++ c :: b) (mark : c ≠ ' ') :
    ∃ front back, textOf lexemes = front ++ c :: back ∧ byteLength front = byteLength a := by
  induction lexemes generalizing a with
  | nil => exact absurd shows (by simp [shownAll])
  | cons lexeme lexemes ih =>
    rw [shownAll_cons] at shows
    rcases append_eq_append_cons shows with ⟨rest, here, -⟩ | ⟨rest, rfl, later⟩
    · rw [shown] at here
      split at here
      · have space : c ∈ List.replicate lexeme.width ' ' := by simp [here]
        exact absurd (List.eq_of_mem_replicate space) mark
      · exact ⟨a, rest ++ textOf lexemes, by simp [here], rfl⟩
    · obtain ⟨front, back, text, size⟩ := ih later
      refine ⟨lexeme.text ++ front, back, by simp [text], ?_⟩
      rw [byteLength_append, byteLength_append, byteLength_shown, size]
      rfl

/-- A lexeme has its form in front of those behind it. -/
theorem AllFormed.formed {front back : List Lexeme} {lexeme : Lexeme}
    (h : AllFormed (front ++ lexeme :: back)) : lexeme.Formed (textOf back) := by
  induction front with
  | nil => exact (allFormed_cons.1 h).1
  | cons _ front ih => exact ih (allFormed_cons.1 h).2

/-- A character of a source stands in a lexeme. -/
theorem exists_of_textOf {lexemes : List Lexeme} {before after : List Char} {c : Char}
    (whole : textOf lexemes = before ++ c :: after) : ∃ front lexeme back a b,
      lexemes = front ++ lexeme :: back ∧ before = textOf front ++ a ∧ lexeme.text = a ++ c :: b := by
  induction lexemes generalizing before with
  | nil => exact absurd whole (by simp)
  | cons lexeme lexemes ih =>
    rcases append_eq_append_cons whole with ⟨rest, here, -⟩ | ⟨rest, rfl, later⟩
    · exact ⟨[], lexeme, lexemes, before, rest, rfl, rfl, here⟩
    · obtain ⟨front, other, back, a, b, rfl, rfl, text⟩ := ih later
      exact ⟨lexeme :: front, other, back, a, b, rfl, by simp, text⟩

end Lexeme

/-! ## Places of lines -/

/-- A line stands in a source: it begins at a boundary, its visible characters stand as far behind
its start as in the source, and it ends with one. -/
structure LogicalLine.Stands (source : List Char) (line : LogicalLine) : Prop where
  start : IsBoundary source line.start
  mark {a b : List Char} {c : Char} : line.text = a ++ c :: b → c ≠ ' ' →
    ∃ front back, source = front ++ c :: back ∧ byteLength front = line.start + byteLength a
  last : ∀ c ∈ line.text.getLast?, c ≠ ' '

/-- A line ends at a boundary, behind its last character. -/
theorem LogicalLine.Stands.stop {source : List Char} {line : LogicalLine} (h : line.Stands source) :
    IsBoundary source line.stop := by
  rcases List.eq_nil_or_concat line.text with empty | ⟨text, c, e⟩
  · rw [LogicalLine.stop, empty]
    exact h.start
  · -- the last character is visible, so it stands in the source and a boundary is behind it
    have visible : c ≠ ' ' := h.last c (by simp [e])
    obtain ⟨front, back, rfl, size⟩ := h.mark (by rw [e, List.concat_eq_append]) visible
    refine ⟨front ++ [c], back, by simp, ?_⟩
    rw [LogicalLine.stop, e, List.concat_eq_append, byteLength_append, byteLength_append, size,
      Nat.add_assoc]

/-- A line is no wider than the lexemes that it shows. -/
theorem Shows.le {text : List Char} {lexemes : List Lexeme} (h : Shows text lexemes) :
    byteLength text ≤ byteLength (textOf lexemes) := by
  obtain ⟨⟨blanks, shows⟩, -⟩ := h
  rw [← byteLength_shownAll, shows, byteLength_append]
  exact Nat.le_add_right _ _

namespace Gathers

variable {offset : Nat} {lexemes : List Lexeme} {lines : List LogicalLine}

/-- A line shows some of the lexemes, beginning where the first of them stands. -/
theorem exists_of_mem (h : Gathers offset lexemes lines) {line : LogicalLine}
    (member : line ∈ lines) : ∃ front inner back, lexemes = front ++ (inner ++ back) ∧
      line.start = offset + byteLength (textOf front) ∧ Shows line.text inner := by
  induction h with
  | nil => cases member
  | @gap offset lexeme lexemes lines _ _ ih =>
    obtain ⟨front, inner, back, rfl, start, shows⟩ := ih member
    refine ⟨lexeme :: front, inner, back, rfl, ?_, shows⟩
    rw [start, textOf_cons, byteLength_append, Nat.add_assoc]
    rfl
  | @line offset indent text first others lexemes lines _ shows _ ih =>
    rcases List.mem_cons.1 member with rfl | member
    · exact ⟨[], first :: others, lexemes, rfl, rfl, shows⟩
    · obtain ⟨front, inner, back, rfl, start, shows⟩ := ih member
      refine ⟨first :: others ++ front, inner, back, by simp, ?_, shows⟩
      rw [start, textOf_append, byteLength_append, Nat.add_assoc]

/-- The lines stand one behind the other, among the lexemes. -/
theorem laid (h : Gathers offset lexemes lines) :
    Laid LogicalLine.span offset (offset + byteLength (textOf lexemes)) lines := by
  induction h with
  | nil => exact .nil (Nat.le_add_right _ _)
  | @gap offset lexeme lexemes lines _ _ ih =>
    rw [textOf_cons, byteLength_append, ← Nat.add_assoc]
    exact ih.mono (Nat.le_add_right _ _) (Nat.le_refl _)
  | @line offset indent text first others lexemes lines _ shows _ ih =>
    rw [textOf_append, byteLength_append, ← Nat.add_assoc]
    exact .cons (Nat.le_refl _) (Nat.le_add_right _ _)
      (ih.mono (Nat.add_le_add_left shows.le _) (Nat.le_refl _))

/-- Two lines share no byte. -/
theorem apart (h : Gathers offset lexemes lines) {a b : LogicalLine} (ha : a ∈ lines) (hb : b ∈ lines)
    (different : a ≠ b) : a.stop ≤ b.start ∨ b.stop ≤ a.start := by
  have pairs : lines.Pairwise fun a b => a.stop ≤ b.start ∨ b.stop ≤ a.start :=
    h.laid.pairwise.imp fun behind => .inl behind
  have symmetric : Std.Symm fun a b : LogicalLine => a.stop ≤ b.start ∨ b.stop ≤ a.start :=
    ⟨fun _ _ h => h.symm⟩
  exact pairs.forall ha hb different

end Gathers

/-- The lines of a source stand in it. -/
theorem Gathers.stands {source : List Char} {lines : List LogicalLine}
    (h : Gathers 0 (split source) lines) : ∀ line ∈ lines, line.Stands source := by
  intro line member
  obtain ⟨front, inner, back, whole, start, ⟨blanks, shows⟩, last⟩ := h.exists_of_mem member
  have text : source = textOf front ++ textOf inner ++ textOf back := by
    rw [← textOf_split source, whole, textOf_append, textOf_append, List.append_assoc]
  rw [Nat.zero_add] at start
  refine ⟨?_, fun {a b c} e visible => ?_, last⟩
  · rw [start, text, List.append_assoc]
    exact isBoundary_append _ _
  · rw [e, List.append_assoc] at shows
    obtain ⟨before, after, here, size⟩ := shownAll_mark shows visible
    refine ⟨textOf front ++ before, after ++ textOf back, by simp [text, here], ?_⟩
    rw [byteLength_append, start, size]

/-! ## Characters of lines -/

/-- Whether lexemes of a kind are blanks, line ends, comments or continuations. -/
def LexemeKind.isSilent : LexemeKind → Bool
  | .space | .lineFeed | .carriageReturn | .comment | .continuation => true
  | _ => false

/-- A literal without an end stops the layout pass. -/
theorem terminated_of_foldlM {lexemes : List Lexeme} {s s' : LayoutState}
    (h : lexemes.foldlM LayoutState.step s = .ok s') {lexeme : Lexeme} (member : lexeme ∈ lexemes)
    (quotes : Nat) : lexeme.kind ≠ .unterminated quotes := by
  induction lexemes generalizing s with
  | nil => cases member
  | cons first lexemes ih =>
    rw [List.foldlM_cons] at h
    cases step : s.step first with
    | error fault =>
      rw [step] at h
      cases h
    | ok between =>
      rw [step] at h
      rcases List.mem_cons.1 member with rfl | member
      · -- the step that takes the literal fails, whether a line is open or not
        obtain ⟨kind, text⟩ := lexeme
        rintro rfl
        obtain ⟨offset, column, line, finished⟩ := s
        cases line <;> cases step
      · exact ih h member

/-- What is not silent ends with a visible character. -/
theorem Lexeme.Formed.last_ne_space {lexeme : Lexeme} {rest : List Char} (formed : lexeme.Formed rest)
    (loud : lexeme.kind.isSilent = false) (terminated : ∀ quotes, lexeme.kind ≠ .unterminated quotes) :
    ∃ text c, lexeme.text = text ++ [c] ∧ c ≠ ' ' := by
  have mark : ∀ {quote : Char}, IsQuote quote → quote ≠ ' ' := by
    rintro quote (rfl | rfl) <;> decide
  cases formed with
  | @shortString quote body _ isQuote _ => exact ⟨quote :: body, quote, rfl, mark isQuote⟩
  | @longString quote body _ isQuote _ =>
    exact ⟨[quote, quote, quote] ++ body ++ [quote, quote], quote, by simp, mark isQuote⟩
  | @unterminated _ quotes => exact absurd rfl (terminated quotes)
  | @openBracket c _ bracket | @closeBracket c _ bracket =>
    refine ⟨[], c, rfl, ?_⟩
    rintro rfl
    revert bracket
    decide
  | @other c _ plain =>
    refine ⟨[], c, rfl, ?_⟩
    rintro rfl
    exact plain (by decide)
  | backslash => exact ⟨[], '\\', rfl, by decide⟩
  | _ => cases loud

/-- What is not silent is shown as it stands. -/
theorem LexemeKind.isReplaced_of_isSilent {kind : LexemeKind} (loud : kind.isSilent = false) :
    kind.isReplaced = false ∧ kind.isGap = false := by
  cases kind <;> first | exact ⟨rfl, rfl⟩ | cases loud

/-- A line keeps what ends with a visible character. -/
theorem Shows.keeps {text inside : List Char} {before back : List Lexeme} {lexeme : Lexeme}
    {c : Char} (h : Shows text (before ++ lexeme :: back)) (loud : lexeme.kind.isSilent = false)
    (e : lexeme.text = inside ++ [c]) (visible : c ≠ ' ') :
    byteLength (textOf before) + lexeme.width ≤ byteLength text := by
  obtain ⟨⟨blanks, shows⟩, -⟩ := h
  have shown : lexeme.shown = inside ++ [c] := by
    rw [Lexeme.shown, (LexemeKind.isReplaced_of_isSilent loud).1, e]
    rfl
  have whole : text ++ List.replicate blanks ' ' =
      shownAll before ++ inside ++ c :: shownAll back := by
    rw [← shows, shownAll, List.flatMap_append, List.flatMap_cons, shown]
    simp [shownAll]
  rcases append_eq_append_cons whole with ⟨rest, rfl, -⟩ | ⟨rest, -, space⟩
  · rw [byteLength_append, byteLength_append, byteLength_shownAll, Lexeme.width, e,
      byteLength_append, byteLength_cons, byteLength_cons, byteLength_nil]
    omega
  · -- what was cut off the line are spaces
    have member : c ∈ List.replicate blanks ' ' := by simp [space]
    exact absurd (List.eq_of_mem_replicate member) visible

/-- A lexeme that is not silent stands in a line. -/
theorem Gathers.exists_holding {offset : Nat} {front back : List Lexeme} {lexeme : Lexeme}
    {lines : List LogicalLine} {inside : List Char} {c : Char}
    (h : Gathers offset (front ++ lexeme :: back) lines) (loud : lexeme.kind.isSilent = false)
    (e : lexeme.text = inside ++ [c]) (visible : c ≠ ' ') :
    ∃ line ∈ lines, line.start ≤ offset + byteLength (textOf front) ∧
      offset + byteLength (textOf front) + lexeme.width ≤ line.stop := by
  generalize whole : front ++ lexeme :: back = lexemes at h
  induction h generalizing front with
  | nil => exact absurd whole (by simp)
  | @gap offset first lexemes lines gap rest ih =>
    cases front with
    | nil =>
      -- a lexeme between lines is silent, so it is not the one at hand
      obtain ⟨rfl, rfl⟩ := List.cons.inj whole
      rw [(LexemeKind.isReplaced_of_isSilent loud).2] at gap
      cases gap
    | cons other front =>
      obtain ⟨rfl, rfl⟩ := List.cons.inj whole
      obtain ⟨line, member, start, stop⟩ := ih rfl
      rw [textOf_cons, byteLength_append, ← Nat.add_assoc]
      exact ⟨line, member, start, stop⟩
  | @line offset indent text first others lexemes lines inner shows rest ih =>
    rcases append_eq_append_cons whole.symm with ⟨behind, here, -⟩ | ⟨before, rfl, later⟩
    · rw [here] at shows
      refine ⟨⟨indent, offset, text⟩, List.mem_cons_self, Nat.le_add_right _ _, ?_⟩
      rw [Nat.add_assoc]
      exact Nat.add_le_add_left (shows.keeps loud e visible) offset
    · obtain ⟨line, member, start, stop⟩ := ih later.symm
      rw [textOf_append, byteLength_append, ← Nat.add_assoc]
      exact ⟨line, List.mem_cons_of_mem _ member, start, stop⟩

/-! ## Faithful lines -/

/-- Logical lines keep the offsets of a source and lose nothing of it. -/
structure Faithful (source : List Char) (lines : List LogicalLine) : Prop where
  /-- The lexemes are the source, and each of them has the form of its kind. -/
  lexemes : textOf (split source) = source ∧ AllFormed (split source)
  /-- The lines stand one behind the other. -/
  ordered : lines.Pairwise fun a b => a.stop ≤ b.start
  /-- The lines lie in the source. -/
  placed : ∀ line ∈ lines, line.span.In source
  /-- A byte is kept at its offset, or a space stands for one that is replaced. -/
  kept : ∀ line ∈ lines, ∀ k < byteLength line.text,
    (bytes line.text)[k]? = (bytes source)[line.start + k]? ∨
      (bytes line.text)[k]? = some 32 ∧
        ∃ kind ∈ roleAt (split source) (line.start + k), kind.isReplaced = true
  /-- The bytes of string literals are kept. -/
  strings : ∀ line ∈ lines, ∀ k < byteLength line.text,
    roleAt (split source) (line.start + k) = some .string →
      (bytes line.text)[k]? = (bytes source)[line.start + k]?
  /-- Every character has a role, and one that is not silent lies in exactly one line. -/
  complete : ∀ before c after, source = before ++ c :: after →
    ∃ kind ∈ roleAt (split source) (byteLength before), kind.isSilent = true ∨
      ∃! line, line ∈ lines ∧ line.start ≤ byteLength before ∧
        byteLength before + c.utf8Size ≤ line.stop
  /-- The pass stands at a boundary behind every lexeme. -/
  scanned : ∀ taken left s, split source = taken ++ left →
    taken.foldlM LayoutState.step .initial = .ok s →
      s.offset = byteLength (textOf taken) ∧ IsBoundary source s.offset

/-- The bytes of a line are those of the lexemes that it shows. -/
theorem Gathers.kept {source : List Char} {lines : List LogicalLine}
    (h : Gathers 0 (split source) lines) {line : LogicalLine} (member : line ∈ lines) {k : Nat}
    (inside : k < byteLength line.text) :
    (bytes line.text)[k]? = (bytes source)[line.start + k]? ∨
      (bytes line.text)[k]? = some 32 ∧
        ∃ kind ∈ roleAt (split source) (line.start + k), kind.isReplaced = true := by
  obtain ⟨front, inner, back, whole, start, shows⟩ := h.exists_of_mem member
  have within : k < byteLength (textOf inner) := Nat.lt_of_lt_of_le inside shows.le
  obtain ⟨⟨blanks, shows⟩, -⟩ := shows
  have shown : (bytes line.text)[k]? = (bytes (shownAll inner))[k]? := by
    rw [shows, bytes_append, List.getElem?_append_left (by rwa [length_bytes])]
  have source' : (bytes source)[line.start + k]? = (bytes (textOf inner))[k]? := by
    conv_lhs => rw [← textOf_split source]
    rw [whole, textOf_append, textOf_append, bytes_append, bytes_append, start, Nat.zero_add,
      ← length_bytes, List.getElem?_append_right (Nat.le_add_right _ _), Nat.add_sub_cancel_left,
      List.getElem?_append_left (by rwa [length_bytes])]
  have role : roleAt (split source) (line.start + k) = roleAt inner k := by
    rw [whole, start, Nat.zero_add, roleAt_append_add, roleAt_append_of_lt within]
  rw [shown, source', role]
  exact bytes_shownAll inner k

/-- A character that is not silent lies in one line. -/
theorem Gathers.complete {source : List Char} {lines : List LogicalLine}
    (h : Gathers 0 (split source) lines)
    (terminated : ∀ lexeme ∈ split source, ∀ quotes, lexeme.kind ≠ .unterminated quotes)
    (before : List Char) (c : Char) (after : List Char) (e : source = before ++ c :: after) :
    ∃ kind ∈ roleAt (split source) (byteLength before), kind.isSilent = true ∨
      ∃! line, line ∈ lines ∧ line.start ≤ byteLength before ∧
        byteLength before + c.utf8Size ≤ line.stop := by
  have formed := allFormed_split source
  obtain ⟨front, lexeme, back, a, b, whole, rfl, text⟩ :=
    exists_of_textOf ((textOf_split source).trans e)
  rw [whole] at h formed terminated ⊢
  have wide : byteLength a + c.utf8Size ≤ lexeme.width := by
    rw [Lexeme.width, text, byteLength_append, byteLength_cons]
    omega
  have positive := Char.utf8Size_pos c
  rw [byteLength_append, roleAt_append_add, roleAt_cons_of_lt (by omega)]
  refine ⟨lexeme.kind, rfl, ?_⟩
  cases loud : lexeme.kind.isSilent with
  | true => exact .inl rfl
  | false =>
    obtain ⟨inside, d, last, visible⟩ :=
      formed.formed.last_ne_space loud (terminated lexeme (by simp))
    obtain ⟨line, member, start, stop⟩ := h.exists_holding loud last visible
    refine .inr ⟨line, ⟨member, by omega, by omega⟩, ?_⟩
    rintro other ⟨otherMember, otherStart, otherStop⟩
    -- lines that share a byte are not apart
    by_contra different
    rcases h.apart otherMember member different with apart | apart <;> omega

/-- Whatever the layout pass makes of a source keeps the offsets and loses nothing. -/
theorem faithful_of_logicalLines {source : List Char} {lines : List LogicalLine}
    (laidOut : logicalLines source = .ok lines) : Faithful source lines := by
  have gathers := (meets_logicalLines source).of_ok laidOut
  obtain ⟨s, passed⟩ : ∃ s, (split source).foldlM LayoutState.step .initial = .ok s := by
    cases passed : (split source).foldlM LayoutState.step .initial with
    | error fault =>
      rw [logicalLines, passed] at laidOut
      cases laidOut
    | ok s => exact ⟨s, rfl⟩
  refine ⟨⟨textOf_split source, allFormed_split source⟩, gathers.laid.pairwise, ?_, ?_, ?_, ?_, ?_⟩
  · intro line member
    have stands := gathers.stands line member
    exact ⟨stands.start, stands.stop, Nat.le_add_right _ _⟩
  · intro line member k inside
    exact gathers.kept member inside
  · intro line member k inside string
    rcases gathers.kept member inside with same | ⟨-, kind, role, replaced⟩
    · exact same
    · rw [string] at role
      cases role
      cases replaced
  · exact gathers.complete fun lexeme member => terminated_of_foldlM passed member
  · intro taken left s' split' passed'
    have formed := allFormed_split source
    have whole := (textOf_split source).symm
    rw [split'] at formed whole
    obtain ⟨offset, -⟩ :=
      ((LayoutState.behind_initial source).meets_foldlM whole formed).of_ok passed'
    rw [textOf_append] at whole
    refine ⟨offset, ?_⟩
    rw [offset, whole]
    exact isBoundary_append _ _

/-- A call that a comment interrupts, and a continued line. -/
theorem faithful_of_logicalLines_interrupted :
    logicalLines "f('#',  # é\n  2)\nx =\\\n 1 # one\n".toList =
        .ok [⟨0, 0, "f('#',         2)".toList⟩, ⟨0, 18, "x =   1".toList⟩] ∧
      Faithful "f('#',  # é\n  2)\nx =\\\n 1 # one\n".toList
        [⟨0, 0, "f('#',         2)".toList⟩, ⟨0, 18, "x =   1".toList⟩] := by
  have laidOut : logicalLines "f('#',  # é\n  2)\nx =\\\n 1 # one\n".toList =
      .ok [⟨0, 0, "f('#',         2)".toList⟩, ⟨0, 18, "x =   1".toList⟩] := by
    rfl
  exact ⟨laidOut, faithful_of_logicalLines laidOut⟩

end BlockEditor
