import BlockEditor.Proofs.Gathering
import BlockEditor.Proofs.LineContent
import Mathlib.Data.List.Forall2

/-!
# Layout of generated code

The layout pass cuts generated code back into the lines that it was made of.
-/

namespace BlockEditor

/-! ## Taking text -/

/-- A character without a role in the layout is a lexeme of its own. -/
theorem next_plain {c : Char} (plain : c ∉ layoutMarks) (cs : List Char) :
    Lexeme.next c cs = (⟨.other, [c]⟩, cs) := by
  unfold Lexeme.next
  split <;> first | rfl | exact absurd (by decide) plain

/-- The layout pass takes a text in front of another one, lexeme by lexeme. -/
inductive Takes : LayoutState → List Char → List Char → LayoutState → Prop
  | nil {s : LayoutState} {rest : List Char} : Takes s [] rest s
  | lexeme {s s' s'' : LayoutState} {kind : LexemeKind} {c : Char} {cs body text rest : List Char}
    (whole : cs = body ++ text)
    (next : Lexeme.next c (cs ++ rest) = (⟨kind, c :: body⟩, text ++ rest))
    (step : s.step ⟨kind, c :: body⟩ = .ok s') : Takes s' text rest s'' → Takes s (c :: cs) rest s''

namespace Takes

/-- Texts that are taken one after the other are taken together. -/
theorem append {s s' s'' : LayoutState} {a b rest : List Char} (first : Takes s a (b ++ rest) s')
    (second : Takes s' b rest s'') : Takes s (a ++ b) rest s'' := by
  generalize e : b ++ rest = tail at first
  induction first with
  | nil => exact second
  | @lexeme _ _ _ kind c cs body text _ whole next step _ ih =>
    subst e
    show Takes _ (c :: (cs ++ b)) rest s''
    refine .lexeme (by rw [whole, List.append_assoc]) ?_ step (ih second rfl)
    rwa [List.append_assoc, List.append_assoc]

/-- What was taken are the lexemes of the text. -/
theorem splitWithin {s s' : LayoutState} {text rest : List Char} (h : Takes s text rest s') :
    ∃ lexemes : List Lexeme, lexemes.length ≤ text.length ∧
      (∀ fuel, Lexeme.splitWithin (fuel + lexemes.length) (text ++ rest) =
        lexemes ++ Lexeme.splitWithin fuel rest) ∧
      lexemes.foldlM LayoutState.step s = .ok s' := by
  induction h with
  | nil => exact ⟨[], Nat.le_refl 0, fun _ => rfl, rfl⟩
  | @lexeme s s' s'' kind c cs body text rest whole next step _ ih =>
    obtain ⟨lexemes, short, split, fold⟩ := ih
    refine ⟨⟨kind, c :: body⟩ :: lexemes, ?_, ?_, ?_⟩
    · rw [whole]
      simp only [List.length_cons, List.length_append]
      omega
    · intro fuel
      show Lexeme.splitWithin (fuel + lexemes.length + 1) (c :: (cs ++ rest)) = _
      rw [Lexeme.splitWithin, next]
      simp only [split, List.cons_append]
    · rw [List.foldlM_cons, step]
      exact fold

/-- A whole text that is taken is laid out as the state behind it says. -/
theorem logicalLines {s : LayoutState} {text : List Char} (h : Takes .initial text [] s) :
    BlockEditor.logicalLines text = s.finish := by
  obtain ⟨lexemes, short, split, fold⟩ := h.splitWithin
  have all : Lexeme.split text = lexemes := by
    have whole := split (text.length - lexemes.length)
    rw [Nat.sub_add_cancel short, List.append_nil] at whole
    rw [Lexeme.split, whole]
    cases text.length - lexemes.length <;> simp [Lexeme.splitWithin]
  rw [BlockEditor.logicalLines, all, fold]
  rfl

end Takes

/-! ## Inside a line -/

/-- The layout pass is inside a line, behind open brackets with the innermost first, and has taken a
text of the line. -/
def InBrackets (s : LayoutState) (indent : Nat) (text opened : List Char)
    (finished : List LogicalLine) : Prop :=
  ∃ offset column start brackets, s = ⟨offset, column, some ⟨indent, start, text.reverse, brackets⟩,
    finished⟩ ∧ brackets.map Prod.fst = opened

/-- The layout pass is inside a line, in some nesting of parentheses, and has taken a text of it. -/
def InLine (s : LayoutState) (indent : Nat) (text : List Char) (depth : Nat)
    (finished : List LogicalLine) : Prop :=
  ∃ offset column start brackets, s = ⟨offset, column, some ⟨indent, start, text.reverse, brackets⟩,
    finished⟩ ∧ brackets.map Prod.fst = List.replicate depth '('

section States

variable {indent depth : Nat} {text rest opened : List Char} {finished : List LogicalLine}
  {s : LayoutState}

namespace InBrackets

/-- A lexeme that is no mark becomes part of the line as it is. -/
theorem keep (h : InBrackets s indent text opened finished) {kind : LexemeKind} {c : Char}
    {body : List Char} (kept : kind = .other ∨ kind = .space ∨ kind = .string)
    (next : Lexeme.next c (body ++ rest) = (⟨kind, c :: body⟩, rest)) :
    ∃ s', Takes s (c :: body) rest s' ∧
      InBrackets s' indent (text ++ c :: body) opened finished := by
  obtain ⟨offset, column, start, brackets, rfl, nesting⟩ := h
  refine ⟨⟨offset + Text.byteLength (c :: body), column,
    some ⟨indent, start, (c :: body).reverse ++ text.reverse, brackets⟩, finished⟩,
    .lexeme (List.append_nil body).symm next ?_ .nil, ?_⟩
  · rcases kept with rfl | rfl | rfl <;> rfl
  · exact ⟨_, _, start, brackets, by rw [List.reverse_append], nesting⟩

/-- A bracket that opens is taken where the nesting allows it. -/
theorem openBracket (h : InBrackets s indent text opened finished) {c : Char}
    (next : ∀ cs, Lexeme.next c cs = (⟨.openBracket, [c]⟩, cs))
    (shallow : opened.length < maxNesting) :
    ∃ s', Takes s [c] rest s' ∧ InBrackets s' indent (text ++ [c]) (c :: opened) finished := by
  obtain ⟨offset, column, start, brackets, rfl, nesting⟩ := h
  have count : brackets.length = opened.length := by
    rw [← nesting, List.length_map]
  have taken : OpenLine.openBracket ⟨indent, start, text.reverse, brackets⟩ offset c =
      .ok ⟨indent, start, c :: text.reverse, (c, offset) :: brackets⟩ := by
    rw [OpenLine.openBracket, if_neg (by show ¬ brackets.length = maxNesting; omega)]
    rfl
  refine ⟨⟨offset + Text.byteLength [c], column,
    some ⟨indent, start, c :: text.reverse, (c, offset) :: brackets⟩, finished⟩,
    .lexeme (List.append_nil []).symm (next _) ?_ .nil, ?_⟩
  · simp only [LayoutState.step, OpenLine.take, taken]
    rfl
  · exact ⟨_, _, start, _, by rw [List.reverse_append]; rfl, by rw [List.map_cons, nesting]⟩

/-- A bracket that closes the innermost one is taken. -/
theorem closeBracket {opener : Char} (h : InBrackets s indent text (opener :: opened) finished)
    {c : Char} (next : ∀ cs, Lexeme.next c cs = (⟨.closeBracket, [c]⟩, cs))
    (closes : closerOf opener = c) :
    ∃ s', Takes s [c] rest s' ∧ InBrackets s' indent (text ++ [c]) opened finished := by
  obtain ⟨offset, column, start, brackets, rfl, nesting⟩ := h
  cases brackets with
  | nil => cases nesting
  | cons bracket brackets =>
    obtain ⟨open', at'⟩ := bracket
    obtain ⟨same, others⟩ := List.cons.inj nesting
    obtain rfl : open' = opener := same
    have taken : OpenLine.closeBracket ⟨indent, start, text.reverse, (open', at') :: brackets⟩ offset
        c = .ok ⟨indent, start, c :: text.reverse, brackets⟩ := if_pos closes
    refine ⟨⟨offset + Text.byteLength [c], column,
      some ⟨indent, start, c :: text.reverse, brackets⟩, finished⟩,
      .lexeme (List.append_nil []).symm (next _) ?_ .nil, ?_⟩
    · simp only [LayoutState.step, OpenLine.take, taken]
      rfl
    · exact ⟨_, _, start, _, by rw [List.reverse_append]; rfl, others⟩

/-- Characters without a role in the layout are taken one by one. -/
theorem keepAll (h : InBrackets s indent text opened finished) (cs : List Char)
    (plain : ∀ c ∈ cs, c ∉ layoutMarks) :
    ∃ s', Takes s cs rest s' ∧ InBrackets s' indent (text ++ cs) opened finished := by
  induction cs generalizing s text with
  | nil => exact ⟨s, .nil, by rwa [List.append_nil]⟩
  | cons c cs ih =>
    have next : Lexeme.next c ([] ++ (cs ++ rest)) = (⟨.other, [c]⟩, cs ++ rest) :=
      next_plain (plain c (by simp)) _
    obtain ⟨s₁, take₁, line₁⟩ := h.keep (.inl rfl) next
    obtain ⟨s₂, take₂, line₂⟩ := ih line₁ fun d member => plain d (by simp [member])
    exact ⟨s₂, take₁.append take₂, by rwa [List.append_assoc] at line₂⟩

/-- The layout pass takes a quoted text as one lexeme. -/
theorem keepQuoted (h : InBrackets s indent text opened finished) {quote : Char}
    (isQuote : Lexeme.IsQuote quote) (cs : List Char) (after : ∀ c ∈ rest.head?, c ≠ quote) :
    ∃ s', Takes s (Text.encodeQuoted quote cs) rest s' ∧
      InBrackets s' indent (text ++ Text.encodeQuoted quote cs) opened finished := by
  have next := next_encodeQuoted isQuote cs after
  rw [show ∀ body : List Char, body ++ quote :: rest = (body ++ [quote]) ++ rest by simp] at next
  exact h.keep (.inr (.inr rfl)) next

end InBrackets

/-- A lexeme that is no mark becomes part of the line as it is. -/
theorem InLine.keep (h : InLine s indent text depth finished) {kind : LexemeKind} {c : Char}
    {body : List Char} (kept : kind = .other ∨ kind = .space ∨ kind = .string)
    (next : Lexeme.next c (body ++ rest) = (⟨kind, c :: body⟩, rest)) :
    ∃ s', Takes s (c :: body) rest s' ∧ InLine s' indent (text ++ c :: body) depth finished :=
  InBrackets.keep h kept next

/-- A parenthesis is opened where the nesting allows it. -/
theorem InLine.openParenthesis (h : InLine s indent text depth finished)
    (shallow : depth < maxNesting) :
    ∃ s', Takes s ['('] rest s' ∧ InLine s' indent (text ++ ['(']) (depth + 1) finished :=
  InBrackets.openBracket h (fun _ => rfl) (by rwa [List.length_replicate])

/-- A parenthesis is closed. -/
theorem InLine.closeParenthesis (h : InLine s indent text (depth + 1) finished) :
    ∃ s', Takes s [')'] rest s' ∧ InLine s' indent (text ++ [')']) depth finished :=
  InBrackets.closeBracket h (fun _ => rfl) rfl

/-! ## Outlines in the layout -/

/-- Whether the parentheses of an outline close what is open, with nothing else that has a role in
the layout but blanks. -/
def Outline.closes : Nat → Outline → Bool
  | depth, [] => depth = 0
  | depth, .hole h :: o => (h ≠ .quoted || atStop o) && closes depth o
  | depth, .char c :: o =>
    if c = '(' then depth < maxNesting && closes (depth + 1) o
    else if c = ')' then
      match depth with
      | 0 => false
      | depth + 1 => closes depth o
    else (c = ' ' || !layoutMarks.contains c) && closes depth o

/-- The parentheses in every form of a line are balanced. -/
theorem LineForm.closes_outline (l : LineForm) : Outline.closes 0 l.outline = true := by
  have all : ∀ l ∈ LineForm.all, Outline.closes 0 l.outline = true := by decide +kernel
  exact all l l.mem_all

/-- No digit has a role in the layout. -/
theorem IsDigits.plain {ds : List Char} (h : IsDigits ds) : ∀ c ∈ ds, c ∉ layoutMarks := by
  have marks : (layoutMarks.all fun c => !CharClass.digit.holds c) = true := by decide +kernel
  intro c member mark
  have noDigit := List.all_eq_true.1 marks c mark
  rw [h.digits c member] at noDigit
  cases noDigit

/-- No character of an identifier has one. -/
theorem IsIdentifier.plain {cs : List Char} (h : IsIdentifier cs) : ∀ c ∈ cs, c ∉ layoutMarks := by
  have starts : (layoutMarks.all fun c => !Text.isIdentifierStart c) = true := by decide +kernel
  have marks : (layoutMarks.all fun c => !Text.isIdentifierContinue c) = true := by decide +kernel
  obtain ⟨-, first, tail, rfl, start, all⟩ := (isIdentifier_iff cs).1 h
  intro c member mark
  rcases List.mem_cons.1 member with rfl | member
  · rcases start with start | rfl
    · have noStart := List.all_eq_true.1 starts c mark
      rw [start] at noStart
      cases noStart
    · revert mark
      decide
  · have noMark := List.all_eq_true.1 marks c mark
    rw [List.all_eq_true.1 all c member] at noMark
    cases noMark

/-- The characters in the holes of a line, quoted texts aside, have no role in the layout. -/
theorem Filling.plain (f : Filling) {h : Hole} (other : h ≠ .quoted) :
    ∀ c ∈ f.text h, c ∉ layoutMarks := by
  cases h with
  | name => exact f.isName.plain
  | integer => exact f.isInteger.plain
  | decimal =>
    obtain ⟨whole, fraction, hw, hf, e⟩ := f.isDecimal
    intro c member
    rw [Filling.text, e, List.mem_append, List.mem_cons] at member
    rcases member with member | rfl | member
    · exact hw.plain c member
    · decide
    · exact hf.plain c member
  | quoted => exact absurd rfl other

/-- Inside parentheses as well, such characters are taken one by one. -/
theorem InLine.keepAll (h : InLine s indent text depth finished) (cs : List Char)
    (plain : ∀ c ∈ cs, c ∉ layoutMarks) :
    ∃ s', Takes s cs rest s' ∧ InLine s' indent (text ++ cs) depth finished :=
  InBrackets.keepAll h cs plain

/-- The layout pass takes a quoted text as one lexeme. -/
theorem InLine.keepQuoted (h : InLine s indent text depth finished) (cs : List Char)
    (after : ∀ c ∈ rest.head?, c ≠ '\'') : ∃ s', Takes s (Text.encodeQuoted '\'' cs) rest s' ∧
      InLine s' indent (text ++ Text.encodeQuoted '\'' cs) depth finished :=
  InBrackets.keepQuoted h (.inr rfl) cs after

/-- What follows a hole or a character of an outline. -/
theorem head?_fill_append {f : Filling} {o : Outline} (stop : Outline.atStop o = true)
    (after : ∀ c ∈ rest.head?, c ≠ '\'') : ∀ c ∈ (fill f.text o ++ rest).head?, c ≠ '\'' := by
  match o with
  | [] => exact after
  | .char d :: o =>
    intro c head
    cases head
    have among := List.contains_iff_mem.1 stop
    rintro rfl
    revert among
    decide

/-- The layout pass takes a filled outline as it is. -/
theorem InLine.takeOutline (f : Filling) {o : Outline} (h : InLine s indent text depth finished)
    (closes : Outline.closes depth o = true) (after : ∀ c ∈ rest.head?, c ≠ '\'') :
    ∃ s', Takes s (fill f.text o) rest s' ∧ InLine s' indent (text ++ fill f.text o) 0 finished := by
  induction o generalizing s text depth with
  | nil =>
    obtain rfl : depth = 0 := by simpa [Outline.closes] using closes
    exact ⟨s, .nil, by rwa [fill, List.append_nil]⟩
  | cons part o ih =>
    -- every part leads to a line that goes on with the rest of the outline
    have go : ∀ {cs : List Char} {depth : Nat}, Outline.closes depth o = true →
        (∃ s', Takes s cs (fill f.text o ++ rest) s' ∧ InLine s' indent (text ++ cs) depth finished) →
        ∃ s', Takes s (cs ++ fill f.text o) rest s' ∧
          InLine s' indent (text ++ (cs ++ fill f.text o)) 0 finished := by
      intro cs depth closes first
      obtain ⟨s₁, take₁, line₁⟩ := first
      obtain ⟨s₂, take₂, line₂⟩ := ih line₁ closes
      exact ⟨s₂, take₁.append take₂, by rwa [List.append_assoc] at line₂⟩
    cases part with
    | hole hole =>
      rw [Outline.closes, Bool.and_eq_true, Bool.or_eq_true] at closes
      obtain ⟨stop, closes⟩ := closes
      by_cases quoted : hole = .quoted
      · subst quoted
        have atStop : Outline.atStop o = true := by simpa using stop
        exact go closes (h.keepQuoted _ (head?_fill_append atStop after))
      · exact go closes (h.keepAll _ (f.plain quoted))
    | char c =>
      unfold Outline.closes at closes
      show ∃ s', Takes s ([c] ++ fill f.text o) rest s' ∧
        InLine s' indent (text ++ ([c] ++ fill f.text o)) 0 finished
      split at closes
      · rename_i e
        subst e
        rw [Bool.and_eq_true, decide_eq_true_eq] at closes
        exact go closes.2 (h.openParenthesis closes.1)
      · split at closes
        · rename_i e
          subst e
          cases depth with
          | zero => cases closes
          | succ depth => exact go closes h.closeParenthesis
        · rw [Bool.and_eq_true, Bool.or_eq_true] at closes
          obtain ⟨blankOrPlain, closes⟩ := closes
          refine go closes ?_
          rcases blankOrPlain with blank | plain
          · obtain rfl : c = ' ' := by simpa using blank
            exact h.keep (.inr (.inl rfl)) rfl
          · exact h.keepAll [c] (by simpa using plain)

end States

/-! ## Visible ends -/

/-- A character that can begin a logical line. -/
def IsVisible (c : Char) : Prop := Text.isBlank c = false ∧ c ≠ '#'

instance (c : Char) : Decidable (IsVisible c) := inferInstanceAs (Decidable (_ ∧ _))

/-- A number that is found in some ranges lies in one of them. -/
theorem inRanges_exists {n : Nat} {ranges : List (Nat × Nat)} (h : Text.inRanges n ranges = true) :
    ∃ range ∈ ranges, range.1 ≤ n ∧ n ≤ range.2 := by
  induction ranges with
  | nil => cases h
  | cons range ranges ih =>
    obtain ⟨low, high⟩ := range
    rw [Text.inRanges] at h
    split at h
    · cases h
    · rename_i above
      split at h
      · rename_i below
        exact ⟨(low, high), by simp, Nat.le_of_not_lt above, below⟩
      · obtain ⟨range, member, within⟩ := ih h
        exact ⟨range, by simp [member], within⟩

/-- No identifier begins with a blank. -/
theorem not_isBlank_of_isIdentifierStart {c : Char} (start : Text.isIdentifierStart c = true) :
    Text.isBlank c = false := by
  have blanks : ∀ range ∈ Text.blankRanges, ∀ n ∈ List.range' range.1 (range.2 + 1 - range.1),
      Text.inRanges n Text.identifierStartRanges = false := by decide +kernel
  rw [Bool.eq_false_iff]
  intro blank
  obtain ⟨range, member, low, high⟩ := inRanges_exists blank
  have outside := blanks range member c.toNat (List.mem_range'_1.2 ⟨low, by omega⟩)
  rw [show Text.inRanges c.toNat Text.identifierStartRanges = true from start] at outside
  cases outside

/-- A hole begins with a visible character. -/
theorem Hole.Starts.isVisible {h : Hole} {c : Char} (start : h.Starts c) : IsVisible c := by
  have digits : ∀ n ∈ List.range' 48 10, IsVisible (Char.ofNat n) := by decide +kernel
  have ofDigit : CharClass.digit.holds c = true → IsVisible c := by
    intro digit
    have bounds : '0' ≤ c ∧ c ≤ '9' := by simpa [CharClass.holds] using digit
    have low : 48 ≤ c.toNat := bounds.1
    have high : c.toNat ≤ 57 := bounds.2
    have visible := digits c.toNat (List.mem_range'_1.2 ⟨low, by omega⟩)
    rwa [Char.ofNat_toNat] at visible
  cases h with
  | name =>
    rcases start with start | rfl
    · refine ⟨not_isBlank_of_isIdentifierStart start, ?_⟩
      rintro rfl
      revert start
      decide +kernel
    · decide
  | integer | decimal => exact ofDigit start
  | quoted =>
    obtain rfl : c = '\'' := start
    decide

/-- Whether an outline begins and ends with something visible. -/
def Outline.visible (o : Outline) : Bool :=
  let shown : OutlinePart → Bool
    | .char c => IsVisible c
    | .hole _ => true
  o.head?.any shown && o.getLast?.any shown

/-- Every form of a line begins and ends visibly. -/
theorem LineForm.visible_outline (l : LineForm) : Outline.visible l.outline = true := by
  have all : ∀ l ∈ LineForm.all, Outline.visible l.outline = true := by decide +kernel
  exact all l l.mem_all

/-- A filled outline begins with a visible character. -/
theorem exists_cons_fill (f : Filling) {o : Outline} (visible : Outline.visible o = true) :
    ∃ c cs, fill f.text o = c :: cs ∧ IsVisible c := by
  have first := (Bool.and_eq_true_iff.1 visible).1
  match o with
  | [] => cases first
  | .char c :: o => exact ⟨c, _, rfl, by simpa using first⟩
  | .hole h :: o =>
    obtain ⟨c, cs, e, start⟩ := (f.fitting h).starts
    exact ⟨c, cs ++ fill f.text o, by rw [fill, e]; rfl, start.isVisible⟩

/-- A filled outline does not end with a blank. -/
theorem getLast?_fill_ne (f : Filling) {o : Outline} (visible : Outline.visible o = true) :
    ∀ c ∈ (fill f.text o).getLast?, c ≠ ' ' := by
  have last := (Bool.and_eq_true_iff.1 visible).2
  obtain ⟨part, e⟩ : ∃ part, o.getLast? = some part := by
    cases e : o.getLast? with
    | none => rw [e] at last; cases last
    | some part => exact ⟨part, rfl⟩
  rw [e] at last
  obtain ⟨before, rfl⟩ := List.getLast?_eq_some_iff.1 e
  rw [fill_append]
  intro c member
  cases part with
  | char d =>
    have same : d = c := by simpa [fill] using member
    subst same
    rintro rfl
    revert last
    decide
  | hole h =>
    obtain ⟨d, cs, start, -⟩ := (f.fitting h).starts
    have inHole : c ∈ (f.text h).getLast? := by
      rw [fill_hole, List.getLast?_append] at member
      rw [start] at member ⊢
      simpa using member
    -- Only a quoted text may hold a blank, and its last character is the quote.
    by_cases quoted : h = .quoted
    · subst quoted
      rw [Filling.text, Text.encodeQuoted, List.getLast?_concat] at inHole
      cases inHole
      decide
    · rintro rfl
      exact f.plain quoted ' ' (List.mem_of_getLast? inHole) (by decide)

/-! ## Lines of code -/

/-- A line of generated code: its indentation and what stands behind it. -/
structure Row where
  indent : Nat
  filling : Filling
  form : LineForm

/-- The text of a line behind its indentation. -/
def Row.content (r : Row) : List Char := fill r.filling.text r.form.outline

/-- The text of a line. -/
def Row.code (r : Row) : List Char := List.replicate r.indent ' ' ++ r.content

/-- A logical line is that of a line of code. -/
def Row.LaidOut (r : Row) (line : LogicalLine) : Prop := line.indent = r.indent ∧ line.text = r.content

section States

variable {indent : Nat} {text rest : List Char} {finished : List LogicalLine} {s : LayoutState}

/-- Spaces in front of a line are taken as its indentation. -/
theorem takes_indentation (offset column n : Nat) :
    ∃ offset', Takes ⟨offset, column, none, finished⟩ (List.replicate n ' ') rest
      ⟨offset', column + n, none, finished⟩ := by
  induction n generalizing offset column with
  | zero => exact ⟨offset, .nil⟩
  | succ n ih =>
    obtain ⟨offset', take⟩ := ih (offset + Text.byteLength [' ']) (column + 1)
    refine ⟨offset', ?_⟩
    rw [List.replicate_succ, show column + (n + 1) = column + 1 + n by omega]
    exact .lexeme (List.nil_append _).symm rfl rfl take

/-- A visible character begins a lexeme of a line. -/
theorem next_visible {c : Char} (visible : IsVisible c) (cs : List Char) :
    (Lexeme.next c cs).1.kind.isGap = false := by
  have short : ∀ quote cs, (Lexeme.string.short quote cs).1.kind.isGap = false := by
    intro quote cs
    unfold Lexeme.string.short
    repeat' split
    all_goals rfl
  have string : ∀ quote cs, (Lexeme.string quote cs).1.kind.isGap = false := by
    intro quote cs
    unfold Lexeme.string
    repeat' split
    all_goals first | rfl | exact short _ _
  unfold Lexeme.next
  split
  all_goals first | exact absurd visible (by decide) | rfl | exact string _ _ | skip
  split <;> rfl

/-- Only a line feed ends a line. -/
theorem take_ne_none (line : OpenLine) (offset : Nat) {lexeme : Lexeme}
    (other : lexeme.kind ≠ .lineFeed) : line.take offset lexeme ≠ .ok none := by
  unfold OpenLine.take
  split <;> simp_all [Except.map]
  all_goals split <;> simp

/-- A visible character begins a line. -/
theorem takes_begin {offset : Nat} {c : Char} {cs : List Char} (visible : IsVisible c)
    (h : Takes ⟨offset, indent, some ⟨indent, offset, [], []⟩, finished⟩ (c :: cs) rest s) :
    Takes ⟨offset, indent, none, finished⟩ (c :: cs) rest s := by
  cases h with
  | @lexeme _ s' _ kind _ _ body _ _ whole next step others =>
    refine .lexeme whole next ?_ others
    have inner := next_visible visible (cs ++ rest)
    rw [next] at inner
    have lasting := take_ne_none ⟨indent, offset, [], []⟩ offset
      (show (Lexeme.mk kind (c :: body)).kind ≠ .lineFeed by rintro rfl; cases inner)
    have begun : LayoutState.step ⟨offset, indent, none, finished⟩ ⟨kind, c :: body⟩ =
        (OpenLine.take ⟨indent, offset, [], []⟩ offset ⟨kind, c :: body⟩).bind fun line =>
          .ok ⟨offset + Text.byteLength (c :: body), indent, line, finished⟩ := by
      cases kind <;> first | rfl | cases inner
    change (OpenLine.take ⟨indent, offset, [], []⟩ offset ⟨kind, c :: body⟩).bind _ = _ at step
    rw [begun, ← step]
    cases e : OpenLine.take ⟨indent, offset, [], []⟩ offset ⟨kind, c :: body⟩ with
    | error => rfl
    | ok line =>
      cases line with
      | none => exact absurd e lasting
      | some line => rfl

/-- A finished line is its text, if no blank stands at the end. -/
theorem text_close (start : Nat) {text : List Char} (shown : ∀ c ∈ text.getLast?, c ≠ ' ')
    (brackets : List (Char × Nat)) :
    (OpenLine.close ⟨indent, start, text.reverse, brackets⟩).text = text := by
  show (text.reverse.dropWhile (· = ' ')).reverse = text
  have kept : text.reverse.dropWhile (· = ' ') = text.reverse := by
    cases e : text.reverse with
    | nil => rfl
    | cons c cs =>
      have last : text.getLast? = some c := by rw [← List.head?_reverse, e]; rfl
      rw [List.dropWhile_cons_of_neg (by simpa using shown c last)]
  rw [kept, List.reverse_reverse]

/-- A line feed ends a line. -/
theorem InLine.close (h : InLine s indent text 0 finished) (shown : ∀ c ∈ text.getLast?, c ≠ ' ')
    (rest : List Char) : ∃ offset line, Takes s ['\n'] rest ⟨offset, 0, none, line :: finished⟩ ∧
      line.indent = indent ∧ line.text = text := by
  obtain ⟨offset, column, start, brackets, rfl, nesting⟩ := h
  obtain rfl : brackets = [] := List.map_eq_nil_iff.1 nesting
  exact ⟨_, OpenLine.close ⟨indent, start, text.reverse, []⟩,
    .lexeme (List.append_nil []).symm rfl rfl .nil, rfl, text_close start shown []⟩

/-- The end of the text ends a line. -/
theorem InLine.finish (h : InLine s indent text 0 finished)
    (shown : ∀ c ∈ text.getLast?, c ≠ ' ') :
    ∃ line, s.finish = .ok (line :: finished).reverse ∧ line.indent = indent ∧
      line.text = text := by
  obtain ⟨offset, column, start, brackets, rfl, nesting⟩ := h
  obtain rfl : brackets = [] := List.map_eq_nil_iff.1 nesting
  exact ⟨OpenLine.close ⟨indent, start, text.reverse, []⟩, rfl, rfl, text_close start shown []⟩

/-- The layout pass takes a line of code with its end. -/
theorem takes_row (r : Row) (offset : Nat) (finished : List LogicalLine) (rest : List Char) :
    ∃ offset' line, Takes ⟨offset, 0, none, finished⟩ (r.code ++ ['\n']) rest
      ⟨offset', 0, none, line :: finished⟩ ∧ r.LaidOut line := by
  obtain ⟨c, cs, e, visible⟩ := exists_cons_fill r.filling r.form.visible_outline
  obtain ⟨offset₁, indentation⟩ : ∃ offset₁, Takes ⟨offset, 0, none, finished⟩
      (List.replicate r.indent ' ') (r.content ++ '\n' :: rest) ⟨offset₁, r.indent, none, finished⟩ := by
    have taken : ∃ offset₁, Takes ⟨offset, 0, none, finished⟩ (List.replicate r.indent ' ')
        (r.content ++ '\n' :: rest) ⟨offset₁, 0 + r.indent, none, finished⟩ :=
      takes_indentation offset 0 r.indent
    rwa [Nat.zero_add] at taken
  have start : InLine ⟨offset₁, r.indent, some ⟨r.indent, offset₁, [], []⟩, finished⟩
    r.indent [] 0 finished := ⟨offset₁, _, offset₁, [], rfl, rfl⟩
  have after : ∀ c ∈ ('\n' :: rest).head?, c ≠ '\'' := by
    intro c head
    cases head
    decide
  obtain ⟨s, content, line⟩ := start.takeOutline r.filling r.form.closes_outline after
  have begun : Takes ⟨offset₁, r.indent, none, finished⟩ r.content ('\n' :: rest) s := by
    rw [Row.content, e]
    rw [e] at content
    exact takes_begin visible content
  obtain ⟨offset₂, done, close, indent, text⟩ :=
    line.close (getLast?_fill_ne r.filling r.form.visible_outline) rest
  refine ⟨offset₂, done, ?_, indent, text⟩
  rw [Row.code, List.append_assoc]
  rw [show r.content ++ '\n' :: rest = (r.content ++ ['\n']) ++ rest by simp] at indentation
  exact indentation.append (begun.append close)

end States

/-- Lines of code are taken one after the other. -/
theorem takes_rows (rows : List Row) (offset : Nat) (finished : List LogicalLine) :
    ∃ offset' lines, Takes ⟨offset, 0, none, finished⟩ (rows.flatMap fun r => r.code ++ ['\n']) []
      ⟨offset', 0, none, lines.reverse ++ finished⟩ ∧ List.Forall₂ Row.LaidOut rows lines := by
  induction rows generalizing offset finished with
  | nil => exact ⟨offset, [], .nil, .nil⟩
  | cons r rows ih =>
    obtain ⟨offset₁, line, take₁, laidOut⟩ :=
      takes_row r offset finished ((rows.flatMap fun r => r.code ++ ['\n']) ++ [])
    obtain ⟨offset₂, lines, take₂, all⟩ := ih offset₁ (line :: finished)
    refine ⟨offset₂, line :: lines, ?_, .cons laidOut all⟩
    have reversed : (line :: lines).reverse ++ finished = lines.reverse ++ line :: finished := by simp
    rw [List.flatMap_cons, reversed]
    exact take₁.append take₂

/-- The logical lines of generated code are its lines. -/
theorem logicalLines_rows (rows : List Row) :
    ∃ lines, logicalLines (rows.flatMap fun r => r.code ++ ['\n']) = .ok lines ∧
      List.Forall₂ Row.LaidOut rows lines := by
  obtain ⟨offset, lines, take, all⟩ := takes_rows rows 0 []
  refine ⟨lines, ?_, all⟩
  rw [take.logicalLines, LayoutState.finish]
  simp

end BlockEditor
