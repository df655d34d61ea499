import BlockEditor.Proofs.AppendedSources
import BlockEditor.Proofs.ReturnedLexemes
import BlockEditor.Proofs.WiderLines
import Mathlib.Data.List.DropRight

/-!
# Line breaks

A carriage return in front of a line feed is one more space in a line, or stands between lines.  So
with a carriage return in front of every line feed a source is parsed to the same program, apart from
places, as long as its string literals stay on their lines.
-/

namespace BlockEditor

open Text Lexeme

/-! ## Spaces at the end -/

/-- A text without the spaces at its end. -/
def Text.cut (cs : List Char) : List Char := cs.rdropWhile (· = ' ')

/-- Spaces at the end of two texts are those of the second one, unless that holds nothing else. -/
theorem Text.cut_append (a b : List Char) :
    cut (a ++ b) = if cut b = [] then cut a else a ++ cut b := by
  unfold cut List.rdropWhile
  rw [List.reverse_append, List.dropWhile_append]
  by_cases none : b.reverse.dropWhile (· = ' ') = []
  · simp [none]
  · simp [none]

/-- Behind a visible character only the second text is cut. -/
theorem Text.cut_append_of_getLast {a : List Char} {c : Char} (last : a.getLast? = some c)
    (visible : c ≠ ' ') (b : List Char) : cut (a ++ b) = a ++ cut b := by
  have whole : cut a = a := by
    obtain ⟨front, rfl⟩ := List.getLast?_eq_some_iff.1 last
    exact List.rdropWhile_concat_neg _ _ _ (by simpa using visible)
  rw [cut_append, whole]
  split
  · rename_i none
    rw [none, List.append_nil]
  · rfl

theorem Text.cut_space_cons (cs : List Char) :
    cut (' ' :: cs) = if cut cs = [] then [] else ' ' :: cut cs := cut_append [' '] cs

/-- Texts that differ in gaps still do without the spaces at their ends. -/
theorem Wider.cut {cs ds : List Char} (h : Wider cs ds) : Wider (cut cs) (cut ds) := by
  induction h with
  | nil => exact .nil
  | @keep c cs ds unquoted rest ih =>
    -- A space is cut if nothing but spaces follows, which is so in both texts or in neither.
    by_cases space : c = ' '
    · subst space
      rw [cut_space_cons, cut_space_cons]
      by_cases none : Text.cut cs = []
      · rw [if_pos none, if_pos (ih.eq_nil_iff.2 none)]
        exact .nil
      · rw [if_neg none, if_neg (mt ih.eq_nil_iff.1 none)]
        exact .keep unquoted ih
    · have visible (cs : List Char) : Text.cut (c :: cs) = c :: Text.cut cs :=
        cut_append_of_getLast List.getLast?_singleton space cs
      rw [visible, visible]
      exact .keep unquoted ih
  | @gap cs ds _ ih =>
    rw [cut_space_cons] at ih ⊢
    rw [cut_space_cons ds]
    by_cases none : Text.cut cs = []
    · rw [if_pos none] at ih ⊢
      rw [if_pos (ih.eq_nil_iff.2 rfl)]
      exact .nil
    · rw [if_neg none] at ih ⊢
      rw [if_neg (mt ih.eq_nil_iff.1 (List.cons_ne_nil _ _))]
      exact .gap ih
  | @literal quote lit cs ds formed parts rest ih =>
    have visible : quote ≠ ' ' := by rcases formed.isQuote with rfl | rfl <;> decide
    rw [cut_append_of_getLast formed.getLast?_eq visible,
      cut_append_of_getLast formed.getLast?_eq visible]
    refine .literal formed (fun two head => parts two ?_) ih
    obtain ⟨spaces, whole⟩ : Text.cut cs <+: cs := List.rdropWhile_prefix _ _
    rw [← whole, List.head?_append, head]
    rfl

/-! ## Open lines -/

/-- Two texts that lines have been opened with differ in gaps, with whatever they go on, unless with
a quote that does not follow. -/
def Opens (front front' rest : List Char) : Prop :=
  ∀ tail tail', Wider tail tail' → (∀ quote ∈ tail.head?, IsQuote quote → quote ∈ rest.head?) →
    Wider (front ++ tail) (front' ++ tail')

namespace Opens

variable {front front' rest : List Char}

theorem nil (rest : List Char) : Opens [] [] rest := fun _ _ h _ => h

/-- Texts that lines were opened with differ in gaps. -/
theorem wider (h : Opens front front' rest) : Wider front front' := by
  simpa using h [] [] .nil nofun

/-- A character that is no quote goes on both texts. -/
theorem keep {c : Char} (h : Opens front front' (c :: rest)) (unquoted : ¬ IsQuote c) :
    Opens (front ++ [c]) (front' ++ [c]) rest := by
  intro tail tail' wider _
  rw [List.append_assoc, List.append_assoc]
  refine h _ _ (.keep unquoted wider) fun quote head isQuote => ?_
  cases head
  exact absurd isQuote unquoted

/-- A literal goes on both texts as a whole. -/
theorem literal {quote : Char} {text : List Char} (h : Opens front front' (text ++ rest))
    (formed : IsLiteral quote text) (parts : Parts quote text rest) :
    Opens (front ++ text) (front' ++ text) rest := by
  intro tail tail' wider follows
  rw [List.append_assoc, List.append_assoc]
  have parts' : Parts quote text tail := fun two head => parts two (follows quote head formed.isQuote)
  refine h _ _ (.literal formed parts' wider) fun c head _ => ?_
  obtain ⟨body, rfl⟩ := formed.exists_cons
  exact head

/-- Spaces go on both texts, and more of them on the second one. -/
theorem spaces (h : Opens front front' rest) {n m : Nat} (some : 0 < n) (le : n ≤ m)
    (rest' : List Char) :
    Opens (front ++ List.replicate n ' ') (front' ++ List.replicate m ' ') rest' := by
  intro tail tail' wider _
  rw [List.append_assoc, List.append_assoc]
  have noQuote : ¬ IsQuote ' ' := by unfold IsQuote; decide
  have same : ∀ n, Wider (List.replicate n ' ' ++ tail) (List.replicate n ' ' ++ tail') := by
    intro n
    induction n with
    | zero => exact wider
    | succ n ih => exact .keep noQuote ih
  obtain ⟨n, rfl⟩ : ∃ k, n = k + 1 := ⟨n - 1, by omega⟩
  obtain ⟨k, rfl⟩ := Nat.exists_eq_add_of_le le
  have wider : Wider (List.replicate (n + 1) ' ' ++ tail)
      (List.replicate (n + 1 + k) ' ' ++ tail') := by
    induction k with
    | zero => exact same (n + 1)
    | succ k ih => exact .gap (ih (Nat.le_add_right _ _))
  refine h _ _ wider fun quote head isQuote => ?_
  cases head
  exact absurd isQuote noQuote

end Opens

/-- Spaces at its end are no part of a line. -/
theorem OpenLine.close_blank (line : OpenLine) (text : List Char) :
    (line.blank text).close = line.close := by
  have spaces : ∀ n, (List.replicate n ' ' ++ line.reversed).dropWhile (· = ' ') =
      line.reversed.dropWhile (· = ' ') := by
    intro n
    rw [List.dropWhile_append_of_pos (by simp)]
  rw [close, close, blank, spaces]

/-- Blanks one after the other are blanks together. -/
theorem OpenLine.blank_blank (line : OpenLine) (a b : List Char) :
    (line.blank a).blank b = line.blank (a ++ b) := by
  simp only [blank, ← List.append_assoc, List.replicate_append_replicate, byteLength_append,
    Nat.add_comm]

/-- Two open lines stand side by side in front of the rest of a text. -/
structure OpenLine.Beside (rest : List Char) (line line' : OpenLine) : Prop where
  indent : line.indent = line'.indent
  brackets : line.brackets.map Prod.fst = line'.brackets.map Prod.fst
  opens : Opens line.reversed.reverse line'.reversed.reverse rest

namespace OpenLine.Beside

variable {rest : List Char} {line line' : OpenLine}

/-- Lines side by side are closed as alike lines. -/
theorem close (h : line.Beside rest line') : line.close.Alike line'.close := by
  refine ⟨h.indent, ?_⟩
  have wider := h.opens.wider.cut
  rw [cut, cut, List.rdropWhile_reverse, List.rdropWhile_reverse] at wider
  exact wider

/-- A character that is no quote is kept in both lines. -/
theorem keep {c : Char} (h : line.Beside (c :: rest) line') (unquoted : ¬ IsQuote c) :
    (line.keep [c]).Beside rest (line'.keep [c]) := by
  refine ⟨h.indent, h.brackets, ?_⟩
  simpa [OpenLine.keep] using h.opens.keep unquoted

theorem literal {quote : Char} {text : List Char} (h : line.Beside (text ++ rest) line')
    (formed : IsLiteral quote text) (parts : Parts quote text rest) :
    (line.keep text).Beside rest (line'.keep text) := by
  refine ⟨h.indent, h.brackets, ?_⟩
  simpa [OpenLine.keep] using h.opens.literal formed parts

/-- Blanks stand in both lines, and no fewer in the second one. -/
theorem blank {text text' : List Char} (h : line.Beside rest line') (some : 0 < byteLength text)
    (le : byteLength text ≤ byteLength text') (rest' : List Char) :
    (line.blank text).Beside rest' (line'.blank text') := by
  refine ⟨h.indent, h.brackets, ?_⟩
  simpa [OpenLine.blank] using h.opens.spaces some le rest'

/-- No bracket is open in both lines, or the same ones are. -/
theorem brackets_cases (h : line.Beside rest line') :
    (line.brackets = [] ∧ line'.brackets = []) ∨ ∃ c i j more more',
      line.brackets = (c, i) :: more ∧ line'.brackets = (c, j) :: more' ∧
        more.map Prod.fst = more'.map Prod.fst := by
  have same := h.brackets
  cases here : line.brackets with
  | nil =>
    rw [here, List.map_nil] at same
    exact .inl ⟨rfl, List.map_eq_nil_iff.1 same.symm⟩
  | cons bracket more =>
    rw [here, List.map_cons] at same
    obtain ⟨⟨c, j⟩, more', there, head, others⟩ := List.map_eq_cons_iff.1 same.symm
    obtain ⟨d, i⟩ := bracket
    obtain rfl : c = d := head
    exact .inr ⟨c, i, j, more, more', rfl, there, others.symm⟩

/-! ### Taking a lexeme -/

/-- A lexeme of a single character is taken alike by both lines. -/
theorem take_sole {kind : LexemeKind} {c : Char} (h : line.Beside (c :: rest) line')
    (sole : kind ∈ soleKinds) (unquoted : ¬ IsQuote c) (o o' : Nat) :
    Agrees (Option.Rel (OpenLine.Beside rest)) (line.take o ⟨kind, [c]⟩)
      (line'.take o' ⟨kind, [c]⟩) := by
  have kept := h.keep unquoted
  have brackets := h.brackets
  simp only [soleKinds, List.mem_cons, List.not_mem_nil, or_false] at sole
  rcases sole with rfl | rfl | rfl | rfl
  · exact .ok (.some kept)
  · have depth : line.brackets.length = line'.brackets.length := by
      simpa using congrArg List.length brackets
    show Agrees _ ((line.openBracket o c).map some) ((line'.openBracket o' c).map some)
    rw [OpenLine.openBracket, OpenLine.openBracket, depth]
    split
    · exact .error _ _
    · exact .ok (.some ⟨kept.indent, congrArg (c :: ·) brackets, kept.opens⟩)
  · show Agrees _ ((line.closeBracket o c).map some) ((line'.closeBracket o' c).map some)
    rw [OpenLine.closeBracket, OpenLine.closeBracket]
    rcases h.brackets_cases with ⟨here, there⟩ | ⟨a, i, j, more, more', here, there, others⟩
    · rw [here, there]
      exact .error _ _
    · rw [here, there]
      dsimp only
      split
      · exact .ok (.some ⟨kept.indent, others, kept.opens⟩)
      · exact .error _ _
  · exact .ok (.some kept)

/-- Both lines have open brackets, or none has. -/
theorem isEmpty_brackets (h : line.Beside rest line') :
    line.brackets.isEmpty = line'.brackets.isEmpty := by
  rw [← List.isEmpty_map (f := Prod.fst), h.brackets, List.isEmpty_map]

/-- A line feed is taken alike by both lines. -/
theorem take_lineFeed (h : line.Beside rest line') (rest' : List Char) (o o' : Nat) :
    Agrees (Option.Rel (OpenLine.Beside rest')) (line.take o ⟨.lineFeed, ['\n']⟩)
      (line'.take o' ⟨.lineFeed, ['\n']⟩) := by
  show Agrees _ (if line.brackets.isEmpty then _ else _) (if line'.brackets.isEmpty then _ else _)
  rw [h.isEmpty_brackets]
  split
  · exact .ok .none
  · exact .ok (.some (h.blank (by decide) (Nat.le_refl _) rest'))

/-- So is a line feed with a carriage return in front of it in the second line. -/
theorem take_lineEnd (h : line.Beside rest line') (rest' : List Char) (o o' : Nat) :
    Agrees (Option.Rel (OpenLine.Beside rest')) (line.take o ⟨.lineFeed, ['\n']⟩)
      ((line'.blank ['\r']).take o' ⟨.lineFeed, ['\n']⟩) := by
  show Agrees _ (if line.brackets.isEmpty then _ else _) (if line'.brackets.isEmpty then _ else _)
  rw [h.isEmpty_brackets]
  split
  · exact .ok .none
  · rw [OpenLine.blank_blank]
    exact .ok (.some (h.blank (by decide) (by decide) rest'))

end OpenLine.Beside

/-! ## States of the pass -/

/-- Two states of the layout pass stand side by side in front of the rest of a text. -/
structure LayoutState.Beside (rest : List Char) (s s' : LayoutState) : Prop where
  column : s.column = s'.column
  line : Option.Rel (OpenLine.Beside rest) s.line s'.line
  finished : List.Forall₂ LogicalLine.Alike s.finished s'.finished

namespace LayoutState

/-- A lexeme that begins a line. -/
theorem step_none {s : LayoutState} {lexeme : Lexeme} (closed : s.line = none)
    (loud : lexeme.kind.isGap = false) : s.step lexeme =
      (OpenLine.take ⟨s.column, s.offset, [], []⟩ s.offset lexeme).map fun line =>
        { s with offset := s.offset + byteLength lexeme.text, line := line } := by
  obtain ⟨kind, text⟩ := lexeme
  obtain ⟨offset, column, line, finished⟩ := s
  cases closed
  cases kind <;> first | rfl | cases loud

/-- A line end or comment where no line has begun. -/
theorem step_gap {s : LayoutState} {lexeme : Lexeme} (closed : s.line = none)
    (gap : lexeme.kind ∈ [.lineFeed, .carriageReturn, .comment]) :
    s.step lexeme = .ok ⟨s.offset + byteLength lexeme.text, 0, none, s.finished⟩ := by
  obtain ⟨kind, text⟩ := lexeme
  obtain ⟨offset, column, line, finished⟩ := s
  cases closed
  simp only [List.mem_cons, List.not_mem_nil, or_false] at gap
  rcases gap with rfl | rfl | rfl <;> rfl

/-- A lexeme behind the start of a line. -/
theorem step_some {s : LayoutState} {line : OpenLine} (opened : s.line = some line)
    (lexeme : Lexeme) : s.step lexeme = (line.take s.offset lexeme).map fun
      | some line =>
        { s with offset := s.offset + byteLength lexeme.text, line := some line }
      | none => ⟨s.offset + byteLength lexeme.text, 0, none, line.close :: s.finished⟩ := by
  obtain ⟨offset, column, _ | line, finished⟩ := s <;> cases opened
  cases taken : line.take offset lexeme with
  | error fault => simp [step, taken, Except.map, bind, Except.bind]
  | ok line' => cases line' <;> simp [step, taken, Except.map, bind, Except.bind]

namespace Beside

variable {rest rest' : List Char} {s s' : LayoutState} {l l' : Lexeme}

/-- Both states are inside of a line, or none of them is. -/
theorem line_cases (h : s.Beside rest s') : (s.line = none ∧ s'.line = none) ∨
    ∃ line line', s.line = some line ∧ s'.line = some line' ∧ line.Beside rest line' := by
  have lines := h.line
  cases here : s.line with
  | none =>
    rw [here] at lines
    generalize s'.line = line' at lines
    cases lines
    exact .inl ⟨rfl, rfl⟩
  | some line =>
    rw [here] at lines
    generalize s'.line = line' at lines
    cases lines with
    | some beside => exact .inr ⟨_, _, rfl, rfl, beside⟩

/-- A step goes alike if lines take the lexemes alike, and only then begin with them. -/
theorem step (h : s.Beside rest s')
    (loud : s.line = none → l.kind.isGap = false ∧ l'.kind.isGap = false)
    (take : ∀ {line line' : OpenLine} (o o' : Nat), line.Beside rest line' →
      Agrees (Option.Rel (OpenLine.Beside rest')) (line.take o l) (line'.take o' l')) :
    Agrees (Beside rest') (s.step l) (s'.step l') := by
  rcases h.line_cases with ⟨here, there⟩ | ⟨line, line', here, there, beside⟩
  · rw [step_none here (loud here).1, step_none there (loud here).2]
    have fresh : OpenLine.Beside rest ⟨s.column, s.offset, [], []⟩ ⟨s'.column, s'.offset, [], []⟩ :=
      ⟨h.column, rfl, .nil rest⟩
    exact (take s.offset s'.offset fresh).map fun line line' beside =>
      ⟨h.column, beside, h.finished⟩
  · rw [step_some here, step_some there]
    refine (take s.offset s'.offset beside).map fun taken taken' next => ?_
    cases next with
    | none => exact ⟨rfl, .none, .cons beside.close h.finished⟩
    | some next => exact ⟨h.column, .some next, h.finished⟩

/-- Line ends and comments where no line has begun. -/
theorem step_closed (h : s.Beside rest s') (closed : s.line = none)
    (gap : l.kind ∈ [.lineFeed, .carriageReturn, .comment])
    (gap' : l'.kind ∈ [.lineFeed, .carriageReturn, .comment]) (rest' : List Char) :
    Agrees (Beside rest') (s.step l) (s'.step l') := by
  rcases h.line_cases with ⟨here, there⟩ | ⟨line, line', here, -⟩
  · rw [step_gap here gap, step_gap there gap']
    exact .ok ⟨rfl, .none, h.finished⟩
  · rw [here] at closed
    cases closed

/-- A step over a lexeme of a single character goes alike. -/
theorem step_sole {kind : LexemeKind} {c : Char} (h : s.Beside (c :: rest) s')
    (sole : kind ∈ soleKinds) (unquoted : ¬ IsQuote c) :
    Agrees (Beside rest) (s.step ⟨kind, [c]⟩) (s'.step ⟨kind, [c]⟩) := by
  by_cases indents : kind = .space ∧ s.line = none
  · obtain ⟨rfl, closed⟩ := indents
    obtain ⟨offset, column, line, finished⟩ := s
    obtain ⟨offset', column', line', finished'⟩ := s'
    cases closed
    obtain rfl : line' = none := by cases h.line; rfl
    exact .ok ⟨congrArg (advanceColumn · c) h.column, .none, h.finished⟩
  · refine h.step (fun closed => ?_) fun o o' beside => beside.take_sole sole unquoted o o'
    have other : kind ≠ .space := fun space => indents ⟨space, closed⟩
    simp only [soleKinds, List.mem_cons, List.not_mem_nil, or_false] at sole
    rcases sole with rfl | rfl | rfl | rfl
    · exact absurd rfl other
    all_goals exact ⟨rfl, rfl⟩

theorem step_literal {quote : Char} {text : List Char} (h : s.Beside (text ++ rest) s')
    (formed : IsLiteral quote text) (parts : Parts quote text rest) :
    Agrees (Beside rest) (s.step ⟨.string, text⟩) (s'.step ⟨.string, text⟩) :=
  h.step (fun _ => ⟨rfl, rfl⟩) fun _ _ beside => .ok (.some (beside.literal formed parts))

/-- So does one over a continuation, with a carriage return in the second one. -/
theorem step_continuation (h : s.Beside rest s') (rest' : List Char) :
    Agrees (Beside rest') (s.step ⟨.continuation, ['\\', '\n']⟩)
      (s'.step ⟨.continuation, ['\\', '\r', '\n']⟩) :=
  h.step (fun _ => ⟨rfl, rfl⟩) fun _ _ beside =>
    .ok (.some (beside.blank (by decide) (by decide) rest'))

/-- So does one over a comment, which may be longer in the second text. -/
theorem step_comment {text text' : List Char} (h : s.Beside rest s')
    (le : byteLength text ≤ byteLength text') (rest' : List Char) :
    Agrees (Beside rest') (s.step ⟨.comment, '#' :: text⟩) (s'.step ⟨.comment, '#' :: text'⟩) := by
  by_cases closed : s.line = none
  · exact h.step_closed closed (by simp) (by simp) rest'
  · refine h.step (fun closed' => absurd closed' closed) fun _ _ beside =>
      .ok (.some (beside.blank ?_ ?_ rest'))
    · exact Nat.lt_of_lt_of_le (Char.utf8Size_pos '#') (Nat.le_add_right _ _)
    · exact Nat.add_le_add_left le _

theorem step_lineFeed (h : s.Beside rest s') (rest' : List Char) :
    Agrees (Beside rest') (s.step ⟨.lineFeed, ['\n']⟩) (s'.step ⟨.lineFeed, ['\n']⟩) := by
  by_cases closed : s.line = none
  · exact h.step_closed closed (by simp) (by simp) rest'
  · exact h.step (fun closed' => absurd closed' closed) fun o o' beside =>
      beside.take_lineFeed rest' o o'

/-- A carriage return is one more space in front of the line feed. -/
theorem step_lineEnd (h : s.Beside rest s') (rest' : List Char) :
    ∃ s'', s'.step ⟨.carriageReturn, ['\r']⟩ = .ok s'' ∧
      Agrees (Beside rest') (s.step ⟨.lineFeed, ['\n']⟩) (s''.step ⟨.lineFeed, ['\n']⟩) := by
  rcases h.line_cases with ⟨here, there⟩ | ⟨line, line', here, there, beside⟩
  · refine ⟨_, step_gap there (by simp), ?_⟩
    rw [step_gap here (by simp), step_gap rfl (by simp)]
    exact .ok ⟨rfl, .none, h.finished⟩
  · have opened : s'.step ⟨.carriageReturn, ['\r']⟩ =
        .ok ⟨s'.offset + 1, s'.column, some (line'.blank ['\r']), s'.finished⟩ := step_some there _
    refine ⟨_, opened, ?_⟩
    rw [step_some here, step_some rfl]
    refine (beside.take_lineEnd rest' _ _).map fun taken taken' next => ?_
    cases next with
    | none =>
      have closed : (line'.blank ['\r']).close = line'.close := line'.close_blank _
      exact ⟨rfl, .none, .cons (closed ▸ beside.close) h.finished⟩
    | some next => exact ⟨h.column, .some next, h.finished⟩

end Beside

end LayoutState

/-- Corresponding lexemes are gathered alike. -/
theorem Lexeme.Returned.foldlM {ls ms : List Lexeme} (h : Returned ls ms) {s s' : LayoutState}
    (beside : s.Beside (textOf ls) s') :
    Agrees (LayoutState.Beside []) (ls.foldlM LayoutState.step s)
      (ms.foldlM LayoutState.step s') := by
  induction h generalizing s s' with
  | nil => exact .ok beside
  | sole kind unquoted _ ih =>
    rw [List.foldlM_cons, List.foldlM_cons]
    exact (beside.step_sole kind unquoted).bind fun _ _ => ih
  | literal formed parts _ ih =>
    rw [List.foldlM_cons, List.foldlM_cons]
    exact (beside.step_literal formed parts).bind fun _ _ => ih
  | endless ls ms endless endless' =>
    obtain ⟨fault, fails⟩ := s.step_endless endless
    obtain ⟨fault', fails'⟩ := s'.step_endless endless'
    rw [List.foldlM_cons, List.foldlM_cons, fails, fails']
    exact .error _ _
  | lineFeed _ ih =>
    obtain ⟨s'', returned, agrees⟩ := beside.step_lineEnd _
    rw [List.foldlM_cons, List.foldlM_cons, returned]
    exact agrees.bind fun _ _ => ih
  | continuation _ ih =>
    rw [List.foldlM_cons, List.foldlM_cons]
    exact (beside.step_continuation _).bind fun _ _ => ih
  -- A comment and its line feed are two steps in each text, and the return is in the comment.
  | comment text _ ih =>
    have longer : byteLength text ≤ byteLength (text ++ ['\r']) := by
      rw [byteLength_append]
      exact Nat.le_add_right _ _
    rw [List.foldlM_cons, List.foldlM_cons]
    refine (beside.step_comment longer []).bind fun _ _ beside => ?_
    rw [List.foldlM_cons, List.foldlM_cons]
    exact (beside.step_lineFeed _).bind fun _ _ => ih
  | lastComment text =>
    rw [List.foldlM_cons, List.foldlM_cons]
    exact (beside.step_comment (Nat.le_refl _) []).bind fun _ _ beside => .ok beside

/-! ## Programs -/

/-- The layout pass ends with alike lines, or fails in both. -/
theorem LayoutState.Beside.finish {s s' : LayoutState} (h : s.Beside [] s') :
    Agrees (List.Forall₂ LogicalLine.Alike) s.finish s'.finish := by
  rcases h.line_cases with ⟨here, there⟩ | ⟨line, line', here, there, beside⟩
  · rw [LayoutState.finish, LayoutState.finish, here, there]
    exact .ok (List.rel_reverse h.finished)
  · rw [LayoutState.finish, LayoutState.finish, here, there]
    dsimp only
    rcases beside.brackets_cases with ⟨opened, opened'⟩ | ⟨_, _, _, _, _, opened, opened', -⟩
    · rw [opened, opened']
      exact .ok (List.rel_reverse (.cons beside.close h.finished))
    · rw [opened, opened']
      exact .error _ _

/-- A text is laid out as alike lines with a carriage return in front of every line feed. -/
theorem agrees_logicalLines {text : List Char} (noReturn : '\r' ∉ text)
    (onLines : LiteralsOnLines text) :
    Agrees (List.Forall₂ LogicalLine.Alike) (logicalLines text)
      (logicalLines (withReturns text)) := by
  have start : LayoutState.initial.Beside (textOf (split text)) .initial := ⟨rfl, .none, .nil⟩
  exact ((returnsInside noReturn onLines).foldlM start).bind fun s s' beside => beside.finish

/-- A text and the one with carriage returns are parsed alike, apart from places. -/
theorem agrees_parseText {text : List Char} (noReturn : '\r' ∉ text)
    (onLines : LiteralsOnLines text) :
    Agrees (InvImage Eq (Module.move nowhere)) (parseText text) (parseText (withReturns text)) := by
  rw [parseText, parseText, isBlankText_withReturns]
  split
  · exact .ok rfl
  · refine (agrees_logicalLines noReturn onLines).bind fun lines lines' alike => ?_
    refine (agrees_mapM_parseLine alike).bind fun parsed parsed' same => ?_
    exact (agrees_assemble same).bind fun body body' same => .ok (congrArg Module.mk same)

/-- A source with a carriage return in front of every line feed. -/
def Source.withReturns (s : Source) : Source :=
  ⟨s.name, String.ofList (Text.withReturns s.content.toList)⟩

/-- A source without carriage returns, whose string literals stay on their lines, parses exactly if it
parses with a carriage return in front of every line feed, and then to the same program, apart from
places. -/
theorem Source.parse_withReturns {s : Source} (noReturn : '\r' ∉ s.content.toList)
    (onLines : LiteralsOnLines s.content.toList) :
    ((∃ m, s.parse = .ok m) ↔ ∃ m', s.withReturns.parse = .ok m') ∧
      ∀ m m', s.parse = .ok m → s.withReturns.parse = .ok m' → m'.move nowhere = m.move nowhere := by
  have text : s.withReturns.content.toList = Text.withReturns s.content.toList :=
    String.toList_ofList
  have agrees := agrees_parseText noReturn onLines
  simp only [parse_eq_ok_iff, text]
  generalize parseText s.content.toList = x, parseText (Text.withReturns s.content.toList) = y
    at agrees
  cases agrees with
  | error d e => exact ⟨⟨nofun, nofun⟩, nofun⟩
  | @ok a b same =>
    refine ⟨⟨fun _ => ⟨b, rfl⟩, fun _ => ⟨a, rfl⟩⟩, ?_⟩
    rintro m m' ⟨⟩ ⟨⟩
    exact same.symm

/-- A list over two lines with a comment in it, a continued line, and a branch. -/
def Source.broken : Source :=
  ⟨Source.standardInput, "x = [1,  # '\n  '#'] + \\\n  y\n\nif x:\n  f()\n"⟩

/-- The sample parses with carriage returns, and only the places of its statements move. -/
theorem Source.parse_withReturns_broken :
    '\r' ∉ broken.content.toList ∧ LiteralsOnLines broken.content.toList ∧
      ∃ m m', broken.parse = .ok m ∧ broken.withReturns.parse = .ok m' ∧
        m.body.map Stmt.span = [⟨0, 27⟩, ⟨29, 40⟩] ∧ m'.body.map Stmt.span = [⟨0, 29⟩, ⟨33, 45⟩] ∧
        m'.move nowhere = m.move nowhere := by
  have noReturn : '\r' ∉ broken.content.toList := by decide +kernel
  have onLines : LiteralsOnLines broken.content.toList := by decide +kernel
  have here : broken.parse.toOption.map (fun m => m.body.map Stmt.span) =
      some [⟨0, 27⟩, ⟨29, 40⟩] := by decide +kernel
  have there : broken.withReturns.parse.toOption.map (fun m => m.body.map Stmt.span) =
      some [⟨0, 29⟩, ⟨33, 45⟩] := by decide +kernel
  cases first : broken.parse with
  | error d => rw [first] at here; cases here
  | ok m =>
    cases second : broken.withReturns.parse with
    | error d => rw [second] at there; cases there
    | ok m' =>
      rw [first] at here
      rw [second] at there
      exact ⟨noReturn, onLines, m, m', rfl, rfl, Option.some.inj here, Option.some.inj there,
        (parse_withReturns noReturn onLines).2 m m' first second⟩

/-- A string that a backslash carries over to the next line. -/
def Source.carriedOver : Source := ⟨Source.standardInput, "print('a\\\nb')\n"⟩

/-- Behind a backslash in a string a carriage return is taken alone, and the line feed behind it ends
the line: with carriage returns, a string that goes over a line end is none. -/
theorem Source.not_parse_withReturns_carriedOver :
    '\r' ∉ carriedOver.content.toList ∧ (∃ m, carriedOver.parse = .ok m) ∧
      ¬ ∃ m, carriedOver.withReturns.parse = .ok m := by
  have here : carriedOver.parse.toOption.isSome = true := by decide +kernel
  have there : carriedOver.withReturns.parse.toOption.isSome = false := by decide +kernel
  refine ⟨by decide +kernel, ?_, ?_⟩
  · cases first : carriedOver.parse with
    | error d => rw [first] at here; cases here
    | ok m => exact ⟨m, rfl⟩
  · rintro ⟨m, done⟩
    rw [done] at there
    cases there

end BlockEditor
