import BlockEditor.Proofs.BlankedComments
import BlockEditor.Proofs.Gathering

/-!
# Regions of string literals

The string literals of a source are the lexemes that the layout pass found as such, at their places.
A line that is gathered from lexemes can be gone through from its start: it is made of those
literals and of characters that are no quotes.
-/

namespace BlockEditor

open Text Lexeme

/-! ## Literals at their places -/

/-- A string literal without its letters in front, and the offset at which it begins. -/
structure PlacedLiteral where
  start : Nat
  text : List Char
  deriving DecidableEq, Repr

/-- The offset behind a literal. -/
def PlacedLiteral.stop (l : PlacedLiteral) : Nat := l.start + byteLength l.text

/-- Whether a literal begins in a line. -/
def PlacedLiteral.beginsIn (l : PlacedLiteral) (line : LogicalLine) : Bool :=
  line.start ≤ l.start && l.start < line.stop

/-- The string literals among lexemes that stand at an offset. -/
def Lexeme.literals : Nat → List Lexeme → List PlacedLiteral
  | _, [] => []
  | offset, l :: ls =>
    if l.kind = .string then ⟨offset, l.text⟩ :: literals (offset + l.width) ls
    else literals (offset + l.width) ls

/-- The string literals that the layout pass finds in a source. -/
def literalsOf (source : List Char) : List PlacedLiteral := literals 0 (split source)

/-- A text at an offset, cut at the literals in it: each of them is a literal that ends where it may
end, and there is no quote between them. -/
inductive Segmented : Nat → List Char → List PlacedLiteral → Prop
  | nil {offset : Nat} : Segmented offset [] []
  | plain {offset : Nat} {c : Char} {cs : List Char} {ls : List PlacedLiteral} : ¬ IsQuote c →
      Segmented (offset + c.utf8Size) cs ls → Segmented offset (c :: cs) ls
  | literal {offset : Nat} {quote : Char} {text rest : List Char} {ls : List PlacedLiteral} :
      IsLiteral quote text → Parts quote text rest →
      Segmented (offset + byteLength text) rest ls →
      Segmented offset (text ++ rest) (⟨offset, text⟩ :: ls)

namespace Lexeme

/-- The literals among lexemes are those of the front ones and those of the others, which stand
behind them. -/
theorem literals_append (offset : Nat) (ls ms : List Lexeme) :
    literals offset (ls ++ ms) =
      literals offset ls ++ literals (offset + byteLength (textOf ls)) ms := by
  induction ls generalizing offset with
  | nil => rfl
  | cons l ls ih =>
    simp only [List.cons_append, literals, ih, textOf_cons, byteLength_append, width,
      ← Nat.add_assoc]
    split <;> rfl

/-- A literal among lexemes is one of them, and begins behind those in front of it. -/
theorem exists_of_mem_literals {offset : Nat} {ls : List Lexeme} {l : PlacedLiteral}
    (member : l ∈ literals offset ls) : ∃ front back, ls = front ++ ⟨.string, l.text⟩ :: back ∧
      l.start = offset + byteLength (textOf front) := by
  induction ls generalizing offset with
  | nil => cases member
  | cons m ls ih =>
    have behind (member : l ∈ literals (offset + m.width) ls) :
        ∃ front back, m :: ls = front ++ ⟨.string, l.text⟩ :: back ∧
          l.start = offset + byteLength (textOf front) := by
      obtain ⟨front, back, rfl, start⟩ := ih member
      refine ⟨m :: front, back, rfl, ?_⟩
      rw [start, textOf_cons, byteLength_append, Nat.add_assoc]
      rfl
    rw [literals] at member
    split at member
    · rename_i string
      rcases List.mem_cons.mp member with rfl | member
      · exact ⟨[], ls, by rw [← string]; rfl, rfl⟩
      · exact behind member
    · exact behind member

/-- A literal among lexemes lies within their text. -/
theorem bounds_of_mem_literals {offset : Nat} {ls : List Lexeme} {l : PlacedLiteral}
    (member : l ∈ literals offset ls) :
    offset ≤ l.start ∧ l.stop ≤ offset + byteLength (textOf ls) := by
  obtain ⟨front, back, rfl, start⟩ := exists_of_mem_literals member
  rw [textOf_append, textOf_cons, byteLength_append, byteLength_append, PlacedLiteral.stop, start]
  dsimp only
  omega

end Lexeme

namespace Segmented

variable {offset : Nat} {cs front : List Char} {ls : List PlacedLiteral}

/-- What stands behind some characters that are no quotes. -/
theorem drop (plain : ∀ c ∈ front, ¬ IsQuote c) (h : Segmented offset (front ++ cs) ls) :
    Segmented (offset + byteLength front) cs ls := by
  induction front generalizing offset with
  | nil => exact h
  | cons c front ih =>
    obtain ⟨unquoted, plain⟩ := List.forall_mem_cons.mp plain
    generalize whole : c :: front ++ cs = text at h
    cases h with
    | nil => cases whole
    | plain _ h =>
      obtain ⟨rfl, rfl⟩ := List.cons.inj whole
      rw [byteLength_cons, ← Nat.add_assoc]
      exact ih plain h
    | literal formed _ _ =>
      obtain ⟨tail, rfl⟩ := formed.exists_cons
      obtain ⟨rfl, -⟩ := List.cons.inj whole
      exact absurd formed.isQuote unquoted

/-- Characters that are no quotes in front of a text. -/
theorem append_plain (plain : ∀ c ∈ front, ¬ IsQuote c)
    (h : Segmented (offset + byteLength front) cs ls) : Segmented offset (front ++ cs) ls := by
  induction front generalizing offset with
  | nil => exact h
  | cons c front ih =>
    obtain ⟨unquoted, plain⟩ := List.forall_mem_cons.mp plain
    rw [byteLength_cons, ← Nat.add_assoc] at h
    exact .plain unquoted (ih plain h)

/-- Where a text begins with a quote, it begins with its first literal. -/
theorem literal_of_quote {quote : Char} (isQuote : IsQuote quote)
    (h : Segmented offset (quote :: cs) ls) :
    ∃ text rest more, quote :: cs = text ++ rest ∧ IsLiteral quote text ∧ Parts quote text rest ∧
      ls = ⟨offset, text⟩ :: more ∧ Segmented (offset + byteLength text) rest more := by
  generalize whole : quote :: cs = text at h
  cases h with
  | nil => cases whole
  | plain unquoted _ =>
    obtain ⟨rfl, rfl⟩ := List.cons.inj whole
    exact absurd isQuote unquoted
  | @literal _ quote' text rest more formed parts h =>
    obtain ⟨tail, rfl⟩ := formed.exists_cons
    obtain ⟨rfl, -⟩ := List.cons.inj whole
    exact ⟨_, rest, more, rfl, formed, parts, rfl, h⟩

/-- An empty text has no literal. -/
theorem eq_nil (h : Segmented offset [] ls) : ls = [] := by
  generalize whole : [] = text at h
  cases h with
  | nil => rfl
  | plain => cases whole
  | literal formed _ _ =>
    obtain ⟨tail, rfl⟩ := formed.exists_cons
    cases whole

/-- A text without quotes holds no literal. -/
theorem eq_nil_of_plain (plain : ∀ c ∈ cs, ¬ IsQuote c) (h : Segmented offset cs ls) : ls = [] := by
  rw [← List.append_nil cs] at h
  exact (h.drop plain).eq_nil

/-- The literals of a text lie in it. -/
theorem bounds (h : Segmented offset cs ls) :
    ∀ l ∈ ls, offset ≤ l.start ∧ l.stop ≤ offset + byteLength cs ∧ l.start < l.stop := by
  induction h with
  | nil => exact List.forall_mem_nil _
  | plain _ _ ih =>
    intro l member
    have bounds := ih l member
    rw [byteLength_cons]
    omega
  | literal formed _ _ ih =>
    obtain ⟨tail, rfl⟩ := formed.exists_cons
    have some := Char.utf8Size_pos ‹Char›
    refine List.forall_mem_cons.mpr ⟨?_, fun l member => ?_⟩
    · rw [PlacedLiteral.stop, byteLength_append, byteLength_cons]
      dsimp only
      omega
    · have bounds := ih l member
      rw [byteLength_append]
      omega

/-- Spaces at the end can be left out. -/
theorem of_append_spaces {n : Nat} (h : Segmented offset (cs ++ List.replicate n ' ') ls) :
    Segmented offset cs ls := by
  generalize whole : cs ++ List.replicate n ' ' = text at h
  induction h generalizing cs with
  | nil =>
    obtain ⟨rfl, -⟩ := List.append_eq_nil_iff.mp whole
    exact .nil
  | @plain _ c tail _ unquoted h ih =>
    cases cs with
    | nil =>
      have spaces : ∀ d ∈ c :: tail, ¬ IsQuote d := by
        intro d member
        rw [← whole] at member
        obtain rfl := List.eq_of_mem_replicate member
        exact fun quote => by rcases quote with h | h <;> cases h
      rw [(Segmented.plain unquoted h).eq_nil_of_plain spaces]
      exact .nil
    | cons d cs =>
      obtain ⟨rfl, same⟩ := List.cons.inj whole
      exact .plain unquoted (ih same)
  | @literal _ quote text rest ls formed parts h ih =>
    -- a literal does not end in a space, so it ends in front of them
    obtain ⟨behind, rfl, rfl⟩ : ∃ behind, cs = text ++ behind ∧
        rest = behind ++ List.replicate n ' ' := by
      rcases List.append_eq_append_iff.mp whole with ⟨more, beyond, spaces⟩ | inside
      · cases more with
        | nil => exact ⟨[], by simpa using beyond.symm, by simpa using spaces.symm⟩
        | cons c more =>
          have last : quote ∈ c :: more := by
            have last := formed.getLast?_eq
            rw [beyond, List.getLast?_append_of_ne_nil _ (List.cons_ne_nil _ _)] at last
            exact List.mem_of_getLast? last
          have space : quote ∈ List.replicate n ' ' := by
            rw [spaces]
            exact List.mem_append_left _ last
          obtain rfl := List.eq_of_mem_replicate space
          rcases formed.isQuote with h | h <;> cases h
      · exact inside
    refine .literal formed (fun two => ?_) (ih rfl)
    have apart := parts two
    cases behind with
    | nil => exact nofun
    | cons c behind => exact apart

end Segmented

/-! ## What a line shows -/

namespace Lexeme

/-- A string among the lexemes of a source is a literal that ends where it may end. -/
theorem literal_of_split {cs text : List Char} {ls : List Lexeme}
    (h : split cs = ⟨.string, text⟩ :: ls) :
    ∃ quote, IsLiteral quote text ∧ Parts quote text (textOf ls) := by
  obtain ⟨rfl, formed, -⟩ := split_tail h
  generalize textOf ls = rest at formed h
  cases formed with
  | shortString isQuote => exact ⟨_, parts_of_split isQuote ⟨_, rfl⟩ h⟩
  | longString isQuote => exact ⟨_, parts_of_split isQuote ⟨_, rfl⟩ h⟩

/-- A line shows quotes in literals only. -/
theorem Formed.shown_unquoted {l : Lexeme} {rest : List Char} (formed : l.Formed rest)
    (noString : l.kind ≠ .string) (ends : ¬ Endless l) : ∀ c ∈ l.shown, ¬ IsQuote c := by
  have replaced {n : Nat} : ∀ c ∈ List.replicate n ' ', ¬ IsQuote c := by
    intro c member quote
    obtain rfl := List.eq_of_mem_replicate member
    rcases quote with h | h <;> cases h
  have single {c : Char} (plain : c ∉ ['"', '\'']) : ∀ d ∈ [c], ¬ IsQuote d := by
    intro d member quote
    obtain rfl := List.mem_singleton.mp member
    rcases quote with rfl | rfl <;> exact plain (by decide)
  cases formed with
  | lineFeed | carriageReturn | comment | continuation => exact replaced
  | shortString | longString => exact absurd rfl noString
  | unterminated => exact absurd ⟨_, rfl⟩ ends
  | space blank =>
    exact single (notMem_of_apart (by decide) blank)
  | openBracket bracket =>
    exact single (notMem_of_apart (by decide) bracket)
  | closeBracket bracket =>
    exact single (notMem_of_apart (by decide) bracket)
  | other plain =>
    have quotes : ['"', '\''] ⊆ layoutMarks := by decide
    exact single fun quote => plain (quotes quote)
  | backslash => exact single (by decide)

/-- What a line shows of lexemes begins with a quote only where they do. -/
theorem head?_shownAll {quote : Char} (isQuote : IsQuote quote) {cs : List Char}
    {ls ms : List Lexeme} (h : split cs = ls ++ ms) (head : (shownAll ls).head? = some quote) :
    (textOf (ls ++ ms)).head? = some quote := by
  cases ls with
  | nil => cases head
  | cons l ls =>
    obtain ⟨-, formed, -⟩ := split_tail h
    have some := formed.text_ne_nil
    rw [List.cons_append, textOf_cons, List.head?_append_of_ne_nil _ some]
    rw [shownAll_cons, shown] at head
    split at head
    · obtain ⟨n, width⟩ : ∃ n, l.width = n + 1 := by
        obtain ⟨c, text, same⟩ := List.exists_cons_of_ne_nil some
        have positive := c.utf8Size_pos
        refine ⟨c.utf8Size - 1 + byteLength text, ?_⟩
        rw [width, same, byteLength_cons]
        omega
      rw [width, List.replicate_succ, List.cons_append] at head
      cases head
      rcases isQuote with h | h <;> cases h
    · rwa [List.head?_append_of_ne_nil _ some] at head

/-- What a line shows of lexemes is cut at the literals among them. -/
theorem segmented_shownAll {cs : List Char} {ls ms : List Lexeme} (offset : Nat)
    (h : split cs = ls ++ ms) (ends : ∀ l ∈ ls, ¬ Endless l) :
    Segmented offset (shownAll ls) (literals offset ls) := by
  induction ls generalizing cs offset with
  | nil => exact .nil
  | cons l ls ih =>
    obtain ⟨whole, formed, behind⟩ := split_tail h
    obtain ⟨first, ends⟩ := List.forall_mem_cons.mp ends
    have rest := ih (offset + l.width) behind ends
    obtain ⟨kind, text⟩ := l
    rw [shownAll_cons, literals]
    split
    · rename_i string
      obtain rfl : kind = .string := string
      obtain ⟨quote, formed, parts⟩ := literal_of_split h
      exact .literal formed
        (fun two head => parts two (head?_shownAll formed.isQuote behind head)) rest
    · rename_i noString
      refine .append_plain (formed.shown_unquoted noString first) ?_
      rwa [byteLength_shown]

end Lexeme

/-! ## The literals of a line -/

/-- A layout pass that succeeds has met no literal without an end. -/
theorem ends_of_logicalLines {source : List Char} {lines : List LogicalLine}
    (done : logicalLines source = .ok lines) : ∀ l ∈ split source, ¬ Endless l := by
  -- The pass stops at the first literal without an end, whatever came before.
  have run : ∀ (ls : List Lexeme) (s s' : LayoutState), ls.foldlM LayoutState.step s = .ok s' →
      ∀ l ∈ ls, ¬ Endless l := by
    intro ls
    induction ls with
    | nil => exact fun _ _ _ => List.forall_mem_nil _
    | cons l ls ih =>
      intro s s' taken
      rw [List.foldlM_cons] at taken
      cases step : s.step l with
      | error fault =>
        rw [step] at taken
        cases taken
      | ok next =>
        rw [step] at taken
        refine List.forall_mem_cons.mpr ⟨fun endless => ?_, ih next s' taken⟩
        obtain ⟨fault, failed⟩ := s.step_endless endless
        rw [step] at failed
        cases failed
  rw [logicalLines_eq] at done
  cases taken : (split source).foldlM LayoutState.step .initial with
  | error fault =>
    rw [taken] at done
    cases done
  | ok s => exact run _ _ _ taken

/-- A line stands among the lexemes that lines are gathered from. -/
theorem Gathers.exists_shows {offset : Nat} {lexemes : List Lexeme} {lines : List LogicalLine}
    (h : Gathers offset lexemes lines) {line : LogicalLine} (member : line ∈ lines) :
    ∃ front inner back, lexemes = front ++ (inner ++ back) ∧
      line.start = offset + byteLength (textOf front) ∧ Shows line.text inner := by
  induction h with
  | nil => cases member
  | @gap _ l lexemes _ _ _ ih =>
    obtain ⟨front, inner, back, rfl, start, shows⟩ := ih member
    refine ⟨l :: front, inner, back, rfl, ?_, shows⟩
    rw [start, textOf_cons, byteLength_append, Nat.add_assoc]
    rfl
  | @line offset indent text first others lexemes lines _ shows _ ih =>
    rcases List.mem_cons.mp member with rfl | member
    · exact ⟨[], first :: others, lexemes, rfl, rfl, shows⟩
    · obtain ⟨front, inner, back, rfl, start, shows⟩ := ih member
      refine ⟨first :: others ++ front, inner, back, by simp, ?_, shows⟩
      rw [start, textOf_append, byteLength_append, Nat.add_assoc]

/-- A line is cut at the literals that the layout pass found in it. -/
theorem segmented_of_logicalLines {source : List Char} {lines : List LogicalLine}
    {line : LogicalLine} (done : logicalLines source = .ok lines) (member : line ∈ lines) :
    Segmented line.start line.text ((literalsOf source).filter (·.beginsIn line)) := by
  have gathers := (meets_logicalLines source).of_ok done
  obtain ⟨front, inner, back, whole, start, ⟨blanks, shown⟩, -⟩ := gathers.exists_shows member
  rw [Nat.zero_add] at start
  have behind : split (textOf (inner ++ back)) = inner ++ back := split_behind whole
  have ends : ∀ l ∈ inner, ¬ Endless l := fun l member =>
    ends_of_logicalLines done l (by rw [whole]; simp [member])
  have segmented := segmented_shownAll line.start behind ends
  rw [shown] at segmented
  have segmented := segmented.of_append_spaces
  -- what stands around the line begins in front of it or behind it
  have before : (literals 0 front).filter (·.beginsIn line) = [] := by
    rw [List.filter_eq_nil_iff]
    intro l member
    obtain ⟨others, more, rfl, begins⟩ := exists_of_mem_literals member
    rw [List.append_assoc] at whole
    obtain ⟨quote, formed, -⟩ := literal_of_split (split_behind whole)
    obtain ⟨tail, text⟩ := formed.exists_cons
    have some := quote.utf8Size_pos
    rw [textOf_append, byteLength_append, textOf_cons, byteLength_append, text, byteLength_cons]
      at start
    rw [PlacedLiteral.beginsIn]
    simp only [Bool.and_eq_true, decide_eq_true_eq]
    omega
  have inside :
      (literals line.start inner).filter (·.beginsIn line) = literals line.start inner := by
    rw [List.filter_eq_self]
    intro l member
    have bounds := segmented.bounds l member
    rw [PlacedLiteral.beginsIn, LogicalLine.stop]
    simp only [Bool.and_eq_true, decide_eq_true_eq]
    omega
  have after : (literals (line.start + byteLength (textOf inner)) back).filter
      (·.beginsIn line) = [] := by
    rw [List.filter_eq_nil_iff]
    intro l member
    have bounds := bounds_of_mem_literals member
    have size := congrArg byteLength shown
    rw [byteLength_shownAll, byteLength_append] at size
    rw [PlacedLiteral.beginsIn, LogicalLine.stop]
    simp only [Bool.and_eq_true, decide_eq_true_eq]
    omega
  rw [literalsOf, whole, literals_append, literals_append, Nat.zero_add, ← start]
  rw [List.filter_append, List.filter_append, before, inside, after, List.append_nil,
    List.nil_append]
  exact segmented

end BlockEditor
