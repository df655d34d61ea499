import BlockEditor.Proofs.Offsets
import BlockEditor.Proofs.Ranges
import BlockEditor.Syntax.Grammar

/-!
# Places of parse trees

The grammar sees the text of a line, in which spaces stand for comments.  It stops only where a
visible character ends or begins, or where the line ends, so the offsets in its trees are boundaries
of the source.
-/

namespace BlockEditor

open Text

/-! ## What patterns take -/

namespace Pattern

/-- Whether a pattern takes at least one character. -/
def solid : Pattern → Bool
  | text t => !t.isEmpty
  | one _ => true
  | seq p q => p.solid || q.solid
  | alt p q => p.solid && q.solid
  | opt _ | many _ | absent _ => false

/-- Whether a pattern does not take `d` as its last character. -/
def endsWithout (d : Char) : Pattern → Bool
  | text t => t.getLast? != some d
  | one k => !k.holds d
  | seq p q => q.endsWithout d && (q.solid || p.endsWithout d)
  | alt p q => p.endsWithout d && q.endsWithout d
  | opt p | many p => p.endsWithout d
  | absent _ => true

/-- A solid pattern takes at least one character. -/
theorem ne_nil_of_solid {p : Pattern} (solid : p.solid = true) {cs lexeme rest : List Char}
    (scanned : p.scan cs = some (lexeme, rest)) : lexeme ≠ [] := by
  induction p generalizing cs lexeme rest with
  | text t =>
    obtain ⟨_, -, e⟩ := Option.map_eq_some_iff.1 scanned
    cases e
    simpa [Pattern.solid] using solid
  | one k =>
    cases cs with
    | nil => cases scanned
    | cons c cs =>
      rw [scan] at scanned
      split at scanned
      · cases scanned
        exact List.cons_ne_nil c []
      · cases scanned
  | seq p q ihp ihq =>
    rw [scan] at scanned
    split at scanned
    · cases scanned
    · rename_i a between here
      split at scanned
      · cases scanned
      · rename_i b behind there
        cases scanned
        rcases Bool.or_eq_true_iff.1 solid with solid | solid
        · exact List.append_ne_nil_of_left_ne_nil (ihp solid here) _
        · exact List.append_ne_nil_of_right_ne_nil _ (ihq solid there)
  | alt p q ihp ihq =>
    have both := Bool.and_eq_true_iff.1 solid
    rcases Option.or_eq_some_iff.1 scanned with here | ⟨-, here⟩
    · exact ihp both.1 here
    · exact ihq both.2 here
  | opt p | many p | absent p => cases solid

/-- Texts side by side do not end with a character that neither of them ends with. -/
theorem getLast?_append_ne {a b : List Char} {c : Char} (front : b = [] → ∀ d ∈ a.getLast?, d ≠ c)
    (back : ∀ d ∈ b.getLast?, d ≠ c) : ∀ d ∈ (a ++ b).getLast?, d ≠ c := by
  cases b with
  | nil => simpa using front rfl
  | cons e b => rwa [List.getLast?_append_of_ne_nil _ (List.cons_ne_nil e b)]

/-- A repetition does not end with a character that its item does not end with. -/
theorem scanMany_last_ne {d : Char} {f : List Char → Option (List Char × List Char)}
    (each : ∀ cs lexeme rest, f cs = some (lexeme, rest) → ∀ c ∈ lexeme.getLast?, c ≠ d)
    (fuel : Nat) (cs : List Char) : ∀ c ∈ (scanMany f fuel cs).1.getLast?, c ≠ d := by
  induction fuel generalizing cs with
  | zero => simp [scanMany]
  | succ fuel ih =>
    rw [scanMany]
    split
    · simp
    · rename_i lexeme rest taken
      exact getLast?_append_ne (fun _ => each cs lexeme rest taken) (ih rest)

/-- What a pattern takes does not end with a character that it leaves out there. -/
theorem last_ne_of_endsWithout {d : Char} {p : Pattern} (without : p.endsWithout d = true)
    {cs lexeme rest : List Char} (scanned : p.scan cs = some (lexeme, rest)) :
    ∀ c ∈ lexeme.getLast?, c ≠ d := by
  induction p generalizing cs lexeme rest with
  | text t =>
    obtain ⟨_, -, e⟩ := Option.map_eq_some_iff.1 scanned
    cases e
    intro c last
    rintro rfl
    simp [endsWithout, Option.mem_def.1 last] at without
  | one k =>
    cases cs with
    | nil => cases scanned
    | cons c cs =>
      rw [scan] at scanned
      split at scanned
      · rename_i holds
        cases scanned
        rintro e ⟨⟩
        rintro rfl
        simp [endsWithout, holds] at without
      · cases scanned
  | seq p q ihp ihq =>
    rw [scan] at scanned
    split at scanned
    · cases scanned
    · rename_i a between here
      split at scanned
      · cases scanned
      · rename_i b behind there
        cases scanned
        -- the last character comes from the second part, unless that part took nothing
        obtain ⟨back, front⟩ := Bool.and_eq_true_iff.1 without
        refine getLast?_append_ne (fun empty => ?_) (ihq back there)
        rcases Bool.or_eq_true_iff.1 front with solid | front
        · exact absurd empty (ne_nil_of_solid solid there)
        · exact ihp front here
  | alt p q ihp ihq =>
    have both := Bool.and_eq_true_iff.1 without
    rcases Option.or_eq_some_iff.1 scanned with here | ⟨-, here⟩
    · exact ihp both.1 here
    · exact ihq both.2 here
  | opt p ih =>
    rcases Option.or_eq_some_iff.1 scanned with here | ⟨-, e⟩
    · exact ih without here
    · cases e
      simp
  | many p ih =>
    have taken : scanMany p.scan cs.length cs = (lexeme, rest) := Option.some.inj scanned
    have last := scanMany_last_ne (f := p.scan) (fun _ _ _ here => ih without here) cs.length cs
    rwa [taken] at last
  | absent p =>
    rw [scan] at scanned
    split at scanned
    · cases scanned
    · cases scanned
      simp

end Pattern

/-- Tokens end with something visible. -/
theorem Token.endsWithout_space (t : Token) : t.pattern.endsWithout ' ' = true := by
  have words : ∀ w ∈ Word.all, (wordPattern w).endsWithout ' ' = true := by decide +kernel
  cases t with
  | word w => exact words w w.mem_all
  | _ => rfl

/-- All tokens but the end of the line take something. -/
theorem Token.solid_pattern {t : Token} (inner : t ≠ .endOfLine) : t.pattern.solid = true := by
  have words : ∀ w ∈ Word.all, (wordPattern w).solid = true := by decide +kernel
  cases t with
  | word w => exact words w w.mem_all
  | endOfLine => exact absurd rfl inner
  | _ => rfl

namespace Peg

/-- Whether a phrase expression takes at least one character, given that all phrases do. -/
def solid : LineExpr → Bool
  | text t => !t.isEmpty
  | token t => t.pattern.solid
  | phrase _ => true
  | seq x y => x.solid || y.solid
  | alt x y => x.solid && y.solid
  | absent _ | opt _ | many _ => false

/-- Whether no fixed text of a phrase expression has `d` as its last character. -/
def endsWithout (d : Char) : LineExpr → Bool
  | text t => t.getLast? != some d
  | seq x y | alt x y => x.endsWithout d && y.endsWithout d
  | opt x | many x => x.endsWithout d
  | absent _ | token _ | phrase _ => true

end Peg

/-- Every phrase takes at least one character. -/
theorem LineGrammar.solid_body (p : PhraseName) : (body p).solid = true := by
  cases p <;> rfl

/-- Fixed texts end with something visible. -/
theorem LineGrammar.endsWithout_space (p : PhraseName) : (body p).endsWithout ' ' = true := by
  cases p <;> rfl

/-! ## Places in a line -/

/-- A tree stands in a source.  Only the end of the line takes nothing. -/
inductive ParseTree.Stands (source : List Char) : LineTree → Prop
  | token {t : Token} {s : Span} {lexeme : List Char} : s.In source →
      (t ≠ .endOfLine → s.start < s.stop) → Stands source (.token t s lexeme)
  | phrase {p : PhraseName} {s : Span} {children : List LineTree} : s.Covers source →
      Laid ParseTree.span s.start s.stop children → (∀ child ∈ children, Stands source child) →
      Stands source (.phrase p s children)

section Reading

variable {source : List Char} {line : LogicalLine} {c : Cursor}

/-- A place in a line is a boundary of the source. -/
structure Cursor.Stands (source : List Char) (line : LogicalLine) (c : Cursor) : Prop where
  taken : ∃ front, line.text = front ++ c.rest ∧ c.offset = line.start + byteLength front
  boundary : IsBoundary source c.offset

namespace Cursor.Stands

/-- A place in a line is not behind its end. -/
theorem le_stop (h : c.Stands source line) : c.offset ≤ line.stop := by
  obtain ⟨front, text, offset⟩ := h.taken
  rw [offset, LogicalLine.stop, text, byteLength_append]
  exact Nat.add_le_add_left (Nat.le_add_right _ _) _

/-- Behind a lexeme that ends with something visible. -/
theorem after (h : c.Stands source line) (stands : line.Stands source) {lexeme rest : List Char}
    (whole : lexeme ++ rest = c.rest) (visible : ∀ d ∈ lexeme.getLast?, d ≠ ' ') :
    (c.after lexeme rest).Stands source line := by
  obtain ⟨front, text, offset⟩ := h.taken
  refine ⟨⟨front ++ lexeme, by rw [text, ← whole, ← List.append_assoc]; rfl, ?_⟩, ?_⟩
  · rw [Cursor.after, offset, byteLength_append, Nat.add_assoc]
  · rcases List.eq_nil_or_concat lexeme with rfl | ⟨init, d, rfl⟩
    · exact h.boundary
    · rw [List.concat_eq_append] at whole visible ⊢
      -- a visible character of the line stands in the source as well
      have mark : d ≠ ' ' := visible d (by simp)
      have inside : line.text = (front ++ init) ++ d :: rest := by rw [text, ← whole]; simp
      obtain ⟨before, behind, rfl, size⟩ := stands.mark inside mark
      refine ⟨before ++ [d], behind, by simp, ?_⟩
      simp only [Cursor.after, byteLength_append, byteLength_cons, byteLength_nil] at size ⊢
      omega

/-- Behind blanks the line ends, or something visible begins. -/
theorem skip (h : c.Stands source line) (stands : line.Stands source) :
    (c.skip lineGrammar.isSpace).Stands source line := by
  obtain ⟨front, text, offset⟩ := h.taken
  have blanks := List.takeWhile_append_dropWhile (p := lineGrammar.isSpace) (l := c.rest)
  have refused := List.head?_dropWhile_not lineGrammar.isSpace c.rest
  unfold Cursor.skip
  generalize c.rest.takeWhile lineGrammar.isSpace = taken at blanks
  generalize c.rest.dropWhile lineGrammar.isSpace = left at blanks refused
  have offset' : (c.after taken left).offset = line.start + byteLength (front ++ taken) := by
    rw [Cursor.after, offset, byteLength_append, Nat.add_assoc]
  have text' : line.text = (front ++ taken) ++ left := by rw [text, ← blanks, List.append_assoc]
  refine ⟨⟨front ++ taken, text', offset'⟩, ?_⟩
  rw [offset']
  cases left with
  | nil =>
    rw [List.append_nil] at text'
    rw [← text']
    exact stands.stop
  | cons d left =>
    have mark : d ≠ ' ' := by
      rintro rfl
      cases refused
    obtain ⟨before, behind, rfl, size⟩ := stands.mark text' mark
    exact ⟨before, d :: behind, rfl, size⟩

end Cursor.Stands

/-- No lexeme leads back. -/
theorem Cursor.le_after (c : Cursor) (lexeme rest : List Char) :
    c.offset ≤ (c.after lexeme rest).offset := Nat.le_add_right _ _

/-- A lexeme leads forward unless it is empty. -/
theorem Cursor.lt_after (c : Cursor) {lexeme : List Char} (rest : List Char) (some : lexeme ≠ []) :
    c.offset < (c.after lexeme rest).offset := by
  cases lexeme with
  | nil => exact absurd rfl some
  | cons d lexeme =>
    have positive := Char.utf8Size_pos d
    show c.offset < c.offset + (d.utf8Size + byteLength lexeme)
    omega

/-- Failures are recorded at places that were tried. -/
theorem Attempts.isBoundary_record {τ φ : Type} {a : Attempts τ φ} {offset : Nat}
    (tried : IsBoundary source a.offset) (place : IsBoundary source offset) (symbol : τ ⊕ φ)
    (before : Nat) : IsBoundary source (a.record symbol offset before).offset := by
  unfold Attempts.record
  split
  · exact tried
  · split
    · exact tried
    · split
      · exact place
      · exact tried

/-- What is read from a place on stands in the source; `moves` says that something is taken. -/
def Reply.Stands (source : List Char) (line : LogicalLine) (c : Cursor) (moves : Bool) :
    Reply Token PhraseName → Prop
  | .fail a => IsBoundary source a.offset
  | .done c' trees a => IsBoundary source a.offset ∧ c'.Stands source line ∧
      (moves = true → c.offset < c'.offset) ∧ Laid ParseTree.span c.offset c'.offset trees ∧
      ∀ tree ∈ trees, tree.Stands source

/-- Nothing is taken. -/
theorem Cursor.Stands.nothing (place : c.Stands source line) {a : Attempts Token PhraseName}
    (tried : IsBoundary source a.offset) : (Reply.done c [] a).Stands source line c false :=
  ⟨tried, place, nofun, .nil (Nat.le_refl _), List.forall_mem_nil _⟩

/-- Reads something that stands in the source, wherever it begins. -/
def ReadsPlaced (source : List Char) (line : LogicalLine) (moves : Bool)
    (f : Cursor → Attempts Token PhraseName → Reply Token PhraseName) : Prop :=
  ∀ c a, c.Stands source line → IsBoundary source a.offset → (f c a).Stands source line c moves

/-- Blanks do not lead back. -/
theorem Cursor.Stands.le_skip (c : Cursor) : c.offset ≤ (c.skip lineGrammar.isSpace).offset :=
  c.le_after _ _

/-- A repetition reads trees that stand in the source, if its item does. -/
theorem readMany_stands {moves : Bool} {f : Cursor → Attempts Token PhraseName → Reply Token PhraseName}
    (item : ReadsPlaced source line moves f) (stands : line.Stands source) (fuel : Nat) {c : Cursor}
    {a : Attempts Token PhraseName} (place : c.Stands source line) (tried : IsBoundary source a.offset) :
    (Reply.done (readMany lineGrammar.isSpace f fuel c a).1
      (readMany lineGrammar.isSpace f fuel c a).2.1
      (readMany lineGrammar.isSpace f fuel c a).2.2).Stands source line c false := by
  induction fuel generalizing c a with
  | zero => exact place.nothing tried
  | succ fuel ih =>
    have first := item (c.skip lineGrammar.isSpace) a (place.skip stands) tried
    rw [readMany]
    cases e : f (c.skip lineGrammar.isSpace) a with
    | fail a' =>
      rw [e] at first
      exact place.nothing first
    | done c' trees a' =>
      rw [e] at first
      obtain ⟨tried, place', -, laid, all⟩ := first
      obtain ⟨tried, behind, -, others, rest⟩ := ih place' tried
      refine ⟨tried, behind, nofun, ?_, ?_⟩
      · exact (laid.mono (Cursor.Stands.le_skip c) (Nat.le_refl _)).append others
      · exact fun tree member => (List.mem_append.1 member).elim (all tree) (rest tree)

/-- A phrase expression reads trees that stand in the source, if phrases do. -/
theorem Peg.readsPlaced {limit : Nat}
    {call : PhraseName → Cursor → Attempts Token PhraseName → Reply Token PhraseName}
    (phrases : ∀ p, ReadsPlaced source line true (call p)) (stands : line.Stands source)
    (x : LineExpr) (visible : x.endsWithout ' ' = true) :
    ReadsPlaced source line x.solid (x.read lineGrammar limit call) := by
  -- By induction on the expression.  The tokens are where the places move forward; everything
  -- else only passes places on.
  induction x with
  | text t =>
    intro c a place tried
    rw [read]
    split
    · rename_i rest taken
      refine ⟨tried, place.after stands ((Text.dropLead_eq_some_iff _ _ _).1 taken).symm ?_,
        fun some => c.lt_after rest ?_, .nil (c.le_after _ _), by simp⟩
      · intro d last
        rintro rfl
        simp [endsWithout, Option.mem_def.1 last] at visible
      · simpa [Peg.solid] using some
    · exact tried
  | absent p =>
    intro c a place tried
    rw [read]
    split
    · exact tried
    · exact place.nothing tried
  | token t =>
    intro c a place tried
    rw [read]
    split
    · rename_i lexeme rest scanned
      have place' := place.after stands (Pattern.scan_append scanned)
        (Pattern.last_ne_of_endsWithout t.endsWithout_space scanned)
      have moves : t.pattern.solid = true → c.offset < (c.after lexeme rest).offset :=
        fun solid => c.lt_after rest (Pattern.ne_nil_of_solid solid scanned)
      have forward := c.le_after lexeme rest
      refine ⟨tried, place', moves, .single (Nat.le_refl _) forward (Nat.le_refl _), ?_⟩
      intro tree member
      rw [List.mem_singleton.1 member]
      exact .token ⟨place.boundary, place'.boundary, forward⟩
        fun inner => moves (Token.solid_pattern inner)
    · exact Attempts.isBoundary_record tried place.boundary _ _
  | phrase p => exact phrases p
  | seq x y ihx ihy =>
    intro c a place tried
    obtain ⟨visibleX, visibleY⟩ := Bool.and_eq_true_iff.1 visible
    have first := ihx visibleX c a place tried
    rw [read]
    cases e : x.read lineGrammar limit call c a with
    | fail a' =>
      rw [e] at first
      exact first
    | done c' trees a' =>
      rw [e] at first
      obtain ⟨tried, place', moves, laid, all⟩ := first
      have second := ihy visibleY (c'.skip lineGrammar.isSpace) a' (place'.skip stands) tried
      dsimp only
      cases e : y.read lineGrammar limit call (c'.skip lineGrammar.isSpace) a' with
      | fail a'' =>
        rw [e] at second
        exact second
      | done c'' more a'' =>
        rw [e] at second
        obtain ⟨tried, place'', moves', laid', all'⟩ := second
        have skipped := Cursor.Stands.le_skip c'
        -- One of the two parts is solid, and the other one and the blanks between do not lead
        -- back.
        refine ⟨tried, place'', fun solid => ?_, ?_, ?_⟩
        · have le := laid.le
          have le' := laid'.le
          rcases Bool.or_eq_true_iff.1 solid with solid | solid
          · have lt := moves solid
            omega
          · have lt := moves' solid
            omega
        · exact laid.append (laid'.mono skipped (Nat.le_refl _))
        · exact fun tree member => (List.mem_append.1 member).elim (all tree) (all' tree)
  | alt x y ihx ihy =>
    intro c a place tried
    obtain ⟨visibleX, visibleY⟩ := Bool.and_eq_true_iff.1 visible
    have first := ihx visibleX c a place tried
    rw [read]
    cases e : x.read lineGrammar limit call c a with
    | fail a' =>
      rw [e] at first
      have second := ihy visibleY c a' place first
      dsimp only
      cases e : y.read lineGrammar limit call c a' with
      | fail a'' =>
        rw [e] at second
        exact second
      | done c'' more a'' =>
        rw [e] at second
        obtain ⟨tried, place'', moves, laid, all⟩ := second
        exact ⟨tried, place'', fun solid => moves (Bool.and_eq_true_iff.1 solid).2, laid, all⟩
    | done c' trees a' =>
      rw [e] at first
      obtain ⟨tried, place', moves, laid, all⟩ := first
      exact ⟨tried, place', fun solid => moves (Bool.and_eq_true_iff.1 solid).1, laid, all⟩
  | opt x ih =>
    intro c a place tried
    have first := ih visible c a place tried
    rw [read]
    cases e : x.read lineGrammar limit call c a with
    | fail a' =>
      rw [e] at first
      exact place.nothing first
    | done c' trees a' =>
      rw [e] at first
      obtain ⟨tried, place', -, laid, all⟩ := first
      exact ⟨tried, place', nofun, laid, all⟩
  -- A repetition may take nothing, so it is not solid, and nothing has to move.
  | many x ih =>
    intro c a place tried
    have first := ih visible c a place tried
    rw [read]
    cases e : x.read lineGrammar limit call c a with
    | fail a' =>
      rw [e] at first
      exact place.nothing first
    | done c' trees a' =>
      rw [e] at first
      obtain ⟨tried, place', -, laid, all⟩ := first
      obtain ⟨tried, behind, -, others, rest⟩ := readMany_stands (ih visible) stands limit place' tried
      refine ⟨tried, behind, nofun, laid.append others, ?_⟩
      exact fun tree member => (List.mem_append.1 member).elim (all tree) (rest tree)

/-- Phrases are read as trees that stand in the source and take something. -/
theorem readsPlaced_lineGrammar (stands : line.Stands source) (limit fuel : Nat) (p : PhraseName) :
    ReadsPlaced source line true (lineGrammar.read limit fuel p) := by
  induction fuel generalizing p with
  | zero => exact fun c a _ tried => tried
  | succ fuel ih =>
    intro c a place tried
    have body : ((lineGrammar.body p).read lineGrammar limit (lineGrammar.read limit fuel) c a).Stands
        source line c true := by
      rw [← LineGrammar.solid_body p]
      exact Peg.readsPlaced ih stands _ (LineGrammar.endsWithout_space p) c a place tried
    rw [Grammar.read]
    cases e : (lineGrammar.body p).read lineGrammar limit (lineGrammar.read limit fuel) c a with
    | fail a' =>
      rw [e] at body
      exact Attempts.isBoundary_record body place.boundary _ _
    | done c' trees a' =>
      rw [e] at body
      obtain ⟨tried, place', moves, laid, all⟩ := body
      refine ⟨tried, place', moves, .single (Nat.le_refl _) laid.le (Nat.le_refl _), ?_⟩
      intro tree member
      rw [List.mem_singleton.1 member]
      exact .phrase ⟨place.boundary, place'.boundary, moves rfl⟩ laid all

/-- The tree of a line stands in the source. -/
theorem stands_readLine (stands : line.Stands source) :
    (readLine line.text line.start).Stands source line ⟨line.text, line.start⟩ true := by
  refine readsPlaced_lineGrammar stands _ _ _ _ _ ?_ stands.start
  exact ⟨⟨[], rfl, rfl⟩, stands.start⟩

end Reading

end BlockEditor
