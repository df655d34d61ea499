import BlockEditor.Proofs.MovedBlocks
import BlockEditor.Proofs.WiderGaps

/-!
# Lines with wider gaps

The grammar reads the same tree, apart from places, from a line and from the line with wider gaps.
The wider line comes with more fuel, so it is also shown that a line never runs out of it: phrases at
one place are nested by their ranks, and every phrase takes at least one character.
-/

namespace BlockEditor

/-! ## Progress -/

/-- Whether every lexeme of a pattern has at least one character. -/
def Pattern.advances : Pattern → Bool
  | text t => !t.isEmpty
  | one _ => true
  | seq p q => p.advances || q.advances
  | alt p q => p.advances && q.advances
  | opt _ | many _ | absent _ => false

/-- A pattern that advances takes at least one character. -/
theorem Pattern.ne_nil_of_advances {p : Pattern} (h : p.advances = true)
    {cs lexeme rest : List Char} (found : p.scan cs = some (lexeme, rest)) : lexeme ≠ [] := by
  induction p generalizing cs lexeme rest with
  | text t =>
    obtain ⟨_, -, e⟩ := Option.map_eq_some_iff.1 found
    cases e
    simpa [advances] using h
  | one k =>
    cases cs with
    | nil => cases found
    | cons c cs =>
      rw [scan] at found
      split at found
      · cases found
        exact List.cons_ne_nil _ _
      · cases found
  | seq p q ihp ihq =>
    rw [scan_seq] at found
    split at found
    · cases found
    · rename_i first
      split at found
      · cases found
      · rename_i second
        cases found
        intro none
        obtain ⟨rfl, rfl⟩ := List.append_eq_nil_iff.1 none
        rcases Bool.or_eq_true_iff.1 h with h | h
        · exact ihp h first rfl
        · exact ihq h second rfl
  | alt p q ihp ihq =>
    obtain ⟨left, right⟩ := Bool.and_eq_true_iff.1 h
    rw [scan_alt, Option.or_eq_some_iff] at found
    rcases found with found | ⟨-, found⟩
    · exact ihp left found
    · exact ihq right found
  | opt | many | absent => cases h

/-- Whether an expression takes at least one character, given that every phrase does. -/
def LineExpr.advances : LineExpr → Bool
  | .text t => !t.isEmpty
  | .token t => t.pattern.advances
  | .phrase _ => true
  | .seq x y => advances x || advances y
  | .alt x y => advances x && advances y
  | .absent _ | .opt _ | .many _ => false

/-- The place of a phrase in the order in which phrases begin one another. -/
def PhraseName.rank : PhraseName → Nat
  | line => 7
  | simpleStmts => 6
  | assignmentStmt => 5
  | withItem | starExpressions | callArgs | sliceUpper | sliceStep | dictItem => 4
  | expression => 3
  | importTargets | targetList | operation => 2
  | yieldStmt | importAsNames | compoundHeader | params | lambdaParams | compOp | primary => 1
  | _ => 0

/-- The phrases that begin where an expression begins rank below `bound`, if the expression is
`fresh`, that is, if nothing has been taken in front of it.  What is repeated takes characters, and
neither fixed texts nor excluded patterns hold marks. -/
def LineExpr.graded (bound : Nat) : Bool → LineExpr → Bool
  | _, .text t => t.all fun c => !gapMarks.contains c
  | _, .absent p => decide (p.Avoids (· ∈ gapMarks))
  | _, .token _ => true
  | fresh, .phrase p => !fresh || decide (p.rank < bound)
  | fresh, .seq x y => graded bound fresh x && graded bound (fresh && !advances x) y
  | fresh, .alt x y => graded bound fresh x && graded bound fresh y
  | fresh, .opt x => graded bound fresh x
  | fresh, .many x => advances x && graded bound fresh x

/-- Behind a character that has been taken, phrases of any rank may begin. -/
theorem LineExpr.graded_false {bound : Nat} {fresh : Bool} {x : LineExpr}
    (h : graded bound fresh x = true) : graded bound false x = true := by
  induction x generalizing fresh with
  | text | absent | token => exact h
  | phrase => rfl
  | seq x y ihx ihy =>
    obtain ⟨left, right⟩ := Bool.and_eq_true_iff.1 h
    exact Bool.and_eq_true_iff.2 ⟨ihx left, ihy right⟩
  | alt x y ihx ihy =>
    obtain ⟨left, right⟩ := Bool.and_eq_true_iff.1 h
    exact Bool.and_eq_true_iff.2 ⟨ihx left, ihy right⟩
  | opt x ih => exact ih h
  | many x ih =>
    obtain ⟨left, right⟩ := Bool.and_eq_true_iff.1 h
    exact Bool.and_eq_true_iff.2 ⟨left, ih right⟩

/-- Every phrase takes a character, and begins with phrases of a lower rank. -/
theorem LineGrammar.graded_body (p : PhraseName) :
    LineExpr.advances (body p) = true ∧ LineExpr.graded p.rank true (body p) = true := by
  cases p <;> exact ⟨rfl, rfl⟩

/-- The rank of a phrase is less than the depth of phrases. -/
theorem PhraseName.rank_lt (p : PhraseName) : p.rank < phraseDepth := by
  cases p <;> decide

/-! ## Places in two lines -/

/-- The move that forgets all places. -/
def nowhere : Nat → Nat := fun _ => 0

theorem monotone_nowhere : Monotone nowhere := monotone_const

/-- What is left of two lines differs in gaps.  At most `n` and `m` characters are left, and fewer
unless the places are `fresh`. -/
structure Abreast (n m : Nat) (fresh : Bool) (c d : Cursor) : Prop where
  wider : Wider c.rest d.rest
  left : c.rest.length ≤ n
  right : d.rest.length ≤ m
  less : fresh = false → c.rest.length < n ∧ d.rest.length < m

namespace Abreast

variable {n m : Nat} {fresh : Bool} {c d c' d' : Cursor}

/-- At their starts, two lines that differ in gaps are abreast. -/
theorem start (h : Wider c.rest d.rest) :
    Abreast c.rest.length d.rest.length true c d :=
  ⟨h, Nat.le_refl _, Nat.le_refl _, nofun⟩

/-- Places abreast of places abreast are so from the start. -/
theorem trans {more : Bool} (h : Abreast n m fresh c d)
    (next : Abreast c.rest.length d.rest.length more c' d') :
    Abreast n m (fresh && more) c' d' := by
  refine ⟨next.wider, next.left.trans h.left, next.right.trans h.right, fun taken => ?_⟩
  rcases Bool.and_eq_false_iff.1 taken with taken | taken
  · exact ⟨next.left.trans_lt (h.less taken).1, next.right.trans_lt (h.less taken).2⟩
  · exact ⟨(next.less taken).1.trans_le h.left, (next.less taken).2.trans_le h.right⟩

/-- Places that have been left may count as fresh. -/
theorem weaken {weaker : Bool} (h : Abreast n m fresh c d) (le : weaker = false → fresh = false) :
    Abreast n m weaker c d :=
  ⟨h.wider, h.left, h.right, fun taken => h.less (le taken)⟩

/-- Places are fresh at most. -/
theorem relax (h : Abreast n m fresh c d) : Abreast n m true c d := h.weaken nofun

/-- Skipping blanks keeps the places abreast. -/
theorem skip (h : Abreast n m fresh c d) :
    Abreast n m fresh (c.skip lineGrammar.isSpace) (d.skip lineGrammar.isSpace) := by
  have shorter (cs : List Char) : (cs.dropWhile lineGrammar.isSpace).length ≤ cs.length :=
    (List.dropWhile_suffix _).length_le
  refine ⟨h.wider.dropWhile, (shorter _).trans h.left, (shorter _).trans h.right, fun taken => ?_⟩
  exact ⟨(shorter _).trans_lt (h.less taken).1, (shorter _).trans_lt (h.less taken).2⟩

/-- Behind a lexeme that both lines begin with, places are abreast. -/
theorem after {lexeme rest rest' : List Char} (h : Wider rest rest')
    (whole : lexeme ++ rest = c.rest) (whole' : lexeme ++ rest' = d.rest) (advanced : Bool)
    (some : advanced = true → lexeme ≠ []) : Abreast c.rest.length d.rest.length (!advanced)
      (c.after lexeme rest) (d.after lexeme rest') := by
  rw [← whole, ← whole', List.length_append, List.length_append]
  refine ⟨h, Nat.le_add_left _ _, Nat.le_add_left _ _, fun taken => ?_⟩
  have some := List.length_pos_iff.2 (some (by simpa using taken))
  exact ⟨by show rest.length < _; omega, by show rest'.length < _; omega⟩

end Abreast

/-! ## Reading abreast -/

/-- Two replies go alike: both fail, or both give the same trees, apart from places, and leave places
abreast that are fresh unless something was taken. -/
inductive RepliesAlike (c d : Cursor) (fresh : Bool) :
    Reply Token PhraseName → Reply Token PhraseName → Prop
  | fail (a b : Attempts Token PhraseName) : RepliesAlike c d fresh (.fail a) (.fail b)
  | done {c' d' : Cursor} {trees trees' : List LineTree} (a b : Attempts Token PhraseName) :
    Abreast c.rest.length d.rest.length fresh c' d' →
    trees'.map (ParseTree.move nowhere) = trees.map (ParseTree.move nowhere) →
    RepliesAlike c d fresh (.done c' trees a) (.done d' trees' b)

theorem RepliesAlike.weaken {c d : Cursor} {fresh weaker : Bool} {r s : Reply Token PhraseName}
    (h : RepliesAlike c d fresh r s) (le : weaker = false → fresh = false) :
    RepliesAlike c d weaker r s := by
  cases h with
  | fail a b => exact .fail a b
  | done a b abreast same => exact .done a b (abreast.weaken le) same

/-- A way to read a line, and one to read the wider line. -/
abbrev LineReader : Type := Cursor → Attempts Token PhraseName → Reply Token PhraseName

/-- A repetition goes alike if its items do and take characters, with more fuel than characters. -/
theorem readMany_alike {n m : Nat} {f g : LineReader}
    (item : ∀ c d a b, Abreast n m false c d → RepliesAlike c d false (f c a) (g d b))
    (fuel fuel' : Nat) {c d : Cursor} (a b : Attempts Token PhraseName)
    (h : Abreast n m false c d) (enough : c.rest.length < fuel) (enough' : d.rest.length < fuel') :
    Abreast c.rest.length d.rest.length true (readMany lineGrammar.isSpace f fuel c a).1
        (readMany lineGrammar.isSpace g fuel' d b).1 ∧
      (readMany lineGrammar.isSpace g fuel' d b).2.1.map (ParseTree.move nowhere) =
        (readMany lineGrammar.isSpace f fuel c a).2.1.map (ParseTree.move nowhere) := by
  induction fuel generalizing fuel' c d a b with
  | zero => exact absurd enough (Nat.not_lt_zero _)
  | succ fuel ih =>
    obtain ⟨fuel', rfl⟩ : ∃ k, fuel' = k + 1 := ⟨fuel' - 1, by omega⟩
    have first := item _ _ a b h.skip
    rw [readMany, readMany]
    generalize f (c.skip lineGrammar.isSpace) a = r, g (d.skip lineGrammar.isSpace) b = s at first
    cases first with
    | fail a b => exact ⟨.start h.wider, rfl⟩
    | @done c' d' trees trees' a b abreast same =>
      have shorter := (abreast.less rfl)
      have skipped := (Abreast.start h.wider).skip
      have inside : Abreast n m false c' d' := h.skip.trans abreast
      have rest := ih fuel' a b inside (by have := skipped.left; omega)
        (by have := skipped.right; omega)
      dsimp only
      refine ⟨?_, ?_⟩
      · exact ((skipped.trans abreast).trans rest.1).relax
      · rw [List.map_append, List.map_append, same, rest.2]

/-- Phrases are read alike at places abreast, if they rank low or something has been taken. -/
def CallsAlike (bound n m : Nat) (call call' : PhraseName → LineReader) : Prop :=
  ∀ p fresh c d a b, Abreast n m fresh c d → fresh = false ∨ p.rank < bound →
    RepliesAlike c d false (call p c a) (call' p d b)

/-- An expression goes alike if the phrases in it do, with more fuel than characters. -/
theorem Peg.read_alike {bound n m limit limit' : Nat} {call call' : PhraseName → LineReader}
    (calls : CallsAlike bound n m call call') (enough : n < limit) (enough' : m < limit')
    {x : LineExpr} {fresh : Bool} (graded : LineExpr.graded bound fresh x = true) {c d : Cursor}
    (a b : Attempts Token PhraseName) (h : Abreast n m fresh c d) :
    RepliesAlike c d (!LineExpr.advances x) (x.read lineGrammar limit call c a)
      (x.read lineGrammar limit' call' d b) := by
  -- Whether the places are fresh changes along the expression: behind whatever takes a character
  -- they are not, so the induction is for both.
  induction x generalizing fresh c d a b with
  | text t =>
    have unmarked : ∀ c ∈ t, c ∉ gapMarks := fun c member => by
      simpa using List.all_eq_true.1 graded c member
    have scans := Pattern.scansAlike_text unmarked h.wider
    rw [Pattern.scan, Pattern.scan] at scans
    rw [read, read]
    cases here : Text.dropLead t c.rest with
    | none =>
      cases there : Text.dropLead t d.rest with
      | none => exact .fail a b
      | some ds => rw [here, there] at scans; cases scans
    | some cs =>
      cases there : Text.dropLead t d.rest with
      | none => rw [here, there] at scans; cases scans
      | some ds =>
        rw [here, there] at scans
        cases scans with
        | some _ rest =>
          exact .done a b (.after rest ((Text.dropLead_eq_some_iff _ _ _).1 here).symm
            ((Text.dropLead_eq_some_iff _ _ _).1 there).symm _ fun some => by
              simpa [LineExpr.advances] using some) rfl
  | absent p =>
    have avoids : p.Avoids (· ∈ gapMarks) := of_decide_eq_true graded
    rw [read, read, (Pattern.scansAlike avoids h.wider).isSome_eq]
    split
    · exact .fail a b
    · exact .done a b (.start h.wider) rfl
  | token t =>
    have scans : ScansAlike ((lineGrammar.pattern t).scan c.rest)
        ((lineGrammar.pattern t).scan d.rest) := t.scansAlike h.wider
    rw [read, read]
    generalize here : (lineGrammar.pattern t).scan c.rest = x,
      there : (lineGrammar.pattern t).scan d.rest = y at scans
    cases scans with
    | none => exact .fail _ _
    | some lexeme rest =>
      exact .done a b (.after rest (Pattern.scan_append here) (Pattern.scan_append there) _
        fun some => Pattern.ne_nil_of_advances some here) rfl
  | phrase p =>
    refine calls p fresh c d a b h ?_
    simpa [LineExpr.graded] using graded
  | seq x y ihx ihy =>
    obtain ⟨left, right⟩ := Bool.and_eq_true_iff.1 graded
    have first := ihx left a b h
    rw [read, read]
    generalize x.read lineGrammar limit call c a = r, x.read lineGrammar limit' call' d b = s
      at first
    cases first with
    | fail a b => exact .fail a b
    | @done c' d' trees trees' a b abreast same =>
      have second := ihy right a b (h.trans abreast).skip
      dsimp only
      generalize y.read lineGrammar limit call (c'.skip lineGrammar.isSpace) a = r,
        y.read lineGrammar limit' call' (d'.skip lineGrammar.isSpace) b = s at second
      cases second with
      | fail a b => exact .fail a b
      | done a b behind more =>
        refine .done a b ((abreast.skip.trans behind).weaken fun taken => ?_) ?_
        · simpa [LineExpr.advances] using taken
        · rw [List.map_append, List.map_append, same, more]
  | alt x y ihx ihy =>
    obtain ⟨left, right⟩ := Bool.and_eq_true_iff.1 graded
    have first := ihx left a b h
    rw [read, read]
    generalize x.read lineGrammar limit call c a = r, x.read lineGrammar limit' call' d b = s
      at first
    cases first with
    | fail a b =>
      refine (ihy right a b h).weaken fun taken => ?_
      simp_all [LineExpr.advances]
    | done a b abreast same =>
      refine .done a b (abreast.weaken fun taken => ?_) same
      simp_all [LineExpr.advances]
  | opt x ih =>
    have first := ih graded a b h
    rw [read, read]
    generalize x.read lineGrammar limit call c a = r, x.read lineGrammar limit' call' d b = s
      at first
    cases first with
    | fail a b => exact .done a b (.start h.wider) rfl
    | done a b abreast same => exact .done a b (abreast.relax) same
  | many x ih =>
    obtain ⟨advances, inner⟩ := Bool.and_eq_true_iff.1 graded
    have first := ih inner a b h
    rw [read, read]
    generalize x.read lineGrammar limit call c a = r, x.read lineGrammar limit' call' d b = s
      at first
    cases first with
    | fail a b => exact .done a b (.start h.wider) rfl
    | @done c' d' trees trees' a b abreast same =>
      rw [advances] at abreast
      -- The first item has taken a character, so the others are read at places that are not
      -- fresh, and there is more fuel than characters.
      have inside : Abreast n m false c' d' := by simpa using h.trans abreast
      have item : ∀ c d a b, Abreast n m false c d → RepliesAlike c d false
          (x.read lineGrammar limit call c a) (x.read lineGrammar limit' call' d b) := by
        intro c d a b h
        have reply := ih (LineExpr.graded_false inner) a b h
        rwa [advances] at reply
      have more := readMany_alike item limit limit' a b inside
        ((inside.left).trans_lt enough) ((inside.right).trans_lt enough')
      dsimp only
      refine .done _ _ ((abreast.trans more.1).relax) ?_
      rw [List.map_append, List.map_append, same, more.2]

/-- Phrases are read alike with enough fuel for each line. -/
theorem Grammar.read_alike (fuel fuel' limit limit' : Nat) (p : PhraseName) {c d : Cursor}
    (a b : Attempts Token PhraseName) (h : Wider c.rest d.rest)
    (enough : phraseDepth * c.rest.length + p.rank < fuel)
    (enough' : phraseDepth * d.rest.length + p.rank < fuel') (within : c.rest.length < limit)
    (within' : d.rest.length < limit') :
    RepliesAlike c d false (lineGrammar.read limit fuel p c a)
      (lineGrammar.read limit' fuel' p d b) := by
  induction fuel generalizing fuel' p c d a b with
  | zero => exact absurd enough (Nat.not_lt_zero _)
  | succ fuel ih =>
    obtain ⟨fuel', rfl⟩ : ∃ k, fuel' = k + 1 := ⟨fuel' - 1, by omega⟩
    obtain ⟨advances, graded⟩ := LineGrammar.graded_body p
    -- one step less is enough for a phrase further on, and for a lower one at the same place
    have calls : CallsAlike p.rank c.rest.length d.rest.length (lineGrammar.read limit fuel)
        (lineGrammar.read limit' fuel') := by
      intro q fresh c' d' a b abreast lower
      have deep := q.rank_lt
      have left := abreast.left
      have right := abreast.right
      refine ih fuel' q a b abreast.wider ?_ ?_ (left.trans_lt within) (right.trans_lt within')
      · rcases lower with taken | lower
        · have less := (abreast.less taken).1
          unfold phraseDepth at enough deep ⊢
          omega
        · unfold phraseDepth at enough ⊢
          omega
      · rcases lower with taken | lower
        · have less := (abreast.less taken).2
          unfold phraseDepth at enough' deep ⊢
          omega
        · unfold phraseDepth at enough' ⊢
          omega
    have inner : RepliesAlike c d (!LineExpr.advances (LineGrammar.body p))
        ((lineGrammar.body p).read lineGrammar limit (lineGrammar.read limit fuel) c a)
        ((lineGrammar.body p).read lineGrammar limit' (lineGrammar.read limit' fuel') d b) :=
      Peg.read_alike calls within within' graded a b (.start h)
    rw [advances] at inner
    rw [read, read]
    generalize (lineGrammar.body p).read lineGrammar limit (lineGrammar.read limit fuel) c a = r,
      (lineGrammar.body p).read lineGrammar limit' (lineGrammar.read limit' fuel') d b = s at inner
    cases inner with
    | fail a b => exact .fail _ _
    | done a b abreast same =>
      refine .done a b abreast ?_
      rw [List.map_singleton, List.map_singleton, ParseTree.move, ParseTree.move,
        ParseTree.moveAll_eq, ParseTree.moveAll_eq, same]
      rfl

/-- A line and the wider line are read alike. -/
theorem readLine_alike {text text' : List Char} (h : Wider text text') (offset offset' : Nat) :
    RepliesAlike ⟨text, offset⟩ ⟨text', offset'⟩ false (readLine text offset)
      (readLine text' offset') := by
  have enough (n : Nat) : phraseDepth * n + PhraseName.line.rank < phraseDepth * (n + 1) :=
    Nat.add_lt_add_left PhraseName.line.rank_lt _
  exact Grammar.read_alike _ _ _ _ .line _ _ h (enough _) (enough _) (Nat.lt_succ_self _)
    (Nat.lt_succ_self _)

/-! ## Agreement -/

/-- Two computations agree: both fail, or what they give is related. -/
inductive Agrees {α β : Type} (r : α → β → Prop) : Except Fault α → Except Fault β → Prop
  | error (d e : Fault) : Agrees r (.error d) (.error e)
  | ok {a : α} {b : β} : r a b → Agrees r (.ok a) (.ok b)

namespace Agrees

variable {α β γ δ : Type} {r : α → β → Prop} {q : γ → δ → Prop} {x : Except Fault α}
  {y : Except Fault β}

/-- Computations in sequence agree if each step does. -/
theorem bind (first : Agrees r x y) {k : α → Except Fault γ} {k' : β → Except Fault δ}
    (next : ∀ a b, r a b → Agrees q (k a) (k' b)) : Agrees q (x >>= k) (y >>= k') := by
  cases first with
  | error d e => exact .error d e
  | ok related => exact next _ _ related

/-- What is made of related results is related. -/
theorem map (first : Agrees r x y) {k : α → γ} {k' : β → δ}
    (next : ∀ a b, r a b → q (k a) (k' b)) : Agrees q (x.map k) (y.map k') := by
  cases first with
  | error d e => exact .error d e
  | ok related => exact .ok (next _ _ related)

/-- What looks the same in one view is mapped to what looks the same in another view. -/
theorem of_mapped {p : γ → γ} {g : α → α} {k : γ → Except Fault α}
    (mapped : ∀ c, Mapped g (k c) (k (p c))) {c d : γ} (same : p c = p d) :
    Agrees (InvImage Eq g) (k c) (k d) := by
  have here := mapped c
  have there := mapped d
  rw [← same] at there
  generalize k c = x, k d = y, k (p c) = z at here there
  match x, y, z with
  | .ok a, .ok b, .ok c => exact .ok (here.symm.trans there)
  | .error d, .error e, _ => exact .error d e
  | .ok _, .error _, .ok _ | .error _, .ok _, .error _ => exact there.elim
  | .ok _, .error _, .error _ | .error _, .ok _, .ok _ => exact here.elim

end Agrees

/-! ## Programs of alike lines -/

/-- Two lines are alike: they are indented alike, and their texts differ in gaps. -/
structure LogicalLine.Alike (line line' : LogicalLine) : Prop where
  indent : line.indent = line'.indent
  wider : Wider line.text line'.text

/-- Lines whose readings go alike have the same content, apart from places. -/
theorem agrees_replyContent {c d : Cursor} {fresh : Bool} {r s : Reply Token PhraseName}
    (h : RepliesAlike c d fresh r s) :
    Agrees (InvImage Eq (LineContent.move nowhere)) (replyContent r) (replyContent s) := by
  cases h with
  | fail a b => exact .error _ _
  | @done c' d' trees trees' a b _ same =>
    match trees, trees' with
    | [tree], [tree'] =>
      exact Agrees.of_mapped (mapped_lineContentOf monotone_nowhere) (List.singleton_inj.1 same).symm
    | [], [] | _ :: _ :: _, _ :: _ :: _ => exact .error _ _
    | [], _ :: _ | _ :: _, [] | [_], _ :: _ :: _ | _ :: _ :: _, [_] => simp at same

/-- Alike lines are parsed alike. -/
theorem agrees_parseLine {line line' : LogicalLine} (h : line.Alike line') :
    Agrees (InvImage Eq (ParsedLine.move nowhere)) (parseLine line) (parseLine line') := by
  refine (agrees_replyContent (readLine_alike h.wider line.start line'.start)).map ?_
  intro content content' (same : content.move nowhere = content'.move nowhere)
  show ParsedLine.mk _ _ (content.move nowhere) = ParsedLine.mk _ _ (content'.move nowhere)
  rw [same, h.indent]
  rfl

/-- Lines in a row that are alike are parsed alike. -/
theorem agrees_mapM_parseLine {lines lines' : List LogicalLine}
    (h : List.Forall₂ LogicalLine.Alike lines lines') :
    Agrees (InvImage Eq (List.map (ParsedLine.move nowhere))) (lines.mapM parseLine)
      (lines'.mapM parseLine) := by
  induction h with
  | nil => exact .ok rfl
  | cons first _ ih =>
    rw [List.mapM_cons, List.mapM_cons]
    exact (agrees_parseLine first).bind fun p q same => ih.bind fun ps qs others =>
      .ok (List.cons_eq_cons.2 ⟨same, others⟩)

/-- What is assembled is the same but for places, if the lines are. -/
theorem agrees_assemble {lines lines' : List ParsedLine}
    (same : lines.map (ParsedLine.move nowhere) = lines'.map (ParsedLine.move nowhere)) :
    Agrees (InvImage Eq (List.map (Stmt.move nowhere))) (assemble lines) (assemble lines') := by
  have count : lines.length = lines'.length := by simpa using congrArg List.length same
  have start : Remaining.move nowhere ⟨lines, 0⟩ = Remaining.move nowhere ⟨lines', 0⟩ := by
    rw [Remaining.move, Remaining.move, same]
  have blocks := Agrees.of_mapped ((AssemblesMoved.all monotone_nowhere
    (assemblySteps * (lines.length + 1))).block 0) start
  rw [assemble, assemble, ← count]
  exact blocks.bind fun x y same => .ok (congrArg Prod.fst same)

end BlockEditor
