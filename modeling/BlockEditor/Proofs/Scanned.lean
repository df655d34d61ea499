import BlockEditor.Proofs.Lexemes

/-!
# Scanned trees

Every token in a parse tree was scanned by its pattern, and what was scanned as an identifier is an
identifier as a whole.  A property of trees is shown once for tokens and once for phrases.
-/

namespace BlockEditor

/-! ## Scanned identifiers -/

/-- An ordered choice avoids what all its patterns avoid. -/
theorem Pattern.avoids_firstOf {stop : Char → Prop} {ps : List Pattern}
    (each : ∀ p ∈ ps, p.Avoids stop) : (firstOf ps).Avoids stop := by
  fun_induction firstOf ps with
  | case1 =>
    intro c member
    cases member
  | case2 p => exact each p (by simp)
  | case3 p ps _ ih => exact ⟨each p (by simp), ih fun q member => each q (by simp [member])⟩

/-- Reserved words are made of characters that an identifier goes on with. -/
theorem Word.continues_spelling (w : Word) :
    ∀ c ∈ w.spelling.toList, Text.isIdentifierContinue c = true := by
  have spellings : (all.all fun w => w.spelling.toList.all Text.isIdentifierContinue) = true := by
    decide +kernel
  exact List.all_eq_true.1 (List.all_eq_true.1 spellings w w.mem_all)

/-- Reserved words are made of identifier characters. -/
theorem avoids_reservedPattern :
    reservedPattern.Avoids (Text.isIdentifierContinue · = false) := by
  refine ⟨Pattern.avoids_firstOf ?_, fun c ends => ends⟩
  intro p member
  obtain ⟨w, -, rfl⟩ := List.mem_map.1 member
  intro c letter ends
  have continues := w.continues_spelling c letter
  rw [ends] at continues
  cases continues

/-- What is scanned as an identifier is one as a whole. -/
theorem isIdentifier_of_scan {cs lexeme rest : List Char}
    (h : identifierPattern.scan cs = some (lexeme, rest)) : IsIdentifier lexeme := by
  have whole : lexeme ++ rest = cs := Pattern.scan_append h
  change (((Pattern.absent reservedPattern).seq (.one .identifierStart <|> .lit "_")).seq
    (Pattern.many (.one .identifierContinue))).scan cs = _ at h
  rw [Pattern.scan_seq, Pattern.scan_seq, Pattern.scan] at h
  cases reserved : reservedPattern.scan cs with
  | some x =>
    rw [reserved] at h
    cases h
  | none =>
    rw [reserved] at h
    cases cs with
    | nil => cases h
    | cons c tail =>
      simp only [Option.isSome_none, Bool.false_eq_true, if_false, scan_identifierStart] at h
      by_cases start : Text.isIdentifierStart c ∨ c = '_'
      · simp only [if_pos start, scan_many_one, Option.some.injEq, Prod.mk.injEq] at h
        obtain ⟨taken, left⟩ := h
        -- The lexeme ends where no letter of a word follows, so what is no reserved word in front
        -- of the rest is none on its own.
        have ends : ∀ d ∈ rest.head?, Text.isIdentifierContinue d = false := by
          intro d head
          have refused := List.head?_dropWhile_not CharClass.identifierContinue.holds tail
          rw [left, Option.mem_def.1 head] at refused
          exact refused
        rw [← whole, Pattern.scan_append_of_avoids avoids_reservedPattern ends,
          Option.map_eq_none_iff] at reserved
        refine (isIdentifier_iff lexeme).2 ⟨reserved, c, _, taken.symm, start, ?_⟩
        exact List.all_takeWhile
      · simp only [if_neg start] at h
        cases h

/-! ## Properties of trees -/

variable {τ φ : Type} {g : Grammar τ φ}

/-- The trees of a reply have a property. -/
def Reply.All (P : ParseTree τ φ → Prop) : Reply τ φ → Prop
  | .fail _ => True
  | .done _ trees _ => ∀ tree ∈ trees, P tree

/-- The trees of a repetition have a property that those of its item have. -/
theorem readMany_all {P : ParseTree τ φ → Prop} {isSpace : Char → Bool}
    {f : Cursor → Attempts τ φ → Reply τ φ} (item : ∀ c a, (f c a).All P) (fuel : Nat) (c : Cursor)
    (a : Attempts τ φ) : ∀ tree ∈ (readMany isSpace f fuel c a).2.1, P tree := by
  induction fuel generalizing c a with
  | zero => exact List.forall_mem_nil _
  | succ fuel ih =>
    have first := item (c.skip isSpace) a
    rw [readMany]
    cases e : f (c.skip isSpace) a with
    | fail a => exact List.forall_mem_nil _
    | done c trees a =>
      rw [e] at first
      exact List.forall_mem_append.2 ⟨first, ih c a⟩

/-- An expression is read as trees with a property, if it holds of scanned tokens and of phrases. -/
theorem Peg.read_all {P : ParseTree τ φ → Prop}
    (tokens : ∀ t span cs lexeme rest, (g.pattern t).scan cs = some (lexeme, rest) →
      P (.token t span lexeme))
    {limit : Nat} {call : φ → Cursor → Attempts τ φ → Reply τ φ}
    (phrases : ∀ p c a, (call p c a).All P) (x : Peg τ φ) (c : Cursor) (a : Attempts τ φ) :
    (x.read g limit call c a).All P := by
  induction x generalizing c a with
  | text t =>
    rw [read]
    split
    · exact List.forall_mem_nil _
    · trivial
  | absent p =>
    rw [read]
    split
    · trivial
    · exact List.forall_mem_nil _
  | token t =>
    rw [read]
    split
    · rename_i lexeme rest scanned
      exact List.forall_mem_singleton.2 (tokens _ _ _ _ _ scanned)
    · trivial
  | phrase p => exact phrases p c a
  | seq x y ihx ihy =>
    have first := ihx c a
    rw [read]
    cases e : x.read g limit call c a with
    | fail a => trivial
    | done c trees a =>
      rw [e] at first
      have second := ihy (c.skip g.isSpace) a
      dsimp only
      cases e : y.read g limit call (c.skip g.isSpace) a with
      | fail a => trivial
      | done c more a =>
        rw [e] at second
        exact List.forall_mem_append.2 ⟨first, second⟩
  | alt x y ihx ihy =>
    have first := ihx c a
    rw [read]
    cases e : x.read g limit call c a with
    | fail a => exact ihy c a
    | done c trees a =>
      rw [e] at first
      exact first
  | opt x ih =>
    have first := ih c a
    rw [read]
    cases e : x.read g limit call c a with
    | fail a => exact List.forall_mem_nil _
    | done c trees a =>
      rw [e] at first
      exact first
  | many x ih =>
    have first := ih c a
    rw [read]
    cases e : x.read g limit call c a with
    | fail a => exact List.forall_mem_nil _
    | done c trees a =>
      rw [e] at first
      exact List.forall_mem_append.2 ⟨first, readMany_all ih limit c a⟩

/-! ## Fruitful expressions -/

/-- Whether an expression yields at least one tree wherever it is read. -/
def Peg.fruitful : Peg τ φ → Bool
  | token _ | phrase _ => true
  | seq x y => x.fruitful || y.fruitful
  | alt x y => x.fruitful && y.fruitful
  | text _ | absent _ | opt _ | many _ => false

/-- A reply that has some tree, unless it failed. -/
def Reply.Fruitful : Reply τ φ → Prop
  | .fail _ => True
  | .done _ trees _ => trees ≠ []

/-- A fruitful expression yields a tree, if phrases do. -/
theorem Peg.read_fruitful {limit : Nat} {call : φ → Cursor → Attempts τ φ → Reply τ φ}
    (phrases : ∀ p c a, (call p c a).Fruitful) {x : Peg τ φ} (fruitful : x.fruitful = true) (c : Cursor)
    (a : Attempts τ φ) : (x.read g limit call c a).Fruitful := by
  induction x generalizing c a with
  | text | absent | opt | many => cases fruitful
  | token t =>
    rw [read]
    split
    · exact List.cons_ne_nil _ _
    · trivial
  | phrase p => exact phrases p c a
  | seq x y ihx ihy =>
    rw [read]
    cases e : x.read g limit call c a with
    | fail a => trivial
    | done c' trees a' =>
      dsimp only
      cases e' : y.read g limit call (c'.skip g.isSpace) a' with
      | fail a => trivial
      | done c'' more a'' =>
        rcases Bool.or_eq_true_iff.1 fruitful with fruitful | fruitful
        · have first := ihx fruitful c a
          rw [e] at first
          exact List.append_ne_nil_of_left_ne_nil first _
        · have second := ihy fruitful (c'.skip g.isSpace) a'
          rw [e'] at second
          exact List.append_ne_nil_of_right_ne_nil _ second
  | alt x y ihx ihy =>
    obtain ⟨left, right⟩ := Bool.and_eq_true_iff.1 fruitful
    have first := ihx left c a
    rw [read]
    cases e : x.read g limit call c a with
    | fail a => exact ihy right c a
    | done c trees a =>
      rw [e] at first
      exact first

/-- Every phrase yields a tree. -/
theorem Grammar.read_fruitful (g : Grammar τ φ) (limit fuel : Nat) (p : φ) (c : Cursor)
    (a : Attempts τ φ) : (g.read limit fuel p c a).Fruitful := by
  cases fuel with
  | zero => trivial
  | succ fuel =>
    rw [read]
    split
    · exact List.cons_ne_nil _ _
    · trivial

/-- A grammar reads trees with a property, if it holds of scanned tokens and is passed on from the
trees in a phrase, of which there is one if its expression yields one, to the phrase. -/
theorem Grammar.read_all {P : ParseTree τ φ → Prop}
    (tokens : ∀ t span cs lexeme rest, (g.pattern t).scan cs = some (lexeme, rest) →
      P (.token t span lexeme))
    (phrases : ∀ p span children, (∀ child ∈ children, P child) →
      ((g.body p).fruitful = true → children ≠ []) → P (.phrase p span children))
    (limit fuel : Nat) (p : φ) (c : Cursor) (a : Attempts τ φ) :
    (g.read limit fuel p c a).All P := by
  induction fuel generalizing p c a with
  | zero => trivial
  | succ fuel ih =>
    have body : ((g.body p).read g limit (g.read limit fuel) c a).All P :=
      (g.body p).read_all tokens ih c a
    have some : (g.body p).fruitful = true →
        ((g.body p).read g limit (g.read limit fuel) c a).Fruitful :=
      fun fruitful => Peg.read_fruitful (g.read_fruitful limit fuel) fruitful c a
    rw [read]
    cases e : (g.body p).read g limit (g.read limit fuel) c a with
    | fail a => trivial
    | done c trees a =>
      rw [e] at body some
      exact List.forall_mem_singleton.2 (phrases _ _ _ body some)

/-! ## Scanned trees -/

/-- Every token in a tree was scanned by its pattern. -/
inductive ParseTree.Scanned (g : Grammar τ φ) : ParseTree τ φ → Prop
  | token {t : τ} {span : Span} {cs lexeme rest : List Char} :
    (g.pattern t).scan cs = some (lexeme, rest) → Scanned g (.token t span lexeme)
  | phrase {p : φ} {span : Span} {children : List (ParseTree τ φ)} :
    (∀ child ∈ children, Scanned g child) → Scanned g (.phrase p span children)

/-- A grammar reads scanned trees. -/
theorem Grammar.read_scanned (g : Grammar τ φ) (limit fuel : Nat) (p : φ) (c : Cursor)
    (a : Attempts τ φ) : (g.read limit fuel p c a).All (ParseTree.Scanned g) :=
  g.read_all (fun _ _ _ _ _ scanned => .token scanned) (fun _ _ _ all _ => .phrase all) limit fuel p
    c a

end BlockEditor
