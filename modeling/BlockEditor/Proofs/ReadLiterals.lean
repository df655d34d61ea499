import BlockEditor.Proofs.LineEnds
import BlockEditor.Proofs.LiteralRegions
import BlockEditor.Proofs.Scanned
import BlockEditor.Proofs.WiderGaps

/-!
# String tokens of a line

The grammar goes through a line from literal to literal: only a string token takes a quote, and
where it takes one it takes the whole literal.  So the string tokens of a line that is read are the
literals that the layout pass found in it.
-/

namespace BlockEditor

open Text Lexeme

/-! ## String tokens -/

/-- Whether a character opens a string literal. -/
def isQuote (c : Char) : Bool := c = '"' || c = '\''

/-- A string token: its place, and its text with the letters in front. -/
structure StringToken where
  span : Span
  lexeme : List Char

/-- The literal of a string token, behind its letters. -/
def StringToken.literal (t : StringToken) : PlacedLiteral :=
  ⟨t.span.start + byteLength (t.lexeme.takeWhile fun c => !isQuote c),
    t.lexeme.dropWhile fun c => !isQuote c⟩

mutual

/-- The string tokens of a tree, in order. -/
def stringTokens : LineTree → List StringToken
  | .token t span lexeme => if t = .string then [⟨span, lexeme⟩] else []
  | .phrase _ _ children => stringTokensAll children

/-- The string tokens of trees, in order. -/
def stringTokensAll : List LineTree → List StringToken
  | [] => []
  | tree :: trees => stringTokens tree ++ stringTokensAll trees

end

/-- The string tokens of trees side by side stand side by side. -/
theorem stringTokensAll_append (trees more : List LineTree) :
    stringTokensAll (trees ++ more) = stringTokensAll trees ++ stringTokensAll more := by
  induction trees with
  | nil => rfl
  | cons tree trees ih => rw [List.cons_append, stringTokensAll, stringTokensAll, ih,
      List.append_assoc]

/-! ## Tokens without quotes -/

theorem isQuote_iff {c : Char} : isQuote c = true ↔ IsQuote c := by
  simp [isQuote, IsQuote]

/-- The marks of string literals. -/
def quoteMarks : List Char := ['"', '\'']

theorem mem_quoteMarks {c : Char} : c ∈ quoteMarks ↔ IsQuote c := by
  simp [quoteMarks, IsQuote]

/-- A repetition takes only characters that its item takes. -/
theorem Pattern.notMem_of_scanMany {stop : Char → Prop}
    {f : List Char → Option (List Char × List Char)}
    (item : ∀ cs lexeme rest, f cs = some (lexeme, rest) → ∀ c ∈ lexeme, ¬ stop c) (fuel : Nat)
    (cs : List Char) : ∀ c ∈ (scanMany f fuel cs).1, ¬ stop c := by
  induction fuel generalizing cs with
  | zero => exact List.forall_mem_nil _
  | succ fuel ih =>
    rw [scanMany]
    split
    · exact List.forall_mem_nil _
    · rename_i lexeme rest found
      exact List.forall_mem_append.mpr ⟨item _ _ _ found, ih rest⟩

/-- A pattern that avoids some characters takes none of them. -/
theorem Pattern.notMem_of_scan {stop : Char → Prop} {p : Pattern} (avoids : p.Avoids stop)
    {cs lexeme rest : List Char} (scanned : p.scan cs = some (lexeme, rest)) :
    ∀ c ∈ lexeme, ¬ stop c := by
  induction p generalizing cs lexeme rest with
  | text t =>
    rw [scan, Option.map_eq_some_iff] at scanned
    obtain ⟨_, -, same⟩ := scanned
    obtain ⟨rfl, -⟩ := Prod.mk.inj same
    exact avoids
  | one k =>
    cases cs with
    | nil => cases scanned
    | cons c cs =>
      rw [scan] at scanned
      split at scanned
      · rename_i holds
        cases scanned
        refine List.forall_mem_singleton.mpr fun stopped => ?_
        rw [avoids c stopped] at holds
        cases holds
      · cases scanned
  | seq p q ihp ihq =>
    rw [scan_seq] at scanned
    split at scanned
    · cases scanned
    · rename_i first
      split at scanned
      · cases scanned
      · rename_i second
        cases scanned
        exact List.forall_mem_append.mpr ⟨ihp avoids.1 first, ihq avoids.2 second⟩
  | alt p q ihp ihq =>
    rw [scan_alt, Option.or_eq_some_iff] at scanned
    rcases scanned with scanned | ⟨-, scanned⟩
    · exact ihp avoids.1 scanned
    · exact ihq avoids.2 scanned
  | opt p ih =>
    rw [scan_opt, Option.or_eq_some_iff] at scanned
    rcases scanned with scanned | ⟨-, scanned⟩
    · exact ih avoids scanned
    · cases scanned
      exact List.forall_mem_nil _
  | many p ih =>
    rw [scan] at scanned
    have none := @notMem_of_scanMany stop p.scan (fun _ _ _ => ih avoids) cs.length cs
    rw [Option.some.inj scanned] at none
    exact none
  | absent p =>
    rw [scan] at scanned
    split at scanned
    · cases scanned
    · cases scanned
      exact List.forall_mem_nil _

/-- Only string tokens hold quotes. -/
theorem Token.unquoted {t : Token} (noString : t ≠ .string) {cs lexeme rest : List Char}
    (scanned : t.pattern.scan cs = some (lexeme, rest)) : ∀ c ∈ lexeme, ¬ IsQuote c := by
  have ofAvoids (avoids : t.pattern.Avoids (· ∈ quoteMarks)) : ∀ c ∈ lexeme, ¬ IsQuote c :=
    fun c member quote => Pattern.notMem_of_scan avoids scanned c member (mem_quoteMarks.mpr quote)
  cases t with
  | word w =>
    have words : ∀ w ∈ Word.all, (wordPattern w).Avoids (· ∈ quoteMarks) := by decide +kernel
    exact ofAvoids (words w w.mem_all)
  | string => exact absurd rfl noString
  | endOfLine =>
    cases cs with
    | nil =>
      cases scanned
      exact List.forall_mem_nil _
    | cons c cs => cases scanned
  | _ => exact ofAvoids (by decide +kernel)

/-- What is scanned as a literal begins with a quote. -/
theorem isQuote_of_scan_quotes {c : Char} {cs lexeme rest : List Char}
    (scanned : quotesPattern.scan (c :: cs) = some (lexeme, rest)) : IsQuote c := by
  by_contra plain
  obtain ⟨double, single⟩ := not_or.mp plain
  rw [quotesPattern_eq] at scanned
  simp [Pattern.short, Pattern.long, Pattern.scan, dropLead, Ne.symm double, Ne.symm single]
    at scanned

/-- The literal of a string token is what stands behind its letters. -/
theorem StringToken.literal_eq {letters text : List Char} {quote : Char}
    (plain : ∀ c ∈ letters, ¬ IsQuote c) (formed : IsLiteral quote text) (start stop : Nat) :
    StringToken.literal ⟨⟨start, stop⟩, letters ++ text⟩ = ⟨start + byteLength letters, text⟩ := by
  have front : ∀ c ∈ letters, (!isQuote c) = true := by
    intro c member
    rw [Bool.not_eq_true', ← Bool.not_eq_true, isQuote_iff]
    exact plain c member
  have first : isQuote quote = true := isQuote_iff.mpr formed.isQuote
  obtain ⟨tail, rfl⟩ := formed.exists_cons
  rw [literal, List.takeWhile_append_of_pos front, List.dropWhile_append_of_pos front]
  simp [first]

/-- A string token takes its letters and then the whole literal behind them. -/
theorem literal_of_scan_string {offset : Nat} {cs lexeme rest : List Char} {ls : List PlacedLiteral}
    (segmented : Segmented offset cs ls) (scanned : stringPattern.scan cs = some (lexeme, rest))
    (stop : Nat) : ∃ more, ls = StringToken.literal ⟨⟨offset, stop⟩, lexeme⟩ :: more ∧
      Segmented (offset + byteLength lexeme) rest more := by
  change (Pattern.seq (.opt stringLetters) quotesPattern).scan cs = _ at scanned
  rw [Pattern.scan_seq] at scanned
  split at scanned
  · cases scanned
  · rename_i letters quoted first
    split at scanned
    · cases scanned
    · rename_i literal behind second
      cases scanned
      obtain rfl := Pattern.scan_append first
      -- The letters in front hold no quote, so the literal begins behind them.
      have avoids : (Pattern.opt stringLetters).Avoids (· ∈ quoteMarks) := by decide
      have plain : ∀ c ∈ letters, ¬ IsQuote c := fun c member quote =>
        Pattern.notMem_of_scan avoids first c member (mem_quoteMarks.mpr quote)
      have segmented := segmented.drop plain
      cases quoted with
      | nil => cases second
      | cons c tail =>
        obtain ⟨text, behind, more, whole, formed, parts, rfl, rest⟩ :=
          segmented.literal_of_quote (isQuote_of_scan_quotes second)
        rw [whole, formed.scan_quotes parts] at second
        cases second
        refine ⟨more, ?_, ?_⟩
        · rw [StringToken.literal_eq plain formed]
        · rwa [byteLength_append, ← Nat.add_assoc]

/-! ## What is read -/

/-- Reads a text literal by literal: the string tokens are the literals that are passed. -/
def ReadsLiterals (f : Cursor → Attempts Token PhraseName → Reply Token PhraseName) : Prop :=
  ∀ ⦃c a c' trees a' ls⦄, f c a = .done c' trees a' → Segmented c.offset c.rest ls →
    ∃ more, ls = (stringTokensAll trees).map StringToken.literal ++ more ∧
      Segmented c'.offset c'.rest more

/-- Blanks hold no literals. -/
theorem Segmented.skip {c : Cursor} {ls : List PlacedLiteral} (h : Segmented c.offset c.rest ls) :
    Segmented (c.skip lineGrammar.isSpace).offset (c.skip lineGrammar.isSpace).rest ls := by
  rw [← List.takeWhile_append_dropWhile (p := lineGrammar.isSpace) (l := c.rest)] at h
  refine h.drop fun d member quote => ?_
  have blank := List.all_eq_true.mp List.all_takeWhile d member
  rcases quote with rfl | rfl <;> cases blank

/-- A repetition reads literal by literal if its item does. -/
theorem readMany_literals {f : Cursor → Attempts Token PhraseName → Reply Token PhraseName}
    (item : ReadsLiterals f) (fuel : Nat) (c : Cursor) (a : Attempts Token PhraseName)
    {ls : List PlacedLiteral} (h : Segmented c.offset c.rest ls) :
    ∃ more, ls = (stringTokensAll (readMany lineGrammar.isSpace f fuel c a).2.1).map
        StringToken.literal ++ more ∧
      Segmented (readMany lineGrammar.isSpace f fuel c a).1.offset
        (readMany lineGrammar.isSpace f fuel c a).1.rest more := by
  induction fuel generalizing c a ls with
  | zero => exact ⟨ls, rfl, h⟩
  | succ fuel ih =>
    rw [readMany]
    split
    · exact ⟨ls, rfl, h⟩
    · rename_i c' trees a' here
      obtain ⟨more, rfl, rest⟩ := item here h.skip
      obtain ⟨left, rfl, behind⟩ := ih c' a' rest
      exact ⟨left, by rw [stringTokensAll_append, List.map_append, List.append_assoc], behind⟩

/-- Whether no fixed text of an expression holds a quote. -/
def Peg.unquoted : LineExpr → Bool
  | .text t => t.all fun c => !isQuote c
  | .absent _ | .token _ | .phrase _ => true
  | .seq x y | .alt x y => Peg.unquoted x && Peg.unquoted y
  | .opt x | .many x => Peg.unquoted x

/-- No fixed text of the grammar holds a quote. -/
theorem LineGrammar.unquoted (p : PhraseName) : Peg.unquoted (body p) = true := by
  cases p <;> rfl

/-- A phrase expression reads literal by literal, if phrases do. -/
theorem Peg.readsLiterals {limit : Nat}
    {call : PhraseName → Cursor → Attempts Token PhraseName → Reply Token PhraseName}
    (phrases : ∀ p, ReadsLiterals (call p)) (x : LineExpr) (plain : unquoted x = true) :
    ReadsLiterals (x.read lineGrammar limit call) := by
  induction x with
  | text t =>
    intro c a c' trees a' ls here h
    rw [read] at here
    split at here
    · rename_i rest taken
      cases here
      rw [(Text.dropLead_eq_some_iff _ _ _).mp taken] at h
      refine ⟨ls, rfl, h.drop fun d member quote => ?_⟩
      have noQuote := List.all_eq_true.mp plain d member
      rw [isQuote_iff.mpr quote] at noQuote
      cases noQuote
    · cases here
  | absent p =>
    intro c a c' trees a' ls here h
    rw [read] at here
    split at here
    · cases here
    · cases here
      exact ⟨ls, rfl, h⟩
  | token t =>
    intro c a c' trees a' ls here h
    rw [read] at here
    split at here
    · rename_i lexeme rest scanned
      cases here
      by_cases string : t = .string
      · subst string
        obtain ⟨more, rfl, behind⟩ :=
          literal_of_scan_string h scanned (c.offset + byteLength lexeme)
        exact ⟨more, rfl, behind⟩
      -- Any other token holds no quote, so that no literal begins in it.
      · have none :
            stringTokensAll [.token t ⟨c.offset, (c.after lexeme rest).offset⟩ lexeme] = [] := by
          simp [stringTokensAll, stringTokens, string]
        rw [← Pattern.scan_append scanned] at h
        exact ⟨ls, by rw [none]; rfl, h.drop (Token.unquoted string scanned)⟩
    · cases here
  | phrase p => exact phrases p
  | seq x y ihx ihy =>
    intro c a c' trees a' ls here h
    obtain ⟨plainX, plainY⟩ := Bool.and_eq_true_iff.mp plain
    rw [read] at here
    split at here
    · cases here
    · rename_i first
      split at here
      · cases here
      · rename_i second
        cases here
        -- The literals that the first part leaves are those that the second one reads.
        obtain ⟨more, rfl, between⟩ := ihx plainX first h
        obtain ⟨left, rfl, behind⟩ := ihy plainY second between.skip
        exact ⟨left, by rw [stringTokensAll_append, List.map_append, List.append_assoc], behind⟩
  | alt x y ihx ihy =>
    intro c a c' trees a' ls here h
    obtain ⟨plainX, plainY⟩ := Bool.and_eq_true_iff.mp plain
    rw [read] at here
    split at here
    · exact ihy plainY here h
    · exact ihx plainX here h
  | opt x ih =>
    intro c a c' trees a' ls here h
    rw [read] at here
    split at here
    · cases here
      exact ⟨ls, rfl, h⟩
    · exact ih plain here h
  | many x ih =>
    intro c a c' trees a' ls here h
    rw [read] at here
    split at here
    · cases here
      exact ⟨ls, rfl, h⟩
    · rename_i between items attempts first
      cases here
      obtain ⟨more, rfl, between⟩ := ih plain first h
      obtain ⟨left, rfl, behind⟩ := readMany_literals (ih plain) limit _ attempts between
      exact ⟨left, by rw [stringTokensAll_append, List.map_append, List.append_assoc], behind⟩

/-- Every phrase reads literal by literal, by induction on the depth. -/
theorem readsLiterals_lineGrammar (limit fuel : Nat) (p : PhraseName) :
    ReadsLiterals (lineGrammar.read limit fuel p) := by
  induction fuel generalizing p with
  | zero => exact fun _ _ _ _ _ _ here => nomatch here
  | succ fuel ih =>
    intro c a c' trees a' ls here h
    rw [Grammar.read] at here
    split at here
    · rename_i read
      cases here
      obtain ⟨more, rfl, behind⟩ := Peg.readsLiterals ih _ (LineGrammar.unquoted p) read h
      exact ⟨more, by simp [stringTokensAll, stringTokens], behind⟩
    · cases here

/-- The string tokens of a line that is read are the literals that it is cut at. -/
theorem stringTokens_of_readLine {line : LogicalLine} {c : Cursor} {trees : List LineTree}
    {a : Attempts Token PhraseName} {ls : List PlacedLiteral}
    (segmented : Segmented line.start line.text ls)
    (done : readLine line.text line.start = .done c trees a) :
    (stringTokensAll trees).map StringToken.literal = ls := by
  obtain ⟨more, rfl, rest⟩ := readsLiterals_lineGrammar _ _ _ done segmented
  rw [rest_eq_nil_of_read_line done] at rest
  rw [rest.eq_nil, List.append_nil]

/-! ## String constants -/

/-- A tree is a string token. -/
def IsStringToken (tree : LineTree) : Prop := ∃ span lexeme, tree = .token .string span lexeme

/-- A tree contains another one, if it is not that one itself. -/
inductive Contains (inner : LineTree) : LineTree → Prop
  | self : Contains inner inner
  | child {p : PhraseName} {span : Span} {children : List LineTree} {tree : LineTree} :
      tree ∈ children → Contains inner tree → Contains inner (.phrase p span children)

/-- Strings that stand side by side are string tokens, and there is one. -/
inductive StringsPlain : LineTree → Prop
  | token {t : Token} {span : Span} {lexeme : List Char} : StringsPlain (.token t span lexeme)
  | phrase {p : PhraseName} {span : Span} {children : List LineTree} :
      (p = .strings → children ≠ [] ∧ ∀ child ∈ children, IsStringToken child) →
      (∀ child ∈ children, StringsPlain child) → StringsPlain (.phrase p span children)

/-- The phrase of strings is read as string tokens. -/
theorem read_strings {limit : Nat}
    {call : PhraseName → Cursor → Attempts Token PhraseName → Reply Token PhraseName}
    (phrases : ∀ p c a, (call p c a).Fruitful) {c c' : Cursor} {a a' : Attempts Token PhraseName}
    {trees : List LineTree}
    (done : (LineGrammar.body .strings).read lineGrammar limit call c a = .done c' trees a') :
    trees ≠ [] ∧ ∀ tree ∈ trees, IsStringToken tree := by
  have token (c : Cursor) (a : Attempts Token PhraseName) :
      ((Peg.token Token.string).read lineGrammar limit call c a).All IsStringToken := by
    rw [Peg.read]
    split
    · exact List.forall_mem_singleton.mpr ⟨_, _, rfl⟩
    · trivial
  have tokens (c : Cursor) (a : Attempts Token PhraseName) :
      ((Peg.token Token.string).many.read lineGrammar limit call c a).All IsStringToken := by
    rw [Peg.read]
    split
    · exact List.forall_mem_nil _
    · rename_i c' items a' found
      have first := token c a
      rw [found] at first
      exact List.forall_mem_append.mpr ⟨first, readMany_all token limit c' a'⟩
  have all : ((LineGrammar.body .strings).read lineGrammar limit call c a).All IsStringToken := by
    change ((Peg.seq (Peg.token Token.string) (Peg.token Token.string).many).read _ _ _ _ _).All _
    have front := token c a
    rw [Peg.read]
    cases first : (Peg.token Token.string).read lineGrammar limit call c a with
    | fail b => trivial
    | done d items b =>
      have back := tokens (d.skip lineGrammar.isSpace) b
      rw [first] at front
      dsimp only
      cases others : (Peg.token Token.string).many.read lineGrammar limit call
          (d.skip lineGrammar.isSpace) b with
      | fail b => trivial
      | done d more b =>
        rw [others] at back
        exact List.forall_mem_append.mpr ⟨front, back⟩
  have some : ((LineGrammar.body .strings).read lineGrammar limit call c a).Fruitful :=
    Peg.read_fruitful phrases rfl c a
  rw [done] at all some
  exact ⟨some, all⟩

/-- The strings in every tree that is read are string tokens side by side. -/
theorem stringsPlain_lineGrammar (limit fuel : Nat) (p : PhraseName) (c : Cursor)
    (a : Attempts Token PhraseName) : (lineGrammar.read limit fuel p c a).All StringsPlain := by
  induction fuel generalizing p c a with
  | zero => trivial
  | succ fuel ih =>
    have body : ((lineGrammar.body p).read lineGrammar limit (lineGrammar.read limit fuel) c a).All
        StringsPlain := Peg.read_all (fun _ _ _ _ _ _ => .token) ih _ c a
    rw [Grammar.read]
    cases e : (lineGrammar.body p).read lineGrammar limit (lineGrammar.read limit fuel) c a with
    | fail a => trivial
    | done c' trees a' =>
      rw [e] at body
      refine List.forall_mem_singleton.mpr (.phrase ?_ body)
      rintro rfl
      exact read_strings (lineGrammar.read_fruitful limit fuel) e

/-- The string tokens of one of some trees stand side by side among those of all. -/
theorem stringTokens_within {tree : LineTree} {trees : List LineTree} (member : tree ∈ trees) :
    stringTokens tree <:+: stringTokensAll trees := by
  obtain ⟨front, back, rfl⟩ := List.append_of_mem member
  rw [stringTokensAll_append, stringTokensAll]
  exact ⟨stringTokensAll front, stringTokensAll back, by rw [List.append_assoc]⟩

/-- The string tokens of a tree stand side by side in the one that contains it. -/
theorem Contains.stringTokens_within {inner tree : LineTree} (h : Contains inner tree) :
    stringTokens inner <:+: stringTokens tree := by
  induction h with
  | self => exact List.infix_rfl
  | child member _ ih => exact ih.trans (BlockEditor.stringTokens_within member)

/-- A tree in a tree with plain strings has plain strings. -/
theorem Contains.stringsPlain {inner tree : LineTree} (h : Contains inner tree)
    (plain : StringsPlain tree) : StringsPlain inner := by
  induction h with
  | self => exact plain
  | child member _ ih =>
    cases plain with
    | phrase _ children => exact ih (children _ member)

/-- The lexemes of string tokens. -/
theorem lexemesOf_string {trees : List LineTree} (all : ∀ tree ∈ trees, IsStringToken tree) :
    lexemesOf .string trees = (stringTokensAll trees).map StringToken.lexeme := by
  induction trees with
  | nil => rfl
  | cons tree trees ih =>
    obtain ⟨⟨span, lexeme, rfl⟩, others⟩ := List.forall_mem_cons.mp all
    have rest := ih others
    rw [lexemesOf] at rest ⊢
    simp [stringTokensAll, stringTokens, rest]

/-- A string token between single quotes is cut at them. -/
theorem splitString_short {quote : Char} {lexeme body : List Char} (formed : ShortBody quote body)
    (opens : IsQuote quote)
    (quoted : lexeme.dropWhile (fun c => !isQuote c) = quote :: (body ++ [quote])) :
    (splitString lexeme).2 = body := by
  have quoted : lexeme.dropWhile (fun c => !(decide (c = '"') || decide (c = '\''))) =
    quote :: (body ++ [quote]) := quoted
  simp only [splitString, quoted]
  rcases body with _ | ⟨c, _ | ⟨d, body⟩⟩
  case cons.cons =>
    have first : quote ≠ c := by simpa using Ne.symm (formed.head?_ne opens)
    cases body <;> simp [first]
  all_goals simp

/-- A string token between triple quotes is cut at them. -/
theorem splitString_long {quote : Char} {lexeme body : List Char}
    (quoted : lexeme.dropWhile (fun c => !isQuote c) =
      quote :: quote :: quote :: (body ++ [quote, quote, quote])) :
    (splitString lexeme).2 = body := by
  have quoted : lexeme.dropWhile (fun c => !(decide (c = '"') || decide (c = '\''))) =
    quote :: quote :: quote :: (body ++ [quote, quote, quote]) := quoted
  simp only [splitString, quoted]
  cases body <;> simp

/-- What stands between the quotes of a literal. -/
theorem splitString_of_literal {quote : Char} {t : StringToken}
    (formed : IsLiteral quote t.literal.text) :
    ∃ marks, (marks = [quote] ∨ marks = [quote, quote, quote]) ∧
      t.literal.text = marks ++ (splitString t.lexeme).2 ++ marks := by
  generalize quoted : t.literal.text = text at formed
  cases formed with
  | short opens formed =>
    exact ⟨[quote], .inl rfl, by rw [splitString_short formed opens quoted]; rfl⟩
  | long _ _ => exact ⟨[quote, quote, quote], .inr rfl, by rw [splitString_long quoted]; rfl⟩

/-! ## Layout and grammar agree -/

/-- The string tokens of a line that is read, and the literals of its source. -/
structure StringsAgree (source : List Char) (line : LogicalLine) (trees : List LineTree) :
    Prop where
  /-- behind their letters, the string tokens are the literals that the layout pass found in the
  line -/
  literals : (stringTokensAll trees).map StringToken.literal =
    (literalsOf source).filter (·.beginsIn line)
  /-- each of them is a lexeme of its own, at its place in the source -/
  verbatim : ∀ t ∈ stringTokensAll trees, ∃ front back,
    split source = front ++ ⟨.string, t.literal.text⟩ :: back ∧
      t.literal.start = byteLength (textOf front) ∧
      source = textOf front ++ t.literal.text ++ textOf back
  /-- its body is what stands there between the quotes -/
  body : ∀ t ∈ stringTokensAll trees, ∃ quote marks, IsQuote quote ∧
    (marks = [quote] ∨ marks = [quote, quote, quote]) ∧
      t.literal.text = marks ++ (splitString t.lexeme).2 ++ marks
  /-- a string constant is made of such tokens that stand side by side -/
  constant : ∀ span children, (∃ tree ∈ trees, Contains (.phrase .strings span children) tree) →
    ∃ own, own ≠ [] ∧ own <:+: stringTokensAll trees ∧
      exprOf (.phrase .strings span children) = .ok (stringExpr span (own.map StringToken.lexeme))

/-- The layout pass and the grammar agree on what a string is: in every line of a source that the
grammar accepts, the string tokens are the literals that the layout pass found. -/
theorem stringsAgree_of_accepted {source : List Char} {lines : List LogicalLine} {line : LogicalLine}
    {c : Cursor} {trees : List LineTree} {a : Attempts Token PhraseName}
    (layout : logicalLines source = .ok lines) (member : line ∈ lines)
    (accepted : readLine line.text line.start = .done c trees a) :
    StringsAgree source line trees := by
  have same := stringTokens_of_readLine (segmented_of_logicalLines layout member) accepted
  -- Every token is a literal of the source, since the tokens of the line are the literals in it.
  have found (t : StringToken) (among : t ∈ stringTokensAll trees) : ∃ front back,
      split source = front ++ ⟨.string, t.literal.text⟩ :: back ∧
        t.literal.start = byteLength (textOf front) := by
    have literal : t.literal ∈ literalsOf source :=
      List.mem_of_mem_filter (same ▸ List.mem_map_of_mem among)
    obtain ⟨front, back, whole, start⟩ := exists_of_mem_literals literal
    exact ⟨front, back, whole, by rw [start, Nat.zero_add]⟩
  refine ⟨same, fun t among => ?_, fun t among => ?_, fun span children held => ?_⟩
  · obtain ⟨front, back, whole, start⟩ := found t among
    refine ⟨front, back, whole, start, ?_⟩
    rw [← textOf_split source, whole, textOf_append, textOf_cons, List.append_assoc]
  · obtain ⟨front, back, whole, -⟩ := found t among
    obtain ⟨quote, formed, -⟩ := literal_of_split (split_behind whole)
    obtain ⟨marks, form, cut⟩ := splitString_of_literal formed
    exact ⟨quote, marks, formed.isQuote, form, cut⟩
  · obtain ⟨tree, member, contains⟩ := held
    have plain : ∀ tree ∈ trees, StringsPlain tree := by
      have all := stringsPlain_lineGrammar (line.text.length + 1)
        (phraseDepth * (line.text.length + 1)) .line ⟨line.text, line.start⟩ ⟨line.start, []⟩
      rw [readLine] at accepted
      rw [accepted] at all
      exact all
    cases contains.stringsPlain (plain tree member) with
    | phrase strings _ =>
      obtain ⟨some, tokens⟩ := strings rfl
      refine ⟨stringTokensAll children, ?_, ?_, ?_⟩
      · obtain ⟨child, others, rfl⟩ := List.exists_cons_of_ne_nil some
        obtain ⟨span, lexeme, rfl⟩ := tokens child List.mem_cons_self
        exact List.cons_ne_nil _ _
      · exact contains.stringTokens_within.trans (stringTokens_within member)
      · rw [exprOf, lexemesOf_string tokens]

/-- A call over two lines: a literal that holds a comment and a bracket, a raw one with a quote in it
next to an empty one, and a comment with a quote and a bracket. -/
def quotedCall : List Char := "f('#(', r\"a\\\"\" '',  # 'no)\n)\n".toList

/-- The tokens of the sample are its literals, the empty one included, and nothing in the comment is
one. -/
theorem stringsAgree_quotedCall : ∃ line c trees a, logicalLines quotedCall = .ok [line] ∧
    readLine line.text line.start = .done c trees a ∧ StringsAgree quotedCall line trees ∧
      literalsOf quotedCall = [⟨2, "'#('".toList⟩, ⟨9, "\"a\\\"\"".toList⟩, ⟨15, "''".toList⟩] := by
  have lines : logicalLines quotedCall = .ok [⟨0, 0, "f('#(', r\"a\\\"\" '',         )".toList⟩] := by
    decide +kernel
  have read : ∃ c trees a, readLine "f('#(', r\"a\\\"\" '',         )".toList 0 = .done c trees a := by
    have done : (match readLine "f('#(', r\"a\\\"\" '',         )".toList 0 with
        | .done .. => true
        | .fail _ => false) = true := by decide +kernel
    cases reply : readLine "f('#(', r\"a\\\"\" '',         )".toList 0 with
    | done c trees a => exact ⟨c, trees, a, rfl⟩
    | fail a =>
      rw [reply] at done
      cases done
  obtain ⟨c, trees, a, accepted⟩ := read
  exact ⟨_, c, trees, a, lines, accepted, stringsAgree_of_accepted lines List.mem_cons_self accepted,
    by decide +kernel⟩

end BlockEditor
