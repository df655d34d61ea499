import BlockEditor.Proofs.AppendedBlocks
import BlockEditor.Proofs.AppendedLines
import BlockEditor.Proofs.LineEnds
import BlockEditor.Syntax.Parse

/-!
# Appended sources

Nothing that is read from a source waits for what a line feed behind it would bring: no bracket, no
string, no backslash and no statement.  So the program of two sources with a line feed between them
is the program of the first one, and behind it that of the second one, moved behind the line feed.
-/

namespace BlockEditor

open Text

/-! ## Texts -/

/-- What a text that is not blank is read as. -/
theorem parseText_eq_ok_iff {text : List Char} (shown : ∃ c ∈ text, isBlank c = false)
    {m : Module} : parseText text = .ok m ↔ ∃ lines parsed, logicalLines text = .ok lines ∧
      lines.mapM parseLine = .ok parsed ∧ assemble parsed = .ok m.body := by
  have visible : isBlankText text = false := by
    obtain ⟨c, member, visible⟩ := shown
    exact List.all_eq_false.2 ⟨c, member, by simp [visible]⟩
  rw [parseText, visible]
  constructor
  · intro done
    cases laid : logicalLines text with
    | error fault => rw [laid] at done; cases done
    | ok lines =>
      cases read : lines.mapM parseLine with
      | error fault => simp [laid, read, bind, Except.bind] at done
      | ok parsed =>
        cases assembled : assemble parsed with
        | error fault => simp [laid, read, assembled, bind, Except.bind] at done
        | ok body =>
          simp [laid, read, assembled, bind, Except.bind] at done
          exact ⟨lines, parsed, rfl, read, by rw [assembled, ← done]⟩
  · rintro ⟨lines, parsed, laid, read, assembled⟩
    simp [laid, read, assembled, bind, Except.bind]

/-- Lines that are read one by one. -/
theorem parseLine_of_mem {lines : List LogicalLine} {parsed : List ParsedLine}
    (read : lines.mapM parseLine = .ok parsed) {line : LogicalLine} (member : line ∈ lines) :
    ∃ p, parseLine line = .ok p := by
  induction lines generalizing parsed with
  | nil => cases member
  | cons first lines ih =>
    rw [List.mapM_cons] at read
    cases here : parseLine first with
    | error fault => rw [here] at read; cases read
    | ok p =>
      cases others : lines.mapM parseLine with
      | error fault => rw [here, others] at read; cases read
      | ok ps =>
        rcases List.mem_cons.1 member with rfl | member
        · exact ⟨p, here⟩
        · exact ih others member

/-- The program of two texts with a line feed between them. -/
theorem parseText_append {a b : List Char} {m n : Module}
    (shownA : ∃ c ∈ a, isBlank c = false) (shownB : ∃ c ∈ b, isBlank c = false)
    (first : parseText a = .ok m) (second : parseText b = .ok n) :
    parseText (a ++ '\n' :: b) =
      .ok ⟨m.body ++ (n.move (· + (byteLength a + 1))).body⟩ := by
  obtain ⟨lines, parsed, laid, read, assembled⟩ := (parseText_eq_ok_iff shownA).1 first
  obtain ⟨more, parsed', laid', read', assembled'⟩ := (parseText_eq_ok_iff shownB).1 second
  have shown : ∃ c ∈ a ++ '\n' :: b, isBlank c = false :=
    shownA.imp fun c h => ⟨List.mem_append_left _ h.1, h.2⟩
  have plain : ∀ line ∈ lines, line.text.getLast? ≠ some '\\' := by
    intro line member
    obtain ⟨p, done⟩ := parseLine_of_mem read member
    exact getLast?_ne_backslash_of_parseLine done
  have moved := (Mapped.mapM (k := parseLine) fun line (_ : line ∈ more) =>
    mapped_parseLine (byteLength a + 1) line).of_ok read'
  refine (parseText_eq_ok_iff shown).2 ⟨_, _, logicalLines_append laid laid' plain, ?_,
    assemble_append assembled (assemble_move ?_ assembled')⟩
  · rw [List.mapM_append, read, moved]
    rfl
  · exact fun i j le => Nat.add_le_add_right le _

/-! ## Sources -/

/-- A source whose text is that of two sources with a line feed between them. -/
def Source.appended (name : String) (s t : Source) : Source :=
  ⟨name, s.content ++ "\n" ++ t.content⟩

/-- A source is parsed as its text is. -/
theorem Source.parse_eq_ok_iff {s : Source} {m : Module} :
    s.parse = .ok m ↔ parseText s.content.toList = .ok m := by
  unfold parse reportAs
  cases parseText s.content.toList <;> simp [Except.mapError]

/-- Two sources that are not blank and that parse also parse with a line feed between them.  The
program is that of the first one, and behind it that of the second one with all its spans moved
behind the line feed. -/
theorem Source.parse_appended {s t : Source} {m n : Module}
    (shownS : ∃ c ∈ s.content.toList, isBlank c = false)
    (shownT : ∃ c ∈ t.content.toList, isBlank c = false) (first : s.parse = .ok m)
    (second : t.parse = .ok n) (name : String) : (appended name s t).parse =
      .ok ⟨m.body ++ (n.move (· + (s.content.utf8ByteSize + 1))).body⟩ := by
  have text : (appended name s t).content.toList =
      s.content.toList ++ '\n' :: t.content.toList := by
    simp [appended]
  rw [parse_eq_ok_iff] at first second ⊢
  rw [text, ← byteLength_eq_utf8ByteSize]
  exact parseText_append shownS shownT first second

/-- A branch that ends inside a comment, with a list over two lines. -/
def Source.branches : Source := ⟨Source.standardInput, "if a:\n  b = [1,\n  2] # \u00e9"⟩

/-- A loop with an `else` part. -/
def Source.loops : Source :=
  ⟨Source.standardInput, "for i in b:\n  print(i)\nelse:\n  pass\n"⟩

/-- The second program is moved by the 26 bytes of the first one and of the line feed. -/
theorem Source.parse_appended_branchAndLoop : ∃ m n, branches.parse = .ok m ∧
    loops.parse = .ok n ∧ m.body.map Stmt.span = [⟨0, 20⟩] ∧ n.body.map Stmt.span = [⟨0, 35⟩] ∧
      (n.move (· + 26)).body.map Stmt.span = [⟨26, 61⟩] ∧
      (appended standardInput branches loops).parse = .ok ⟨m.body ++ (n.move (· + 26)).body⟩ := by
  have here : branches.parse.toOption.map (fun m => m.body.map Stmt.span) = some [⟨0, 20⟩] := by
    decide +kernel
  have there : loops.parse.toOption.map (fun n =>
      (n.body.map Stmt.span, (n.move (· + 26)).body.map Stmt.span)) =
        some ([⟨0, 35⟩], [⟨26, 61⟩]) := by
    decide +kernel
  cases first : branches.parse with
  | error d =>
    rw [first] at here
    cases here
  | ok m =>
    cases second : loops.parse with
    | error d =>
      rw [second] at there
      cases there
    | ok n =>
      rw [first] at here
      rw [second] at there
      obtain ⟨before, behind⟩ := Prod.mk.inj (Option.some.inj there)
      exact ⟨m, n, rfl, rfl, Option.some.inj here, before, behind,
        parse_appended ⟨'i', by decide +kernel⟩ ⟨'f', by decide +kernel⟩ first second standardInput⟩

end BlockEditor
