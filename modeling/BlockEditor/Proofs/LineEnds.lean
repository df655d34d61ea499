import BlockEditor.Proofs.TreePlaces
import BlockEditor.Syntax.Line

/-!
# Ends of lines

The grammar reads a line up to its end, and nothing that it reads ends with a backslash.  So no line
that is read ends with one.
-/

namespace BlockEditor

open Text

/-- No token ends with a backslash. -/
theorem Token.endsWithout_backslash (t : Token) : t.pattern.endsWithout '\\' = true := by
  have words : ∀ w ∈ Word.all, (wordPattern w).endsWithout '\\' = true := by decide +kernel
  cases t with
  | word w => exact words w w.mem_all
  | _ => rfl

/-- No phrase does. -/
theorem LineGrammar.endsWithout_backslash (p : PhraseName) : (body p).endsWithout '\\' = true := by
  cases p <;> rfl

/-! ## What is read -/

/-- A text stands between two places, and does not end with a backslash. -/
def Cursor.Passes (c c' : Cursor) : Prop :=
  ∃ taken, c.rest = taken ++ c'.rest ∧ ∀ d ∈ taken.getLast?, d ≠ '\\'

namespace Cursor.Passes

theorem refl (c : Cursor) : c.Passes c := ⟨[], rfl, nofun⟩

/-- What passes from place to place passes on. -/
theorem trans {c c' c'' : Cursor} (first : c.Passes c') (second : c'.Passes c'') :
    c.Passes c'' := by
  obtain ⟨a, here, front⟩ := first
  obtain ⟨b, there, back⟩ := second
  refine ⟨a ++ b, by rw [here, there, List.append_assoc], ?_⟩
  exact Pattern.getLast?_append_ne (fun _ => front) back

/-- Blanks are passed over. -/
theorem skip (c : Cursor) : c.Passes (c.skip lineGrammar.isSpace) := by
  refine ⟨_, List.takeWhile_append_dropWhile.symm, fun d last => ?_⟩
  have blank := List.all_eq_true.1 List.all_takeWhile d (List.mem_of_getLast? last)
  rintro rfl
  cases blank

end Cursor.Passes

/-- Reads a text that does not end with a backslash, wherever it begins. -/
def ReadsPlain (f : Cursor → Attempts Token PhraseName → Reply Token PhraseName) : Prop :=
  ∀ ⦃c a c' trees a'⦄, f c a = .done c' trees a' → c.Passes c'

/-- A repetition passes such texts if its item does. -/
theorem readMany_passes {f : Cursor → Attempts Token PhraseName → Reply Token PhraseName}
    (item : ReadsPlain f) (fuel : Nat) (c : Cursor) (a : Attempts Token PhraseName) :
    c.Passes (readMany lineGrammar.isSpace f fuel c a).1 := by
  induction fuel generalizing c a with
  | zero => exact .refl c
  | succ fuel ih =>
    rw [readMany]
    split
    · exact .refl c
    · rename_i c' trees a' here
      exact ((Cursor.Passes.skip c).trans (item here)).trans (ih c' a')

/-- A phrase expression reads such texts, if phrases do. -/
theorem Peg.readsPlain {limit : Nat}
    {call : PhraseName → Cursor → Attempts Token PhraseName → Reply Token PhraseName}
    (phrases : ∀ p, ReadsPlain (call p)) (x : LineExpr) (without : x.endsWithout '\\' = true) :
    ReadsPlain (x.read lineGrammar limit call) := by
  -- Only texts and tokens take characters; the other forms put together what their parts take.
  induction x with
  | text t =>
    intro c a c' trees a' here
    rw [read] at here
    split at here
    · rename_i rest taken
      cases here
      refine ⟨t, (Text.dropLead_eq_some_iff _ _ _).1 taken, fun d last => ?_⟩
      rintro rfl
      simp [endsWithout, Option.mem_def.1 last] at without
    · cases here
  | absent p =>
    intro c a c' trees a' here
    rw [read] at here
    split at here
    · cases here
    · cases here
      exact .refl c
  | token t =>
    intro c a c' trees a' here
    rw [read] at here
    split at here
    · rename_i lexeme rest scanned
      cases here
      exact ⟨lexeme, (Pattern.scan_append scanned).symm,
        Pattern.last_ne_of_endsWithout t.endsWithout_backslash scanned⟩
    · cases here
  | phrase p => exact phrases p
  | seq x y ihx ihy =>
    intro c a c' trees a' here
    obtain ⟨withoutX, withoutY⟩ := Bool.and_eq_true_iff.1 without
    rw [read] at here
    split at here
    · cases here
    · rename_i between _ _ first
      split at here
      · cases here
      · rename_i second
        cases here
        exact ((ihx withoutX first).trans (.skip between)).trans (ihy withoutY second)
  | alt x y ihx ihy =>
    intro c a c' trees a' here
    obtain ⟨withoutX, withoutY⟩ := Bool.and_eq_true_iff.1 without
    rw [read] at here
    split at here
    · exact ihy withoutY here
    · exact ihx withoutX here
  | opt x ih =>
    intro c a c' trees a' here
    rw [read] at here
    split at here
    · cases here
      exact .refl c
    · exact ih without here
  | many x ih =>
    intro c a c' trees a' here
    rw [read] at here
    split at here
    · cases here
      exact .refl c
    · rename_i first
      cases here
      exact (ih without first).trans (readMany_passes (ih without) limit _ _)

/-- Every phrase of the grammar reads texts that do not end with a backslash. -/
theorem readsPlain_lineGrammar (limit fuel : Nat) (p : PhraseName) :
    ReadsPlain (lineGrammar.read limit fuel p) := by
  induction fuel generalizing p with
  | zero => exact fun _ _ _ _ _ here => nomatch here
  | succ fuel ih =>
    intro c a c' trees a' here
    rw [Grammar.read] at here
    split at here
    · rename_i read
      cases here
      exact Peg.readsPlain ih _ (LineGrammar.endsWithout_backslash p) read
    · cases here

/-! ## Lines -/

/-- The end of a line is found only where nothing is left. -/
theorem rest_eq_nil_of_scan_endOfLine {cs lexeme rest : List Char}
    (scanned : Token.endOfLine.pattern.scan cs = some (lexeme, rest)) : rest = [] := by
  cases cs <;> cases scanned
  rfl

/-- A line is read up to its end. -/
theorem rest_eq_nil_of_read_line {limit fuel : Nat} {c c' : Cursor} {trees : List LineTree}
    {a a' : Attempts Token PhraseName}
    (done : lineGrammar.read limit fuel .line c a = .done c' trees a') : c'.rest = [] := by
  cases fuel with
  | zero => cases done
  | succ fuel =>
    rw [Grammar.read] at done
    split at done
    · rename_i body
      cases done
      change (Peg.seq _ (.token Token.endOfLine)).read _ _ _ _ _ = _ at body
      rw [Peg.read] at body
      split at body
      · cases body
      · split at body
        · cases body
        · rename_i last
          cases body
          rw [Peg.read] at last
          split at last
          · rename_i scanned
            cases last
            exact rest_eq_nil_of_scan_endOfLine scanned
          · cases last
    · cases done

/-- A line that is read does not end with a backslash. -/
theorem getLast?_ne_backslash_of_parseLine {line : LogicalLine} {parsed : ParsedLine}
    (done : parseLine line = .ok parsed) : line.text.getLast? ≠ some '\\' := by
  cases read : readLine line.text line.start with
  | fail a =>
    rw [parseLine, read] at done
    cases done
  | done c trees a =>
    obtain ⟨taken, whole, last⟩ := readsPlain_lineGrammar _ _ _ read
    rw [rest_eq_nil_of_read_line read, List.append_nil] at whole
    intro ends
    rw [show line.text = taken from whole] at ends
    exact last _ ends rfl

end BlockEditor
