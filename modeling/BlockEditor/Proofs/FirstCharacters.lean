import BlockEditor.Proofs.ReadRuns

/-!
# First characters

Most choices of the grammar are settled by a single character.  Whether an expression refuses every
text that begins with some character can be computed from its first tokens.
-/

namespace BlockEditor

open LineGrammar

/-! ## Patterns -/

namespace Pattern

/-- Whether a pattern refuses every text that begins with a character, as its first parts show. -/
def refuses (c : Char) : Pattern → Bool
  | text t => t.head?.any (· ≠ c)
  | one k => !k.holds c
  | seq (opt p) q | seq (many p) q => p.refuses c && q.refuses c
  | seq (absent _) q => q.refuses c
  | seq p _ => p.refuses c
  | alt p q => p.refuses c && q.refuses c
  | opt _ | many _ | absent _ => false

/-- A pattern that fails in its first part fails. -/
theorem scan_seq_none {p : Pattern} {cs : List Char} (refused : p.scan cs = none) (q : Pattern) :
    (seq p q).scan cs = none := by
  rw [scan_seq, refused]

/-- What takes nothing leaves all to the pattern behind it. -/
theorem scan_seq_nil {p q : Pattern} {cs : List Char} (nothing : p.scan cs = some ([], cs))
    (refused : q.scan cs = none) : (seq p q).scan cs = none := by
  rw [scan_seq, nothing]
  simp only [refused]

/-- A pattern that refuses a character scans no text that begins with it. -/
theorem scan_of_refuses {c : Char} {p : Pattern} (h : p.refuses c = true) (cs : List Char) :
    p.scan (c :: cs) = none := by
  fun_induction refuses c p with
  | case1 t =>
    cases t with
    | nil => cases h
    | cons d t =>
      have other : d ≠ c := by simpa using h
      rw [scan, Text.dropLead, if_neg other]
      rfl
  | case2 k =>
    have other : k.holds c = false := by simpa using h
    simp [scan, other]
  | case3 p q ihp ihq =>
    obtain ⟨first, second⟩ := Bool.and_eq_true_iff.1 h
    refine scan_seq_nil ?_ (ihq second)
    rw [scan_opt, ihp first]
    rfl
  | case4 p q ihp ihq =>
    obtain ⟨first, second⟩ := Bool.and_eq_true_iff.1 h
    exact scan_seq_nil (scan_many_none (ihp first)) (ihq second)
  | case5 p q ih =>
    -- whatever stands ahead, nothing is taken for it
    by_cases found : (p.scan (c :: cs)).isSome
    · exact scan_seq_none (by rw [scan, if_pos found]) q
    · exact scan_seq_nil (by rw [scan, if_neg found]) (ih h)
  | case6 p q _ _ _ ih => exact scan_seq_none (ih h) q
  | case7 p q ihp ihq =>
    obtain ⟨first, second⟩ := Bool.and_eq_true_iff.1 h
    rw [scan_alt, ihp first, ihq second]
    rfl
  | case8 | case9 | case10 => cases h

end Pattern

/-! ## Expressions -/

/-- Whether an expression refuses every text that begins with a character, as its first parts
show. -/
def Peg.refuses (call : PhraseName → Bool) (c : Char) : LineExpr → Bool
  | text t => t.head?.any (· ≠ c)
  | token t => t.pattern.refuses c
  | phrase p => call p
  | seq (opt x) y | seq (many x) y => x.refuses call c && y.refuses call c
  | seq x _ => x.refuses call c
  | alt x y => x.refuses call c && y.refuses call c
  | absent _ | opt _ | many _ => false

/-- Whether a phrase refuses every text that begins with a character, as the first parts of phrases
nested at most `depth` deep show. -/
def PhraseName.refuses (c : Char) : Nat → PhraseName → Bool
  | 0, _ => false
  | depth + 1, p => (body p).refuses (refuses c depth) c

/-- The phrases that begin an expression are not nested more deeply than this. -/
def startDepth : Nat := 8

/-- An expression of the line grammar refuses every text that begins with a character. -/
def LineExpr.Refuses (x : LineExpr) (c : Char) : Prop :=
  Peg.refuses (PhraseName.refuses c startDepth) c x = true

instance (x : LineExpr) (c : Char) : Decidable (x.Refuses c) := inferInstanceAs (Decidable (_ = _))

section Reading

variable {limit fuel : Nat} {c : Char} {x : LineExpr}

/-- An expression that refuses a visible character gives nothing in front of it, if the phrases in
it do. -/
theorem Peg.outcome_of_refuses (visible : lineGrammar.isSpace c = false) {call : PhraseName → Bool}
    {cs : List Char}
    (phrases : ∀ p, call p = true → LineExpr.outcome limit fuel (ref p) (c :: cs) = none)
    (h : x.refuses call c = true) : LineExpr.outcome limit fuel x (c :: cs) = none := by
  have start : skipBlanks (c :: cs) = c :: cs := by
    rw [skipBlanks, List.dropWhile_cons, visible]
    rfl
  fun_induction Peg.refuses call c x with
  | case1 t =>
    cases t with
    | nil => cases h
    | cons d t =>
      refine outcome_text_none fun d head => ?_
      cases head
      exact Ne.symm (by simpa using h)
  | case2 t =>
    rw [LineExpr.outcome, Peg.outcome, show (lineGrammar.pattern t).scan (c :: cs) = none from
      Pattern.scan_of_refuses h cs]
    rfl
  | case3 p => exact phrases p h
  | case4 x y ihx ihy =>
    obtain ⟨first, second⟩ := Bool.and_eq_true_iff.1 h
    have nothing : LineExpr.outcome limit fuel (.opt x) (c :: cs) = some (c :: cs, []) := by
      rw [outcome_opt, ihx first]
      rfl
    have both := outcome_seq (y := y) nothing
    rw [start, ihy second] at both
    exact both
  | case5 x y ihx ihy =>
    obtain ⟨first, second⟩ := Bool.and_eq_true_iff.1 h
    have both := outcome_seq (y := y) (outcome_many_none (ihx first))
    rw [start, ihy second] at both
    exact both
  | case6 x y _ _ ih => exact outcome_seq_none (ih h)
  | case7 x y ihx ihy =>
    obtain ⟨first, second⟩ := Bool.and_eq_true_iff.1 h
    have both : LineExpr.outcome limit fuel (x <|> y) (c :: cs) = _ := outcome_alt x y _
    rw [ihx first, ihy second] at both
    exact both
  | case8 | case9 | case10 => cases h

/-- So does a phrase, by induction on the depth that is looked into. -/
theorem outcome_ref_of_refuses (visible : lineGrammar.isSpace c = false) {depth : Nat}
    {p : PhraseName} (h : p.refuses c depth = true) (cs : List Char) :
    LineExpr.outcome limit fuel (ref p) (c :: cs) = none := by
  induction depth generalizing fuel p with
  | zero => cases h
  | succ depth ih => exact outcome_ref_none fun _ => Peg.outcome_of_refuses visible (fun _ => ih) h

/-- An expression that refuses a character gives nothing where it stands. -/
theorem LineExpr.Refuses.outcome (h : x.Refuses c) (visible : lineGrammar.isSpace c = false)
    (cs : List Char) : x.outcome limit fuel (c :: cs) = none :=
  Peg.outcome_of_refuses visible (fun _ refused => outcome_ref_of_refuses visible refused cs) h

/-- A choice that refuses a character gives way to the next one. -/
theorem outcome_alt_of_refuses (h : x.Refuses c) (visible : lineGrammar.isSpace c = false)
    (y : LineExpr) (cs : List Char) : LineExpr.outcome limit fuel (x <|> y) (c :: cs) =
      y.outcome limit fuel (c :: cs) := by
  rw [outcome_alt, h.outcome visible, Option.none_or]

end Reading

end BlockEditor
