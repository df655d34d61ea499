import BlockEditor.Proofs.Lexemes

/-!
# Values of number tokens

Digits denote a whole number, and digits with a point a decimal; the constants of their tokens are
the integer or double that they denote.
-/

namespace BlockEditor

open Number

/-! ## Whole numbers -/

/-- The constant of a whole number in a program. -/
def naturalConstant (n : Nat) : Constant :=
  match toInt64? n with
  | some w => .int w
  | none => .float (Decimal.toFloat ⟨n, 0⟩)

/-- A digit of the grammar is a decimal digit. -/
theorem isDigit_of_digit {c : Char} (digit : CharClass.digit.holds c = true) : c.isDigit = true := by
  simpa [CharClass.holds, Char.isDigit, Char.le_def] using digit

/-- The value of a digit is its distance from the digit zero. -/
theorem digitValue?_of_digit {c : Char} (digit : CharClass.digit.holds c = true) :
    digitValue? 10 c = some (c.toNat - 48) := by
  have bounds : '0' ≤ c ∧ c ≤ '9' := by simpa [CharClass.holds] using digit
  have below : c.toNat - 48 < 10 := by
    have high : c.toNat ≤ 57 := bounds.2
    omega
  simp [digitValue?, bounds, below]

namespace IsDigits

variable {ds : List Char} (h : IsDigits ds)

include h

/-- Digits denote a number. -/
theorem readDigits?_eq : Number.readDigits? 10 ds = some (Nat.ofDigitChars 10 ds 0) := by
  have run : ∀ (ds : List Char) (n : Nat), (∀ c ∈ ds, CharClass.digit.holds c = true) →
      readDigitsFrom? 10 n ds = some (Nat.ofDigitChars 10 ds n) := by
    intro ds
    induction ds with
    | nil => intro n _; rw [readDigitsFrom?, Nat.ofDigitChars_nil]
    | cons c ds ih =>
      intro n digits
      have value := digitValue?_of_digit (digits c (by simp))
      rw [readDigitsFrom?, value, Nat.ofDigitChars_cons]
      exact ih _ fun c member => digits c (by simp [member])
  unfold Number.readDigits?
  rw [if_neg (by simpa using h.nonempty), run ds 0 h.digits]

/-- Digits can be read. -/
theorem readDigits? : ∃ n, Number.readDigits? 10 ds = some n := ⟨_, h.readDigits?_eq⟩

/-- No underscore stands among digits. -/
theorem ne_underscore {c : Char} (member : c ∈ ds) : c ≠ '_' := by
  have digit := h.digits c member
  rintro rfl
  revert digit
  decide

/-- Digits have no underscores to be taken out. -/
theorem ungrouped_eq : ungrouped ds = ds := by
  rw [ungrouped, List.filter_eq_self]
  intro c member
  simpa using h.ne_underscore member

/-- Digits announce no other base. -/
theorem integerBase_eq : integerBase ds = (10, ds) := by
  match ds, h with
  | [], _ => rfl
  | [c], _ => simp [integerBase]
  | c :: d :: tail, h =>
    have digit := h.digits d (by simp)
    have other : ∀ letter, CharClass.digit.holds letter = false → d ≠ letter := by
      rintro letter noDigit rfl
      rw [digit] at noDigit
      cases noDigit
    by_cases zero : c = '0'
    · subst zero
      simp [integerBase, other 'x' (by decide), other 'X' (by decide), other 'o' (by decide),
        other 'O' (by decide), other 'b' (by decide), other 'B' (by decide)]
    · unfold integerBase
      split
      · rename_i e
        exact absurd (List.cons.inj e).1 zero
      · rfl

/-- The constant of digits is the number that they denote. -/
theorem integerConstant_eq {n : Nat} (reads : Number.readDigits? 10 ds = some n) (span : Span) :
    integerConstant span ds = .ok (naturalConstant n) := by
  rw [integerConstant, h.ungrouped_eq, h.integerBase_eq]
  simp only [reads]
  unfold naturalConstant
  cases toInt64? n <;> rfl

end IsDigits

/-! ## Decimals -/

/-- Digits side by side are digits. -/
theorem IsDigits.append {a b : List Char} (ha : IsDigits a) (hb : IsDigits b) : IsDigits (a ++ b) where
  nonempty := List.append_ne_nil_of_left_ne_nil ha.nonempty b
  digits := by
    intro c member
    rcases List.mem_append.1 member with member | member
    · exact ha.digits c member
    · exact hb.digits c member

/-- A decimal denotes its digits, scaled by the number of them behind the point. -/
theorem readDecimal?_point {whole fraction : List Char} (hw : IsDigits whole)
    (hf : IsDigits fraction) {n : Nat} (reads : readDigits? 10 (whole ++ fraction) = some n) :
    readDecimal? (whole ++ '.' :: fraction) = some ⟨n, -(fraction.length : Int)⟩ := by
  have before : ∀ c ∈ whole, c.isDigit = true := fun c member => isDigit_of_digit (hw.digits c member)
  have behind : ∀ c ∈ fraction, c.isDigit = true :=
    fun c member => isDigit_of_digit (hf.digits c member)
  have taken : (whole ++ '.' :: fraction).takeWhile Char.isDigit = whole := by
    rw [List.takeWhile_append_of_pos before, List.takeWhile_cons_of_neg (by decide),
      List.append_nil]
  have dropped : (whole ++ '.' :: fraction).dropWhile Char.isDigit = '.' :: fraction := by
    rw [List.dropWhile_append_of_pos before, List.dropWhile_cons_of_neg (by decide)]
  unfold readDecimal?
  simp only [taken, dropped, List.takeWhile_eq_self_iff.2 behind, List.dropWhile_eq_nil_iff.2 behind,
    reads, readExponent?]
  simp

namespace IsDecimal

variable {cs : List Char} (h : IsDecimal cs)

include h

/-- A decimal denotes a number. -/
theorem readDecimal? : ∃ d, Number.readDecimal? cs = some d := by
  obtain ⟨whole, fraction, hw, hf, rfl⟩ := h
  obtain ⟨n, reads⟩ := (hw.append hf).readDigits?
  exact ⟨_, readDecimal?_point hw hf reads⟩

/-- The constant of a decimal is the double nearest to it. -/
theorem floatConstant_eq {d : Decimal} (reads : Number.readDecimal? cs = some d) (span : Span) :
    floatConstant span cs = .ok (.float d.toFloat) := by
  have same : ungrouped cs = cs := by
    obtain ⟨whole, fraction, hw, hf, rfl⟩ := h
    rw [ungrouped, List.filter_eq_self]
    intro c member
    rcases List.mem_append.1 member with member | member
    · simpa using hw.ne_underscore member
    · rcases List.mem_cons.1 member with rfl | member
      · decide
      · simpa using hf.ne_underscore member
  rw [floatConstant, same, reads]

end IsDecimal

end BlockEditor
