import BlockEditor.Text.Bytes
import BlockEditor.Text.Identifier

/-!
# Patterns

What a single token may look like: ordered choice, sequence, option, greedy repetition and
negative lookahead over characters.  Scanning a pattern splits a text into the lexeme it matched
and the rest.
-/

namespace BlockEditor

/-- A set of characters that patterns refer to. -/
inductive CharClass where
  | any
  | digit
  | hexDigit
  | octDigit
  | binDigit
  | identifierStart
  | identifierContinue
  | oneOf (cs : List Char)
  deriving DecidableEq, Repr

/-- Whether a character belongs to a class. -/
def CharClass.holds (k : CharClass) (c : Char) : Bool :=
  match k with
  | any => true
  | digit => '0' ≤ c && c ≤ '9'
  | hexDigit => ('0' ≤ c && c ≤ '9') || ('a' ≤ c && c ≤ 'f') || ('A' ≤ c && c ≤ 'F')
  | octDigit => '0' ≤ c && c ≤ '7'
  | binDigit => c = '0' || c = '1'
  | identifierStart => Text.isIdentifierStart c
  | identifierContinue => Text.isIdentifierContinue c
  | oneOf cs => cs.contains c

/-- A pattern of characters. -/
inductive Pattern where
  | text (cs : List Char)
  | one (k : CharClass)
  | seq (p q : Pattern)
  | alt (p q : Pattern)
  | opt (p : Pattern)
  | many (p : Pattern)
  /-- Nothing, where the pattern does not match. -/
  | absent (p : Pattern)
  deriving DecidableEq, Repr

namespace Pattern

instance : Append Pattern := ⟨seq⟩

instance : OrElse Pattern := ⟨fun p q => alt p (q ())⟩

/-- A fixed text. -/
def lit (s : String) : Pattern := text s.toList

/-- At least one occurrence. -/
def many1 (p : Pattern) : Pattern := p ++ many p

/-- The first of several patterns that matches. -/
def firstOf : List Pattern → Pattern
  | [] => absent (text [])
  | [p] => p
  | p :: ps => alt p (firstOf ps)

/-- Repeats a scan as long as it succeeds, at most `fuel` times. -/
def scanMany (f : List Char → Option (List Char × List Char)) :
    Nat → List Char → List Char × List Char
  | 0, cs => ([], cs)
  | fuel + 1, cs =>
    match f cs with
    | none => ([], cs)
    | some (lexeme, rest) =>
      let (more, rest) := scanMany f fuel rest
      (lexeme ++ more, rest)

/-- The lexeme at the start of a text that a pattern matches, and the rest of the text. -/
def scan : Pattern → List Char → Option (List Char × List Char)
  | text t, cs => (Text.dropLead t cs).map fun rest => (t, rest)
  | one _, [] => none
  | one k, c :: cs => if k.holds c then some ([c], cs) else none
  | seq p q, cs =>
    match p.scan cs with
    | none => none
    | some (a, rest) =>
      match q.scan rest with
      | none => none
      | some (b, rest) => some (a ++ b, rest)
  | alt p q, cs => (p.scan cs).or (q.scan cs)
  | opt p, cs => (p.scan cs).or (some ([], cs))
  | many p, cs => some (scanMany p.scan cs.length cs)
  | absent p, cs => if (p.scan cs).isSome then none else some ([], cs)

/-- A repeated scan loses nothing of its text, if a single one does not. -/
theorem scanMany_append {f : List Char → Option (List Char × List Char)}
    (h : ∀ cs lexeme rest, f cs = some (lexeme, rest) → lexeme ++ rest = cs) (fuel : Nat)
    (cs : List Char) : (scanMany f fuel cs).1 ++ (scanMany f fuel cs).2 = cs := by
  induction fuel generalizing cs with
  | zero => rfl
  | succ fuel ih =>
    simp only [scanMany]
    split
    · rfl
    · rename_i lexeme rest e
      simp [ih rest, h cs lexeme rest e]

/-- The lexeme and the rest make up the text. -/
theorem scan_append {p : Pattern} {cs lexeme rest : List Char}
    (h : p.scan cs = some (lexeme, rest)) : lexeme ++ rest = cs := by
  induction p generalizing cs lexeme rest with
  | text t =>
    simp only [scan, Option.map_eq_some_iff, Prod.mk.injEq] at h
    obtain ⟨_, e, rfl, rfl⟩ := h
    exact ((Text.dropLead_eq_some_iff _ _ _).1 e).symm
  | one k =>
    cases cs with
    | nil => simp [scan] at h
    | cons c cs =>
      simp only [scan] at h
      split at h
      · simp only [Option.some.injEq, Prod.mk.injEq] at h
        simp [← h.1, ← h.2]
      · cases h
  | seq p q ihp ihq =>
    simp only [scan] at h
    split at h
    · cases h
    · rename_i a mid ea
      split at h
      · cases h
      · rename_i b rest' eb
        simp only [Option.some.injEq, Prod.mk.injEq] at h
        rw [← h.1, ← h.2, List.append_assoc, ihq eb, ihp ea]
  | alt p q ihp ihq =>
    simp only [scan, Option.or_eq_some_iff] at h
    rcases h with h | ⟨_, h⟩
    · exact ihp h
    · exact ihq h
  | opt p ih =>
    simp only [scan, Option.or_eq_some_iff, Option.some.injEq, Prod.mk.injEq] at h
    rcases h with h | ⟨_, rfl, rfl⟩
    · exact ih h
    · rfl
  | many p ih =>
    simp only [scan, Option.some.injEq] at h
    have := scanMany_append (fun _ _ _ => ih) cs.length cs
    rwa [h] at this
  | absent p _ =>
    simp only [scan] at h
    split at h
    · cases h
    · simp only [Option.some.injEq, Prod.mk.injEq] at h
      rw [← h.1, ← h.2]
      rfl

end Pattern

end BlockEditor
