import BlockEditor.Proofs.Layout
import BlockEditor.Proofs.MovedLines

/-!
# Lines of appended sources

A source that is laid out leaves no bracket and no string open, and a line feed behind it ends its
last line, unless a backslash joins the lines.  What stands behind the line feed is then laid out as
it is alone, only moved.
-/

namespace BlockEditor

open Text Lexeme

/-! ## Lexemes in front of a line feed -/

namespace Lexeme

/-- How a literal in single quotes is read at a character that is no backslash. -/
theorem shortString?_cons {quote c : Char} (plain : c ≠ '\\') (cs : List Char) :
    shortString? quote (c :: cs) =
      if c = '\n' ∨ c = '\\' then none
      else if c = quote then some ([c], cs)
      else (shortString? quote cs).map fun (body, rest) => (c :: body, rest) := by
  rw [shortString?]
  intro d rest
  rintro rfl
  exact absurd rfl plain

/-- A literal in single quotes ends where it did, whatever stands behind it. -/
theorem shortString?_append {quote : Char} {cs taken rest : List Char}
    (h : shortString? quote cs = some (taken, rest)) (t : List Char) :
    shortString? quote (cs ++ t) = some (taken, rest ++ t) := by
  fun_induction shortString? quote cs generalizing taken rest with
  | case1 => cases h
  | case2 c cs ih =>
    obtain ⟨⟨inner, behind⟩, found, e⟩ := Option.map_eq_some_iff.1 h
    cases e
    simp [shortString?, ih found]
  | case3 => cases h
  | case4 cs _ mark =>
    cases h
    rw [List.cons_append, shortString?_cons (not_or.1 mark).2, if_neg mark, if_pos rfl]
  | case5 c cs _ mark other ih =>
    obtain ⟨⟨inner, behind⟩, found, e⟩ := Option.map_eq_some_iff.1 h
    cases e
    rw [List.cons_append, shortString?_cons (not_or.1 mark).2, if_neg mark, if_neg other, ih found]
    rfl

theorem longString?_append {quote : Char} {cs taken rest : List Char}
    (h : longString? quote cs = some (taken, rest)) (t : List Char) :
    longString? quote (cs ++ t) = some (taken, rest ++ t) := by
  fun_induction longString? quote cs generalizing taken rest with
  | case1 => cases h
  | case2 c cs ih =>
    obtain ⟨⟨inner, behind⟩, found, e⟩ := Option.map_eq_some_iff.1 h
    cases e
    simp [longString?, ih found]
  | case3 c d e cs escape closes =>
    cases h
    simp only [List.cons_append]
    rw [longString?, if_pos closes]
    exact escape
  | case4 c d e cs escape opens ih =>
    obtain ⟨⟨inner, behind⟩, found, same⟩ := Option.map_eq_some_iff.1 h
    cases same
    have found := ih found
    simp only [List.cons_append] at found ⊢
    rw [longString?, if_neg opens, found]
    · rfl
    · exact escape
  | case5 c cs _ short ih =>
    -- fewer than three characters are left, so nothing can close the literal
    obtain ⟨whole, body, rfl, -⟩ := longString?_eq_some h
    rcases cs with _ | ⟨d, _ | ⟨e, cs⟩⟩
    case cons.cons => exact (short d e cs rfl).elim
    all_goals
      have size := congrArg List.length whole
      simp only [List.length_append, List.length_cons, List.length_nil] at size
      omega

/-- A lexeme is a string literal that never ends. -/
def Endless (lexeme : Lexeme) : Prop := ∃ quotes, lexeme.kind = .unterminated quotes

/-- A literal in single quotes in front of a text is the same as without it. -/
theorem short_append (quote c : Char) (cs t : List Char) :
    Endless (string.short quote (c :: cs)).1 ∨ string.short quote (c :: (cs ++ t)) =
      ((string.short quote (c :: cs)).1, (string.short quote (c :: cs)).2 ++ t) := by
  unfold string.short
  dsimp only
  cases found : shortString? quote cs with
  | none => exact .inl ⟨1, rfl⟩
  | some x =>
    rw [shortString?_append found]
    exact .inr rfl

/-- A string literal in front of a line feed is the same as without it. -/
theorem string_append {quote : Char} (isQuote : IsQuote quote) (c : Char) (cs b : List Char) :
    Endless (string quote (c :: cs)).1 ∨ string quote (c :: (cs ++ '\n' :: b)) =
      ((string quote (c :: cs)).1, (string quote (c :: cs)).2 ++ '\n' :: b) := by
  have noQuote : '\n' ≠ quote := by rcases isQuote with rfl | rfl <;> decide
  match cs with
  | d :: e :: rest =>
    simp only [List.cons_append, string]
    split
    · cases found : longString? quote rest with
      | none => exact .inl ⟨3, rfl⟩
      | some x =>
        rw [longString?_append found]
        exact .inr rfl
    · exact short_append quote c (d :: e :: rest) _
  | [] => exact .inl ⟨1, rfl⟩
  | [d] =>
    simp only [List.cons_append, List.nil_append, string, noQuote, and_false, if_false]
    exact short_append quote c [d] _

/-- A text is a backslash that a line feed behind it would join to the next line. -/
def JoinsLines (cs : List Char) : Prop := cs = ['\\'] ∨ cs = ['\\', '\r']

/-- A backslash in front of no line end is a lexeme of its own. -/
theorem next_backslash {cs : List Char} (inner : ¬ StartsLineEnd cs) :
    next '\\' cs = (⟨.other, ['\\']⟩, cs) := by
  simp only [next]
  split
  · exact absurd (.inl ⟨_, rfl⟩) inner
  · exact absurd (.inr ⟨_, rfl⟩) inner
  · rfl

/-- A line feed behind a text makes an end of line at its start only if little stands before it. -/
theorem startsLineEnd_append {cs b : List Char} (ends : StartsLineEnd (cs ++ '\n' :: b)) :
    StartsLineEnd cs ∨ cs = [] ∨ cs = ['\r'] := by
  match cs with
  | [] => exact .inr (.inl rfl)
  | [c] =>
    rcases ends with ends | ends
    · exact .inl (.inl (by simpa using ends))
    · exact .inr (.inr (by simpa [eq_comm] using ends))
  | c :: d :: cs =>
    rcases ends with ends | ends
    · exact .inl (.inl (by simpa using ends))
    · exact .inl (.inr (by simpa using ends))

/-- A backslash in front of a line feed. -/
theorem next_backslash_append (cs b : List Char) : JoinsLines ('\\' :: cs) ∨
    next '\\' (cs ++ '\n' :: b) = ((next '\\' cs).1, (next '\\' cs).2 ++ '\n' :: b) := by
  by_cases inner : StartsLineEnd cs
  · rcases inner with ⟨rest, rfl⟩ | ⟨rest, rfl⟩ <;> exact .inr rfl
  · by_cases ends : StartsLineEnd (cs ++ '\n' :: b)
    · rcases (startsLineEnd_append ends).resolve_left inner with rfl | rfl
      · exact .inl (.inl rfl)
      · exact .inl (.inr rfl)
    · rw [next_backslash inner, next_backslash ends]
      exact .inr rfl

/-- A lexeme in front of a line feed is the same as without it. -/
theorem next_append (c : Char) (cs b : List Char) : Endless (next c cs).1 ∨ JoinsLines (c :: cs) ∨
    next c (cs ++ '\n' :: b) = ((next c cs).1, (next c cs).2 ++ '\n' :: b) := by
  have plain (lexeme : Lexeme) : Endless lexeme ∨ JoinsLines (c :: cs) ∨
      (lexeme, cs ++ '\n' :: b) = (lexeme, cs ++ '\n' :: b) := .inr (.inr rfl)
  unfold next
  split
  · exact plain _
  · exact plain _
  · exact plain _
  · exact plain _
  · exact plain _
  -- A comment ends at its line feed, which may be the one that was appended.
  · refine .inr (.inr ?_)
    have taken : (cs ++ '\n' :: b).takeWhile (· ≠ '\n') = cs.takeWhile (· ≠ '\n') := by
      rw [List.takeWhile_append]
      split
      · rename_i whole
        rw [List.Sublist.eq_of_length (List.takeWhile_sublist _) whole]
        exact List.append_nil cs
      · rfl
    have left : (cs ++ '\n' :: b).dropWhile (· ≠ '\n') =
        cs.dropWhile (· ≠ '\n') ++ '\n' :: b := by
      rw [List.dropWhile_append]
      split
      · rename_i whole
        rw [List.isEmpty_iff.1 whole]
        rfl
      · rfl
    rw [taken, left]
  · exact .inr (next_backslash_append cs b)
  · exact (string_append (.inl rfl) _ cs b).imp_right .inr
  · exact (string_append (.inr rfl) _ cs b).imp_right .inr
  all_goals exact plain _

end Lexeme

/-! ## Taking a source in front of a line feed -/

/-- The line that is open, if there is one, ends with no backslash. -/
def LayoutState.EndsPlain (s : LayoutState) : Prop :=
  ∀ line ∈ s.line, line.close.text.getLast? ≠ some '\\'

/-- A literal that never ends makes the layout pass fail. -/
theorem LayoutState.step_endless (s : LayoutState) {lexeme : Lexeme} (endless : lexeme.Endless) :
    ∃ fault, s.step lexeme = .error fault := by
  obtain ⟨kind, text⟩ := lexeme
  obtain ⟨quotes, rfl⟩ := endless
  obtain ⟨offset, column, _ | line, finished⟩ := s <;> exact ⟨_, rfl⟩

/-- Behind a backslash a line is open that ends with it. -/
theorem LayoutState.step_backslash {s s' : LayoutState}
    (step : s.step ⟨.other, ['\\']⟩ = .ok s') :
    ∃ line front, s'.line = some line ∧ line.reversed = '\\' :: front := by
  obtain ⟨offset, column, _ | line, finished⟩ := s <;> cases step <;> exact ⟨_, _, rfl, rfl⟩

/-- A carriage return in a line is blanked. -/
theorem LayoutState.step_carriageReturn {s s' : LayoutState} {line : OpenLine}
    (inside : s.line = some line) (step : s.step ⟨.carriageReturn, ['\r']⟩ = .ok s') :
    s'.line = some (line.blank ['\r']) := by
  obtain ⟨offset, column, _ | line, finished⟩ := s <;> cases inside
  cases step
  rfl

/-- Behind a backslash that a line feed would join to the next line, the line that is open ends with
it. -/
theorem not_endsPlain_of_joinsLines {s s' : LayoutState} {fuel : Nat} {a : List Char}
    (short : a.length ≤ fuel) (joins : JoinsLines a)
    (fold : (splitWithin fuel a).foldlM LayoutState.step s = .ok s') : ¬ s'.EndsPlain := by
  intro plain
  rcases joins with rfl | rfl
  · obtain ⟨fuel, rfl⟩ := Nat.exists_eq_add_of_le' short
    have lexemes : splitWithin (fuel + 1) ['\\'] = [⟨.other, ['\\']⟩] := by cases fuel <;> rfl
    simp only [List.length_singleton, lexemes, List.foldlM_cons, List.foldlM_nil, bind_pure] at fold
    obtain ⟨line, front, inside, reversed⟩ := LayoutState.step_backslash fold
    refine plain line inside ?_
    simp [OpenLine.close, reversed]
  · obtain ⟨fuel, rfl⟩ := Nat.exists_eq_add_of_le' short
    have lexemes : splitWithin (fuel + 2) ['\\', '\r'] =
        [⟨.other, ['\\']⟩, ⟨.carriageReturn, ['\r']⟩] := by cases fuel <;> rfl
    simp only [List.length_cons, List.length_nil, lexemes, List.foldlM_cons, List.foldlM_nil,
      bind_pure] at fold
    cases first : s.step ⟨.other, ['\\']⟩ with
    | error fault => rw [first] at fold; cases fold
    | ok s₁ =>
      rw [first] at fold
      obtain ⟨line, front, inside, reversed⟩ := LayoutState.step_backslash first
      refine plain _ (LayoutState.step_carriageReturn inside fold) ?_
      simp [OpenLine.close, OpenLine.blank, reversed]

/-- Lexemes that are taken one after the other are also taken in front of a line feed. -/
theorem takes_of_foldlM {s s' : LayoutState} {fuel : Nat} {a t : List Char}
    (short : a.length ≤ fuel) (fold : (splitWithin fuel a).foldlM LayoutState.step s = .ok s')
    (ends : t = [] ∨ ∃ b, t = '\n' :: b ∧ s'.EndsPlain) : Takes s a t s' := by
  induction fuel generalizing s a with
  | zero =>
    obtain rfl : a = [] := List.length_eq_zero_iff.1 (Nat.le_zero.1 short)
    cases fold
    exact .nil
  | succ fuel ih =>
    cases a with
    | nil =>
      cases fold
      exact .nil
    | cons c cs =>
      have joins : JoinsLines (c :: cs) → ¬ s'.EndsPlain :=
        fun joins => not_endsPlain_of_joinsLines short joins fold
      rw [splitWithin, List.foldlM_cons] at fold
      cases step : s.step (next c cs).1 with
      | error fault => rw [step] at fold; cases fold
      | ok s₁ =>
        rw [step] at fold
        -- The lexeme reaches into the text behind only as a literal without an end, or by joining
        -- lines: the pass fails on the one, and does not end plain with the other.
        have joined : next c (cs ++ t) = ((next c cs).1, (next c cs).2 ++ t) := by
          rcases ends with rfl | ⟨b, rfl, plain⟩
          · simp only [List.append_nil]
          · rcases next_append c cs b with endless | joined | same
            · obtain ⟨fault, e⟩ := s.step_endless endless
              rw [step] at e
              cases e
            · exact absurd plain (joins joined)
            · exact same
        obtain ⟨whole, formed⟩ := begins_next c cs
        generalize next c cs = split at whole formed joined fold step
        obtain ⟨⟨kind, text⟩, rest⟩ := split
        cases text with
        | nil => exact absurd rfl formed.text_ne_nil
        | cons d body =>
          obtain ⟨rfl, whole⟩ := List.cons.inj whole
          have whole : cs = body ++ rest := whole
          refine .lexeme whole joined step (ih ?_ fold)
          rw [whole, List.length_cons, List.length_append] at short
          omega

/-! ## Moved lines -/

/-- A line that is being gathered, moved by some bytes. -/
def OpenLine.shift (n : Nat) (line : OpenLine) : OpenLine :=
  ⟨line.indent, line.start + n, line.reversed, line.brackets.map fun b => (b.1, b.2 + n)⟩

/-- The state of the layout pass behind lines that are finished, moved by some bytes. -/
def LayoutState.shift (n : Nat) (front : List LogicalLine) (s : LayoutState) : LayoutState :=
  ⟨s.offset + n, s.column, s.line.map (OpenLine.shift n),
    s.finished.map (LogicalLine.shift n) ++ front⟩

/-- Opening a bracket does not depend on where the line stands. -/
theorem OpenLine.mapped_openBracket (n : Nat) (line : OpenLine) (offset : Nat) (c : Char) :
    Mapped (OpenLine.shift n) (line.openBracket offset c)
      ((line.shift n).openBracket (offset + n) c) := by
  simp only [openBracket, OpenLine.shift, List.length_map]
  split
  · exact .error _ _
  · exact rfl

/-- Neither does closing one. -/
theorem OpenLine.mapped_closeBracket (n : Nat) (line : OpenLine) (offset : Nat) (c : Char) :
    Mapped (OpenLine.shift n) (line.closeBracket offset c)
      ((line.shift n).closeBracket (offset + n) c) := by
  obtain ⟨indent, start, reversed, _ | ⟨⟨open', place⟩, brackets⟩⟩ := line
  · exact .error _ _
  · simp only [closeBracket, OpenLine.shift, List.map_cons]
    split
    · exact rfl
    · exact .error _ _

theorem OpenLine.mapped_take (n : Nat) (line : OpenLine) (offset : Nat) (lexeme : Lexeme) :
    Mapped (Option.map (OpenLine.shift n)) (line.take offset lexeme)
      ((line.shift n).take (offset + n) lexeme) := by
  obtain ⟨kind, text⟩ := lexeme
  cases kind with
  | lineFeed =>
    simp only [take, OpenLine.shift, List.isEmpty_map]
    split <;> exact rfl
  | unterminated quotes => exact .error _ _
  | openBracket =>
    obtain _ | ⟨c, _ | _⟩ := text
    · exact rfl
    · exact (line.mapped_openBracket n offset c).map fun _ => rfl
    · exact rfl
  | closeBracket =>
    obtain _ | ⟨c, _ | _⟩ := text
    · exact rfl
    · exact (line.mapped_closeBracket n offset c).map fun _ => rfl
    · exact rfl
  | _ => exact rfl

/-- A step of the layout pass does not depend on the lines in front of it. -/
theorem LayoutState.mapped_step (n : Nat) (front : List LogicalLine) (s : LayoutState)
    (lexeme : Lexeme) :
    Mapped (LayoutState.shift n front) (s.step lexeme) ((s.shift n front).step lexeme) := by
  obtain ⟨offset, column, line?, finished⟩ := s
  have next : offset + n + byteLength lexeme.text = offset + byteLength lexeme.text + n :=
    Nat.add_right_comm _ _ _
  cases line? with
  | none =>
    have begins : Mapped (LayoutState.shift n front)
        (OpenLine.take ⟨column, offset, [], []⟩ offset lexeme >>= fun line =>
          .ok ⟨offset + byteLength lexeme.text, column, line, finished⟩)
        (OpenLine.take ⟨column, offset + n, [], []⟩ (offset + n) lexeme >>= fun line =>
          .ok ⟨offset + n + byteLength lexeme.text, column, line,
            finished.map (LogicalLine.shift n) ++ front⟩) := by
      rw [next]
      exact (OpenLine.mapped_take n ⟨column, offset, [], []⟩ offset lexeme).bind fun line => rfl
    obtain ⟨kind, text⟩ := lexeme
    cases kind with
    | space =>
      obtain _ | ⟨c, _ | _⟩ := text
      · exact begins
      · exact congrArg (LayoutState.mk · _ _ _) next
      · exact begins
    | lineFeed | carriageReturn | comment => exact congrArg (LayoutState.mk · _ _ _) next
    | _ => exact begins
  | some line =>
    simp only [step, shift, Option.map_some, next]
    refine (line.mapped_take n offset lexeme).bind fun line? => ?_
    cases line? with
    | none => exact rfl
    | some line => exact rfl

/-- Neither does its end. -/
theorem LayoutState.mapped_finish (n : Nat) (front : List LogicalLine) (s : LayoutState) :
    Mapped (fun lines => front.reverse ++ lines.map (LogicalLine.shift n)) s.finish
      (s.shift n front).finish := by
  obtain ⟨offset, column, _ | ⟨indent, start, reversed, _ | ⟨bracket, brackets⟩⟩, finished⟩ := s
  · simp [finish, shift, Mapped]
  · simp [finish, shift, Mapped, OpenLine.shift, OpenLine.close, LogicalLine.shift]
  · exact .error _ _

/-- A text that is taken is also taken behind other lines. -/
theorem Takes.shift (n : Nat) (front : List LogicalLine) {s s' : LayoutState}
    {text rest : List Char} (h : Takes s text rest s') :
    Takes (s.shift n front) text rest (s'.shift n front) := by
  induction h with
  | nil => exact .nil
  | @lexeme s s' s'' kind c cs body text rest whole next step _ ih =>
    exact .lexeme whole next ((s.mapped_step n front ⟨kind, c :: body⟩).of_ok step) ih

/-! ## Appended sources -/

/-- A source that is laid out is taken up to a state that finishes its lines. -/
theorem takes_of_logicalLines {a : List Char} {lines : List LogicalLine}
    (done : logicalLines a = .ok lines) :
    ∃ s : LayoutState, (split a).foldlM LayoutState.step .initial = .ok s ∧ s.finish = .ok lines ∧
      s.offset = byteLength a := by
  unfold logicalLines at done
  cases fold : (split a).foldlM LayoutState.step .initial with
  | error fault => rw [fold] at done; cases done
  | ok s =>
    rw [fold] at done
    have whole : a = [] ++ textOf (split a ++ []) := by simp [textOf_split]
    have formed : AllFormed (split a ++ []) := by simpa using allFormed_split a
    have behind := (LayoutState.behind_initial a).meets_foldlM whole formed
    rw [fold] at behind
    refine ⟨s, rfl, done, ?_⟩
    have offset := behind.1
    rwa [List.nil_append, textOf_split] at offset

/-- A line feed finishes the lines of a source that is laid out. -/
theorem LayoutState.step_lineFeed {s : LayoutState} {lines : List LogicalLine}
    (done : s.finish = .ok lines) :
    s.step ⟨.lineFeed, ['\n']⟩ = .ok ⟨s.offset + 1, 0, none, lines.reverse⟩ := by
  obtain ⟨offset, column, _ | ⟨indent, start, reversed, _ | ⟨bracket, brackets⟩⟩, finished⟩ := s
  · cases done
    rw [List.reverse_reverse]
    rfl
  · cases done
    rw [List.reverse_reverse]
    rfl
  · cases done

/-- The line that is open at the end is one of the lines. -/
theorem LayoutState.close_mem_of_finish {s : LayoutState} {lines : List LogicalLine}
    (done : s.finish = .ok lines) {line : OpenLine} (inside : line ∈ s.line) :
    line.close ∈ lines := by
  obtain ⟨offset, column, line?, finished⟩ := s
  obtain rfl : line? = some line := inside
  obtain ⟨indent, start, reversed, _ | ⟨bracket, brackets⟩⟩ := line
  · cases done
    simp
  · cases done

/-- The lines of a source and of one behind it, which are those that it has alone. -/
theorem logicalLines_append {a b : List Char} {lines more : List LogicalLine}
    (first : logicalLines a = .ok lines) (second : logicalLines b = .ok more)
    (plain : ∀ line ∈ lines, line.text.getLast? ≠ some '\\') :
    logicalLines (a ++ '\n' :: b) =
      .ok (lines ++ more.map (LogicalLine.shift (byteLength a + 1))) := by
  obtain ⟨s, fold, finish, offset⟩ := takes_of_logicalLines first
  obtain ⟨s', fold', finish', -⟩ := takes_of_logicalLines second
  have ends : s.EndsPlain := fun line inside =>
    plain _ (LayoutState.close_mem_of_finish finish inside)
  have taken : Takes .initial a ('\n' :: b) s :=
    takes_of_foldlM (Nat.le_refl _) fold (.inr ⟨b, rfl, ends⟩)
  have taken' : Takes .initial b [] s' := takes_of_foldlM (Nat.le_refl _) fold' (.inl rfl)
  have feed : Takes s ('\n' :: b) [] (s'.shift (byteLength a + 1) lines.reverse) := by
    refine .lexeme (List.nil_append b).symm rfl (LayoutState.step_lineFeed finish) ?_
    have moved := taken'.shift (byteLength a + 1) lines.reverse
    rw [offset]
    simpa [LayoutState.shift, LayoutState.initial] using moved
  rw [← List.append_nil ('\n' :: b)] at taken
  have all := (taken.append feed).logicalLines
  rw [all, (s'.mapped_finish (byteLength a + 1) lines.reverse).of_ok finish', List.reverse_reverse]

end BlockEditor
