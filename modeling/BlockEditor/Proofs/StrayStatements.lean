import BlockEditor.Proofs.Drafts

/-!
# Stray statements

A module has no program exactly if a `break` or a `continue` in it stands in the body of no loop.  The
failure is that of the first one, in the order of the text.
-/

namespace BlockEditor

namespace Stmt

/-! ## Places of statements -/

/-- The parts of a statement in which statements stand. -/
inductive Part where
  | body
  | orelse

/-- The statements of a part that are compiled.  Those of a definition, a class, a `try`, a `with` or an
asynchronous loop are not. -/
def inside (part : Part) : Stmt → List Stmt
  | .branch _ _ body orelse | .whileLoop _ _ body orelse | .forLoop _ false _ _ body orelse =>
    match part with
    | .body => body
    | .orelse => orelse
  | _ => []

/-- Whether a statement is a loop that is compiled. -/
def isLoop : Stmt → Bool
  | .whileLoop .. | .forLoop _ false .. => true
  | _ => false

/-- The keyword of a statement that has to stand in a loop. -/
def keyword? : Stmt → Option String
  | .breakLoop _ => some "break"
  | .continueLoop _ => some "continue"
  | _ => none

/-- The way to a statement from neighbouring statements: it is one of them, or within one of them. -/
inductive Path where
  | here (i : Nat)
  | into (i : Nat) (part : Part) (rest : Path)

namespace Path

/-- The statement at the end of a path. -/
def stmt? (ss : List Stmt) : Path → Option Stmt
  | here i => ss[i]?
  | into i part rest => ss[i]?.bind fun s => rest.stmt? (s.inside part)

/-- Whether a path goes into the body of a loop.  The `else` part of a loop is outside it. -/
def InLoop (ss : List Stmt) : Path → Prop
  | here _ => False
  | into i part rest => ∃ s ∈ ss[i]?, part = .body ∧ s.isLoop ∨ rest.InLoop (s.inside part)

/-- The position from which a path goes on. -/
def index : Path → Nat
  | here i => i
  | into i _ _ => i

/-- The order of the text: a statement comes before its parts, and its body before its `else` part. -/
inductive Before : Path → Path → Prop
  | sooner {p q : Path} : p.index < q.index → Before p q
  | outside {i : Nat} {part : Part} {q : Path} : Before (here i) (into i part q)
  | body {i : Nat} {p q : Path} : Before (into i .body p) (into i .orelse q)
  | within {i : Nat} {part : Part} {p q : Path} : Before p q → Before (into i part p) (into i part q)

/-- The same path, where one more statement stands in front. -/
def next : Path → Path
  | here i => here (i + 1)
  | into i part rest => into (i + 1) part rest

variable {p q : Path}

@[simp] theorem index_next (p : Path) : p.next.index = p.index + 1 := by
  cases p <;> rfl

@[simp] theorem stmt?_next (s : Stmt) (ss : List Stmt) (p : Path) :
    p.next.stmt? (s :: ss) = p.stmt? ss := by
  cases p <;> rfl

@[simp] theorem inLoop_next (s : Stmt) (ss : List Stmt) (p : Path) :
    p.next.InLoop (s :: ss) ↔ p.InLoop ss := by
  cases p <;> rfl

/-- The order of two places stays the same with one more statement in front. -/
theorem Before.next (h : p.Before q) : p.next.Before q.next := by
  cases h with
  | sooner h => exact .sooner (by simpa using h)
  | outside => exact .outside
  | body => exact .body
  | within h => exact .within h

/-- What is in the first statement comes before what is in others. -/
theorem Before.before_next (first : p.index = 0) (q : Path) : p.Before q.next :=
  .sooner (by rw [first, index_next]; exact Nat.succ_pos _)

/-- What comes before stands in the same statement or in front of it. -/
theorem Before.index_le (h : p.Before q) : p.index ≤ q.index := by
  cases h with
  | sooner h => exact Nat.le_of_lt h
  | outside | body | within => exact Nat.le_refl _

/-- No two statements come before each other. -/
theorem Before.asymm (h : p.Before q) : ¬ q.Before p := by
  intro h'
  induction h with
  | sooner h => exact absurd h'.index_le (Nat.not_le.2 h)
  | outside | body =>
    cases h' with
    | sooner h' => exact absurd h' (Nat.lt_irrefl _)
  | within _ ih =>
    cases h' with
    | sooner h' => exact absurd h' (Nat.lt_irrefl _)
    | within h' => exact ih h'

end Path

/-! ## Stray statements -/

/-- The failure to compile the statement at a place, which has to stand in the body of a loop and does
not. -/
def IsStray (ss : List Stmt) (p : Path) (fault : Fault) : Prop :=
  ∃ s keyword, p.stmt? ss = some s ∧ s.keyword? = some keyword ∧ ¬ p.InLoop ss ∧
    fault = ⟨.outsideLoop keyword, s.span⟩

/-- There is one failure at a place. -/
theorem IsStray.unique {ss : List Stmt} {p : Path} {fault fault' : Fault}
    (h : IsStray ss p fault) (h' : IsStray ss p fault') : fault = fault' := by
  obtain ⟨s, keyword, found, has, -, rfl⟩ := h
  obtain ⟨s', keyword', found', has', -, rfl⟩ := h'
  obtain rfl : s = s' := Option.some.inj (found.symm.trans found')
  obtain rfl : keyword = keyword' := Option.some.inj (has.symm.trans has')
  rfl

/-- Of neighbouring statements, the first one may be stray, something in its body if it is no loop,
something in its `else` part, or something behind it. -/
theorem isStray_cons_iff {s : Stmt} {rest : List Stmt} {p : Path} {fault : Fault} :
    IsStray (s :: rest) p fault ↔
      (p = .here 0 ∧ s.keyword?.map (fun keyword => ⟨.outsideLoop keyword, s.span⟩) = some fault) ∨
      (∃ q, p = .into 0 .body q ∧ s.isLoop = false ∧ IsStray (s.inside .body) q fault) ∨
      (∃ q, p = .into 0 .orelse q ∧ IsStray (s.inside .orelse) q fault) ∨
      ∃ q, p = .next q ∧ IsStray rest q fault := by
  constructor
  · rintro ⟨t, keyword, found, has, outside, rfl⟩
    -- A path begins in the first statement or behind it; in the first one it ends there or goes
    -- into a part.
    match p with
    | .here 0 =>
      obtain rfl : s = t := Option.some.inj found
      exact .inl ⟨rfl, by rw [has]; rfl⟩
    | .here (i + 1) => exact .inr (.inr (.inr ⟨.here i, rfl, t, keyword, found, has, outside, rfl⟩))
    | .into 0 part q =>
      have outside : ¬ (part = .body ∧ s.isLoop ∨ q.InLoop (s.inside part)) :=
        fun inLoop => outside ⟨s, rfl, inLoop⟩
      obtain ⟨notBody, outside⟩ := not_or.1 outside
      have stray : IsStray (s.inside part) q _ := ⟨t, keyword, found, has, outside, rfl⟩
      cases part with
      | body => exact .inr (.inl ⟨q, rfl, by simpa using notBody, stray⟩)
      | orelse => exact .inr (.inr (.inl ⟨q, rfl, stray⟩))
    | .into (i + 1) part q =>
      exact .inr (.inr (.inr ⟨.into i part q, rfl, t, keyword, found, has, outside, rfl⟩))
  · rintro (⟨rfl, own⟩ | ⟨q, rfl, noLoop, t, keyword, found, has, outside, rfl⟩ |
      ⟨q, rfl, t, keyword, found, has, outside, rfl⟩ | ⟨q, rfl, t, keyword, found, has, outside, rfl⟩)
    · obtain ⟨keyword, has, rfl⟩ := Option.map_eq_some_iff.1 own
      exact ⟨s, keyword, rfl, has, id, rfl⟩
    · refine ⟨t, keyword, found, has, ?_, rfl⟩
      rintro ⟨_, ⟨⟩, ⟨-, loop⟩ | inLoop⟩
      · simp [noLoop] at loop
      · exact outside inLoop
    · refine ⟨t, keyword, found, has, ?_, rfl⟩
      rintro ⟨_, ⟨⟩, ⟨⟨⟩, -⟩ | inLoop⟩
      exact outside inLoop
    · exact ⟨t, keyword, by rwa [Path.stmt?_next], has, by rwa [Path.inLoop_next], rfl⟩

/-! ## The first of some places -/

/-- Of the failures at some places, the one at the first place is found, if there is any. -/
structure Finds (P : Path → Fault → Prop) (found : Option Fault) : Prop where
  nothing : found = none → ∀ p fault, ¬ P p fault
  first : ∀ fault, found = some fault →
    ∃ p, P p fault ∧ ∀ q fault', P q fault' → q ≠ p → p.Before q

variable {P Q : Path → Fault → Prop} {found found' : Option Fault}

/-- What is found among some places is found among the same places otherwise described. -/
theorem Finds.congr (h : Finds Q found) (same : ∀ p fault, P p fault ↔ Q p fault) : Finds P found where
  nothing := fun eq p fault hp => h.nothing eq p fault ((same p fault).1 hp)
  first := fun fault eq => by
    obtain ⟨p, hp, least⟩ := h.first fault eq
    exact ⟨p, (same p fault).2 hp, fun q fault' hq => least q fault' ((same q fault').1 hq)⟩

/-- There may be something at one place only. -/
theorem Finds.own (p : Path) (found : Option Fault) :
    Finds (fun q fault => q = p ∧ found = some fault) found where
  nothing := by
    rintro rfl q fault ⟨-, ⟨⟩⟩
  first := fun fault eq => ⟨p, ⟨rfl, eq⟩, fun _ _ h other => absurd h.1 other⟩

/-- What is at the first places hides what is at the others. -/
theorem Finds.or (front : Finds P found) (back : Finds Q found')
    (before : ∀ p q fault fault', P p fault → Q q fault' → p.Before q) :
    Finds (fun p fault => P p fault ∨ Q p fault) (found.or found') where
  nothing := fun eq p fault h => by
    obtain ⟨eq, eq'⟩ := Option.or_eq_none_iff.1 eq
    exact h.elim (front.nothing eq p fault) (back.nothing eq' p fault)
  first := fun fault eq => by
    rcases Option.or_eq_some_iff.1 eq with eq | ⟨eq, eq'⟩
    · obtain ⟨p, h, least⟩ := front.first fault eq
      refine ⟨p, .inl h, fun q fault' h' other => ?_⟩
      exact h'.elim (fun h' => least q fault' h' other) (before p q fault fault' h)
    · obtain ⟨p, h, least⟩ := back.first fault eq'
      refine ⟨p, .inr h, fun q fault' h' other => ?_⟩
      exact h'.elim (fun h' => absurd h' (front.nothing eq q fault'))
        (fun h' => least q fault' h' other)

/-- Places may be seen from further outside. -/
theorem Finds.lift (h : Finds P found) (f : Path → Path)
    (mono : ∀ p q, p.Before q → (f p).Before (f q)) :
    Finds (fun p fault => ∃ q, p = f q ∧ P q fault) found where
  nothing := by
    rintro eq _ fault ⟨q, rfl, hq⟩
    exact h.nothing eq q fault hq
  first := fun fault eq => by
    obtain ⟨p, hp, least⟩ := h.first fault eq
    refine ⟨f p, ⟨p, rfl, hp⟩, ?_⟩
    rintro _ fault' ⟨q, rfl, hq⟩ other
    exact mono p q (least q fault' hq fun eq => other (congrArg f eq))

/-- Places may be left out. -/
theorem Finds.unless (h : Finds P found) (b : Bool) :
    Finds (fun p fault => b = false ∧ P p fault) (if b then none else found) := by
  cases b with
  | true => exact ⟨fun _ _ _ h => (by cases h.1), fun _ eq => by cases eq⟩
  | false => simpa using h

/-! ## Compilation -/

mutual

/-- Within a loop, nothing is stray. -/
theorem stray?_true (s : Stmt) : stray? true s = none := by
  cases s with
  | branch span test body orelse => rw [stray?, strayIn?_true, strayIn?_true]; rfl
  | whileLoop span test body orelse => rw [stray?, strayIn?_true, strayIn?_true]; rfl
  | forLoop span isAsync target iter body orelse =>
    cases isAsync with
    | true => simp [stray?]
    | false => rw [stray?, strayIn?_true, strayIn?_true]; rfl
  | _ => simp [stray?]

theorem strayIn?_true (ss : List Stmt) : strayIn? true ss = none := by
  cases ss with
  | nil => rfl
  | cons s rest => rw [strayIn?, stray?_true, strayIn?_true]; rfl

end

/-- What is stray in a statement outside of loops is the statement itself or in one of its parts. -/
theorem stray?_false (s : Stmt) :
    stray? false s = (s.keyword?.map fun keyword => ⟨.outsideLoop keyword, s.span⟩).or
      ((if s.isLoop then none else strayIn? false (s.inside .body)).or
        (strayIn? false (s.inside .orelse))) := by
  cases s with
  | forLoop span isAsync target iter body orelse => 
    cases isAsync <;> simp [stray?, keyword?, isLoop, inside, strayIn?_true, strayIn?]
  | _ => simp [stray?, keyword?, isLoop, inside, strayIn?_true, strayIn?, span]

/-- A part is no larger than its statement. -/
theorem sizeOf_inside_le (part : Part) (s : Stmt) : sizeOf (s.inside part) ≤ sizeOf s := by
  cases s with
  | forLoop span isAsync target iter body orelse =>
    cases isAsync <;> cases part <;> simp [inside] <;> omega
  | _ => cases part <;> simp [inside] <;> omega

/-- Outside of loops, the first stray statement is found. -/
theorem finds_strayIn? (ss : List Stmt) : Finds (IsStray ss) (strayIn? false ss) := by
  match ss with
  | [] =>
    refine ⟨fun _ p fault h => ?_, fun fault eq => by cases eq⟩
    obtain ⟨s, keyword, found, -⟩ := h
    cases p <;> cases found
  | s :: rest =>
    have own := Finds.own (.here 0) (s.keyword?.map fun keyword => ⟨.outsideLoop keyword, s.span⟩)
    have body := ((finds_strayIn? (s.inside .body)).unless s.isLoop).lift (.into 0 .body)
      fun _ _ => .within
    have orelse := (finds_strayIn? (s.inside .orelse)).lift (.into 0 .orelse) fun _ _ => .within
    have others := (finds_strayIn? rest).lift .next fun _ _ => .next
    -- The failures are asked for in the order of the text, so it is left to show that the places
    -- come in it.
    rw [strayIn?, stray?_false, Option.or_assoc, Option.or_assoc]
    refine (own.or (body.or (orelse.or others ?_) ?_) ?_).congr fun p fault => isStray_cons_iff
    · rintro _ _ fault fault' ⟨p, rfl, -⟩ ⟨q, rfl, -⟩
      exact .before_next rfl q
    · rintro _ _ fault fault' ⟨p, rfl, -⟩ (⟨q, rfl, -⟩ | ⟨q, rfl, -⟩)
      · exact .body
      · exact .before_next rfl q
    · rintro _ _ fault fault' ⟨rfl, -⟩ (⟨q, rfl, -⟩ | ⟨q, rfl, -⟩ | ⟨q, rfl, -⟩)
      · exact .outside
      · exact .outside
      · exact .before_next rfl q
termination_by sizeOf ss
decreasing_by
  · have := sizeOf_inside_le .body s
    rw [List.cons.sizeOf_spec]
    omega
  · have := sizeOf_inside_le .orelse s
    rw [List.cons.sizeOf_spec]
    omega
  · rw [List.cons.sizeOf_spec]
    omega

end Stmt

/-- A module has no program exactly if something in it is stray.  The failure is then that of the first
stray statement, in the order of the text. -/
theorem Module.compile_fails_iff_stray (m : Module) :
    ((∃ fault, m.compile = .error fault) ↔ ∃ p fault, Stmt.IsStray m.body p fault) ∧
      ∀ fault, m.compile = .error fault ↔ ∃ p, Stmt.IsStray m.body p fault ∧
        ∀ q fault', Stmt.IsStray m.body q fault' → q ≠ p → p.Before q := by
  have found := Stmt.finds_strayIn? m.body
  have failed (fault : Fault) :
      m.compile = .error fault ↔ Stmt.strayIn? false m.body = some fault := by
    rw [compile_eq_layout]
    cases Stmt.strayIn? false m.body <;> simp
  simp only [failed]
  refine ⟨⟨fun ⟨fault, eq⟩ => ?_, fun ⟨p, fault, stray⟩ => ?_⟩, fun fault =>
    ⟨fun eq => found.first fault eq, fun ⟨p, stray, least⟩ => ?_⟩⟩
  · obtain ⟨p, stray, -⟩ := found.first fault eq
    exact ⟨p, fault, stray⟩
  · exact Option.ne_none_iff_exists'.1 fun eq => found.nothing eq p fault stray
  · obtain ⟨fault', eq⟩ := Option.ne_none_iff_exists'.1 fun eq => found.nothing eq p fault stray
    obtain ⟨q, stray', least'⟩ := found.first fault' eq
    have same : p = q := Classical.byContradiction fun other =>
      (least' p fault stray other).asymm (least q fault' stray' (Ne.symm other))
    subst same
    rw [eq, stray.unique stray']

example (a b c : Span) (test : Expr) :
    (Module.mk [.whileLoop a test [.breakLoop b] [.continueLoop c]]).compile =
      .error ⟨.outsideLoop "continue", c⟩ := rfl

end BlockEditor
