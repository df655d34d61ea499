import BlockEditor.Syntax.Grammar

/-!
# Outlines of lines

A line of generated code is known up to a few tokens: a name, a number or a quoted text.  Its
outline has a hole for each of them.  What the grammar of lines does with an outline can be computed,
and a forecast that decides something decides it for every text that fills the holes.
-/

namespace BlockEditor

/-! ## Outlines -/

/-- The kinds of tokens that an outline leaves open. -/
inductive Hole where
  | name
  | integer
  | decimal
  | quoted
  deriving DecidableEq, Repr

/-- A part of a line. -/
inductive OutlinePart where
  | char (c : Char)
  | hole (h : Hole)
  deriving DecidableEq, Repr

/-- A text with holes. -/
abbrev Outline := List OutlinePart

/-- A text without holes. -/
def Outline.ofText (s : String) : Outline := s.toList.map .char

/-- The text of an outline whose holes are filled. -/
def fill (f : Hole → List Char) : Outline → List Char
  | [] => []
  | .char c :: o => c :: fill f o
  | .hole h :: o => f h ++ fill f o

/-- Outlines side by side are filled side by side. -/
theorem fill_append (f : Hole → List Char) (a b : Outline) :
    fill f (a ++ b) = fill f a ++ fill f b := by
  induction a with
  | nil => rfl
  | cons part a ih => cases part <;> simp [fill, ih]

/-- An outline without holes is its own text. -/
theorem fill_map_char (f : Hole → List Char) (cs : List Char) :
    fill f (cs.map .char) = cs := by
  induction cs with
  | nil => rfl
  | cons c cs ih => simp [fill, ih]

/-! ## Texts that fit -/

/-- The characters that a token in a hole begins with. -/
def Hole.Starts (h : Hole) (c : Char) : Prop :=
  match h with
  | name => Text.isIdentifierStart c ∨ c = '_'
  | integer | decimal => CharClass.digit.holds c
  | quoted => c = '\''

/-- What the grammar does with a token where a hole begins, as far as it is fixed: whether it takes
the text of the hole, or refuses it. -/
def Hole.takes? : Hole → Token → Option Bool
  | name, .identifier => some true
  | name, .word _ | name, .noneLit | name, .trueLit | name, .falseLit | name, .string => some false
  | integer, .integer => some true
  | integer, .float | integer, .imaginary => some false
  | decimal, .float => some true
  | decimal, .imaginary => some false
  | quoted, .string => some true
  | _, _ => none

/-- The characters that end a word of generated code. -/
def stops : List Char := [' ', ')', ':']

/-- A text that ends, or goes on with a blank, a closing parenthesis or a colon. -/
def AtStop (cs : List Char) : Prop := ∀ c ∈ cs.head?, c ∈ stops

/-- A text that can stand in a hole: it begins as it should, and in front of a stop the tokens take
or refuse it as a whole. -/
structure Hole.Fits (h : Hole) (cs : List Char) : Prop where
  starts : ∃ c tail, cs = c :: tail ∧ h.Starts c
  taken : ∀ t, h.takes? t = some true → ∀ rest, AtStop rest →
    t.pattern.scan (cs ++ rest) = some (cs, rest)
  refused : ∀ t, h.takes? t = some false → ∀ rest, AtStop rest → t.pattern.scan (cs ++ rest) = none

/-- Whether no text in a hole begins with a character of a class. -/
def Hole.avoids : Hole → CharClass → Bool
  | name, .digit => true
  | name, .oneOf cs => cs.all fun c => !Text.isIdentifierStart c && c ≠ '_'
  | integer, .oneOf cs | decimal, .oneOf cs => cs.all fun c => !CharClass.digit.holds c
  | integer, .identifierStart | decimal, .identifierStart => true
  | quoted, k => !k.holds '\''
  | _, _ => false

/-- Digits cannot begin an identifier. -/
theorem isIdentifierStart_of_digit {c : Char} (digit : CharClass.digit.holds c = true) :
    Text.isIdentifierStart c = false := by
  have bounds : '0' ≤ c ∧ c ≤ '9' := by simpa [CharClass.holds] using digit
  have below : c.toNat < 65 := Nat.lt_of_le_of_lt (show c.toNat ≤ 57 from bounds.2) (by decide)
  show Text.inRanges c.toNat ((65, 90) :: _) = false
  rw [Text.inRanges, if_pos below]

/-- No class that a hole avoids holds a character that it begins with. -/
theorem Hole.holds_eq_false {h : Hole} {k : CharClass} {c : Char} (avoided : h.avoids k = true)
    (start : h.Starts c) : k.holds c = false := by
  have among : ∀ (cs : List Char) (p : Char → Bool), cs.all p = true → p c = false →
      cs.contains c = false := by
    intro cs p all fails
    rw [Bool.eq_false_iff]
    intro member
    rw [List.all_eq_true.1 all c (List.contains_iff_mem.1 member)] at fails
    cases fails
  cases h with
  | name =>
    cases k with
    | digit =>
      rcases start with start | rfl
      · cases digit : CharClass.digit.holds c with
        | false => rfl
        | true => rw [isIdentifierStart_of_digit digit] at start; cases start
      · decide
    | oneOf cs =>
      apply among cs _ avoided
      rcases start with start | rfl
      · simp [start]
      · simp
    | _ => cases avoided
  | quoted =>
    have quote : c = '\'' := start
    simpa [quote, Hole.avoids] using avoided
  | integer | decimal =>
    have digit : CharClass.digit.holds c = true := start
    cases k with
    | identifierStart => exact isIdentifierStart_of_digit digit
    | oneOf cs => exact among cs _ avoided (by simp [digit])
    | _ => cases avoided

/-- No token in a hole begins with a blank. -/
theorem Hole.Starts.not_isSpace {h : Hole} {c : Char} (start : h.Starts c) :
    lineGrammar.isSpace c = false := by
  have blank : h.avoids (.oneOf [' ', '\t', '\x0c']) = true := by cases h <;> decide
  have other := Hole.holds_eq_false blank start
  simpa [CharClass.holds, lineGrammar, and_assoc] using other

/-! ## Forecasts -/

/-- What is known of a partial result before the holes are filled. -/
inductive Forecast (α : Type) where
  | unknown
  | refused
  | accepted (a : α)
  deriving DecidableEq, Repr

namespace Forecast

variable {α β : Type}

/-- Goes on with an accepted result. -/
def andThen (x : Forecast α) (f : α → Forecast β) : Forecast β :=
  match x with
  | unknown => unknown
  | refused => refused
  | accepted a => f a

/-- Goes on where nothing is accepted. -/
def orElse (x y : Forecast α) : Forecast α :=
  match x with
  | refused => y
  | x => x

/-- A forecast that is right, if an acceptance means `P` and a refusal means `q`. -/
def Holds (x : Forecast α) (P : α → Prop) (q : Prop) : Prop :=
  match x with
  | unknown => True
  | refused => q
  | accepted a => P a

/-- Going on with an accepted result keeps a forecast right. -/
theorem Holds.andThen {x : Forecast α} {f : α → Forecast β} {P : α → Prop} {q : Prop}
    {P' : β → Prop} {q' : Prop} (h : x.Holds P q) (refusal : q → q')
    (next : ∀ a, P a → (f a).Holds P' q') : (x.andThen f).Holds P' q' := by
  cases x with
  | unknown => trivial
  | refused => exact refusal h
  | accepted a => exact next a h

theorem Holds.orElse {x y : Forecast α} {P P' : α → Prop} {q q' : Prop} (h : x.Holds P q)
    (acceptance : ∀ a, P a → P' a) (next : q → y.Holds P' q') : (x.orElse y).Holds P' q' := by
  cases x with
  | unknown => trivial
  | refused => exact next h
  | accepted a => exact acceptance a h

end Forecast

/-! ## Forecasts of patterns -/

/-- What follows a fixed text. -/
def foreseeText : List Char → Outline → Forecast Outline
  | [], o => .accepted o
  | _ :: _, [] => .refused
  | t :: ts, .char c :: o => if t = c then foreseeText ts o else .refused
  | t :: _, .hole h :: _ => if h.avoids (.oneOf [t]) then .refused else .unknown

/-- Repeats a forecast until it refuses. -/
def foreseeMany (f : Outline → Forecast (Outline × Outline)) :
    Nat → Outline → Forecast (Outline × Outline)
  | 0, _ => .unknown
  | fuel + 1, o =>
    match f o with
    | .unknown => .unknown
    | .refused => .accepted ([], o)
    | .accepted (lexeme, rest) =>
      (foreseeMany f fuel rest).andThen fun (more, rest) => .accepted (lexeme ++ more, rest)

/-- A forecast of a negative lookahead. -/
def Forecast.denied {α β : Type} (x : Forecast α) (b : β) : Forecast β :=
  match x with
  | unknown => unknown
  | refused => accepted b
  | accepted _ => refused

/-- The lexeme that a pattern matches at the start of an outline, and the rest. -/
def Pattern.foresee : Pattern → Outline → Forecast (Outline × Outline)
  | text t, o => (foreseeText t o).andThen fun rest => .accepted (t.map .char, rest)
  | one _, [] => .refused
  | one k, .char c :: o => if k.holds c then .accepted ([.char c], o) else .refused
  | one k, .hole h :: _ => if h.avoids k then .refused else .unknown
  | seq p q, o =>
    (p.foresee o).andThen fun (a, rest) =>
      (q.foresee rest).andThen fun (b, rest) => .accepted (a ++ b, rest)
  | alt p q, o => (p.foresee o).orElse (q.foresee o)
  | opt p, o => (p.foresee o).orElse (.accepted ([], o))
  | many p, o => foreseeMany p.foresee (o.length + 1) o
  | absent p, o => (p.foresee o).denied ([], o)

section Filled

variable {f : Hole → List Char}

/-- Every hole is filled with a text that fits. -/
def Fitting (f : Hole → List Char) : Prop := ∀ h : Hole, h.Fits (f h)

/-- The forecast for a fixed text holds for every filling. -/
theorem foreseeText_holds (fits : Fitting f) (t : List Char) (o : Outline) :
    (foreseeText t o).Holds (fun rest => Text.dropLead t (fill f o) = some (fill f rest))
      (Text.dropLead t (fill f o) = none) := by
  induction t generalizing o with
  | nil => rfl
  | cons t ts ih =>
    match o with
    | [] => rfl
    | .char c :: o =>
      unfold foreseeText
      by_cases same : t = c
      · rw [if_pos same]
        simpa only [fill, Text.dropLead, if_pos same] using ih o
      · rw [if_neg same]
        show Text.dropLead (t :: ts) (c :: fill f o) = none
        rw [Text.dropLead, if_neg same]
    | .hole h :: o =>
      unfold foreseeText
      by_cases avoided : h.avoids (.oneOf [t]) = true
      · rw [if_pos avoided]
        obtain ⟨c, tail, e, start⟩ := (fits h).starts
        have other : c ≠ t := by simpa [CharClass.holds] using Hole.holds_eq_false avoided start
        show Text.dropLead (t :: ts) (f h ++ fill f o) = none
        rw [e, List.cons_append, Text.dropLead, if_neg (Ne.symm other)]
      · rw [if_neg avoided]
        trivial

/-- A repetition is foreseen right if a single turn is. -/
theorem foreseeMany_holds {g : Outline → Forecast (Outline × Outline)}
    {scan : List Char → Option (List Char × List Char)}
    (single : ∀ o, (g o).Holds (fun x => scan (fill f o) = some (fill f x.1, fill f x.2))
      (scan (fill f o) = none)) (n fuel : Nat) (enough : n ≤ fuel) (o : Outline) :
    (foreseeMany g (n + 1) o).Holds
      (fun x => Pattern.scanMany scan fuel (fill f o) = (fill f x.1, fill f x.2)) False := by
  -- By induction on the number of turns, since an outline does not say how long the texts in its
  -- holes are.
  induction n generalizing fuel o with
  | zero =>
    have once := single o
    unfold foreseeMany
    generalize g o = x at once ⊢
    cases x with
    | unknown => trivial
    | refused =>
      show Pattern.scanMany scan fuel (fill f o) = _
      cases fuel with
      | zero => rfl
      | succ fuel => rw [Pattern.scanMany, once]; rfl
    | accepted a => trivial
  | succ n ih =>
    have once := single o
    unfold foreseeMany
    generalize g o = x at once ⊢
    cases x with
    | unknown => trivial
    | refused =>
      show Pattern.scanMany scan fuel (fill f o) = _
      cases fuel with
      | zero => rfl
      | succ fuel => rw [Pattern.scanMany, once]; rfl
    | accepted a =>
      obtain ⟨fuel, rfl⟩ : ∃ m, fuel = m + 1 := ⟨fuel - 1, by omega⟩
      refine (ih fuel (by omega) a.2).andThen id ?_
      intro b more
      show Pattern.scanMany scan (fuel + 1) (fill f o) = _
      rw [Pattern.scanMany, once]
      simp only [more, fill_append]

/-- A filled outline is at least as long as the outline. -/
theorem length_le_length_fill (fits : Fitting f) (o : Outline) : o.length ≤ (fill f o).length := by
  induction o with
  | nil => exact Nat.le_refl 0
  | cons part o ih =>
    cases part with
    | char c => simpa [fill] using ih
    | hole h =>
      obtain ⟨c, tail, e, -⟩ := (fits h).starts
      simp only [fill, e, List.length_append, List.length_cons]
      omega

/-- A forecast for a single character holds for every filling. -/
theorem Pattern.foresee_one_holds (fits : Fitting f) (k : CharClass) (o : Outline) :
    ((one k).foresee o).Holds (fun x => (one k).scan (fill f o) = some (fill f x.1, fill f x.2))
      ((one k).scan (fill f o) = none) := by
  match o with
  | [] => rfl
  | .char c :: o =>
    unfold foresee
    by_cases h : k.holds c = true
    · rw [if_pos h]
      show scan (one k) (c :: fill f o) = _
      rw [scan, if_pos h]
      rfl
    · rw [if_neg h]
      show scan (one k) (c :: fill f o) = _
      rw [scan, if_neg h]
  | .hole h :: o =>
    -- only the first character of the hole is seen, and only that it is not in the class
    unfold foresee
    by_cases avoided : h.avoids k = true
    · rw [if_pos avoided]
      obtain ⟨c, tail, e, start⟩ := (fits h).starts
      show scan (one k) (f h ++ fill f o) = none
      rw [e, List.cons_append, scan, Hole.holds_eq_false avoided start]
      rfl
    · rw [if_neg avoided]
      trivial

/-- A forecast for a pattern holds for every filling. -/
theorem Pattern.foresee_holds (fits : Fitting f) (p : Pattern) (o : Outline) :
    (p.foresee o).Holds (fun x => p.scan (fill f o) = some (fill f x.1, fill f x.2))
      (p.scan (fill f o) = none) := by
  induction p generalizing o with
  | text t =>
    refine (foreseeText_holds fits t o).andThen ?_ ?_
    · intro none
      rw [scan, none]
      rfl
    · intro rest some
      show scan (text t) (fill f o) = _
      rw [scan, some, fill_map_char]
      rfl
  | one k => exact foresee_one_holds fits k o
  | seq p q ihp ihq =>
    refine (ihp o).andThen ?_ ?_
    · intro none
      rw [scan, none]
    · intro a first
      refine (ihq a.2).andThen ?_ ?_
      · intro none
        rw [scan, first]
        simp only [none]
      · intro b second
        show scan (seq p q) (fill f o) = _
        rw [scan, first]
        simp only [second, fill_append]
  | alt p q ihp ihq =>
    refine (ihp o).orElse ?_ ?_
    · intro a some
      rw [scan, some, Option.some_or]
    · intro none
      rw [scan, none, Option.none_or]
      exact ihq o
  | opt p ih =>
    refine (ih o).orElse ?_ ?_
    · intro a some
      rw [scan, some, Option.some_or]
    · intro none
      show scan (opt p) (fill f o) = _
      rw [scan, none, Option.none_or]
      rfl
  -- A forecast of a repetition is made with as much fuel as the outline is long, which is enough
  -- for its text.
  | many p ih =>
    have all := foreseeMany_holds ih o.length _ (length_le_length_fill fits o) o
    unfold foresee
    generalize foreseeMany p.foresee (o.length + 1) o = x at all ⊢
    cases x with
    | unknown => trivial
    | refused => exact all.elim
    | accepted a =>
      show scan (many p) (fill f o) = _
      rw [scan, all]
  -- A lookahead turns the answer around, and takes nothing in either case.
  | absent p ih =>
    have inner := ih o
    unfold foresee
    generalize p.foresee o = x at inner ⊢
    cases x with
    | unknown => trivial
    | refused =>
      show scan (absent p) (fill f o) = _
      rw [scan, inner]
      rfl
    | accepted a =>
      show scan (absent p) (fill f o) = none
      rw [scan, inner]
      rfl

end Filled

/-! ## Forecasts of phrases -/

/-- The tree of an outline, without places. -/
inductive Sketch where
  | token (t : Token) (lexeme : Outline)
  | phrase (p : PhraseName) (children : List Sketch)

namespace Sketch

mutual

/-- Decides whether two sketches are the same. -/
def decEq : (a b : Sketch) → Decidable (a = b)
  | .token t lexeme, .token t' lexeme' =>
    decidable_of_iff (t = t' ∧ lexeme = lexeme') (by simp)
  | .phrase p children, .phrase p' children' =>
    match decEqAll children children' with
    | isTrue same => decidable_of_iff (p = p') (by simp [same])
    | isFalse differ => isFalse (by simp [differ])
  | .token .., .phrase .. => isFalse (by simp)
  | .phrase .., .token .. => isFalse (by simp)

/-- Decides whether two lists of sketches are the same. -/
def decEqAll : (a b : List Sketch) → Decidable (a = b)
  | [], [] => isTrue rfl
  | s :: rest, s' :: rest' =>
    match decEq s s' with
    | isTrue same =>
      match decEqAll rest rest' with
      | isTrue sameRest => isTrue (by rw [same, sameRest])
      | isFalse differ => isFalse (by simp [differ])
    | isFalse differ => isFalse (by simp [differ])
  | [], _ :: _ => isFalse (by simp)
  | _ :: _, [] => isFalse (by simp)

end

instance : DecidableEq Sketch := decEq

end Sketch

/-- Whether an outline begins with a stop. -/
def Outline.atStop : Outline → Bool
  | [] => true
  | .char c :: _ => stops.contains c
  | .hole _ :: _ => false

/-- The outline behind the blanks at its start. -/
def Outline.skip : Outline → Outline
  | .char c :: o => if lineGrammar.isSpace c then skip o else .char c :: o
  | o => o

/-- The lexeme of a token at the start of an outline, and the rest. -/
def Token.foresee (t : Token) (o : Outline) : Forecast (Outline × Outline) :=
  match o with
  | .hole h :: rest =>
    match h.takes? t with
    | none => t.pattern.foresee o
    | some taken =>
      if Outline.atStop rest then
        if taken then .accepted ([.hole h], rest) else .refused
      else .unknown
  | _ => t.pattern.foresee o

/-- The trees of an expression at the start of an outline, and the rest, given the forecasts of
phrases.  A repetition is only foreseen up to its first item. -/
def Peg.foresee (call : PhraseName → Outline → Forecast (List Sketch × Outline)) :
    LineExpr → Outline → Forecast (List Sketch × Outline)
  | text t, o => (foreseeText t o).andThen fun rest => .accepted ([], rest)
  | absent p, o => (p.foresee o).denied ([], o)
  | token t, o => (t.foresee o).andThen fun (lexeme, rest) => .accepted ([.token t lexeme], rest)
  | phrase p, o => call p o
  | seq x y, o =>
    (x.foresee call o).andThen fun (a, rest) =>
      (y.foresee call (Outline.skip rest)).andThen fun (b, rest) => .accepted (a ++ b, rest)
  | alt x y, o => (x.foresee call o).orElse (y.foresee call o)
  | opt x, o => (x.foresee call o).orElse (.accepted ([], o))
  | many x, o =>
    match x.foresee call o with
    | .unknown => .unknown
    | .refused => .accepted ([], o)
    | .accepted (a, rest) =>
      match x.foresee call (Outline.skip rest) with
      | .refused => .accepted (a, rest)
      | _ => .unknown

/-- The tree of a phrase at the start of an outline, and the rest, with phrases nested at most
`fuel` deep. -/
def foreseePhrase : Nat → PhraseName → Outline → Forecast (List Sketch × Outline)
  | 0, _, _ => .unknown
  | fuel + 1, p, o =>
    ((LineGrammar.body p).foresee (foreseePhrase fuel) o).andThen fun (children, rest) =>
      .accepted ([.phrase p children], rest)

mutual

/-- A tree is what a sketch shows, once its holes are filled. -/
inductive Sketch.Shows (f : Hole → List Char) : Sketch → LineTree → Prop
  | token {t : Token} {lexeme : Outline} {span : Span} :
    Shows f (.token t lexeme) (.token t span (fill f lexeme))
  | phrase {p : PhraseName} {children : List Sketch} {span : Span} {trees : List LineTree} :
    AllShow f children trees → Shows f (.phrase p children) (.phrase p span trees)

/-- Trees are what sketches show, one by one. -/
inductive Sketch.AllShow (f : Hole → List Char) : List Sketch → List LineTree → Prop
  | nil : AllShow f [] []
  | cons {s : Sketch} {tree : LineTree} {sketches : List Sketch} {trees : List LineTree} :
    Shows f s tree → AllShow f sketches trees → AllShow f (s :: sketches) (tree :: trees)

end

/-- Sketches side by side show trees side by side. -/
theorem Sketch.AllShow.append {f : Hole → List Char} {a b : List Sketch} {s t : List LineTree}
    (first : AllShow f a s) (second : AllShow f b t) : AllShow f (a ++ b) (s ++ t) := by
  induction a generalizing s with
  | nil => cases first; exact second
  | cons sketch a ih =>
    cases first with
    | cons head tail => exact .cons head (ih tail)

/-- A reader is right about an outline if it accepts and refuses as forecast, at every offset and
whatever was tried before. -/
def Foresees (f : Hole → List Char)
    (read : Cursor → Attempts Token PhraseName → Reply Token PhraseName) (o : Outline)
    (x : Forecast (List Sketch × Outline)) : Prop :=
  x.Holds
    (fun y => ∀ offset a, ∃ offset' trees a',
      read ⟨fill f o, offset⟩ a = .done ⟨fill f y.2, offset'⟩ trees a' ∧
        Sketch.AllShow f y.1 trees)
    (∀ offset a, ∃ a', read ⟨fill f o, offset⟩ a = .fail a')

section Filled

variable {f : Hole → List Char}

/-- An outline that begins with a stop is filled with a text that does. -/
theorem atStop_fill {o : Outline} (h : Outline.atStop o = true) : AtStop (fill f o) := by
  match o with
  | [] => intro c member; cases member
  | .char c :: o =>
    intro c' member
    cases member
    exact List.contains_iff_mem.1 h

/-- Blanks in front of an outline are skipped in its text. -/
theorem skip_fill (fits : Fitting f) (o : Outline) (offset : Nat) :
    ∃ offset', Cursor.skip lineGrammar.isSpace ⟨fill f o, offset⟩ =
      ⟨fill f (Outline.skip o), offset'⟩ := by
  have drops : (fill f o).dropWhile lineGrammar.isSpace = fill f (Outline.skip o) := by
    induction o with
    | nil => rfl
    | cons part o ih =>
      cases part with
      | char c =>
        rw [fill, Outline.skip, List.dropWhile_cons]
        split
        · exact ih
        · rfl
      | hole h =>
        obtain ⟨c, tail, e, start⟩ := (fits h).starts
        show (f h ++ fill f o).dropWhile lineGrammar.isSpace = f h ++ fill f o
        rw [e, List.cons_append, List.dropWhile_cons, start.not_isSpace]
        rfl
  exact ⟨_, by rw [Cursor.skip, Cursor.after, drops]⟩

/-- The forecast for a token holds for every filling. -/
theorem Token.foresee_holds (fits : Fitting f) (t : Token) (o : Outline) :
    (t.foresee o).Holds (fun x => t.pattern.scan (fill f o) = some (fill f x.1, fill f x.2))
      (t.pattern.scan (fill f o) = none) := by
  match o with
  | [] => exact t.pattern.foresee_holds fits []
  | .char c :: o => exact t.pattern.foresee_holds fits (.char c :: o)
  | .hole h :: rest =>
    unfold foresee
    simp only
    cases e : h.takes? t with
    | none => exact t.pattern.foresee_holds fits (.hole h :: rest)
    | some taken =>
      simp only
      by_cases stop : Outline.atStop rest = true
      · rw [if_pos stop]
        cases taken with
        | true =>
          show t.pattern.scan (f h ++ fill f rest) = some (f h ++ [], fill f rest)
          rw [(fits h).taken t e _ (atStop_fill stop), List.append_nil]
        | false => exact (fits h).refused t e _ (atStop_fill stop)
      · rw [if_neg stop]
        trivial

section Expressions

variable {limit : Nat} {call : PhraseName → Cursor → Attempts Token PhraseName → Reply Token PhraseName}
  {known : PhraseName → Outline → Forecast (List Sketch × Outline)} {x y : LineExpr}

/-- The second part of a sequence is foreseen behind the blanks that follow the first one. -/
theorem Foresees.seq (fits : Fitting f) {o : Outline}
    (first : Foresees f (x.read lineGrammar limit call) o (x.foresee known o))
    (second : ∀ o, Foresees f (y.read lineGrammar limit call) o (y.foresee known o)) :
    Foresees f ((Peg.seq x y).read lineGrammar limit call) o ((Peg.seq x y).foresee known o) := by
  refine first.andThen ?_ ?_
  · intro none offset a
    obtain ⟨a', e⟩ := none offset a
    exact ⟨a', by rw [Peg.read, e]⟩
  · intro b first
    refine (second (Outline.skip b.2)).andThen ?_ ?_
    · intro none offset a
      obtain ⟨offset₁, trees, a₁, e, -⟩ := first offset a
      obtain ⟨offset₂, skip⟩ := skip_fill fits b.2 offset₁
      obtain ⟨a₂, e₂⟩ := none offset₂ a₁
      exact ⟨a₂, by rw [Peg.read, e]; simp only [skip, e₂]⟩
    · intro d second offset a
      obtain ⟨offset₁, trees₁, a₁, e₁, shown₁⟩ := first offset a
      obtain ⟨offset₂, skip⟩ := skip_fill fits b.2 offset₁
      obtain ⟨offset₃, trees₂, a₂, e₂, shown₂⟩ := second offset₂ a₁
      exact ⟨offset₃, trees₁ ++ trees₂, a₂, by rw [Peg.read, e₁]; simp only [skip, e₂],
        shown₁.append shown₂⟩

/-- The second choice is foreseen where the first one is refused. -/
theorem Foresees.alt {o : Outline}
    (first : Foresees f (x.read lineGrammar limit call) o (x.foresee known o))
    (second : Foresees f (y.read lineGrammar limit call) o (y.foresee known o)) :
    Foresees f ((Peg.alt x y).read lineGrammar limit call) o ((Peg.alt x y).foresee known o) := by
  refine first.orElse ?_ ?_
  · intro b some offset a
    obtain ⟨offset', trees, a', e, shown⟩ := some offset a
    exact ⟨offset', trees, a', by rw [Peg.read, e], shown⟩
  · intro none
    unfold Foresees at second
    generalize y.foresee known o = z at second ⊢
    cases z with
    | unknown => trivial
    | refused =>
      intro offset a
      obtain ⟨a₁, e₁⟩ := none offset a
      obtain ⟨a₂, e₂⟩ := second offset a₁
      exact ⟨a₂, by rw [Peg.read, e₁]; exact e₂⟩
    | accepted b =>
      intro offset a
      obtain ⟨a₁, e₁⟩ := none offset a
      obtain ⟨offset', trees, a₂, e₂, shown⟩ := second offset a₁
      exact ⟨offset', trees, a₂, by rw [Peg.read, e₁]; exact e₂, shown⟩

/-- A repetition is foreseen if it stops before its second item. -/
theorem Foresees.many (fits : Fitting f)
    (item : ∀ o, Foresees f (x.read lineGrammar limit call) o (x.foresee known o)) (o : Outline) :
    Foresees f ((Peg.many x).read lineGrammar limit call) o ((Peg.many x).foresee known o) := by
  have once := item o
  unfold Foresees at once ⊢
  unfold Peg.foresee
  generalize x.foresee known o = z at once ⊢
  cases z with
  | unknown => trivial
  | refused =>
    intro offset a
    obtain ⟨a', e⟩ := once offset a
    exact ⟨offset, [], a', by rw [Peg.read, e], .nil⟩
  | accepted b =>
    have again := item (Outline.skip b.2)
    unfold Foresees at again
    simp only
    generalize x.foresee known (Outline.skip b.2) = z at again ⊢
    cases z with
    | unknown => trivial
    | accepted d => trivial
    | refused =>
      intro offset a
      obtain ⟨offset₁, trees, a₁, e₁, shown⟩ := once offset a
      obtain ⟨offset₂, skip⟩ := skip_fill fits b.2 offset₁
      obtain ⟨a₂, e₂⟩ := again offset₂ a₁
      cases limit with
      | zero => exact ⟨offset₁, trees ++ [], a₁, by rw [Peg.read, e₁]; rfl, by simpa using shown⟩
      | succ limit =>
        exact ⟨offset₁, trees ++ [], a₂,
          by rw [Peg.read, e₁]; simp only [readMany, skip, e₂], by simpa using shown⟩

/-- A forecast for an expression holds for every filling, if the forecasts of phrases do. -/
theorem Peg.foresee_holds (fits : Fitting f)
    (phrases : ∀ p o, Foresees f (call p) o (known p o)) (x : LineExpr) (o : Outline) :
    Foresees f (x.read lineGrammar limit call) o (x.foresee known o) := by
  induction x generalizing o with
  | text t =>
    refine (foreseeText_holds fits t o).andThen ?_ ?_
    · intro none offset a
      exact ⟨a, by rw [read]; simp only [none]⟩
    · intro rest some offset a
      exact ⟨_, _, a, by rw [read]; simp only [some]; rfl, .nil⟩
  -- A lookahead looks at patterns only, so the forecast of the pattern is turned around.
  | absent p =>
    have inner := p.foresee_holds fits o
    unfold foresee
    generalize p.foresee o = x at inner ⊢
    cases x with
    | unknown => trivial
    | refused =>
      intro offset a
      exact ⟨_, _, a, by rw [read, show p.scan (fill f o) = none from inner]; rfl, .nil⟩
    | accepted b =>
      intro offset a
      exact ⟨a, by rw [read, show p.scan (fill f o) = some _ from inner]; rfl⟩
  | token t =>
    refine (t.foresee_holds fits o).andThen ?_ ?_
    · intro none offset a
      exact ⟨_, by rw [read, show lineGrammar.pattern t = t.pattern from rfl]; simp only [none]; rfl⟩
    · intro b some offset a
      exact ⟨_, _, a, by rw [read]; simp only [lineGrammar, some]; rfl, .cons .token .nil⟩
  | phrase p => exact phrases p o
  | seq x y ihx ihy => exact .seq fits (ihx o) ihy
  | alt x y ihx ihy => exact .alt (ihx o) (ihy o)
  | opt x ih =>
    refine (ih o).orElse ?_ ?_
    · intro b some offset a
      obtain ⟨offset', trees, a', e, shown⟩ := some offset a
      exact ⟨offset', trees, a', by rw [read, e], shown⟩
    · intro none offset a
      obtain ⟨a', e⟩ := none offset a
      exact ⟨offset, [], a', by rw [read, e], .nil⟩
  | many x ih => exact .many fits ih o

end Expressions

/-- A forecast for a phrase holds for every filling and for every deeper nesting. -/
theorem foreseePhrase_holds (fits : Fitting f) (limit : Nat) {fuel depth : Nat}
    (enough : fuel ≤ depth) (p : PhraseName) (o : Outline) :
    Foresees f (lineGrammar.read limit depth p) o (foreseePhrase fuel p o) := by
  induction fuel generalizing depth p o with
  | zero => trivial
  | succ fuel ih =>
    obtain ⟨depth, rfl⟩ : ∃ n, depth = n + 1 := ⟨depth - 1, by omega⟩
    have body : Foresees f ((LineGrammar.body p).read lineGrammar limit (lineGrammar.read limit depth))
        o ((LineGrammar.body p).foresee (foreseePhrase fuel) o) :=
      (LineGrammar.body p).foresee_holds fits (fun p o => ih (by omega) p o) o
    refine body.andThen ?_ ?_
    · intro none offset a
      obtain ⟨a', e⟩ := none offset a
      exact ⟨_, by rw [Grammar.read, show lineGrammar.body p = LineGrammar.body p from rfl, e]⟩
    · intro b some offset a
      obtain ⟨offset', trees, a', e, shown⟩ := some offset a
      exact ⟨offset', _, a',
        by rw [Grammar.read, show lineGrammar.body p = LineGrammar.body p from rfl, e],
        .cons (.phrase shown) .nil⟩

end Filled

end BlockEditor
