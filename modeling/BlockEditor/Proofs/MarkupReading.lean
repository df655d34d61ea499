import BlockEditor.Block.Markup
import Mathlib.Data.List.Basic
import Mathlib.Tactic.SplitIfs

/-!
# Reading markup

A reader for marked-up text that knows nothing of blocks: it cuts the text at its angle brackets,
undoes the references `&amp;`, `&lt;`, `&gt;`, `&quot;`, `&apos;` and `&#10;`, and matches closing
tags with opening ones.  The pieces that markup is written from are read as what they were written
for, whatever the texts in them are (`Reads`), and marks of nodes are read as the nodes.
-/

namespace BlockEditor

namespace Markup

/-! ## Marks -/

/-- A tag or a text between tags. -/
inductive Mark where
  | opening (name : List Char) (label : Option (List Char × List Char))
  | closing (name : List Char)
  | text (content : List Char)

/-- The character a reference stands for. -/
def referent? (name : List Char) : Option Char :=
  if name = "amp".toList then some '&'
  else if name = "lt".toList then some '<'
  else if name = "gt".toList then some '>'
  else if name = "quot".toList then some '"'
  else if name = "apos".toList then some '\''
  else if name = "#10".toList then some '\n'
  else none

/-- Undoes the references in a text.  Inside of one, its name so far is kept, the last character
first. -/
def undo? : Option (List Char) → List Char → Option (List Char)
  | none, [] => some []
  | some _, [] => none
  | none, c :: cs => if c = '&' then undo? (some []) cs else (undo? none cs).map (c :: ·)
  | some name, c :: cs =>
    if c = ';' then (referent? name.reverse).bind fun r => (undo? none cs).map (r :: ·)
    else undo? (some (c :: name)) cs

/-- A text with its references undone. -/
def unescape? (cs : List Char) : Option (List Char) := undo? none cs

/-- What stands in front of the first `stop`, and what stands behind it. -/
def cut? (stop : Char) : List Char → Option (List Char × List Char)
  | [] => none
  | c :: cs =>
    if c = stop then some ([], cs) else (cut? stop cs).map fun (front, back) => (c :: front, back)

/-- Whether a text is the name of an element or of an attribute. -/
def isName (cs : List Char) : Bool := !cs.isEmpty && cs.all Char.isAlpha

/-- A text in double quotes, with its references undone. -/
def quoted? : List Char → Option (List Char)
  | [] => none
  | c :: cs =>
    if c = '"' then (cut? '"' cs).bind fun (value, back) =>
      if back = [] then unescape? value else none
    else none

/-- The tag with the given text between its brackets. -/
def tag? (cs : List Char) : Option Mark :=
  match cs with
  | [] => none
  | c :: name =>
    if c = '/' then if isName name then some (.closing name) else none
    else match cut? ' ' cs with
      | none => if isName cs then some (.opening cs none) else none
      | some (name, back) =>
        (cut? '=' back).bind fun (attr, back) => (quoted? back).bind fun value =>
          if isName name && isName attr then some (.opening name (some (attr, value))) else none

/-- The mark for a text between tags. -/
def textMarks (content : List Char) : List Mark := if content = [] then [] else [.text content]

mutual

/-- The marks of a text from between two tags on.  `pending` is the text since the last tag, the
last character first. -/
def readText (pending : List Char) : List Char → Option (List Mark)
  | [] => (unescape? pending.reverse).map textMarks
  | c :: cs =>
    if c = '<' then (unescape? pending.reverse).bind fun content =>
      (readTag [] cs).map (textMarks content ++ ·)
    else readText (c :: pending) cs

/-- The marks of a text from inside of a tag on. -/
def readTag (pending : List Char) : List Char → Option (List Mark)
  | [] => none
  | c :: cs =>
    if c = '>' then (tag? pending.reverse).bind fun tag => (readText [] cs).map (tag :: ·)
    else if c = '<' then none
    else readTag (c :: pending) cs

end

/-- The marks of a text. -/
def readMarks (cs : List Char) : Option (List Mark) := readText [] cs

/-! ## References -/

/-- An escaped character is read as the character. -/
theorem undo?_escapeChar (c : Char) (cs : List Char) :
    undo? none (escapeChar c ++ cs) = (undo? none cs).map (c :: ·) := by
  unfold escapeChar
  split_ifs with amp lt gt quot apos lineFeed
  · subst amp; rfl
  · subst lt; rfl
  · subst gt; rfl
  · subst quot; rfl
  · subst apos; rfl
  · subst lineFeed; rfl
  · rw [List.singleton_append, undo?, if_neg amp]

/-- An escaped text is read as the text. -/
theorem unescape?_escape (cs : List Char) : unescape? (escape cs) = some cs := by
  unfold unescape? escape
  induction cs with
  | nil => rfl
  | cons c cs ih => rw [List.flatMap_cons, undo?_escapeChar, ih, Option.map_some]

/-- Nothing that could end a text or a tag stands in an escaped text. -/
theorem not_mem_escape {c : Char} (special : c = '<' ∨ c = '>' ∨ c = '"') (cs : List Char) :
    c ∉ escape cs := by
  have each : ∀ d, c ∉ escapeChar d := by
    intro d
    unfold escapeChar
    split_ifs with amp lt gt quot apos lineFeed
    case neg =>
      rw [List.mem_singleton]
      rintro rfl
      rcases special with same | same | same
      · exact lt same
      · exact gt same
      · exact quot same
    all_goals rcases special with rfl | rfl | rfl <;> decide
  intro member
  obtain ⟨d, -, inside⟩ := List.mem_flatMap.1 member
  exact each d inside

/-! ## Tags -/

/-- A text is cut at the first `stop`. -/
theorem cut?_append {stop : Char} {front : List Char} (free : stop ∉ front) (back : List Char) :
    cut? stop (front ++ stop :: back) = some (front, back) := by
  induction front with
  | nil => rw [List.nil_append, cut?, if_pos rfl]
  | cons c front ih =>
    obtain ⟨other, free⟩ := not_or.1 (List.mem_cons.not.1 free)
    rw [List.cons_append, cut?, if_neg (Ne.symm other), ih free, Option.map_some]

/-- A text without a `stop` is not cut. -/
theorem cut?_of_not_mem {stop : Char} {cs : List Char} (free : stop ∉ cs) :
    cut? stop cs = none := by
  induction cs with
  | nil => rfl
  | cons c cs ih =>
    obtain ⟨other, free⟩ := not_or.1 (List.mem_cons.not.1 free)
    rw [cut?, if_neg (Ne.symm other), ih free, Option.map_none]

/-- A name holds letters only. -/
theorem not_mem_of_isName {name : List Char} (named : isName name) {c : Char}
    (other : c.isAlpha = false) : c ∉ name := by
  intro member
  have letter := List.all_eq_true.1 (Bool.and_eq_true_iff.1 named).2 c member
  rw [other] at letter
  cases letter

/-- A name begins with a letter. -/
theorem exists_cons_of_isName {name : List Char} (named : isName name) :
    ∃ c cs, name = c :: cs ∧ c ≠ '/' := by
  cases name with
  | nil => cases named
  | cons c cs =>
    refine ⟨c, cs, rfl, ?_⟩
    rintro rfl
    exact not_mem_of_isName named (by decide) List.mem_cons_self

/-- A name behind a slash is a closing tag. -/
theorem tag?_closing {name : List Char} (named : isName name) :
    tag? ('/' :: name) = some (.closing name) := by
  rw [tag?, if_pos rfl, if_pos named]

/-- A name alone is a tag that opens. -/
theorem tag?_bare {name : List Char} (named : isName name) :
    tag? name = some (.opening name none) := by
  obtain ⟨c, cs, rfl, other⟩ := exists_cons_of_isName named
  rw [tag?, if_neg other, cut?_of_not_mem (not_mem_of_isName named (by decide))]
  exact if_pos named

/-- A value is read from between its quotes. -/
theorem quoted?_escape (value : List Char) :
    quoted? ('"' :: (escape value ++ ['"'])) = some value := by
  rw [quoted?, if_pos rfl, cut?_append (not_mem_escape (.inr (.inr rfl)) value), Option.bind_some]
  exact unescape?_escape value

/-- A name with an attribute is a tag that opens. -/
theorem tag?_opening {name attr : List Char} (named : isName name) (called : isName attr)
    (value : List Char) :
    tag? (name ++ ' ' :: (attr ++ '=' :: '"' :: (escape value ++ ['"']))) =
      some (.opening name (some (attr, value))) := by
  have space := not_mem_of_isName named (c := ' ') (by decide)
  have equals := not_mem_of_isName called (c := '=') (by decide)
  have first := cut?_append space (attr ++ '=' :: '"' :: (escape value ++ ['"']))
  obtain ⟨c, cs, rfl, other⟩ := exists_cons_of_isName named
  rw [List.cons_append] at first ⊢
  rw [tag?, if_neg other, first]
  dsimp only
  rw [cut?_append equals, Option.bind_some]
  dsimp only
  rw [quoted?_escape, Option.bind_some, named, called]
  rfl

/-! ## Pieces of a text -/

/-- What stands between two brackets is read as a tag. -/
theorem readTag_append {inner : List Char} (begins : '<' ∉ inner) (ends : '>' ∉ inner)
    (pending rest : List Char) :
    readTag pending (inner ++ '>' :: rest) = (tag? (pending.reverse ++ inner)).bind fun tag =>
      (readText [] rest).map (tag :: ·) := by
  induction inner generalizing pending with
  | nil => rw [List.nil_append, readTag, if_pos rfl, List.append_nil]
  | cons c inner ih =>
    obtain ⟨noStart, begins⟩ := not_or.1 (List.mem_cons.not.1 begins)
    obtain ⟨noEnd, ends⟩ := not_or.1 (List.mem_cons.not.1 ends)
    rw [List.cons_append, readTag, if_neg (Ne.symm noEnd), if_neg (Ne.symm noStart),
      ih begins ends, List.reverse_cons, List.append_assoc, List.singleton_append]

/-- What stands in front of a tag is read as a text. -/
theorem readText_append {front : List Char} (free : '<' ∉ front) (pending rest : List Char) :
    readText pending (front ++ '<' :: rest) =
      (unescape? (pending.reverse ++ front)).bind fun content =>
        (readTag [] rest).map (textMarks content ++ ·) := by
  induction front generalizing pending with
  | nil => rw [List.nil_append, readText, if_pos rfl, List.append_nil]
  | cons c front ih =>
    obtain ⟨other, free⟩ := not_or.1 (List.mem_cons.not.1 free)
    rw [List.cons_append, readText, if_neg (Ne.symm other), ih free, List.reverse_cons,
      List.append_assoc, List.singleton_append]

/-- No text stands in front of a tag that comes first. -/
theorem readText_bracket (rest : List Char) : readText [] ('<' :: rest) = readTag [] rest := by
  rw [readText, if_pos rfl]
  exact Option.map_id' (x := readTag [] rest)

/-- An escaped text in front of a tag is read as the text. -/
theorem readText_escape (content rest : List Char) :
    readText [] (escape content ++ '<' :: rest) =
      (readText [] ('<' :: rest)).map (textMarks content ++ ·) := by
  rw [readText_append (not_mem_escape (.inl rfl) content), List.reverse_nil, List.nil_append,
    unescape?_escape, Option.bind_some, readText_bracket]

/-- A piece of a text is read as marks, whatever stands behind it. -/
def Reads (cs : List Char) (marks : List Mark) : Prop :=
  ∀ rest, readText [] (cs ++ rest) = (readText [] rest).map (marks ++ ·)

theorem Reads.nil : Reads [] [] := by
  intro rest
  rw [List.nil_append]
  exact (Option.map_id' (x := readText [] rest)).symm

/-- Pieces that are read one by one are read together. -/
theorem Reads.append {cs ds : List Char} {marks others : List Mark} (first : Reads cs marks)
    (second : Reads ds others) : Reads (cs ++ ds) (marks ++ others) := by
  intro rest
  rw [List.append_assoc, first, second, Option.map_map]
  exact congrArg (Option.map · _) (funext fun _ => (List.append_assoc _ _ _).symm)

/-- All marks of a text that is one piece. -/
theorem Reads.readMarks {cs : List Char} {marks : List Mark} (h : Reads cs marks) :
    readMarks cs = some marks := by
  have whole := h []
  rw [List.append_nil] at whole
  rw [Markup.readMarks, whole]
  exact congrArg some (List.append_nil marks)

theorem Reads.flatMap {α : Type} {f : α → List Char} {g : α → List Mark}
    (each : ∀ a, Reads (f a) (g a)) (as : List α) : Reads (as.flatMap f) (as.flatMap g) := by
  induction as with
  | nil => exact .nil
  | cons a as ih => rw [List.flatMap_cons, List.flatMap_cons]; exact (each a).append ih

/-- A text between brackets is read as a tag. -/
theorem reads_tag {inner : List Char} {tag : Mark} (begins : '<' ∉ inner) (ends : '>' ∉ inner)
    (read : tag? inner = some tag) : Reads ('<' :: (inner ++ ['>'])) [tag] := by
  intro rest
  rw [List.cons_append, List.append_assoc, List.singleton_append, readText_bracket,
    readTag_append begins ends, List.reverse_nil, List.nil_append, read, Option.bind_some]
  rfl

section Elements

variable {name attr : String} (named : isName name.toList)
include named

/-- A closing tag is read as one. -/
theorem reads_closeTag : Reads (closeTag name) [.closing name.toList] := by
  have free : ∀ c : Char, c.isAlpha = false → c ≠ '/' → c ∉ '/' :: name.toList :=
    fun c other differs => List.mem_cons.not.2 (not_or.2 ⟨differs, not_mem_of_isName named other⟩)
  exact reads_tag (free '<' (by decide) (by decide)) (free '>' (by decide) (by decide))
    (tag?_closing named)

theorem reads_bareTag : Reads (bareTag name) [.opening name.toList none] :=
  reads_tag (not_mem_of_isName named (by decide)) (not_mem_of_isName named (by decide))
    (tag?_bare named)

theorem reads_openTag (called : isName attr.toList) (value : List Char) :
    Reads (openTag name attr value) [.opening name.toList (some (attr.toList, value))] := by
  have free : ∀ c : Char, c.isAlpha = false → c ∉ [' ', '=', '"'] → c ∉ escape value →
      c ∉ name.toList ++ ' ' :: (attr.toList ++ '=' :: '"' :: (escape value ++ ['"'])) := by
    intro c other differs inside
    have first := not_mem_of_isName named other
    have second := not_mem_of_isName called other
    simp_all
  have read := reads_tag (free '<' (by decide) (by decide) (not_mem_escape (.inl rfl) value))
    (free '>' (by decide) (by decide) (not_mem_escape (.inr (.inl rfl)) value))
    (tag?_opening named called value)
  have same : openTag name attr value = '<' :: (name.toList ++ ' ' :: (attr.toList ++ '=' :: '"' ::
      (escape value ++ ['"'])) ++ ['>']) := by
    simp [openTag]
  rw [same]
  exact read

/-- A text in front of a closing tag. -/
theorem reads_text (content : List Char) :
    Reads (escape content ++ closeTag name) (textMarks content ++ [.closing name.toList]) := by
  intro rest
  have close := reads_closeTag named rest
  rw [closeTag, List.cons_append, List.cons_append] at close
  rw [List.append_assoc, closeTag, List.cons_append, List.cons_append, readText_escape, close,
    Option.map_map]
  exact congrArg (Option.map · _) (funext fun _ => (List.append_assoc _ _ _).symm)

end Elements

/-! ## Nodes -/

/-- An element with what stands in it, or a text. -/
inductive Node where
  | element (name : List Char) (label : Option (List Char × List Char)) (content : List Node)
  | text (content : List Char)

/-- Marks in which every opening tag has its closing tag, one pair inside of another or behind
it. -/
inductive Balanced : List Mark → Prop where
  | nil : Balanced []
  | text {marks : List Mark} (content : List Char) (rest : Balanced marks) :
    Balanced (.text content :: marks)
  | element {inner marks : List Mark} (name : List Char) (label : Option (List Char × List Char))
    (inside : Balanced inner) (rest : Balanced marks) :
    Balanced (.opening name label :: (inner ++ .closing name :: marks))

/-- Finds the pairs of tags.  `nodes` is what stands in the innermost open element so far and
`outer` has a name, an attribute and what stands in front for each open element, the last first. -/
def nest? (outer : List (List Char × Option (List Char × List Char) × List Node))
    (nodes : List Node) : List Mark → Option (List Node)
  | [] => if outer.isEmpty then some nodes.reverse else none
  | .text content :: marks => nest? outer (.text content :: nodes) marks
  | .opening name label :: marks => nest? ((name, label, nodes) :: outer) [] marks
  | .closing name :: marks =>
    match outer with
    | [] => none
    | (opened, label, front) :: outer =>
      if name = opened then nest? outer (.element name label nodes.reverse :: front) marks else none

namespace Node

mutual

/-- The marks of a node. -/
def marks : Node → List Mark
  | element name label content => .opening name label :: (marksOf content ++ [.closing name])
  | text content => [.text content]

/-- The marks of nodes one behind another. -/
def marksOf : List Node → List Mark
  | [] => []
  | n :: ns => marks n ++ marksOf ns

end

/-- The marks of nodes side by side stand side by side. -/
theorem marksOf_append (ns ms : List Node) : marksOf (ns ++ ms) = marksOf ns ++ marksOf ms := by
  induction ns with
  | nil => rfl
  | cons n ns ih => rw [List.cons_append, marksOf, ih, marksOf, List.append_assoc]

mutual

/-- Marks of a node are read as the node. -/
theorem nest?_marks : ∀ (n : Node) (outer : List (List Char × Option (List Char × List Char) ×
      List Node)) (nodes : List Node) (rest : List Mark),
    nest? outer nodes (n.marks ++ rest) = nest? outer (n :: nodes) rest
  | element name label content, outer, nodes, rest => by
    rw [marks, List.cons_append, nest?, List.append_assoc, List.singleton_append,
      nest?_marksOf content, nest?, if_pos rfl, List.append_nil, List.reverse_reverse]
  | text content, outer, nodes, rest => by rw [marks, List.singleton_append, nest?]

/-- Marks of nodes are read as the nodes, the last one first. -/
theorem nest?_marksOf : ∀ (ns : List Node) (outer : List (List Char × Option (List Char ×
      List Char) × List Node)) (nodes : List Node) (rest : List Mark),
    nest? outer nodes (marksOf ns ++ rest) = nest? outer (ns.reverse ++ nodes) rest
  | [], _, _, _ => rfl
  | n :: ns, outer, nodes, rest => by
    rw [marksOf, List.append_assoc, nest?_marks n, nest?_marksOf ns, List.reverse_cons,
      List.append_assoc, List.singleton_append]

end

mutual

/-- The tags of a node are balanced, in front of balanced ones. -/
theorem balanced_marks_append : ∀ (n : Node) {rest : List Mark}, Balanced rest →
    Balanced (n.marks ++ rest)
  | element name label content, rest, h => by
    have inner := balanced_marksOf_append content .nil
    rw [List.append_nil] at inner
    rw [marks, List.cons_append, List.append_assoc, List.singleton_append]
    exact .element name label inner h
  | text content, rest, h => .text content h

theorem balanced_marksOf_append : ∀ (ns : List Node) {rest : List Mark}, Balanced rest →
    Balanced (marksOf ns ++ rest)
  | [], _, h => h
  | n :: ns, rest, h => by
    rw [marksOf, List.append_assoc]
    exact balanced_marks_append n (balanced_marksOf_append ns h)

end

end Node

end Markup

end BlockEditor
