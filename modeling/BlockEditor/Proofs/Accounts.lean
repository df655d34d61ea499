import BlockEditor.Proofs.RunPlaces
import BlockEditor.Proofs.Translated

/-!
# Accounts of translations

Nothing disappears when a program is translated into blocks: every statement that is reached has a
block at its place or is recorded as left out, every ignored `else` part is recorded too, and the
records stand in the order of the source.
-/

namespace BlockEditor

/-! ## Accounts -/

namespace Stmt

/-- The kind of the block that a statement has if it is kept. -/
def blockKind? : Stmt → Option String
  | .expr .. => some BlockKind.print
  | .assign .. => some BlockKind.assign
  | .branch .. => some BlockKind.branch
  | .forLoop _ false .. => some BlockKind.loop
  | _ => none

/-- The body of a statement whose block has one. -/
def bodyPart : Stmt → List Stmt
  | .branch _ _ body _ | .forLoop _ _ _ _ body _ => body
  | _ => []

/-- The `else` part of a statement whose block has a body. -/
def elsePart : Stmt → List Stmt
  | .branch _ _ _ orelse | .forLoop _ _ _ _ _ orelse => orelse
  | _ => []

/-- The record of the `else` part of a kept statement, from its first statement to its last one. -/
def elseEntries (s : Stmt) : List Dropped :=
  match s.elsePart with
  | [] => []
  | first :: rest =>
    [⟨⟨first.span.start, (rest.getLast?.getD first).span.stop⟩, s.form, .ignoredElse⟩]

end Stmt

/-- Blocks and records account for neighbouring statements.  A statement is recorded and not looked
into, or it is kept: then its block stands at its place, the blocks in it account for its body, and
the record of its `else` part follows those of its body. -/
inductive Accounted : List Stmt → List Block → List Dropped → Prop
  | nil : Accounted [] [] []
  | dropped {s : Stmt} {reason : DropReason} {rest : List Stmt} {blocks : List Block}
      {entries : List Dropped} : reason ≠ .ignoredElse → Accounted rest blocks entries →
      Accounted (s :: rest) blocks (⟨s.span, s.form, reason⟩ :: entries)
  | kept {s : Stmt} {b : Block} {rest : List Stmt} {blocks : List Block}
      {inner entries : List Dropped} : s.blockKind? = some b.kind →
      (∀ slot ∈ b.values, slot.2.IsPlain) →
      Accounted s.bodyPart (b.statements.flatMap Prod.snd) inner → Accounted rest blocks entries →
      Accounted (s :: rest) (b :: blocks) (inner ++ s.elseEntries ++ entries)

/-! ## Order of the records -/

/-- The parts of a statement that has a block stand one behind the other in it. -/
theorem Stmt.Placed.parts_of_blockKind? {source : List Char} {s : Stmt} {kind : String}
    (h : s.Placed source) (isKind : s.blockKind? = some kind) :
    AllPlaced source s.span.start s.span.stop (s.bodyPart ++ s.elsePart) := by
  have same : s.inner = s.bodyPart ++ s.elsePart := by
    cases s with
    | expr | assign | branch | forLoop => rfl
    | _ => cases isKind
  rw [← same]
  cases h with
  | intro _ _ _ laid placed => exact ⟨laid, placed⟩

/-- Records stand in a source one behind the other between two offsets. -/
structure AllRecorded (source : List Char) (low high : Nat) (entries : List Dropped) : Prop where
  laid : Laid Dropped.span low high entries
  covers : ∀ d ∈ entries, d.span.Covers source

namespace AllRecorded

variable {source : List Char} {low mid high : Nat} {entries more : List Dropped}

theorem nil (le : low ≤ high) : AllRecorded source low high [] :=
  ⟨.nil le, List.forall_mem_nil _⟩

/-- Records up to an offset and records behind it are records in order. -/
theorem append (front : AllRecorded source low mid entries)
    (back : AllRecorded source mid high more) : AllRecorded source low high (entries ++ more) :=
  ⟨front.laid.append back.laid, List.forall_mem_append.2 ⟨front.covers, back.covers⟩⟩

/-- One record stands between any two offsets around it. -/
theorem single {d : Dropped} (covers : d.span.Covers source) (start : low ≤ d.span.start)
    (stop : d.span.stop ≤ high) : AllRecorded source low high [d] :=
  ⟨.single start (Nat.le_of_lt covers.2.2) stop, List.forall_mem_singleton.2 covers⟩

/-- Records in order begin at growing offsets, each of them behind the one in front of it. -/
theorem pairwise (h : AllRecorded source low high entries) : entries.Pairwise fun a b =>
    a.span.start < b.span.start ∧ a.span.stop ≤ b.span.start :=
  h.laid.pairwise.imp_of_mem fun member _ behind =>
    ⟨Nat.lt_of_lt_of_le (h.covers _ member).2.2 behind, behind⟩

end AllRecorded

/-- The record of an `else` part covers the part. -/
theorem Stmt.allRecorded_elseEntries {source : List Char} {s : Stmt} {low high : Nat}
    (h : AllPlaced source low high s.elsePart) : AllRecorded source low high s.elseEntries := by
  unfold elseEntries
  cases e : s.elsePart with
  | nil =>
    rw [e] at h
    exact .nil h.laid.le
  | cons first rest =>
    rw [e] at h
    have final : (first :: rest).getLast? = some (rest.getLast?.getD first) := List.getLast?_cons
    have begins := h.placed first List.mem_cons_self
    have ends := h.placed _ (List.mem_of_getLast? final)
    have stops := (h.laid.within_ends first List.mem_cons_self).2
    refine .single ⟨begins.covers.1, ends.covers.2.1, ?_⟩ ?_ ?_
    · exact Nat.lt_of_lt_of_le begins.covers.2.2 stops
    · exact (h.laid.within first List.mem_cons_self).1
    · exact (h.laid.within _ (List.mem_of_getLast? final)).2

/-- The records of placed statements stand in the order of the statements. -/
theorem Accounted.allRecorded {source : List Char} {ss : List Stmt} {blocks : List Block}
    {entries : List Dropped} (h : Accounted ss blocks entries) {low high : Nat}
    (placed : AllPlaced source low high ss) : AllRecorded source low high entries := by
  induction h generalizing low high with
  | nil => exact .nil placed.laid.le
  | dropped _ _ ih =>
    obtain ⟨here, others⟩ := List.forall_mem_cons.1 placed.placed
    cases placed.laid with
    | cons start _ rest =>
      exact (AllRecorded.single here.covers start (Nat.le_refl _)).append (ih ⟨rest, others⟩)
  | kept kind _ _ _ ihBody ihRest =>
    obtain ⟨here, others⟩ := List.forall_mem_cons.1 placed.placed
    obtain ⟨mid, body, orelse⟩ := (here.parts_of_blockKind? kind).split
    cases placed.laid with
    | cons start _ rest =>
      -- first the records of the body, then that of the `else` part behind it
      have inside := (ihBody body).append (Stmt.allRecorded_elseEntries orelse)
      refine AllRecorded.append ?_ (ihRest ⟨rest, others⟩)
      exact ⟨inside.laid.mono start (Nat.le_refl _), inside.covers⟩

/-! ## Blocks of statements -/

/-- A block of a kind that holds no statements, and only literals and names as values. -/
structure Block.Bare (kind : String) (b : Block) : Prop where
  kind : b.kind = kind
  values : ∀ slot ∈ b.values, slot.2.IsPlain
  statements : b.statements = []

namespace Block

variable {b : Block} {kind : String}

theorem bare_ofKind (kind : String) : (ofKind kind).Bare kind :=
  ⟨rfl, List.forall_mem_nil _, rfl⟩

/-- A field does not make a block hold statements or other values. -/
theorem Bare.withField (h : b.Bare kind) (name : String) (v : FieldValue) :
    (b.withField name v).Bare kind := ⟨h.kind, h.values, h.statements⟩

theorem Bare.withValue (h : b.Bare kind) (empty : b.values = []) (name : String)
    {child : Option Block} (plain : ∀ c ∈ child, c.IsPlain) : (b.withValue name child).Bare kind := by
  cases child with
  | none => exact h
  | some c =>
    refine ⟨h.kind, ?_, h.statements⟩
    show ∀ slot ∈ putSlot name c b.values, slot.2.IsPlain
    rw [empty]
    exact List.forall_mem_singleton.2 (plain c rfl)

/-- The statements in a block that got a body are those of the body. -/
theorem Bare.statements_withStatements (h : b.Bare kind) (name : String) (body : List Block) :
    (b.withStatements name body).statements.flatMap Prod.snd = body := by
  show (putSlot name body b.statements).flatMap Prod.snd = body
  rw [h.statements]
  exact List.append_nil body

end Block

namespace Stmt

/-- What becomes of a statement without a body: a bare block, or a reason other than that an `else`
part is ignored. -/
def BareOrDropped (kind : String) : Except DropReason Block → Prop :=
  Meets (· ≠ .ignoredElse) (Block.Bare kind)

/-- A call is a bare block or is left out. -/
theorem bareOrDropped_callBlock (e : Expr) : BareOrDropped BlockKind.print (callBlock e) := by
  unfold callBlock
  split
  · split
    · unfold printBlock
      split
      · exact nofun
      · split
        · exact (Block.bare_ofKind _).withValue rfl _ Expr.isPlain_of_block?
        · exact nofun
    · exact nofun
  · exact nofun

theorem bareOrDropped_assignBlock (targets : List Expr) (value : Expr) :
    BareOrDropped BlockKind.assign (assignBlock targets value) := by
  unfold assignBlock
  split
  · split
    · exact ((Block.bare_ofKind _).withField _ _).withValue rfl _ Expr.isPlain_of_block?
    · exact nofun
  · exact nofun

/-- Where a bound cannot be counted, the reason is none about an `else` part. -/
theorem ne_ignoredElse_of_rangeBound (iter : Expr) :
    Meets (· ≠ DropReason.ignoredElse) (fun _ => True) iter.rangeBound := by
  unfold Expr.rangeBound
  split
  · split
    · split
      · split
        · trivial
        · exact nofun
      · exact nofun
      · exact nofun
    · exact nofun
  · exact nofun

/-- The block of a loop is bare as long as it has no body. -/
theorem bareOrDropped_loopBlock (target iter : Expr) :
    BareOrDropped BlockKind.loop (loopBlock target iter) := by
  unfold loopBlock
  split
  · exact nofun
  · exact (ne_ignoredElse_of_rangeBound iter).map fun bound _ =>
      ((Block.bare_ofKind _).withField _ _).withField _ _

/-! ## Statements of a program -/

/-- What becomes of a statement: a record, or a block that accounts for it. -/
def AccountedFor (s : Stmt) (x : Option Block × List Dropped) : Prop :=
  (∃ reason, x = (none, [s.dropped reason]) ∧ reason ≠ .ignoredElse) ∨
    ∃ b inner, x = (some b, inner ++ s.elseEntries) ∧ s.blockKind? = some b.kind ∧
      (∀ slot ∈ b.values, slot.2.IsPlain) ∧ Accounted s.bodyPart (b.statements.flatMap Prod.snd) inner

/-- A statement without a body is accounted for by its bare block or by one record. -/
theorem accountedFor_keep {s : Stmt} {kind : String} {r : Except DropReason Block}
    (isKind : s.blockKind? = some kind) (body : s.bodyPart = []) (orelse : s.elsePart = [])
    (h : BareOrDropped kind r) : s.AccountedFor (s.keep r) := by
  cases r with
  | error reason => exact .inl ⟨reason, rfl, h⟩
  | ok b =>
    refine .inr ⟨b, [], ?_, ?_, h.values, ?_⟩
    · rw [elseEntries, orelse]
      rfl
    · rw [isKind, h.kind]
    · rw [body, h.statements]
      exact .nil

/-- The record of an `else` part goes from its first statement to its last one. -/
theorem droppedElse_eq {s : Stmt} {low high : Nat} (laid : Laid Stmt.span low high s.elsePart) :
    s.droppedElse s.elsePart = s.elseEntries := by
  unfold droppedElse elseEntries
  cases e : s.elsePart with
  | nil => rfl
  | cons first rest =>
    rw [e] at laid
    have final : (first :: rest).getLast? = some (rest.getLast?.getD first) := List.getLast?_cons
    -- the statements between lie within the first and the last one
    have starts := (laid.within_ends _ (List.mem_of_getLast? final)).1
    have stops := (laid.within_ends first List.mem_cons_self).2
    rw [final, List.head?_cons]
    dsimp only
    rw [Span.join, Nat.min_eq_left starts, Nat.max_eq_right stops]

/-- A statement whose block has a body, with the blocks for the body in it. -/
theorem accountedFor_body {source : List Char} {s : Stmt} {b : Block} {kind : String}
    (isKind : s.blockKind? = some kind) (bare : b.Bare kind) (placed : s.Placed source)
    (body : Accounted s.bodyPart (translateAll s.bodyPart).1 (translateAll s.bodyPart).2) :
    s.AccountedFor (some (b.withStatements Slot.body (translateAll s.bodyPart).1),
      (translateAll s.bodyPart).2 ++ s.droppedElse s.elsePart) := by
  obtain ⟨mid, -, orelse⟩ := (placed.parts_of_blockKind? isKind).split
  rw [droppedElse_eq orelse.laid]
  refine .inr ⟨b.withStatements Slot.body (translateAll s.bodyPart).1, _, rfl, ?_, bare.values, ?_⟩
  · rw [isKind, ← bare.kind]
    rfl
  · rw [bare.statements_withStatements]
    exact body

mutual

/-- Every placed statement is accounted for, by recursion through the bodies. -/
theorem accountedFor_translate {source : List Char} (s : Stmt) (h : s.Placed source) :
    s.AccountedFor (translate s) := by
  cases s with
  | expr _ e => exact accountedFor_keep rfl rfl rfl (bareOrDropped_callBlock e)
  | assign _ targets value =>
    exact accountedFor_keep rfl rfl rfl (bareOrDropped_assignBlock targets value)
  | branch _ test body orelse =>
    have bare := (Block.bare_ofKind BlockKind.branch).withValue rfl Slot.condition
      (Expr.isPlain_of_block? (e := test))
    have inside := List.forall_mem_append.1 h.nested
    exact accountedFor_body rfl bare h (accounted_translateAll body inside.1)
  | forLoop _ isAsync target iter body orelse =>
    cases isAsync with
    | true => exact .inl ⟨.unsupportedForm, rfl, nofun⟩
    | false =>
      have loop := bareOrDropped_loopBlock target iter
      rw [translate]
      cases e : loopBlock target iter with
      | error reason =>
        rw [e] at loop
        exact .inl ⟨reason, rfl, loop⟩
      | ok b =>
        rw [e] at loop
        have inside := List.forall_mem_append.1 h.nested
        exact accountedFor_body rfl loop h (accounted_translateAll body inside.1)
  | _ => exact .inl ⟨.unsupportedForm, rfl, nofun⟩

/-- Neighbouring placed statements are accounted for one by one. -/
theorem accounted_translateAll {source : List Char} (ss : List Stmt)
    (h : ∀ s ∈ ss, s.Placed source) : Accounted ss (translateAll ss).1 (translateAll ss).2 := by
  cases ss with
  | nil => exact .nil
  | cons s ss =>
    obtain ⟨here, others⟩ := List.forall_mem_cons.1 h
    have rest := accounted_translateAll ss others
    rw [translateAll]
    obtain ⟨reason, e, own⟩ | ⟨b, inner, e, kind, plain, body⟩ := accountedFor_translate s here
    · rw [e]
      exact .dropped own rest
    · rw [e]
      exact .kept kind plain body rest

end

end Stmt

/-! ## Translation of sources -/

/-- The document and the records of a translation account for the program that was read, and the
records stand in the order of the source and do not overlap. -/
theorem Source.accounted_of_translate {s : Source} {document : Document} {dropped : List Dropped}
    (h : s.translate = .ok (.blocks document dropped)) :
    ∃ m, s.parse = .ok m ∧ Accounted m.body document.blocks dropped ∧
      (∀ d ∈ dropped, d.span.Covers s.content.toList) ∧
      dropped.Pairwise fun a b => a.span.start < b.span.start ∧ a.span.stop ≤ b.span.start := by
  unfold Source.translate at h
  split at h
  · cases h
  · have read := placed_parseText s.content.toList
    unfold Source.parse reportAs at h ⊢
    cases parsed : parseText s.content.toList with
    | error fault =>
      rw [parsed] at h
      cases h
    | ok m =>
      rw [parsed] at h read
      cases h
      have account := Stmt.accounted_translateAll m.body read.placed
      have recorded := account.allRecorded read
      exact ⟨m, rfl, account, recorded.covers, recorded.pairwise⟩

/-- A loop and a branch in it, both with an `else` part, between statements without a block. -/
def Source.leavesOutParts : Source :=
  ⟨Source.standardInput, "for i in range(2):\n  if i:\n    print(i, i)\n  elif x:\n    y = z = 1\n" ++
    "  else:\n    pass\n  while i: pass\nelse:\n  x = 1\n@d\ndef f(): pass\nprint(x)\n"⟩

/-- What is left out of it. -/
def Source.partsLeftOut : List Dropped :=
  [⟨⟨31, 42⟩, "expression statement", .printArity 2⟩, ⟨⟨45, 83⟩, "if", .ignoredElse⟩,
    ⟨⟨86, 99⟩, "while", .unsupportedForm⟩, ⟨⟨108, 113⟩, "for", .ignoredElse⟩,
    ⟨⟨114, 130⟩, "def", .unsupportedForm⟩]

/-- The two `else` parts and the statements without a block are what is left out. -/
theorem Source.accounted_of_translate_leavesOutParts : ∃ document m,
    leavesOutParts.translate = .ok (.blocks document partsLeftOut) ∧
      leavesOutParts.parse = .ok m ∧ Accounted m.body document.blocks partsLeftOut ∧
      (∀ d ∈ partsLeftOut, d.span.Covers leavesOutParts.content.toList) ∧
      partsLeftOut.Pairwise fun a b => a.span.start < b.span.start ∧ a.span.stop ≤ b.span.start := by
  have computed : (match leavesOutParts.translate with
      | .ok (.blocks _ dropped) => decide (dropped = partsLeftOut)
      | _ => false) = true := by
    decide +kernel
  cases e : leavesOutParts.translate with
  | error d =>
    rw [e] at computed
    cases computed
  | ok t =>
    rw [e] at computed
    cases t with
    | blank => cases computed
    | blocks document dropped =>
      obtain rfl := of_decide_eq_true computed
      obtain ⟨m, parsed, settled⟩ := accounted_of_translate e
      exact ⟨document, m, rfl, parsed, settled⟩

end BlockEditor
