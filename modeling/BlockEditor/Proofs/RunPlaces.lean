import BlockEditor.Machine.Run
import BlockEditor.Proofs.AssemblyPlaces
import BlockEditor.Proofs.Drafts

/-!
# Places of failures

Every failure is reported at a place in the source: of parsing, of compiling, and of running the
program from any state of the machine, also where the run is cancelled.
-/

namespace BlockEditor

variable {source : List Char} {α β : Type} {P : α → Prop} {R : β → Prop}

/-- A failure is reported at a place in a source. -/
def FaultIn (source : List Char) (fault : Fault) : Prop := fault.span.In source

/-! ## Evaluation -/

namespace Traced

/-- A computation fails only at places in a source. -/
def FailsIn (source : List Char) (t : Traced α) : Prop :=
  Meets (FaultIn source) (fun _ => True) t.result

/-- Computations in sequence fail at places in a source if each of them does. -/
theorem FailsIn.bind {t : Traced α} {f : α → Traced β} (first : t.FailsIn source)
    (next : ∀ a, (f a).FailsIn source) : (t >>= f).FailsIn source := by
  show Meets _ _ (t.bind f).result
  unfold Traced.bind FailsIn at *
  cases e : t.result with
  | ok a => exact next a
  | error fault =>
    rw [e] at first
    exact first

theorem failsIn_pure (a : α) : (pure a : Traced α).FailsIn source := trivial

/-- A failure at a place in the source is one. -/
theorem failsIn_fail (cause : Cause) {span : Span} (inside : span.In source) :
    (fail cause span : Traced α).FailsIn source := inside

/-- A result that is given at a place fails there. -/
theorem failsIn_ofResult {span : Span} (inside : span.In source) (r : Except Cause α) :
    (ofResult span r).FailsIn source := by
  cases r with
  | ok a => trivial
  | error cause => exact inside

end Traced

namespace Expr

/-- Expressions that are placed in a source. -/
def EachPlaced (source : List Char) (es : List Expr) : Prop := ∀ e ∈ es, e.Placed source

/-- The expressions in a placed expression are placed. -/
theorem Placed.parts {e : Expr} (h : e.Placed source) : EachPlaced source e.children :=
  fun c member => (h.children c member).1

theorem EachPlaced.head {e : Expr} {es : List Expr} (h : EachPlaced source (e :: es)) :
    e.Placed source := (List.forall_mem_cons.1 h).1

theorem EachPlaced.tail {e : Expr} {es : List Expr} (h : EachPlaced source (e :: es)) :
    EachPlaced source es := (List.forall_mem_cons.1 h).2

open Traced

mutual

/-- A placed expression fails only at places in the source. -/
theorem failsIn_eval (g : Globals) (e : Expr) (h : e.Placed source) :
    (eval g e).FailsIn source := by
  have inside := h.covers.within
  have parts := h.parts
  match e with
  | .constant .. | .name .. => exact failsIn_ofResult inside _
  | .binary _ left _ right =>
    refine (failsIn_eval g left parts.head).bind fun a => ?_
    exact (failsIn_eval g right parts.tail.head).bind fun b => failsIn_ofResult inside _
  | .unary _ _ operand =>
    exact (failsIn_eval g operand parts.head).bind fun v => failsIn_ofResult inside _
  | .logical _ op values => exact failsIn_evalLogical g op values parts
  | .compare span left links =>
    exact (failsIn_eval g left parts.head).bind fun a => failsIn_evalLinks g inside a links parts.tail
  | .conditional _ test body orelse =>
    refine (failsIn_eval g test parts.head).bind fun condition => ?_
    split
    · exact failsIn_eval g body parts.tail.head
    · exact failsIn_eval g orelse parts.tail.tail.head
  | .call _ func args keywords =>
    obtain ⟨positional, named⟩ := List.forall_mem_append.1 parts.tail
    refine (failsIn_eval g func parts.head).bind fun callee => ?_
    refine (failsIn_evalItems g args positional).bind fun values => ?_
    split
    · exact (failsIn_evalKeywords g inside .default keywords named).bind fun style => trivial
    · exact failsIn_ofResult inside _
    · exact failsIn_fail _ inside
  | .subscript _ value index =>
    have held := failsIn_eval g value parts.head
    have whole := failsIn_eval g index parts.tail.head
    -- the bounds of a slice are evaluated one by one, any other index as a whole
    cases index with
    | slice _ lower upper step =>
      obtain ⟨first, last⟩ := List.forall_mem_append.1 parts.tail.head.parts
      obtain ⟨first, second⟩ := List.forall_mem_append.1 first
      refine held.bind fun container => ?_
      refine (failsIn_evalBound g lower first).bind fun low => ?_
      refine (failsIn_evalBound g upper second).bind fun high => ?_
      exact (failsIn_evalBound g step last).bind fun by' => failsIn_ofResult inside _
    | _ =>
      refine held.bind fun container => ?_
      exact whole.bind fun i => failsIn_ofResult inside _
  | .tuple _ items | .list _ items =>
    exact (failsIn_evalItems g items parts).bind fun values => failsIn_pure _
  | .member .. | .slice .. | .starred .. | .set .. | .dict .. | .comprehension .. | .formatted ..
  | .lambda .. | .named .. | .yielded .. | .yieldedFrom .. | .awaited .. => exact failsIn_fail _ inside

theorem failsIn_evalItems (g : Globals) (es : List Expr) (h : EachPlaced source es) :
    (evalItems g es).FailsIn source := by
  match es with
  | [] => exact failsIn_pure _
  | item :: rest =>
    have first := failsIn_eval g item h.head
    have others := failsIn_evalItems g rest h.tail
    cases item with
    | starred _ inner =>
      have placed : inner.Placed source := h.head.parts.head
      refine (failsIn_eval g inner placed).bind fun v => ?_
      refine (failsIn_ofResult placed.covers.within _).bind fun front => ?_
      exact others.bind fun back => failsIn_pure _
    | _ => exact first.bind fun v => others.bind fun back => failsIn_pure _

theorem failsIn_evalLogical (g : Globals) (op : BoolOp) (es : List Expr) (h : EachPlaced source es) :
    (evalLogical g op es).FailsIn source := by
  match es with
  | [] => exact failsIn_pure _
  | [last] => exact failsIn_eval g last h.head
  | operand :: next :: rest =>
    refine (failsIn_eval g operand h.head).bind fun v => ?_
    have others := failsIn_evalLogical g op (next :: rest) h.tail
    cases op with
    | and | or =>
      dsimp only
      split
      · exact failsIn_pure _
      · exact others

theorem failsIn_evalLinks (g : Globals) {span : Span} (inside : span.In source) (left : Value)
    (links : List (CmpOp × Expr)) (h : EachPlaced source (links.map Prod.snd)) :
    (evalLinks g span left links).FailsIn source := by
  match links with
  | [] => exact failsIn_pure _
  | (op, e) :: rest =>
    refine (failsIn_eval g e h.head).bind fun right => ?_
    refine (failsIn_ofResult inside _).bind fun holds => ?_
    split
    · exact failsIn_evalLinks g inside right rest h.tail
    · exact failsIn_pure _

theorem failsIn_evalKeywords (g : Globals) {span : Span} (inside : span.In source)
    (style : PrintStyle) (keywords : List (Keyword Expr))
    (h : EachPlaced source (keywords.map Keyword.value)) :
    (evalKeywords g span style keywords).FailsIn source := by
  match keywords with
  | [] => exact failsIn_pure _
  | ⟨keyword, value⟩ :: rest =>
    refine (failsIn_eval g value h.head).bind fun v => ?_
    refine (failsIn_ofResult inside _).bind fun style => ?_
    exact failsIn_evalKeywords g inside style rest h.tail

theorem failsIn_evalBound (g : Globals) (e? : Option Expr) (h : EachPlaced source e?.toList) :
    (evalBound g e?).FailsIn source := by
  match e? with
  | none => exact failsIn_pure _
  | some e =>
    exact (failsIn_eval g e h.head).bind fun v => failsIn_ofResult h.head.covers.within _

end

end Expr

/-! ## Actions -/

namespace Action

/-- An action fails only at places in a source, and what it gives has a property. -/
def FailsIn (source : List Char) (P : α → Prop) (a : Action α) : Prop :=
  ∀ m, Meets (FaultIn source) P (a.runOn m).1

/-- Actions in sequence fail at places in a source if each of them does. -/
theorem FailsIn.bind {a : Action α} {f : α → Action β} (first : a.FailsIn source P)
    (next : ∀ x, P x → (f x).FailsIn source R) : (a >>= f).FailsIn source R := by
  intro m
  have ends := first m
  rw [runOn_bind]
  revert ends
  rcases a.runOn m with ⟨r, m'⟩
  intro ends
  cases r with
  | ok x => exact next x ends m'
  | error fault => exact ends

theorem failsIn_pure {a : α} (h : P a) : (pure a : Action α).FailsIn source P := fun _ => h

theorem failsIn_fail (cause : Cause) {span : Span} (inside : span.In source) :
    (fail cause span : Action α).FailsIn source P := fun _ => inside

/-- A result that is given at a place fails there. -/
theorem failsIn_ofResult {span : Span} (inside : span.In source) (r : Except Cause α) :
    (ofResult span r).FailsIn source fun _ => True := by
  cases r with
  | ok a => exact failsIn_pure trivial
  | error cause => exact failsIn_fail cause inside

theorem failsIn_throw {fault : Fault} (inside : FaultIn source fault) :
    (throw fault : Action α).FailsIn source P := fun _ => inside

/-- An action that looks at the machine and goes on. -/
theorem failsIn_get {f : Machine → Action α} (h : ∀ m, (f m).FailsIn source P) :
    (getThe Machine >>= f).FailsIn source P := fun m => h m m

/-- Evaluating a placed expression fails only at places in the source. -/
theorem failsIn_evaluate {e : Expr} (h : e.Placed source) :
    (evaluate e).FailsIn source fun _ => True := by
  intro m
  rw [runOn_evaluate]
  exact Expr.failsIn_eval m.globals e h

/-! ## Elements of lists -/

/-- The places that an element path reports failures at are in a source. -/
def PathIn (source : List Char) (p : ElementPath) : Prop :=
  p.nameSpan.In source ∧ ∀ step ∈ p.steps, step.span.In source

/-- The path to an element fails there, and reports its own failures there. -/
theorem failsIn_path (e : Expr) (h : e.Placed source) : (path e).FailsIn source (PathIn source) := by
  have inside := h.covers.within
  cases e with
  | name span id => exact failsIn_pure ⟨inside, List.forall_mem_nil _⟩
  | subscript span base index =>
    refine (failsIn_evaluate h.parts.tail.head).bind fun i _ => ?_
    refine (failsIn_path base h.parts.head).bind fun p found => ?_
    refine failsIn_pure ⟨found.1, List.forall_mem_append.2 ⟨found.2, ?_⟩⟩
    exact List.forall_mem_singleton.2 inside
  | _ => exact failsIn_fail _ inside

/-- Looking up an element fails at the place of the step. -/
theorem meets_elementAt {step : PathStep} (inside : step.span.In source) (v : Value) :
    Meets (FaultIn source) (fun _ => True) (v.elementAt step) := by
  unfold Value.elementAt
  split
  · split
    · split
      · trivial
      · exact inside
    · exact inside
  · exact inside

/-- Storing an element fails at the place of one of the steps. -/
theorem meets_storeAt (new : Value) {steps : List PathStep}
    (inside : ∀ step ∈ steps, step.span.In source) (v : Value) :
    Meets (FaultIn source) (fun _ => True) (Value.storeAt new steps v) := by
  induction steps generalizing v with
  | nil => trivial
  | cons step steps ih =>
    obtain ⟨first, others⟩ := List.forall_mem_cons.1 inside
    refine (meets_elementAt first v).bind ?_
    rintro ⟨items, at'⟩ -
    exact (ih others _).bind fun changed _ => trivial

theorem meets_removeAt {steps : List PathStep} (inside : ∀ step ∈ steps, step.span.In source)
    (v : Value) : Meets (FaultIn source) (fun _ => True) (Value.removeAt steps v) := by
  induction steps generalizing v with
  | nil => trivial
  | cons step steps ih =>
    obtain ⟨first, others⟩ := List.forall_mem_cons.1 inside
    cases steps with
    | nil =>
      cases v with
      | list items =>
        rw [Value.removeAt]
        split
        · split
          · trivial
          · exact first
        · exact first
      | _ => exact first
    | cons next steps =>
      refine (meets_elementAt first v).bind ?_
      rintro ⟨items, at'⟩ -
      exact (ih others _).bind fun changed _ => trivial

/-- A change behind a path fails at the places of the path. -/
theorem failsIn_update {p : ElementPath} (inside : PathIn source p)
    {change : List PathStep → Value → Except Fault Value}
    (changes : ∀ v, Meets (FaultIn source) (fun _ => True) (change p.steps v)) :
    (update p change).FailsIn source fun _ => True := by
  refine failsIn_get fun m => ?_
  split
  · exact failsIn_fail _ inside.1
  · rename_i v _
    have ends := changes v
    split
    · exact fun _ => trivial
    · rename_i fault failed
      exact failsIn_throw (ends.of_error failed)

/-! ## Assignment -/

mutual

/-- Assigning to a placed target fails only at places in the source. -/
theorem failsIn_assign (target : Expr) (v : Value) (h : target.Placed source) :
    (assign target v).FailsIn source fun _ => True := by
  have inside := h.covers.within
  have parts := h.parts
  cases target with
  | name span id => exact fun _ => trivial
  | tuple span targets | list span targets =>
    refine (failsIn_ofResult inside _).bind fun items _ => ?_
    exact (failsIn_ofResult inside _).bind fun values _ => failsIn_assignAll targets values parts
  | subscript span base index =>
    exact (failsIn_path _ h).bind fun p found =>
      failsIn_update found fun w => meets_storeAt v found.2 w
  | _ => exact failsIn_fail _ inside

theorem failsIn_assignAll (targets : List Expr) (vs : List Value)
    (h : Expr.EachPlaced source targets) : (assignAll targets vs).FailsIn source fun _ => True := by
  cases targets with
  | nil => exact failsIn_pure trivial
  | cons target targets =>
    cases vs with
    | nil => cases target <;> exact failsIn_pure trivial
    | cons v vs =>
      have first := failsIn_assign target v h.head
      have others := failsIn_assignAll targets vs h.tail
      cases target with
      | starred span inner =>
        exact (failsIn_assign inner v h.head.parts.head).bind fun _ _ => others
      | _ => exact first.bind fun _ _ => others

end

mutual

theorem failsIn_delete (target : Expr) (h : target.Placed source) :
    (delete target).FailsIn source fun _ => True := by
  have inside := h.covers.within
  have parts := h.parts
  cases target with
  | name span id =>
    refine failsIn_get fun m => ?_
    split
    · exact failsIn_fail _ inside
    · exact fun _ => trivial
  | tuple span targets | list span targets => exact failsIn_deleteAll targets parts
  | subscript span base index =>
    exact (failsIn_path _ h).bind fun p found =>
      failsIn_update found fun w => meets_removeAt found.2 w
  | _ => exact failsIn_fail _ inside

theorem failsIn_deleteAll (targets : List Expr) (h : Expr.EachPlaced source targets) :
    (deleteAll targets).FailsIn source fun _ => True := by
  cases targets with
  | nil => exact failsIn_pure trivial
  | cons target targets =>
    exact (failsIn_delete target h.head).bind fun _ _ => failsIn_deleteAll targets h.tail

end

/-- So do actions in a row, if each of them does. -/
theorem failsIn_forM {f : α → Action Unit} {xs : List α}
    (each : ∀ x ∈ xs, (f x).FailsIn source fun _ => True) :
    (xs.forM f).FailsIn source fun _ => True := by
  induction xs with
  | nil => exact failsIn_pure trivial
  | cons x xs ih =>
    obtain ⟨first, others⟩ := List.forall_mem_cons.1 each
    exact first.bind fun _ _ => ih others

end Action

/-! ## Instructions -/

/-- The expressions of an instruction. -/
def Instr.exprs : Instr → List Expr
  | .exec e | .iterInit e => [e]
  | .assign targets value => targets ++ [value]
  | .augAssign _ target _ value => [target, value]
  | .delete targets => targets
  | .jumpIfFalse test _ => [test]
  | .iterNext target _ => [target]
  | .assert _ test message => test :: message.toList
  | .jump _ | .iterPop | .unsupported .. => []

/-- An instruction is for a place in a source, and so are its expressions. -/
structure Instr.Placed (source : List Char) (instr : Instr) : Prop where
  span : instr.span.In source
  exprs : Expr.EachPlaced source instr.exprs

/-- Asking for the next item does not fail. -/
theorem Action.failsIn_nextItem :
    (nextItem : Action (Option Value)).FailsIn source fun _ => True := by
  refine failsIn_get fun m => ?_
  split
  · exact failsIn_pure trivial
  · split
    · exact fun _ => trivial
    · exact fun _ => trivial

/-- An instruction fails only at places in the source. -/
theorem Action.failsIn_step (pc : Nat) {instr : Instr} (h : instr.Placed source) :
    (step pc instr).FailsIn source fun _ => True := by
  have span := h.span
  have exprs := h.exprs
  cases instr with
  | exec e => exact (failsIn_evaluate exprs.head).bind fun _ _ => failsIn_pure trivial
  | assign targets value =>
    obtain ⟨placed, last⟩ := List.forall_mem_append.1 exprs
    refine (failsIn_evaluate (List.forall_mem_singleton.1 last)).bind fun v _ => ?_
    refine (failsIn_forM fun target member => failsIn_assign target v (placed target member)).bind ?_
    exact fun _ _ => failsIn_pure trivial
  | augAssign _ target op value =>
    refine (failsIn_evaluate exprs.head).bind fun current _ => ?_
    refine (failsIn_evaluate exprs.tail.head).bind fun operand _ => ?_
    refine (failsIn_ofResult span _).bind fun v _ => ?_
    exact (failsIn_assign target v exprs.head).bind fun _ _ => failsIn_pure trivial
  | delete targets =>
    exact (failsIn_deleteAll targets exprs).bind fun _ _ => failsIn_pure trivial
  | jumpIfFalse test dest =>
    exact (failsIn_evaluate exprs.head).bind fun _ _ => failsIn_pure trivial
  | jump dest => exact failsIn_pure trivial
  | iterInit e =>
    refine (failsIn_evaluate exprs.head).bind fun v _ => ?_
    exact (failsIn_ofResult span _).bind fun cursor _ => fun _ => trivial
  | iterNext target dest =>
    refine failsIn_nextItem.bind fun item? _ => ?_
    cases item? with
    | none => exact failsIn_pure trivial
    | some item =>
      exact (failsIn_assign target item exprs.head).bind fun _ _ => failsIn_pure trivial
  | iterPop => exact fun _ => trivial
  | assert _ test message =>
    refine (failsIn_evaluate exprs.head).bind fun condition _ => ?_
    split
    · exact failsIn_pure trivial
    · cases message with
      | none => exact failsIn_fail _ span
      | some e =>
        exact (failsIn_evaluate exprs.tail.head).bind fun v _ => failsIn_fail _ span
  | unsupported => exact failsIn_fail _ span

/-! ## Compilation -/

/-- Instructions that are placed in a source. -/
def AllInstrs (source : List Char) (instrs : List Instr) : Prop := ∀ i ∈ instrs, i.Placed source

namespace AllInstrs

variable {i : Instr} {front back : List Instr}

theorem nil : AllInstrs source [] := List.forall_mem_nil _

theorem cons (first : i.Placed source) (rest : AllInstrs source back) :
    AllInstrs source (i :: back) := List.forall_mem_cons.2 ⟨first, rest⟩

theorem append (first : AllInstrs source front) (rest : AllInstrs source back) :
    AllInstrs source (front ++ back) := List.forall_mem_append.2 ⟨first, rest⟩

end AllInstrs

/-- A jump concerns no place. -/
theorem Instr.placed_jump (dest : Nat) : (Instr.jump dest).Placed source :=
  ⟨Span.none_in source, List.forall_mem_nil _⟩

theorem Instr.placed_iterPop : Instr.iterPop.Placed source :=
  ⟨Span.none_in source, List.forall_mem_nil _⟩

/-- Leaving a loop or going on with it concerns no place. -/
theorem allInstrs_breakCode (loop : Option LoopFrame) : AllInstrs source (Stmt.breakCode loop) := by
  unfold Stmt.breakCode
  split
  · exact .cons Instr.placed_iterPop (.cons (Instr.placed_jump _) .nil)
  · exact .cons (Instr.placed_jump _) .nil
  · exact .cons (Instr.placed_jump _) .nil

theorem allInstrs_continueCode (loop : Option LoopFrame) :
    AllInstrs source (Stmt.continueCode loop) := by
  unfold Stmt.continueCode
  split
  · exact .cons (Instr.placed_jump _) .nil
  · exact .cons (Instr.placed_jump _) .nil

/-- An instruction for the place of an expression, which is the only one in it. -/
theorem Instr.placed_single {i : Instr} {e : Expr} (h : e.Placed source) (span : i.span = e.span)
    (exprs : i.exprs = [e]) : i.Placed source := by
  refine ⟨?_, ?_⟩
  · rw [span]
    exact h.covers.within
  · rw [exprs]
    exact List.forall_mem_singleton.2 h

namespace Stmt

/-- The expressions of a placed statement. -/
theorem Placed.parts {s : Stmt} (h : s.Placed source) : Expr.EachPlaced source s.exprs := by
  cases h with
  | intro _ exprs _ _ _ => exact fun e member => (exprs e member).1

/-- The statements inside a placed statement. -/
theorem Placed.nested {s : Stmt} (h : s.Placed source) : ∀ t ∈ s.inner, t.Placed source := by
  cases h with
  | intro _ _ _ _ placed => exact placed

mutual

/-- The code of a placed statement. -/
theorem allInstrs_code (loop : Option LoopFrame) (pc : Nat) (s : Stmt) (h : s.Placed source) :
    AllInstrs source (code loop pc s) := by
  have span := h.covers.within
  have parts := h.parts
  have nested := h.nested
  cases s with
  | expr _ value => exact .cons (Instr.placed_single parts.head rfl rfl) .nil
  | assign _ targets value =>
    have last := parts value (by simp [Stmt.exprs])
    exact .cons ⟨last.covers.within, parts⟩ .nil
  | annAssign _ target typeHint value =>
    cases value with
    | none => exact .nil
    | some value =>
      have last := parts.tail.tail.head
      exact .cons ⟨last.covers.within, List.forall_mem_cons.2 ⟨parts.head, parts.tail.tail⟩⟩ .nil
  | pass => exact .nil
  | augAssign | assert => exact .cons ⟨span, parts⟩ .nil
  -- A deletion is reported at its first target; one without targets has no place.
  | delete _ targets =>
    refine .cons ⟨?_, parts⟩ .nil
    cases targets with
    | nil => exact Span.none_in source
    | cons target targets => exact parts.head.covers.within
  | breakLoop => exact allInstrs_breakCode loop
  | continueLoop => exact allInstrs_continueCode loop
  | branch _ test body orelse =>
    obtain ⟨first, second⟩ := List.forall_mem_append.1 nested
    have asks : ∀ dest, (Instr.jumpIfFalse test dest).Placed source :=
      fun dest => Instr.placed_single parts.head rfl rfl
    cases orelse with
    | nil => exact .cons (asks _) (allInstrs_codes loop _ body first)
    | cons other others =>
      refine .append (.cons (asks _) (allInstrs_codes loop _ body first)) ?_
      exact .cons (Instr.placed_jump _) (allInstrs_codes loop _ (other :: others) second)
  | whileLoop _ test body orelse =>
    obtain ⟨first, second⟩ := List.forall_mem_append.1 nested
    have asks : ∀ dest, (Instr.jumpIfFalse test dest).Placed source :=
      fun dest => Instr.placed_single parts.head rfl rfl
    refine .append (.cons (asks _) (allInstrs_codes _ _ body first)) ?_
    exact .cons (Instr.placed_jump _) (allInstrs_codes _ _ orelse second)
  | forLoop _ isAsync target iter body orelse =>
    obtain ⟨first, second⟩ := List.forall_mem_append.1 nested
    cases isAsync with
    | true => exact .cons ⟨span, List.forall_mem_nil _⟩ .nil
    | false =>
      have begins : (Instr.iterInit iter).Placed source :=
        Instr.placed_single parts.tail.head rfl rfl
      have counts : ∀ dest, (Instr.iterNext target dest).Placed source :=
        fun dest => Instr.placed_single parts.head rfl rfl
      refine .append (.cons begins (.cons (counts _) (allInstrs_codes _ _ body first))) ?_
      exact .cons (Instr.placed_jump _) (allInstrs_codes _ _ orelse second)
  | _ => exact .cons ⟨span, List.forall_mem_nil _⟩ .nil

/-- The code of placed statements. -/
theorem allInstrs_codes (loop : Option LoopFrame) (pc : Nat) (ss : List Stmt)
    (h : ∀ s ∈ ss, s.Placed source) : AllInstrs source (codes loop pc ss) := by
  cases ss with
  | nil => exact .nil
  | cons s ss =>
    obtain ⟨first, others⟩ := List.forall_mem_cons.1 h
    exact (allInstrs_code loop pc s first).append (allInstrs_codes loop _ ss others)

end

mutual

/-- A stray `break` or `continue` of a placed statement is reported where it stands. -/
theorem faultIn_stray? (inLoop : Bool) (s : Stmt) (h : s.Placed source) :
    ∀ fault ∈ stray? inLoop s, FaultIn source fault := by
  have nested := h.nested
  cases s with
  | breakLoop span | continueLoop span =>
    intro fault found
    cases inLoop with
    | true => cases found
    | false =>
      cases found
      exact h.covers.within
  | branch _ _ body orelse | whileLoop _ _ body orelse =>
    obtain ⟨first, second⟩ := List.forall_mem_append.1 nested
    intro fault found
    rcases Option.or_eq_some_iff.1 found with found | ⟨-, found⟩
    · exact faultIn_strayIn? _ body first fault found
    · exact faultIn_strayIn? _ orelse second fault found
  | forLoop _ isAsync _ _ body orelse =>
    obtain ⟨first, second⟩ := List.forall_mem_append.1 nested
    intro fault found
    cases isAsync with
    | true => cases found
    | false =>
      rcases Option.or_eq_some_iff.1 found with found | ⟨-, found⟩
      · exact faultIn_strayIn? _ body first fault found
      · exact faultIn_strayIn? _ orelse second fault found
  | _ =>
    intro fault found
    cases found

theorem faultIn_strayIn? (inLoop : Bool) (ss : List Stmt) (h : ∀ s ∈ ss, s.Placed source) :
    ∀ fault ∈ strayIn? inLoop ss, FaultIn source fault := by
  cases ss with
  | nil =>
    intro fault found
    cases found
  | cons s ss =>
    obtain ⟨first, others⟩ := List.forall_mem_cons.1 h
    intro fault found
    rcases Option.or_eq_some_iff.1 found with found | ⟨-, found⟩
    · exact faultIn_stray? inLoop s first fault found
    · exact faultIn_strayIn? inLoop ss others fault found

end

end Stmt

/-- The instructions of a program are placed in a source. -/
def Program.Placed (source : List Char) (p : Program) : Prop :=
  ∀ pc, ∀ instr ∈ p.get? pc, instr.Placed source

/-- A placed program is compiled into placed instructions, or refused at a place in the source. -/
theorem Module.Placed.meets_compile {m : Module} (h : m.Placed source) :
    Meets (FaultIn source) (Program.Placed source) m.compile := by
  rw [Module.compile_eq_layout]
  split
  · rename_i fault found
    exact Stmt.faultIn_strayIn? false m.body h.placed fault found
  · intro pc instr found
    have member : instr ∈ (Stmt.codes none 0 m.body).toArray := Array.mem_of_getElem? found
    exact Stmt.allInstrs_codes none 0 m.body h.placed instr (List.mem_toArray.1 member)

/-! ## Runs -/

namespace Program

variable {p : Program}

/-- A step fails only at a place in the source. -/
theorem Placed.step (h : p.Placed source) {c : Configuration} {outcome : Outcome}
    (ended : p.step c = .inr outcome) : Meets (FaultIn source) (fun _ => True) outcome.result := by
  unfold Program.step at ended
  split at ended
  · cases ended
    trivial
  · rename_i instr found
    have fails := Action.failsIn_step c.pc (h c.pc instr found) c.machine
    split at ended
    · cases ended
    · rename_i fault m ran
      cases ended
      rwa [ran] at fails

/-- Instructions in a row fail at places in the source. -/
theorem Placed.advance (h : p.Placed source) {n : Nat} {c : Configuration} {outcome : Outcome}
    (ended : p.advance n c = .inr outcome) :
    Meets (FaultIn source) (fun _ => True) outcome.result := by
  induction n generalizing c with
  | zero => cases ended
  | succ n ih =>
    rw [Program.advance] at ended
    cases e : p.step c with
    | inl c' =>
      rw [e] at ended
      exact ih ended
    | inr outcome' =>
      rw [e] at ended
      cases ended
      exact h.step e

/-- A run that is cancelled after some instructions ends well, or at a place in the source. -/
theorem Placed.runFor (h : p.Placed source) (n : Nat) (m : Machine) :
    Meets (FaultIn source) (fun _ => True) (p.runFor n m).result := by
  unfold Program.runFor
  split
  · rename_i c _
    -- a run that is interrupted is reported at the instruction that comes next
    unfold Program.interrupt
    split
    · trivial
    · rename_i instr found
      exact (h c.pc instr found).span
  · rename_i outcome ended
    exact h.advance ended

end Program

/-! ## Sources -/

/-- Every position that is reported for a source is valid: those of its program and those of its
failures, in parsing, compiling and running. -/
structure Source.PlacesValid (s : Source) : Prop where
  /-- The statements, handlers and expressions of the program are placed in the source. -/
  parsed : ∀ m, s.parse = .ok m → m.Placed s.content.toList
  /-- A failure to parse is reported at a place in the source. -/
  refused : ∀ d, s.parse = .error d → d.fault.span.In s.content.toList
  /-- A failure to compile is reported at a place in the source. -/
  rejected : ∀ d, s.compile = .error d → d.fault.span.In s.content.toList
  /-- A failure of a run, from any machine and cancelled after any number of instructions, is
  reported at a place in the source. -/
  failed : ∀ p, s.compile = .ok p → ∀ n m fault, (p.runFor n m).result = .error fault →
    fault.span.In s.content.toList

/-- Parsing fails at a place in the source, or gives a placed program. -/
theorem Source.meets_parse (s : Source) :
    Meets (fun d => ParseFault s.content.toList d.fault) (Module.Placed s.content.toList) s.parse :=
  (placed_parseText s.content.toList).mapError fun _ fault => fault

theorem Source.meets_compile (s : Source) :
    Meets (fun d => FaultIn s.content.toList d.fault) (Program.Placed s.content.toList) s.compile :=
  (s.meets_parse.mono_error fun _ fault => fault.2).bind fun _ placed =>
    placed.meets_compile.mapError fun _ fault => fault

/-- All positions that are reported for a source are valid. -/
theorem Source.placesValid (s : Source) : s.PlacesValid := by
  constructor
  · intro m parsed
    exact s.meets_parse.of_ok parsed
  · intro d failed
    exact (s.meets_parse.of_error failed).2
  · intro d failed
    exact s.meets_compile.of_error failed
  · intro p compiled n m fault failed
    exact ((s.meets_compile.of_ok compiled).runFor n m).of_error failed

/-- A program that prints an item behind the end of a list. -/
def Source.readsBehind : Source :=
  ⟨Source.standardInput, "x = [1, 2]\nif x:\n  print(x[5])\n"⟩

/-- The item behind the end of the list is reported where it is asked for. -/
theorem Source.placesValid_readsBehind : ∃ m p fault, readsBehind.parse = .ok m ∧
    readsBehind.compile = .ok p ∧ (p.runFor 9 .fresh).result = .error fault ∧
      fault.span = ⟨25, 29⟩ ∧ m.Placed readsBehind.content.toList ∧
      fault.span.In readsBehind.content.toList := by
  have computed : (match readsBehind.parse, readsBehind.compile with
      | .ok _, .ok p =>
        match (p.runFor 9 .fresh).result with
        | .error fault => decide (fault.span = ⟨25, 29⟩)
        | .ok _ => false
      | _, _ => false) = true := by
    decide +kernel
  cases parsed : readsBehind.parse with
  | error d =>
    rw [parsed] at computed
    cases computed
  | ok m =>
    cases compiled : readsBehind.compile with
    | error d =>
      rw [parsed, compiled] at computed
      cases computed
    | ok p =>
      rw [parsed, compiled] at computed
      dsimp only at computed
      cases ran : (p.runFor 9 .fresh).result with
      | ok _ =>
        rw [ran] at computed
        cases computed
      | error fault =>
        rw [ran] at computed
        have valid := placesValid readsBehind
        exact ⟨m, p, fault, rfl, rfl, ran, of_decide_eq_true computed, valid.parsed m parsed,
          valid.failed p compiled 9 .fresh fault ran⟩

end BlockEditor
