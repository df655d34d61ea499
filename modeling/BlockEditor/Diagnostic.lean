import BlockEditor.Syntax.Span

/-!
# Diagnostics

What can go wrong, where, and how it is reported.  Each cause carries the facts of the failure;
its wording, kind and category follow from it.
-/

namespace BlockEditor

/-! ## Causes -/

/-- The construct in which a syntax error is reported. -/
inductive Construct where
  | statement
  | expression
  | generatorArgument
  | decorator
  | tryWithoutClauses
  deriving DecidableEq, Repr

/-- The wording for a construct. -/
def Construct.text : Construct → String
  | .statement => "statement"
  | .expression => "expression"
  | .generatorArgument => "generator argument"
  | .decorator => "decorator"
  | .tryWithoutClauses => "try statement without except or finally"

/-- A value or a block of the wrong type. -/
inductive TypeFault where
  | unaryOperand (symbol type : String)
  | binaryOperands (symbol left right : String)
  | unordered (symbol left right : String)
  | notCallable (type : String)
  | notIterable (type : String)
  | notContainer (type : String)
  | notSubscriptable (type : String)
  | noItemAssignment (type : String)
  | noItemDeletion (type : String)
  | sequenceIndex (container index : String)
  | sliceBound
  | textMember (type : String)
  | unexpectedKeyword (function keyword : String)
  | argumentCount (function : String) (least greatest given : Nat)
  | notAnInteger (type : String)
  | noLength (type : String)
  | conversion (function type : String)
  | absoluteValue (type : String)
  | noCandidates (function : String)
  | printKeyword (keyword : String)
  | printText (keyword type : String)
  | blockPosition (block position : String)
  | fieldKind (field block : String)
  | fieldNotFinite (field block : String)
  | fieldNotWhole (field block : String)
  | fieldBelow (field block least : String)
  deriving DecidableEq, Repr

/-- The wording for a type error. -/
def TypeFault.text : TypeFault → String
  | .unaryOperand symbol type => s!"bad operand type for unary {symbol}: '{type}'"
  | .binaryOperands symbol left right =>
    s!"unsupported operand type(s) for {symbol}: '{left}' and '{right}'"
  | .unordered symbol left right =>
    s!"'{symbol}' not supported between instances of '{left}' and '{right}'"
  | .notCallable type => s!"'{type}' object is not callable"
  | .notIterable type => s!"'{type}' object is not iterable"
  | .notContainer type => s!"argument of type '{type}' is not iterable"
  | .notSubscriptable type => s!"'{type}' object is not subscriptable"
  | .noItemAssignment type => s!"'{type}' object does not support item assignment"
  | .noItemDeletion type => s!"'{type}' object doesn't support item deletion"
  | .sequenceIndex container index => s!"{container} indices must be integers, not {index}"
  | .sliceBound => "slice indices must be integers or None"
  | .textMember type => s!"'in <string>' requires string as left operand, not {type}"
  | .unexpectedKeyword function keyword =>
    s!"{function}() takes no keyword argument '{keyword}'"
  | .argumentCount function least greatest given =>
    let expected := if least = greatest then s!"exactly {least}" else s!"from {least} to {greatest}"
    s!"{function}() takes {expected} arguments ({given} given)"
  | .notAnInteger type => s!"'{type}' object cannot be interpreted as an integer"
  | .noLength type => s!"object of type '{type}' has no len()"
  | .conversion function type =>
    s!"{function}() argument must be a string or a number, not '{type}'"
  | .absoluteValue type => s!"bad operand type for abs(): '{type}'"
  | .noCandidates function => s!"{function} expected at least 1 argument, got 0"
  | .printKeyword keyword => s!"'{keyword}' is an invalid keyword argument for print()"
  | .printText keyword type => s!"{keyword} must be None or a string, not {type}"
  | .blockPosition block position => s!"block '{block}' cannot be placed in a {position} position"
  | .fieldKind field block => s!"field {field} of '{block}' has the wrong type"
  | .fieldNotFinite field block => s!"field {field} of '{block}' must be a finite number"
  | .fieldNotWhole field block => s!"field {field} of '{block}' must be a whole number"
  | .fieldBelow field block least => s!"field {field} of '{block}' must be at least {least}"

/-- A value of the right type that cannot be used. -/
inductive ValueFault where
  | tooFewItems (starred : Bool) (expected given : Nat)
  | tooManyItems (expected : Nat)
  | zeroSliceStep
  | zeroRangeStep
  | nanToInteger
  | integerText (literal : String)
  | floatText (literal : String)
  | emptySequence (function : String)
  deriving DecidableEq, Repr

/-- The wording for a value error. -/
def ValueFault.text : ValueFault → String
  | .tooFewItems starred expected given =>
    let least := if starred then "at least " else ""
    s!"not enough values to unpack (expected {least}{expected}, got {given})"
  | .tooManyItems expected => s!"too many values to unpack (expected {expected})"
  | .zeroSliceStep => "slice step cannot be zero"
  | .zeroRangeStep => "range() arg 3 must not be zero"
  | .nanToInteger => "cannot convert float NaN to integer"
  | .integerText literal => s!"invalid literal for int() with base 10: {literal}"
  | .floatText literal => s!"could not convert string to float: {literal}"
  | .emptySequence function => s!"{function}() arg is an empty sequence"

/-- An operation that would divide by zero. -/
inductive ZeroFault where
  | integer
  | division
  | floorDivision
  | modulo
  | power
  deriving DecidableEq, Repr

/-- The wording for a division by zero. -/
def ZeroFault.text : ZeroFault → String
  | .integer => "integer division or modulo by zero"
  | .division => "division by zero"
  | .floorDivision => "float floor division by zero"
  | .modulo => "float modulo"
  | .power => "0.0 cannot be raised to a negative power"

/-- The reason for a failure. -/
inductive Cause where
  | malformed (construct : Construct)
  | unclosedBracket (bracket : Char)
  | unmatchedBracket (bracket : Char)
  | mismatchedBracket (expected found : Char)
  | unterminatedString
  | unexpectedIndent
  | inconsistentDedent
  | expectedBlock (header : String)
  | danglingClause (clause expected : String)
  | invalidTarget (target : String)
  | invalidLiteral (kind text : String)
  | nestingTooDeep (limit : Nat)
  | undefinedName (name : String)
  | typeMismatch (fault : TypeFault)
  | zeroDivision (fault : ZeroFault)
  | indexOutOfRange (container : String)
  | invalidValue (fault : ValueFault)
  | overflow
  | assertionFailed (message : String)
  | outsideLoop (keyword : String)
  | unsupported (construct : String)
  | cancelled
  /-- A partial operation was applied outside its domain. -/
  | breakdown
  | runInProgress
  | unknownBlockType (kind : String)
  | unknownSlot (kind slotKind name : String)
  | invalidDocument
  | unreadableFile (path : String)
  deriving DecidableEq, Repr

/-- The part of the program that a failure belongs to. -/
inductive Category where
  | parse
  | runtime
  | session
  deriving DecidableEq, Repr

/-- The name of a category. -/
def Category.text : Category → String
  | .parse => "Parse"
  | .runtime => "Runtime"
  | .session => "Session"

namespace Cause

/-- The category of a cause. -/
def category : Cause → Category
  | .malformed _ | .unclosedBracket _ | .unmatchedBracket _ | .mismatchedBracket .. => .parse
  | .unterminatedString | .unexpectedIndent | .inconsistentDedent | .expectedBlock _ => .parse
  | .danglingClause .. | .invalidTarget _ | .invalidLiteral .. | .nestingTooDeep _ => .parse
  | .undefinedName _ | .typeMismatch _ | .zeroDivision _ | .indexOutOfRange _ => .runtime
  | .invalidValue _ | .overflow | .assertionFailed _ | .outsideLoop _ => .runtime
  | .unsupported _ | .cancelled | .breakdown => .runtime
  | .runInProgress | .unknownBlockType _ | .unknownSlot .. | .invalidDocument => .session
  | .unreadableFile _ => .session

/-- The name of a kind of cause, the last part of its error code. -/
def kind : Cause → String
  | .malformed _ => "malformed_construct"
  | .unclosedBracket _ => "unclosed_bracket"
  | .unmatchedBracket _ => "unmatched_bracket"
  | .mismatchedBracket .. => "mismatched_bracket"
  | .unterminatedString => "unterminated_string"
  | .unexpectedIndent => "unexpected_indent"
  | .inconsistentDedent => "inconsistent_dedent"
  | .expectedBlock _ => "expected_block"
  | .danglingClause .. => "dangling_clause"
  | .invalidTarget _ => "invalid_target"
  | .invalidLiteral .. => "invalid_literal"
  | .nestingTooDeep _ => "nesting_too_deep"
  | .undefinedName _ => "undefined_name"
  | .typeMismatch _ => "type_mismatch"
  | .zeroDivision _ => "zero_division"
  | .indexOutOfRange _ => "index_out_of_range"
  | .invalidValue _ => "invalid_value"
  | .overflow => "overflow"
  | .assertionFailed _ => "assertion_failed"
  | .outsideLoop _ => "outside_loop"
  | .unsupported _ => "unsupported"
  | .cancelled => "cancelled"
  | .breakdown => "panic"
  | .runInProgress => "run_in_progress"
  | .unknownBlockType _ => "unknown_block_type"
  | .unknownSlot .. => "unknown_slot"
  | .invalidDocument => "invalid_document"
  | .unreadableFile _ => "file_read"

/-- The message that reports a cause. -/
def message : Cause → String
  | .malformed construct =>
    let name := construct.text
    s!"Parse error: invalid syntax in {name}"
  | .unclosedBracket bracket => s!"Parse error: '{bracket}' was never closed"
  | .unmatchedBracket bracket => s!"Parse error: unmatched '{bracket}'"
  | .mismatchedBracket expected found =>
    s!"Parse error: closing '{found}' does not match '{expected}'"
  | .unterminatedString => "Parse error: unterminated string literal"
  | .unexpectedIndent => "Parse error: unexpected indent"
  | .inconsistentDedent => "Parse error: unindent does not match any outer indentation level"
  | .expectedBlock header => s!"Parse error: expected an indented block after '{header}'"
  | .danglingClause clause expected =>
    s!"Parse error: '{clause}' without a preceding '{expected}'"
  | .invalidTarget target => s!"Parse error: cannot assign to {target}"
  | .invalidLiteral kind text => s!"Parse error: invalid {kind} '{text}'"
  | .nestingTooDeep limit => s!"Parse error: too many nested brackets (limit is {limit})"
  | .undefinedName name => s!"NameError: name '{name}' is not defined"
  | .typeMismatch fault => "TypeError: " ++ fault.text
  | .zeroDivision fault => "ZeroDivisionError: " ++ fault.text
  | .indexOutOfRange container => s!"IndexError: {container} index out of range"
  | .invalidValue fault => "ValueError: " ++ fault.text
  | .overflow => "OverflowError: integer result out of range"
  | .assertionFailed message => s!"AssertionError: {message}"
  | .outsideLoop keyword => s!"SyntaxError: '{keyword}' outside loop"
  | .unsupported construct =>
    s!"Runtime error: '{construct}' is not supported by the interpreter"
  | .cancelled => "Runtime error: run cancelled"
  | .breakdown => "Runtime error: the interpreter broke down"
  | .runInProgress => "Session error: a run is already in progress"
  | .unknownBlockType kind => s!"Session error: unknown block type '{kind}'"
  | .unknownSlot kind slotKind name =>
    s!"Session error: block '{kind}' has no {slotKind} named '{name}'"
  | .invalidDocument => "Session error: invalid block document"
  | .unreadableFile path => s!"Session error: cannot read '{path}'"

/-- The label at the place of a failure. -/
def label : Cause → String
  | .malformed _ => "invalid syntax"
  | .unclosedBracket _ => "opened here"
  | .unmatchedBracket _ => "no matching opener"
  | .mismatchedBracket .. => "mismatched bracket"
  | .unterminatedString => "string starts here"
  | .unexpectedIndent => "unexpected indent"
  | .inconsistentDedent => "inconsistent dedent"
  | .expectedBlock _ => "block expected after this"
  | .danglingClause .. => "dangling clause"
  | .invalidTarget _ => "invalid target"
  | .invalidLiteral .. => "invalid literal"
  | .nestingTooDeep _ => "nested too deeply"
  | .undefinedName _ => "undefined name"
  | .typeMismatch _ => "type mismatch"
  | .zeroDivision _ => "division by zero"
  | .indexOutOfRange _ => "index out of range"
  | .invalidValue _ => "invalid value"
  | .overflow => "overflow"
  | .assertionFailed _ => "assertion failed here"
  | .outsideLoop _ => "not inside a loop"
  | .unsupported _ => "unsupported here"
  | .cancelled => "cancelled here"
  | .breakdown => "broke down here"
  | .runInProgress => "run in progress"
  | .unknownBlockType _ => "unknown block"
  | .unknownSlot .. => "unknown slot"
  | .invalidDocument => "invalid document"
  | .unreadableFile _ => "unreadable"

/-- Advice on how to mend a failure. -/
def help? : Cause → Option String
  | .malformed .decorator => some "a decorator must be followed by 'def' or 'class'"
  | .runInProgress => some "wait for the current run to finish or cancel it"
  | _ => none

end Cause

/-! ## Faults and diagnostics -/

/-- A failure at a place of the text at hand. -/
structure Fault where
  cause : Cause
  span : Span
  deriving DecidableEq, Repr

/-- A named text. -/
structure Source where
  name : String
  content : String
  deriving DecidableEq, Repr

/-- The name of a text that nobody named. -/
def Source.standardInput : String := "<stdin>"

/-- The name that stands in where there is no source text. -/
def Source.placeholder : String := "fallback"

/-- The stage of the work that reports a failure. -/
inductive Phase where
  | parse
  | runtime
  | session
  deriving DecidableEq, Repr

/-- The name of a phase. -/
def Phase.text : Phase → String
  | .parse => "parse"
  | .runtime => "runtime"
  | .session => "session"

/-- A failure as it is reported: with the phase that found it and the name of the source. -/
structure Diagnostic where
  fault : Fault
  phase : Phase
  sourceName : String
  deriving DecidableEq, Repr

/-- The code of a diagnostic. -/
def Diagnostic.code (d : Diagnostic) : String :=
  "pyblocks::" ++ d.phase.text ++ "::" ++ d.fault.cause.kind

/-- Reports the failures of a computation on behalf of a phase and a source. -/
def reportAs {α : Type} (phase : Phase) (sourceName : String) (r : Except Fault α) :
    Except Diagnostic α :=
  r.mapError fun fault => ⟨fault, phase, sourceName⟩

end BlockEditor
