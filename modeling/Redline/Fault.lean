import Redline.Expression.Reader
import Redline.Json.Writer
import Redline.Routing.Listing
import Redline.Service.Failure
import Redline.Table.Error

/-!
# Faults and reports

A fault is anything that ends a run. Faults of the program's own carry a code; a failure of the
service or a limit does not. When several expressions run, a fault is reported together with the
expression that it arose in.
-/

namespace Redline

/-- The codes of reports. -/
inductive Code where
  | invalidExpression
  | invalidTableReference
  | invalidImageReference
  | invalidBrace
  | invalidPattern
  | tableNotFound
  | cellOutOfRange
  | unsupportedOperation
  | noExpressions
  | retriesExhausted
  | apiError
deriving Repr, DecidableEq

namespace Code

def all : List Code :=
  [.invalidExpression, .invalidTableReference, .invalidImageReference, .invalidBrace,
    .invalidPattern, .tableNotFound, .cellOutOfRange, .unsupportedOperation, .noExpressions,
    .retriesExhausted, .apiError]

def text : Code → String
  | .invalidExpression => "INVALID_EXPRESSION"
  | .invalidTableReference => "INVALID_TABLE_REFERENCE"
  | .invalidImageReference => "INVALID_IMAGE_REFERENCE"
  | .invalidBrace => "INVALID_BRACE"
  | .invalidPattern => "INVALID_PATTERN"
  | .tableNotFound => "TABLE_NOT_FOUND"
  | .cellOutOfRange => "CELL_OUT_OF_RANGE"
  | .unsupportedOperation => "UNSUPPORTED_OPERATION"
  | .noExpressions => "NO_EXPRESSIONS"
  | .retriesExhausted => "RETRIES_EXHAUSTED"
  | .apiError => "API_ERROR"

def ofText? (t : Text) : Option Code :=
  all.find? (·.text.toList == t)

end Code

/-- The code of an error in an expression. -/
def ParseError.code : ParseError → Code
  | .reference (.table _) | .table _ => .invalidTableReference
  | .reference (.image _) => .invalidImageReference
  | .numbered _ _ cause => cause.code
  | _ => .invalidExpression

/-- The code of an error in a table operation. -/
def TableError.code : TableError → Code
  | .miss _ => .tableNotFound
  | .rowOutOfRange _ _ | .columnOutOfRange _ _ | .lineOutOfRange _ _ _ _ => .cellOutOfRange
  | .mergeWithoutRange => .invalidTableReference
  | .severalTables | .onlyLine _ | .unsupported _ | .noChange | .unknownMerge _ =>
    .unsupportedOperation
  | .numbered _ cause => cause.code

/-- Where a fault arose. -/
inductive Origin where
  /-- The expression at a position, counted from one. -/
  | expression (position : Nat)
  /-- An expression that ran by itself, with what it looks for and writes. -/
  | step (position : Nat) (pattern replacement : Text)
  /-- Expressions that write cells together. -/
  | cells (first last : Nat)
  /-- An expression that inserts an image, after it was tried twice. -/
  | image (position : Nat)
deriving Repr, DecidableEq

namespace Origin

/-- The words for an origin. -/
def text : Origin → String
  | .expression position => s!"expression {position}"
  | .step position pattern replacement =>
    s!"expression {position} (pattern={Text.quote pattern}, repl={Text.quote replacement})"
  | .cells first last => s!"cell batch (expressions {first}-{last})"
  | .image position => s!"expression {position} (image)"

end Origin

/-- What ends a run. -/
inductive Fault where
  | parse (e : ParseError)
  | directive (e : Directive.Error)
  | tableRef (e : TableRef.Error)
  | imageRef (e : ImageRef.Error)
  | pattern (source : Text) (flaw : Pattern.Flaw) (position : Option Nat)
  | table (e : TableError)
  | noExpressions
  /-- A substitution where only other commands are run. -/
  | notACommand
  | service (f : Failure)
  /-- A transient failure that has not passed after so many more calls. -/
  | exhausted (retries : Nat) (last : Failure)
  | limit (l : Limit)
  | within (origin : Origin) (cause : Fault)
deriving Repr, DecidableEq

namespace Fault

def message : Fault → Text
  | .parse e => e.message.toList
  | .directive e => e.message.toList
  | .tableRef e => e.message.toList
  | .imageRef e => e.message.toList
  | .pattern source flaw position => (Expression.invalidPattern source flaw position).toList
  | .table e => e.message.toList
  | .noExpressions => "no sed expressions provided (use positional arg, -e, -f, or stdin)".toList
  | .notACommand => "unknown command: Command.SUBSTITUTE".toList
  | .service f => f.message
  | .exhausted retries last =>
    "after ".toList ++ Text.ofNat retries ++ " retries: ".toList ++ last.message
  | .limit l => l.message.toList
  | .within origin cause => origin.text.toList ++ ": ".toList ++ cause.message

/-- The code of a fault of the program's own; the others have none. -/
def code? : Fault → Option Code
  | .parse e => some e.code
  | .directive _ => some .invalidBrace
  | .tableRef _ => some .invalidTableReference
  | .imageRef _ => some .invalidImageReference
  | .pattern _ _ _ => some .invalidPattern
  | .table e => some e.code
  | .noExpressions => some .noExpressions
  | .notACommand => some .invalidExpression
  | .service _ | .exhausted _ _ | .limit _ => none
  | .within (.image _) _ => some .apiError
  | .within _ cause => some (cause.code?.getD .apiError)

/-- The fault is reported with its expression when several run. Limits and failures without a
status are not. -/
def isReportable (f : Fault) : Bool :=
  match f with
  | .service (.http _ _) | .exhausted _ _ => true
  | .service (.other _) | .limit _ => false
  | _ => true

/-- The fault of reading something, or the limit that was met. -/
def ofRefusal {ε : Type} (f : ε → Fault) : Refusal ε → Fault
  | .because e => f e
  | .beyond l => .limit l

end Fault

/-- A fault as it is shown. -/
structure Report where
  code : Code
  message : Text
  suggestion : Text := []
  /-- The expression that the fault arose in, with what it looks for and writes. -/
  context : Option (Nat × Text × Text) := none

namespace Report

/-- The report of a fault that arose somewhere. The code is that of the cause, if it has one. -/
def within (origin : Origin) (cause : Text) (code : Option Code) : Report :=
  { code := match origin with
      | .image _ => .apiError
      | _ => code.getD .apiError
    message := origin.text.toList ++ ": ".toList ++ cause
    context := match origin with
      | .step position pattern replacement => some (position, pattern, replacement)
      | _ => none }

/-- The report of a fault. -/
def ofFault : Fault → Report
  | .within origin cause => within origin cause.message cause.code?
  | .noExpressions =>
    { code := .noExpressions
      message := Fault.noExpressions.message
      suggestion := "Pass an expression such as 's/old/new/g'".toList }
  | .exhausted retries last =>
    { code := .retriesExhausted, message := (Fault.exhausted retries last).message }
  | fault => { code := fault.code?.getD .apiError, message := fault.message }

/-- The report in JSON. -/
def toJson (r : Report) : Json :=
  .ofFields
    ([("error", .bool true), ("code", .lit r.code.text), ("message", .str r.message)] ++
      (if r.suggestion.isEmpty then [] else [("suggestion", .str r.suggestion)]) ++
      match r.context with
      | some (position, pattern, replacement) =>
        [("context",
          .ofFields
            [("expression_index", .int position), ("pattern", .str pattern),
              ("replacement", .str replacement)])]
      | none => [])

end Report

end Redline
