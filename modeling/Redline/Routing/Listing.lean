import Redline.Directive.Summary
import Redline.Routing.Kind

/-!
# Listing expressions

A dry run lists each expression with a description, the verdict on its pattern, and its parts.
-/

namespace Redline.Expression

variable [CharNames]

/-- The message for a pattern that cannot be read. -/
def invalidPattern (source : Text) (flaw : Pattern.Flaw) (at? : Option Nat) : String :=
  "invalid regex " ++ Text.quote source ++ ": " ++ Pattern.flawText source flaw at?

/-- The description of a command other than the substitute command. -/
def commandLabel? : Command → Option String
  | .substitute => none
  | .delete => some "delete"
  | .append => some "append-after"
  | .insert => some "insert-before"
  | .transliterate => some "transliterate"

/-- The description of a substitution in text. -/
private def describeText (e : Expression) : Except Limit Text := do
  if (← e.tableSpec?).isSome then return "create table".toList
  if (← e.imageRef?).isSome then return "image".toList
  if namesPosition e.pattern then return "positional".toList
  if e.directive?.any (·.setsAnything) then return "brace".toList
  return if e.isNative then "native".toList else "manual".toList

/-- The description of an expression. -/
def describe (e : Expression) : Except Limit Text :=
  match commandLabel? e.command with
  | some label => return label.toList
  | none =>
    match e.target with
    | .cells ref => return ref.label
    | .tables selector =>
      return if e.replacement.isEmpty then "delete table ".toList ++ selector.text
        else "table ".toList ++ selector.text ++ " op".toList
    | .text => describeText e

/-- The verdict on the pattern of an expression. -/
def validity (e : Expression) : Except Limit Text :=
  if e.pattern.isEmpty || namesPosition e.pattern then return "ok".toList
  else match e.compile with
    | .ok _ => return "ok".toList
    | .error (.flawed flaw at?) =>
      return ("ERROR: " ++ invalidPattern e.pattern flaw at?).toList
    | .error (.beyond limit) => throw limit

/-- The parts of an expression, the replacement cut short. -/
def body (e : Expression) : Text :=
  e.command.letter :: '/' :: e.pattern ++ '/' :: Directive.shorten e.replacement 40 ++ '/' ::
    (if e.isGlobal then ['g'] else []) ++ (if e.nth > 0 then Text.ofNat e.nth else [])

/-- The line for the expression at a position, counted from one. -/
def listingLine (position : Nat) (e : Expression) : Except Limit Text := do
  let description ← e.describe
  let validity ← e.validity
  let directive := (e.directive?.map (·.summary)).getD []
  return Text.join ['\t'] ([Text.ofNat position, description, validity, e.body] ++
    (if directive.isEmpty then [] else [directive]))

/-- The listing of expressions, with a summary if it is asked for. -/
def listing (es : List Expression) (withSummary : Bool) :
    Except Limit (List Text) := do
  let lines ← es.zipIdx.mapM fun (e, i) => listingLine (i + 1) e
  let count := es.length
  let footer := ["---", s!"dry-run: {count} expressions parsed, no changes made"].map (·.toList)
  return lines ++ (if withSummary then footer else [])

end Redline.Expression
