import Redline.Expression.Basic
import Redline.Expression.Delimited
import Redline.Template
import Redline.Text.Word

/-!
# Reading expressions

An expression is a command letter, a delimiter, and fields between places of the delimiter. The
pattern of a substitute command may open with a reference to tables, cells or images, and its
replacement may carry formatting blocks.
-/

namespace Redline

/-- Why a text is not an expression. -/
inductive ParseError where
  | empty
  | deleteWithoutPattern
  | lineCommand (command : Command)
  | transliterate
  | unequalLengths (source dest : Nat)
  | emptySource
  | notSubstitute
  | noReplacement
  /-- A reference in braces at the start of the pattern. -/
  | reference (cause : LeadingRef.Error)
  /-- A change of rows or columns in a reference. -/
  | table (cause : TableRef.Error)
  /-- The expression at a position, counted from one, as it is written. -/
  | numbered (position : Nat) (raw : Text) (cause : ParseError)
deriving Repr, DecidableEq

namespace ParseError

def message : ParseError → String
  | .empty => "empty expression"
  | .deleteWithoutPattern => "invalid delete command (empty pattern)"
  | .lineCommand command =>
    let letter := command.letter
    s!"invalid {letter} command (expected {letter}/pattern/text/)"
  | .transliterate => "invalid transliterate command (expected y/source/dest/)"
  | .unequalLengths source dest =>
    s!"transliterate: source and dest must have same length ({source} vs {dest})"
  | .emptySource => "transliterate: empty source"
  | .notSubstitute => "invalid sed expression (expected s/pattern/replacement/[flags])"
  | .noReplacement => "invalid sed expression (missing replacement)"
  | .reference cause => cause.message
  | .table cause => cause.message
  | .numbered position raw cause =>
    let raw := String.ofList raw
    s!"expression {position} (\"{raw}\"): {cause.message}"

end ParseError

namespace Expression

variable [CharNames]

/-- Reading an expression. -/
abbrev Read (α : Type) := Except (Refusal ParseError) α

def reject {α : Type} (e : ParseError) : Read α :=
  .error (.because e)

/-- The field at a position, empty when there is none. -/
def fieldAt (fields : List Text) (i : Nat) : Text :=
  (fields[i]?).getD []

/-- Read the fields of a delete command. -/
def readDelete (fields : List Text) (raw : Text) : Read Expression :=
  let pattern := fieldAt fields 0
  if pattern.isEmpty then reject .deleteWithoutPattern
  else return { command := .delete, pattern := Delimited.withFlags pattern (fieldAt fields 1), raw }

/-- Read the fields of a command that inserts lines. -/
def readLines (command : Command) (fields : List Text) (raw : Text) : Read Expression :=
  match fields with
  | pattern :: replacement :: rest =>
    return { command, pattern := Delimited.withFlags pattern (fieldAt rest 0), replacement, raw }
  | _ => reject (.lineCommand command)

/-- Read the fields of a transliterate command. -/
def readTransliterate (fields : List Text) (raw : Text) : Read Expression :=
  match fields with
  | source :: dest :: _ =>
    if source.length ≠ dest.length then reject (.unequalLengths source.length dest.length)
    else if source.isEmpty then reject .emptySource
    else return { command := .transliterate, pattern := source, replacement := dest, raw }
  | _ => reject .transliterate

/-- What a pattern is about, the pattern that is left, and the replacement, which the size of a
table to create takes over. -/
structure Aim where
  target : Target
  pattern : Text
  replacement : Text

/-- The aim of a pattern that opens with a table reference. -/
def aimOfTable (ref : TableRef) (rest replacement : Text) : Read Aim := do
  let target ← refuseAs .table ref.target
  let target := match target with
    | .cells cells => if rest.isEmpty then target else .cells { cells with inner := rest }
    | target => target
  let replacement := match ref.size? with
    | some size => size.piped
    | none => replacement
  return { target, pattern := rest, replacement }

/-- The aim of a pattern that is not a piped cell reference. -/
def aimOfLead (pattern replacement : Text) : Read Aim := do
  if !Text.startsWith ['\x7b'] pattern then return { target := .text, pattern, replacement }
  match ← refuseAs .reference (LeadingRef.detect pattern) with
  | (rest, some (.table ref)) => aimOfTable ref rest replacement
  | (_, some (.image ref)) => return { target := .text, pattern := ref.asPattern, replacement }
  | (_, none) => return { target := .text, pattern, replacement }

/-- The aim of a pattern, in any of the forms of a reference. -/
def aim (pattern replacement : Text) : Read Aim := do
  match ← Refusal.ofNumber (CellRef.readPiped? pattern) with
  | some cells => return { target := .cells cells, pattern := cells.inner, replacement }
  | none =>
    let a ← aimOfLead pattern replacement
    if a.target = .text then
      match ← Refusal.ofNumber (TableSelector.readPiped? a.pattern) with
      | some selector => return { a with target := .tables selector, pattern := [] }
      | none => return a
    else return a

/-- The size of a table that a directive asks to create in place of the replacement. -/
def sizeOfDirective (d : Directive) : Read (Option TableSize) :=
  if d.table.isEmpty then return none
  else match TableRef.read d.table with
    | .ok ref => return ref.size?
    | .error (.because _) => return none
    | .error (.beyond limit) => .error (.beyond limit)

/-- Braces without the backslashes that kept them from being blocks. -/
def plainBraces (t : Text) : Text :=
  Text.replaceAll "\\\x7d".toList ['\x7d'] (Text.replaceAll "\\\x7b".toList ['\x7b'] t)

/-- Take the formatting blocks out of a replacement. -/
def addReplacement (e : Expression) (replacement : Text) : Read Expression := do
  let plain := { e with replacement := plainBraces replacement }
  if !Block.occursIn replacement then return plain
  let (cleaned, blocks) := Block.extract replacement
  let formatted := { e with replacement := cleaned, blocks }
  match formatted.directive? with
  | none => return plain
  | some d =>
    match ← sizeOfDirective d with
    | some size => return { e with replacement := size.piped }
    | none => return formatted

/-- Read the fields of a substitute command. -/
def readSubstitute (fields : List Text) (raw : Text) : Read Expression := do
  match fields with
  | pattern :: replacement :: rest =>
    let flags := fieldAt rest 0
    let a ← aim (Delimited.withFlags pattern flags) (Template.convert replacement)
    let e ← addReplacement
      { pattern := a.pattern, target := a.target, isGlobal := flags.contains 'g', raw }
      a.replacement
    return { e with nth := ← Refusal.ofNumber (Delimited.nth flags) }
  | _ => reject .noReplacement

/-- Read an expression. -/
def read (raw : Text) : Read Expression :=
  match raw with
  | [] => reject .empty
  | [_] => reject .notSubstitute
  | letter :: delimiter :: rest =>
    let fields := Delimited.split delimiter rest
    match if isAlnum delimiter then none else Command.ofLetter? letter with
    | some .delete => readDelete fields raw
    | some .transliterate => readTransliterate fields raw
    | some command => readLines command fields raw
    | none =>
      if letter ≠ 's' ∨ rest.length < 2 then reject .notSubstitute
      else readSubstitute fields raw

/-- Read expressions in order; an error names the position of its expression, from one on. -/
def readAll (raws : List Text) : Read (List Expression) :=
  raws.zipIdx.mapM fun (raw, i) => refuseAs (.numbered (i + 1) raw) (read raw)

end Expression

end Redline
