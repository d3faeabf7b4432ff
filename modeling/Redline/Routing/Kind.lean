import Redline.Expression.Basic
import Redline.Markdown.Plain
import Redline.Markdown.Table

/-!
# Kinds of expressions

How an expression is carried out depends on its kind. An expression that runs alone and one that
runs among others are sorted by slightly different rules.
-/

namespace Redline

/-- The ways to carry out an expression. -/
inductive Kind where
  | command
  | tables
  | positional
  | cell
  | tableCreate
  | image
  | imageInsert
  | native
  | manual
deriving Repr, DecidableEq

/-- The name of a kind. -/
def Kind.name : Kind → String
  | .command => "command"
  | .tables => "table"
  | .positional => "positional"
  | .cell => "cell"
  | .tableCreate => "table_create"
  | .image => "image"
  | .imageInsert => "image_insert"
  | .native => "native"
  | .manual => "manual"

namespace Expression

variable [CharNames]

/-- The words for merging and splitting cells. -/
def mergeWords : List String :=
  ["merge", "unmerge", "split"]

/-- The operation that a replacement may name, in lower case. -/
def operationWord (replacement : Text) : Text :=
  lower (Text.trim replacement)

/-- The replacement asks for cells to be merged or split. -/
def isMergeWord (replacement : Text) : Bool :=
  mergeWords.any (·.toList == operationWord replacement)

/-- The expression is a plain replacement that the service can make everywhere at once. -/
def isNative (e : Expression) : Bool :=
  e.isGlobal && e.nth == 0 && e.blocks.isEmpty && Markdown.isPlain e.replacement

/-- The replacement writes an image. -/
def insertsImage (e : Expression) : Bool :=
  Text.startsWith "![".toList e.replacement ||
    match e.directive? with
    | some d => !d.image.isEmpty
    | none => false

/-- The table that the replacement writes. -/
def tableSpec? (e : Expression) : Except Limit (Option TableSpec) :=
  (TableSpec.read? e.replacement).mapError .digits

/-- The images that the pattern names. -/
def imageRef? (e : Expression) : Except Limit (Option ImageRef) :=
  ImageRef.readPattern? e.pattern

/-- The kind of a substitution in text, by what it writes and looks for. -/
def textKind (e : Expression) : Except Limit Kind := do
  if (← e.tableSpec?).isSome then return .tableCreate
  if (← e.imageRef?).isSome then return .image
  return if e.isNative then .native else .manual

/-- The kind of an expression that runs alone. -/
def kind (e : Expression) : Except Limit Kind :=
  if e.command ≠ .substitute then return .command
  else match e.target with
    | .tables _ => return .tables
    | .cells _ => return .cell
    | .text => if e.isPositional then return .positional else textKind e

/-- The kind of an expression that runs among others. Replacements that write an image have a queue
of their own, unless the pattern names images, and operations on whole tables go with those on
cells. -/
def kindAmongOthers (e : Expression) : Except Limit Kind :=
  if e.command ≠ .substitute then return .command
  else match e.target with
    | .tables _ | .cells _ => return .cell
    | .text =>
      if e.isPositional then return .positional
      else do
        if (← e.imageRef?).isNone && e.insertsImage then return .imageInsert
        textKind e

/-- The expression replaces one whole cell, so that it can go together with its neighbours. -/
def replacesOneCell (e : Expression) : Bool :=
  match e.cells? with
  | some ref =>
    e.pattern.isEmpty && 0 < ref.row && 0 < ref.column && !ref.isRange && !ref.isChange &&
      !isMergeWord e.replacement
  | none => false

end Expression

end Redline
