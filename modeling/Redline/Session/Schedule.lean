import Redline.Routing.Queues
import Redline.Session.Bullets
import Redline.Session.Commands
import Redline.Session.Images
import Redline.Session.Insert
import Redline.Session.Substitute

/-!
# Running expressions

One expression runs by its kind. Several are sorted into queues, which are worked off in a fixed
order: inserts at places, native replacements, single steps, bullets, new tables, cells, images.
-/

namespace Redline.Session

variable {σ : Type} [CharNames]

/-- Replace plain text everywhere in one batch, and count the places. -/
def runNative (es : List Expression) : Run σ Int := do
  let response ← Run.update (es.map fun e =>
    .replaceAllText e.pattern (Template.literal e.replacement) true true)
  return response.occurrences

/-- Carry out a substitution, and create the bullets that it has left open. -/
def runManual (e : Expression) : Run σ Nat := do
  let result ← substitute e
  if !result.deferred.isEmpty then
    discard <| recreateBullets none
  return result.replaced

/-- Run an expression on cells. -/
def runCells (ref : CellRef) (e : Expression) : Run σ Outcome :=
  if Expression.isMergeWord e.replacement then mergeCells ref e.replacement
  else replaceCells ref e

/-- Run an expression that is not about text. -/
def runTarget (e : Expression) : Run σ Outcome :=
  match e.target with
  | .tables selector => deleteTables selector e.replacement
  | .cells ref => runCells ref e
  | .text => return []

/-- Run one expression by itself. -/
def runOne (e : Expression) : Run σ Outcome := do
  match ← Run.ofLimited e.kind with
  | .command => runCommand e
  | .tables | .cell => runTarget e
  | .positional => runPositional e
  | .tableCreate =>
    match ← Run.ofLimited e.tableSpec? with
    | some spec => createTable e spec
    | none => return []
  | .image =>
    match ← Run.ofLimited e.imageRef? with
    | some ref => replaceImages ref e.replacement e.isGlobal
    | none => return []
  | .native => return [("replaced", .count (← runNative [e])), ("native", .flag true)]
  | .manual | .imageInsert => return [("replaced", .count (← runManual e))]

/-- What a step has done: how much it counts for, and whether bullets are left open. -/
structure Step where
  count : Nat
  deferred : Bool := false

/-- Run an expression of the queue of single steps. -/
def runStep (e : Expression) : Run σ Step := do
  let ref ← Run.ofLimited e.imageRef?
  if e.command ≠ .substitute then
    discard <| runCommand e
    return ⟨1, false⟩
  match ref with
  | some ref =>
    discard <| replaceImages ref e.replacement e.isGlobal
    return ⟨1, false⟩
  | none =>
    let result ← substitute e
    return ⟨result.replaced, !result.deferred.isEmpty⟩

/-- The origin of a fault in a single step. -/
def stepOrigin (item : Numbered) : Origin :=
  .step (item.position + 1) item.expression.pattern item.expression.replacement

/-- Work off the queue of single steps, then create the bullets that are left open. -/
def runSteps (items : List Numbered) : Run σ Nat := do
  let steps ← items.mapM fun item => Run.within (stepOrigin item) (runStep item.expression)
  if steps.any (·.deferred) then
    discard <| recreateBullets none
  return steps.foldl (fun count step => count + step.count) 0

/-- Work off the native replacements in one batch. -/
def runNatives (items : List Numbered) : Run σ Int :=
  match items with
  | [] => return 0
  | first :: _ =>
    Run.within (.expression (first.position + 1)) (runNative (items.map (·.expression)))

/-- Run each expression of a queue; a fault names its position. -/
def runEach (items : List Numbered) (run : Expression → Run σ Outcome) : Run σ Nat := do
  for item in items do
    discard <| Run.within (.expression (item.position + 1)) (run item.expression)
  return items.length

/-- Create the table that an expression writes. -/
def runTableCreate (e : Expression) : Run σ Outcome := do
  match ← Run.ofLimited e.tableSpec? with
  | some spec => createTable e spec
  | none => return []

/-- What a unit of cells writes: the position, the cell and the replacement of each expression. -/
def unitItems (unit : List Numbered) : List (Nat × CellRef × Text) :=
  unit.filterMap fun item =>
    item.expression.cells?.map fun ref => (item.position, ref, item.expression.replacement)

/-- Run one unit of the queue for cells. -/
def runUnit (unit : List Numbered) : Run σ Nat := do
  match unit, unit.getLast? with
  | first :: _ :: _, some last =>
    discard <| Run.within (.cells (first.position + 1) (last.position + 1))
      (replaceCellBatch (unitItems unit))
    return unit.length
  | _, _ => runEach unit runTarget

/-- Insert an image after a pause; a fault is tried once more after another pause. -/
def runImage (item : Numbered) : Run σ Nat := do
  let settings := (← read).settings
  Run.wait settings.imagePause
  tryCatch (runManual item.expression) fun fault => do
    if !fault.isReportable then throw fault
    Run.wait settings.imageRetryPause
    Run.within (.image (item.position + 1)) (runManual item.expression)

/-- Run several expressions, queue by queue. -/
def runMany (es : List Expression) : Run σ Outcome := do
  let q ← Run.ofLimited (Queues.ofExpressions es)
  let positional ← runEach q.positional runPositional
  let everywhere ← runNatives q.native
  let manual ← runSteps q.manual
  let created ← runEach q.tableCreate runTableCreate
  let cells ← (Queues.units q.cell).mapM runUnit
  let images ← q.images.mapM runImage
  let counted : Nat := (cells ++ images).foldl (· + ·) 0
  let total : Int := positional + everywhere + manual + created + counted
  return [("expressions", .count es.length), ("replaced", .count total)]

/-- Run expressions in the order in which they are given. -/
def runAll (es : List Expression) : Run σ Outcome :=
  match es with
  | [] => throw .noExpressions
  | [e] => runOne e
  | es => runMany es

/-- The outcome of a run, as it is reported. -/
def report (documentId : Text) (outcome : Outcome) : Outcome :=
  [("status", .text "ok".toList), ("docId", .text documentId)] ++ outcome

/-- The lines of a report. -/
def reportLines (r : Outcome) : List Text :=
  r.map fun (key, value) => key.toList ++ '\t' :: value.display

end Redline.Session
