import Redline.CommandLine.Arguments
import Redline.CommandLine.Configuration
import Redline.CommandLine.Credentials
import Redline.Expression.Reader
import Redline.Routing.Listing
import Redline.Session.Schedule

/-!
# The program

From the arguments to the output: expressions are collected and read, listed or run, and what has
come of them is written as lines or as JSON.
-/

namespace Redline

/-- What ends the program before its result. -/
inductive Trouble where
  | run (f : Fault)
  | file (e : FileError)
  | credentials (e : Credentials.Error)
deriving Repr, DecidableEq

namespace Trouble

/-- How trouble is shown. -/
def report : Trouble → Report
  | .run f => .ofFault f
  | .file e => { code := .apiError, message := e.message }
  | .credentials e => { code := .apiError, message := e.message }

/-- The trouble is shown to the user. Limits, failures without a status and credentials that are no
object are not. -/
def isShown : Trouble → Bool
  | .run f => f.isReportable
  | .file _ => true
  | .credentials (.notAnObject _) => false
  | .credentials _ => true

end Trouble

/-- The end of the program. -/
inductive Ending where
  | usage (u : Usage)
  | done (status : Nat) (output errors : Text)
deriving Repr, DecidableEq

/-- What surrounds the program. -/
structure Surroundings (σ : Type) where
  files : Files
  environment : Environment
  /-- The text that is piped in; there is none at a terminal. -/
  input : Option Text
  /-- The service for a document, by the path of the credentials. -/
  connect : Option Text → Except Credentials.Error (Service σ)
  /-- The chance in the length of pauses, from zero to one. -/
  chance : Float := 0

namespace Program

variable [CharNames]

/-- Texts, each with a newline at its end. -/
def lines (texts : List Text) : Text :=
  texts.flatMap (· ++ ['\n'])

/-- The expressions of a script: one on a line, without blank lines and comments. -/
def scriptLines (t : Text) : List Text :=
  ((Text.fields '\n' t).map Text.trim).filter fun line =>
    !line.isEmpty && !Text.startsWith ['#'] line

/-- The expressions that the arguments give, and those that are piped in when there are none. -/
def collect (files : Files) (input : Option Text) (a : Arguments) :
    Except FileError (List Text) := do
  let script ← match a.file with
    | some (c :: path) => (files.readText (c :: path)).map scriptLines
    | _ => pure []
  let collected := (a.expression.filter (!·.isEmpty)).toList ++ a.expressions ++ script
  return if collected.isEmpty then scriptLines (input.getD []) else collected

/-- How trouble is written. -/
def showTrouble (asJson : Bool) (r : Report) : Ending :=
  if asJson then .done 1 (lines [r.toJson.indented]) []
  else .done 1 [] (lines (("error: ".toList ++ r.message) ::
    (if r.suggestion.isEmpty then [] else ["hint: ".toList ++ r.suggestion])))

/-- How the outcome of a run is written. -/
def showOutcome (asJson : Bool) (o : Outcome) : Text :=
  if asJson then lines [(Json.ofFields (o.map fun (key, value) => (key, value.toJson))).indented]
  else lines (Session.reportLines o)

/-- Read all expressions. -/
private def readAll (texts : List Text) : Except Trouble (List Expression) :=
  (Expression.readAll texts).mapError fun e => .run (.ofRefusal .parse e)

/-- The output of listing expressions. -/
private def list (texts : List Text) : Except Trouble Text := do
  let es ← readAll texts
  return lines (← (Expression.listing es true).mapError fun l => .run (.limit l))

variable {σ : Type}

/-- The output of running expressions. -/
private def execute (s : Surroundings σ) (a : Arguments) (texts : List Text) :
    ExceptT Trouble (StateM (World σ)) Text := do
  let es ← ofExcept (readAll texts)
  let c := Configuration.ofEnvironment s.environment
  let service ← ofExcept ((s.connect c.credentials).mapError .credentials)
  let session : Session σ := { service, settings := c.settings, chance := s.chance }
  let result ← modifyGet ((Session.runAll es).execute session)
  let outcome ← ofExcept (result.mapError .run)
  return showOutcome a.json (Session.report a.document outcome)
where
  ofExcept {α : Type} (x : Except Trouble α) : ExceptT Trouble (StateM (World σ)) α :=
    ExceptT.mk (pure x)

/-- The output for arguments. -/
private def output (s : Surroundings σ) (a : Arguments) :
    ExceptT Trouble (StateM (World σ)) Text :=
  match (collect s.files s.input a).mapError Trouble.file with
  | .error e => throw e
  | .ok [] => throw (.run .noExpressions)
  | .ok texts => if a.dryRun then ExceptT.mk (pure (list texts)) else execute s a texts

/-- Run the program. Trouble that is not shown is left to the caller. -/
def run (s : Surroundings σ) (arguments : List Text) :
    ExceptT Trouble (StateM (World σ)) Ending :=
  match Arguments.read arguments with
  | .error u => return .usage u
  | .ok a =>
    tryCatch (do return .done 0 (← output s a) []) fun trouble =>
      if trouble.isShown then return showTrouble a.json trouble.report else throw trouble

end Program

end Redline
