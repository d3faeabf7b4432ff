import Redline.Document.Basic
import Redline.Request.Basic
import Redline.Service.Response
import Redline.Service.Retry

/-!
# Sessions

A session works on one document of a service. It fetches the document and sends batches of
requests, and it pauses before it tries again. The service is any machine with a state of its own;
everything that a session does to it is written to a log.
-/

namespace Redline

/-- A service for one document, as a machine with a state. -/
structure Service (σ : Type) where
  fetch : σ → Except Failure Document × σ
  update : List Request → σ → Except Failure Response × σ

/-- What a session does to the outside. -/
inductive Event where
  | fetch
  | update (requests : List Request)
  | pause (seconds : Float)

/-- The settings of a session. -/
structure Settings where
  retries : RetryPolicy := {}
  /-- The pause before an image is inserted. -/
  imagePause : Float := 0.5
  /-- The pause before an image is tried again. -/
  imageRetryPause : Float := 2

/-- What a session works with. -/
structure Session (σ : Type) where
  service : Service σ
  settings : Settings
  /-- The chance in the length of pauses, from zero to one. -/
  chance : Float := 0

/-- The state of a session: the service, the log, and the number of batches. -/
structure World (σ : Type) where
  state : σ
  log : List Event := []
  batches : Nat := 0

/-- A computation of a session: it ends with a value or a fault, and in a state either way. -/
abbrev Run (σ : Type) := ReaderT (Session σ) (ExceptT Fault (StateM (World σ)))

namespace Run

variable {σ : Type}

/-- Run a computation from a state. -/
def execute {α : Type} (x : Run σ α) (s : Session σ) (w : World σ) : Except Fault α × World σ :=
  ((x.run s).run).run w

/-- Write an event to the log. -/
def note (event : Event) (w : World σ) : World σ :=
  { w with log := w.log ++ [event] }

/-- Pause for some seconds. -/
def pause (seconds : Float) : StateM (World σ) Unit :=
  modify (note (.pause seconds))

/-- Pause for some seconds in the course of a computation. -/
def wait (seconds : Float) : Run σ Unit := fun _ =>
  ExceptT.lift (pause seconds)

/-- Call the service once. -/
def call {α : Type} (event : Event) (f : σ → Except Failure α × σ) :
    StateM (World σ) (Except Failure α) := fun w =>
  let (answer, state) := f w.state
  (answer, { note event w with state })

/-- Call the service, and call it again as the settings allow. -/
def request {α : Type} (event : Event) (f : Service σ → σ → Except Failure α × σ) :
    Run σ α := fun s =>
  ExceptT.mk (retry s.settings.retries s.chance (call event (f s.service)) pause)

/-- Fetch the document. -/
def fetch : Run σ Document :=
  request .fetch (·.fetch)

/-- Send a batch of requests. An empty batch is not sent. -/
def update (requests : List Request) : Run σ Response := do
  if requests.isEmpty then return {}
  modify fun w => { w with batches := w.batches + 1 }
  request (.update requests) (·.update requests)

/-- A value, or the limit that was met on the way to it. -/
def ofLimited {α : Type} (x : Except Limit α) : Run σ α :=
  match x with
  | .ok a => pure a
  | .error l => throw (.limit l)

/-- A value, or what is wrong with an operation on tables. -/
def ofTable {α : Type} (x : Except TableError α) : Run σ α :=
  match x with
  | .ok a => pure a
  | .error e => throw (.table e)

/-- The pattern of an expression, ready to search with. -/
def compile [CharNames] (e : Expression) : Run σ Pattern :=
  match e.compile with
  | .ok p => pure p
  | .error (.flawed flaw position) => throw (.pattern e.pattern flaw position)
  | .error (.beyond l) => throw (.limit l)

/-- Report a fault together with where it arose. -/
def within {α : Type} (origin : Origin) (x : Run σ α) : Run σ α :=
  tryCatch x fun fault => throw (if fault.isReportable then .within origin fault else fault)

end Run

/-- A value in the outcome of a run. -/
inductive Value where
  | text (t : Text)
  | count (n : Int)
  | flag (b : Bool)
deriving Repr, DecidableEq

namespace Value

/-- A value in JSON. -/
def toJson : Value → Json
  | .text t => .str t
  | .count n => .int n
  | .flag b => .bool b

/-- A value as a text. -/
def display : Value → Text
  | .text t => t
  | .count n => Text.ofInt n
  | .flag b => (if b then "true" else "false").toList

end Value

/-- The outcome of a run: named values in order. -/
abbrev Outcome := List (String × Value)

end Redline
