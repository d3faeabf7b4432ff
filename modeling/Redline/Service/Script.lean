import Redline.Session.Basic

/-!
# Scripted services

A service whose answers are set down beforehand, to try out a session without a connection.
-/

namespace Redline

/-- The answers of a service that are still to come. -/
structure Script where
  /-- The last document is given again and again. -/
  documents : List (Except Failure Document) := []
  /-- The answers to batches; one that is left open is blank. -/
  responses : List (Option (Except Failure Response)) := []

namespace Script

/-- The next document; without any it is the empty one. -/
def fetch (s : Script) : Except Failure Document × Script :=
  match s.documents with
  | [] => (.ok {}, s)
  | [d] => (d, s)
  | d :: rest => (d, { s with documents := rest })

/-- The next answer to a batch; after the last one the answers are blank. -/
def update (requests : List Request) (s : Script) : Except Failure Response × Script :=
  let blank := .ok (.blank requests.length)
  match s.responses with
  | [] => (blank, s)
  | answer :: rest => (answer.getD blank, { s with responses := rest })

/-- The service that answers by its script. -/
def service : Service Script where
  fetch := fetch
  update := update

end Script

end Redline
