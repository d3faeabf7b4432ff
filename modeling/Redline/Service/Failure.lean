import Redline.Text.Basic

/-!
# Failures of the service

A call of the service fails with a response, which may have a status, or in some other way. Either
way the failure comes with a text. Some failures are transient, so that the call may be made again.
-/

namespace Redline

/-- A failed call, with the text of its failure. -/
inductive Failure where
  | http (status : Option Int) (text : Text)
  | other (text : Text)
deriving Repr, DecidableEq

namespace Failure

/-- The status of the response, if there was one. -/
def status? : Failure → Option Int
  | .http status _ => status
  | .other _ => none

def message : Failure → Text
  | .http _ text | .other text => text

/-- The statuses of transient failures. -/
def transientStatuses : List Int :=
  [429, 500, 502, 503]

/-- The failure may pass when the call is made again: by its status, or by a mention of the rate
limit in its message. -/
def isTransient (f : Failure) : Bool :=
  f.status?.any transientStatuses.contains ||
    ["rateLimitExceeded", "429"].any fun mark => Text.occursIn mark.toList f.message

end Failure

end Redline
