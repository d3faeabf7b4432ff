import Redline.Fault

/-!
# Trying again

A call that fails for a passing reason is made again after a pause. The pause doubles from one
attempt to the next up to a limit, and its second half is left to chance. It is computed with a
power of two, so a call that has failed more than a thousand times is not made again.
-/

namespace Redline

/-- How often a call is made again, and how long the pauses are, in seconds. -/
structure RetryPolicy where
  maxRetries : Nat := 5
  baseDelay : Float := 1
  maxDelay : Float := 30

namespace RetryPolicy

/-- The length of the pause after a failed attempt, counted from zero. The chance is a number from
zero to one. -/
def seconds (p : RetryPolicy) (chance : Float) (attempt : Int) : Float :=
  let doubled := p.baseDelay * Float.scaleB 1 attempt
  let capped := if p.maxDelay < doubled then p.maxDelay else doubled
  let half := capped / 2
  half + (if half > 0 then half * chance else 0)

/-- The exponent of the first power of two that is beyond the range of doubles. -/
def exponentLimit : Nat := 1024

/-- The pause after a failed attempt, as long as the power of two that it takes is a double. -/
def delay (p : RetryPolicy) (chance : Float) (attempt : Int) : Except Limit Float :=
  if attempt.toNat < exponentLimit then .ok (p.seconds chance attempt) else .error .doubleRange

end RetryPolicy

/-- Make a call until it succeeds, fails for good, or no retry or pause is left. The counters are
the retries that are left and the attempts that were made. -/
def retryFrom {m : Type → Type} [Monad m] {α : Type} (policy : RetryPolicy) (chance : Float)
    (call : m (Except Failure α)) (pause : Float → m Unit) : Nat → Nat → m (Except Fault α)
  | left, attempt => do
    match ← call with
    | .ok a => return .ok a
    | .error f =>
      if !f.isTransient then return .error (.service f)
      else match left with
        | 0 => return .error (.exhausted policy.maxRetries f)
        | left + 1 =>
          match policy.delay chance attempt with
          | .error l => return .error (.limit l)
          | .ok seconds => do
            pause seconds
            retryFrom policy chance call pause left (attempt + 1)

/-- Make a call, and make it again as the policy allows. -/
def retry {m : Type → Type} [Monad m] {α : Type} (policy : RetryPolicy) (chance : Float)
    (call : m (Except Failure α)) (pause : Float → m Unit) : m (Except Fault α) :=
  retryFrom policy chance call pause policy.maxRetries 0

end Redline
