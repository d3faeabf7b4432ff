import Redline.Document.Bullets
import Redline.Session.Basic

/-!
# Creating bullets again

Creating bullets uses up tabs and moves everything behind them, so one run is done at a time and the
document is fetched anew in between.
-/

namespace Redline.Session

variable {σ : Type}

/-- Create the bullets of the first run of the document, if there is one. -/
def createFirst (runs : List BulletRun) : Run σ Bool := do
  match runs with
  | [] => return false
  | r :: _ =>
    discard <| Run.update r.requests
    return true

/-- Create the bullets of one run after another, at most so many, and count them. -/
def recreateUpTo : Nat → Run σ Nat
  | 0 => return 0
  | budget + 1 => do
    let doc ← Run.fetch
    if ← createFirst doc.bulletRuns then return (← recreateUpTo budget) + 1
    else return 0

/-- Create the bullets of all runs. Without a bound it is one more than the runs at the start. -/
def recreateBullets (bound : Option Nat) : Run σ Nat := do
  match bound with
  | some n => recreateUpTo n
  | none =>
    let doc ← Run.fetch
    let runs := doc.bulletRuns
    if ← createFirst runs then return (← recreateUpTo runs.length) + 1
    else return 0

end Redline.Session
