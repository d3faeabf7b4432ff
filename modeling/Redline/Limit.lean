import Redline.Number.Whole

/-!
# Limits

Conditions under which no answer is computed although nothing is wrong with the expression as such:
a number is too large to be represented, or a document lacks a position that the computation needs.
A reader that can meet a limit refuses a text either for a cause of its own or for the limit.
-/

namespace Redline

/-- A condition that stops a computation for lack of an answer. -/
inductive Limit where
  /-- A number has too many digits. -/
  | digits (e : TooManyDigits)
  /-- A repetition count of a pattern is beyond what is counted. -/
  | repetition
  /-- A pattern asks for two alphabets at once. -/
  | alphabets
  /-- An infinite size has no whole part. -/
  | infiniteSize
  /-- A whole number is beyond the range of doubles. -/
  | doubleRange
  /-- A document element lacks a member. -/
  | missing (member : String)
deriving Repr, DecidableEq

def Limit.message : Limit → String
  | .digits e => e.message
  | .repetition => "the repetition number is too large"
  | .alphabets => "ASCII and UNICODE flags are incompatible"
  | .infiniteSize => "cannot convert float infinity to integer"
  | .doubleRange => "int too large to convert to float"
  | .missing member => s!"'{member}'"

/-- Why a reader refuses a text. -/
inductive Refusal (ε : Type) where
  /-- Something is wrong with the text. -/
  | because (cause : ε)
  /-- The text is beyond a limit. -/
  | beyond (limit : Limit)
deriving Repr, DecidableEq

namespace Refusal

/-- A number that is read inside a larger text. -/
def ofNumber {ε α : Type} : Except TooManyDigits α → Except (Refusal ε) α
  | .ok a => .ok a
  | .error e => .error (.beyond (.digits e))

/-- The same refusal with another cause. -/
def map {ε δ : Type} (f : ε → δ) : Refusal ε → Refusal δ
  | .because e => .because (f e)
  | .beyond l => .beyond l

end Refusal

/-- Report the cause of a refusal in other terms. -/
def refuseAs {ε δ α : Type} (f : ε → δ) : Except (Refusal ε) α → Except (Refusal δ) α
  | .ok a => .ok a
  | .error r => .error (r.map f)

end Redline
