import Redline.Number.Real
import Redline.Session.Basic

/-!
# Configuration

The settings of a session and the file with credentials, by the variables of the environment. A
variable that is blank or holds no number leaves its setting as it is.
-/

namespace Redline

/-- The variables of the environment by their names. -/
abbrev Environment := String → Option Text

/-- What is set from outside. -/
structure Configuration where
  settings : Settings := {}
  /-- The path of the file with credentials. -/
  credentials : Option Text := none

namespace Configuration

/-- The names of the variables. -/
def variableNames : List String :=
  ["DOCSED_MAX_RETRIES", "DOCSED_BASE_DELAY", "DOCSED_MAX_DELAY", "DOCSED_IMAGE_PAUSE",
    "DOCSED_IMAGE_RETRY_PAUSE", "GOOGLE_DOCS_CREDENTIALS"]

/-- The value of a variable, or a default. -/
private def valueOr {α : Type} (read : Text → Option α) (env : Environment) (name : String)
    (default : α) : α :=
  ((env name).bind read).getD default

/-- The configuration that an environment gives. There are never less than zero retries. -/
def ofEnvironment (env : Environment) : Configuration :=
  let d : Settings := {}
  let real := valueOr Real.read? env
  let retries := valueOr Whole.readLenient? env "DOCSED_MAX_RETRIES" d.retries.maxRetries
  { settings :=
      { retries :=
          { maxRetries := retries.toNat
            baseDelay := real "DOCSED_BASE_DELAY" d.retries.baseDelay
            maxDelay := real "DOCSED_MAX_DELAY" d.retries.maxDelay }
        imagePause := real "DOCSED_IMAGE_PAUSE" d.imagePause
        imageRetryPause := real "DOCSED_IMAGE_RETRY_PAUSE" d.imageRetryPause }
    credentials := (env "GOOGLE_DOCS_CREDENTIALS").filter (!·.isEmpty) }

end Configuration

end Redline
