import Redline.Text.Quoted

/-!
# Files

Reading files by their paths. A text file may end its lines in any of the three usual ways.
-/

namespace Redline

/-- Why a file cannot be read. -/
inductive FileError where
  | notFound (path : Text)
  | isDirectory (path : Text)
deriving Repr, DecidableEq

def FileError.message : FileError → Text
  | .notFound path => "[Errno 2] No such file or directory: ".toList ++ Text.quoted path
  | .isDirectory path => "[Errno 21] Is a directory: ".toList ++ Text.quoted path

/-- The contents of files by their paths. -/
abbrev Files := Text → Except FileError Text

/-- A text in which every line ends with a newline alone. -/
def Text.withNewlines : Text → Text
  | '\r' :: '\n' :: rest => '\n' :: withNewlines rest
  | '\r' :: rest => '\n' :: withNewlines rest
  | c :: rest => c :: withNewlines rest
  | [] => []

/-- The content of a text file. -/
def Files.readText (files : Files) (path : Text) : Except FileError Text :=
  (files path).map Text.withNewlines

end Redline
