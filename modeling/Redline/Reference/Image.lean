import Redline.Pattern.Reader

/-!
# References to images

An image is named by its signed position, by a pattern for its alternative text, or all images are
meant. There is a form in braces and a form that stands as a search pattern.
-/

namespace Redline

/-- A reference to images of a document. -/
inductive ImageRef where
  | all
  /-- The image at a position from one on, negative ones from the end. -/
  | position (i : Int)
  /-- The images whose alternative text matches, with the pattern as it is written. -/
  | alt (source : Text) (pattern : Pattern)

namespace ImageRef

/-- What is wrong with the value of an image reference. -/
inductive Error where
  | empty
  | zero
  | badPattern (source : Text) (flaw : Pattern.Flaw) (at? : Option Nat)
deriving Repr, DecidableEq

def Error.message : Error → String
  | .empty => "empty image spec"
  | .zero => "image index cannot be 0; use * for all"
  | .badPattern source flaw at? =>
    "invalid image pattern " ++ Text.quote source ++ ": " ++
      Pattern.flawText source flaw at?

/-- The reference as a search pattern. -/
def asPattern : ImageRef → Text
  | .all => "!(*)".toList
  | .position i => "!(".toList ++ Text.ofInt i ++ [')']
  | .alt source _ => "![".toList ++ source ++ [']']

/-- The reference as it is written in braces. -/
def text : ImageRef → Text
  | .all => "\x7bimg=*\x7d".toList
  | .position i => "\x7bimg=".toList ++ Text.ofInt i ++ ['\x7d']
  | .alt source _ => "\x7bimg=".toList ++ source ++ ['\x7d']

/-- Read the value of a reference in braces. -/
def read [CharNames] (value : Text) : Except (Refusal Error) ImageRef := do
  let value := Text.trim value
  if value.isEmpty then throw (.because .empty)
  if value == ['*'] then return .all
  match ← Refusal.ofNumber (Whole.read? value) with
  | some 0 => throw (.because .zero)
  | some i => return .position i
  | none =>
    match Pattern.read value with
    | .ok p => return .alt value p
    | .error (.flawed flaw at?) => throw (.because (.badPattern value flaw at?))
    | .error (.beyond limit) => throw (.beyond limit)

/-- The text between the opening and the closing mark of an image pattern. -/
def between? (opening : String) (closing : Char) (t : Text) : Option Text :=
  if Text.startsWith opening.toList t && t.getLast? == some closing then
    some (t.dropLast.drop opening.length)
  else none

/-- Read a position or a star between parentheses. -/
def readPosition (inner : Text) : Except Limit (Option ImageRef) :=
  if inner == ['*'] then .ok (some .all)
  else match Whole.read? inner with
    | .error e => .error (.digits e)
    | .ok (some i) => .ok (if i = 0 then none else some (.position i))
    | .ok none => .ok none

/-- Read a reference that stands as a search pattern. -/
def readPattern? [CharNames] (pattern : Text) : Except Limit (Option ImageRef) :=
  match between? "!(" ')' pattern, between? "![](" ')' pattern, between? "![" ']' pattern with
  | some inner, _, _ => readPosition inner
  | none, some inner, _ => readPosition inner
  | none, none, some source =>
    if Text.occursIn "](".toList pattern || source.isEmpty then .ok none
    else match Pattern.read source with
      | .ok p => .ok (some (.alt source p))
      | .error (.flawed _ _) => .ok none
      | .error (.beyond limit) => .error limit
  | none, none, none => .ok none

end ImageRef

end Redline
