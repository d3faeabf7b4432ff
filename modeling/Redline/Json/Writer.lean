import Redline.Json.Basic
import Redline.Number.Layout
import Redline.Text.Quoted

/-!
# Writing JSON

Values are written in plain ASCII, either on one line or with each member and item on a line of its
own.
-/

namespace Redline.Json

/-- The escape of one 16-bit unit. -/
def unitEscape (n : Nat) : Text :=
  '\\' :: 'u' :: Text.hex 4 n

/-- A character inside a JSON string. -/
def escapeChar (c : Char) : Text :=
  if c == '"' then ['\\', '"']
  else if c == '\\' then ['\\', '\\']
  else if c == '\n' then ['\\', 'n']
  else if c == '\r' then ['\\', 'r']
  else if c == '\t' then ['\\', 't']
  else if c.toNat == 0x0C then ['\\', 'f']
  else if c.toNat == 0x08 then ['\\', 'b']
  else if 0x20 ≤ c.toNat && c.toNat < 0x7F then [c]
  else if c.toNat < 0x10000 then unitEscape c.toNat
  else
    let n := c.toNat - 0x10000
    unitEscape (0xD800 + n / 0x400) ++ unitEscape (0xDC00 + n % 0x400)

def writeString (t : Text) : Text :=
  '"' :: t.flatMap escapeChar ++ ['"']

def writeReal (x : Float) : Text :=
  if x.isNaN then "NaN".toList
  else if x.isInf then Real.withSign x "Infinity".toList
  else Real.text x

/-- Where line breaks and spaces go. -/
structure Spacing where
  /-- The text before an item at a depth. -/
  lead : Nat → Text
  /-- The text after a member's colon. -/
  colon : Text

/-- Everything on one line, without spaces. -/
def Spacing.compact : Spacing :=
  ⟨fun _ => [], [':']⟩

/-- A line for each item, indented by two spaces for each level. -/
def Spacing.indented : Spacing :=
  ⟨fun depth => '\n' :: List.replicate (2 * depth) ' ', [':', ' ']⟩

mutual

/-- The written form of a value at a depth. -/
def write (s : Spacing) (depth : Nat) : Json → Text
  | .null => "null".toList
  | .bool true => "true".toList
  | .bool false => "false".toList
  | .int n => Text.ofInt n
  | .real x => writeReal x
  | .str t => writeString t
  | .arr [] => "[]".toList
  | .arr (x :: xs) =>
    '[' :: s.lead (depth + 1) ++ write s (depth + 1) x ++ writeItems s (depth + 1) xs ++
      s.lead depth ++ [']']
  | .obj [] => "\x7b\x7d".toList
  | .obj ((k, v) :: ms) =>
    Char.ofNat 0x7B :: s.lead (depth + 1) ++ writeString k ++ s.colon ++ write s (depth + 1) v ++
      writeMembers s (depth + 1) ms ++ s.lead depth ++ [Char.ofNat 0x7D]

def writeItems (s : Spacing) (depth : Nat) : List Json → Text
  | [] => []
  | x :: xs => ',' :: s.lead depth ++ write s depth x ++ writeItems s depth xs

def writeMembers (s : Spacing) (depth : Nat) : List (Text × Json) → Text
  | [] => []
  | (k, v) :: ms =>
    ',' :: s.lead depth ++ writeString k ++ s.colon ++ write s depth v ++ writeMembers s depth ms

end

/-- A value on one line. -/
def compact (j : Json) : Text :=
  j.write .compact 0

/-- A value over several lines. -/
def indented (j : Json) : Text :=
  j.write .indented 0

end Redline.Json
