import Redline.Text.Basic
import Redline.Text.Printable

/-!
# Quoted text

Messages show a text between quotes: single quotes, unless the text has a single quote and no
double quote. The chosen quote and the backslash are escaped, and characters that are not printable
are written by their code.
-/

namespace Redline.Text

/-- The digits of a number in base sixteen, at least as many as asked. -/
def hex (width n : Nat) : Text :=
  let digits := Nat.toDigits 16 n
  List.replicate (width - digits.length) '0' ++ digits

/-- The quote for a text. -/
def quoteFor (t : Text) : Char :=
  if '\'' ∈ t ∧ '"' ∉ t then '"' else '\''

/-- A character between the given quotes. -/
def quotedChar (quote c : Char) : Text :=
  if c == quote || c == '\\' then ['\\', c]
  else if c == '\n' then ['\\', 'n']
  else if c == '\r' then ['\\', 'r']
  else if c == '\t' then ['\\', 't']
  else if isPrintable c then [c]
  else if c.toNat < 0x100 then '\\' :: 'x' :: hex 2 c.toNat
  else if c.toNat < 0x10000 then '\\' :: 'u' :: hex 4 c.toNat
  else '\\' :: 'U' :: hex 8 c.toNat

/-- A text between quotes. -/
def quoted (t : Text) : Text :=
  let quote := quoteFor t
  quote :: t.flatMap (quotedChar quote) ++ [quote]

/-- A text between quotes, for a message. -/
def quote (t : Text) : String :=
  String.ofList (quoted t)

end Redline.Text
