import Redline.Format
import Redline.Markdown.Escape
import Redline.Text.Digit

/-!
# Markdown in replacements

A replacement is reduced to the text to insert and the formats that apply to all of it. Block forms
come first: a rule, fenced code, a quotation, a footnote, a list item. Then one inline form may
enclose the text. Two spaces before a list mark nest the item, and nesting is kept as tabs.
-/

namespace Redline.Markdown

/-- The text stands between two marks, with something in between. -/
def enclosed? (opening closing : String) (t : Text) : Option Text :=
  let o := opening.toList
  let c := closing.toList
  if Text.startsWith o t && Text.endsWith c t && t.length > o.length + c.length then
    some ((t.take (t.length - c.length)).drop o.length)
  else none

/-- The text is a horizontal rule. -/
def isRule (t : Text) : Bool :=
  ["---", "***", "___"].any (·.toList == Text.trim t)

/-- A link that starts the text: its label and its target. The target ends at the last closing
parenthesis. -/
def link? (t : Text) : Option (Text × Text) :=
  match t with
  | '[' :: _ =>
    match Text.cut? "](".toList t, Text.lastIndexOf? ')' t with
    | some (_ :: label, _), some close =>
      let start := label.length + 3
      if start < close then
        some (label, Text.replaceAll "\\/".toList ['/'] (Text.slice start close t))
      else none
    | _, _ => none
  | _ => none

/-- A heading: its level, at most six, and the text after one space. -/
def heading? (t : Text) : Option (Char × Text) :=
  let level := min (t.takeWhile (· == '#')).length 6
  if level = 0 then none
  else
    let rest := match t.drop level with
      | ' ' :: rest => rest
      | rest => rest
    some (Char.ofNat ('0'.toNat + level), rest)

/-- The text inside an inline form, and the formats of the form. -/
def inline (t : Text) : Text × List Format :=
  match enclosed? "***" "***" t with
  | some inner => (inner, [.bold, .italic])
  | none =>
  match enclosed? "**" "**" t with
  | some inner => (inner, [.bold])
  | none =>
  match enclosed? "*" "*" t with
  | some inner => (inner, [.italic])
  | none =>
  match enclosed? "~~" "~~" t with
  | some inner => (inner, [.strikethrough])
  | none =>
  match enclosed? "`" "`" t with
  | some inner => (inner, [.code])
  | none =>
  match link? t with
  | some (label, target) => (label, [.link target])
  | none =>
  match heading? t with
  | some (level, inner) => (inner, [.heading level])
  | none => (t, [])

/-- Pairs of spaces at the start of a text, and the rest. -/
def nesting : Text → Nat × Text
  | ' ' :: ' ' :: rest =>
    let (level, tail) := nesting rest
    (level + 1, tail)
  | t => (0, t)

/-- The text starts with a digit, a point and a space. -/
def startsNumbered : Text → Bool
  | d :: '.' :: ' ' :: _ => isDecimal d
  | _ => false

/-- The format of a list item and its text. -/
def listItem? (t : Text) : Option (Format × Text) :=
  match t with
  | '-' :: ' ' :: rest => some (.bullet, rest)
  | '+' :: ' ' :: rest => some (.bullet, rest)
  | '*' :: ' ' :: rest => if t.getLast? == some '*' then none else some (.bullet, rest)
  | _ => if startsNumbered t then some (.numbered, t.drop 3) else none

/-- The code between fences: the line of the opening fence is left out. -/
def fencedCode (inner : Text) : Text :=
  match Text.cut? ['\n'] inner with
  | some (_, code) => code
  | none => inner

/-- Reduce a replacement to its text and its formats. -/
def read (replacement : Text) : Text × List Format :=
  let t := escape replacement
  if isRule t then (['\n'], [.rule])
  else
  match enclosed? "```" "```" t with
  | some inner => (unescape (fencedCode inner), [.codeBlock])
  | none =>
  match Text.after? "> ".toList t with
  | some inner => (unescape inner, [.blockquote])
  | none =>
  match enclosed? "[^" "]" t with
  | some inner => (unescape inner, [.footnote])
  | none =>
    let (level, item) := nesting t
    match listItem? item with
    | some (format, rest) =>
      let (plain, formats) := inline (List.replicate level '\t' ++ rest)
      (unescape plain, format :: formats)
    | none =>
      let (plain, formats) := inline t
      (unescape plain, formats)

end Redline.Markdown
