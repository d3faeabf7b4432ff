import Redline.Text.Basic

/-!
# Escapes in markdown

An escaped markdown character is kept out of sight behind a mark while the text is read, and comes
back afterwards. An escaped `n` is a newline from the start.
-/

namespace Redline.Markdown

/-- The characters that can be escaped, each with the name of its mark. -/
def escapable : List (Char × String) :=
  [('\\', "BACKSLASH"), ('*', "ASTERISK"), ('#', "HASH"), ('~', "TILDE"), ('`', "BACKTICK"),
    ('-', "DASH"), ('+', "PLUS")]

/-- The mark with a name. -/
def mark (name : String) : Text :=
  "\x00ESC_".toList ++ name.toList ++ ['\x00']

/-- The mark that an escape at the start of a text gives way to. -/
def escapeRule : Text → Option (Nat × Text)
  | '\\' :: 'n' :: _ => some (2, ['\n'])
  | '\\' :: c :: _ => (escapable.find? (·.1 == c)).map fun (_, name) => (2, mark name)
  | _ => none

/-- The character that a mark at the start of a text stands for. -/
def unescapeRule (t : Text) : Option (Nat × Text) :=
  (escapable.find? fun (_, name) => Text.startsWith (mark name) t).map fun (c, name) =>
    ((mark name).length, [c])

/-- Put marks in the place of escapes. -/
def escape (t : Text) : Text :=
  Text.replaceBy escapeRule t

/-- Put the characters back in the place of their marks. -/
def unescape (t : Text) : Text :=
  Text.replaceBy unescapeRule t

end Redline.Markdown
