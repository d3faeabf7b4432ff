import Redline.Session.Basic

/-!
# Line commands and transliteration

Deleting paragraphs, inserting lines before or after them, and replacing characters.
-/

namespace Redline

/-- Code points for private use, which hold the place of characters. -/
def placeholderBase : Nat := 0xE000

/-- The replacements of a transliteration, one after another. When a character is both replaced and
written, every character first gives way to a placeholder, so that nothing is replaced twice. -/
def transliterationPairs (source dest : Text) : List (Char × Char) :=
  if source.any dest.contains then
    let placeholders := (List.range source.length).map fun i => Char.ofNat (placeholderBase + i)
    source.zip placeholders ++ placeholders.zip dest
  else source.zip dest

namespace Session

variable {σ : Type} [CharNames]

/-- The part to delete for a paragraph. The newline at the end of the body stays, and the one before
the last paragraph goes in its place. -/
def deletion? (limit : Int) (line : Document.Line) : Option Span :=
  let start := max line.start 1
  let span : Span :=
    if limit ≤ line.stop then ⟨if 1 < start then start - 1 else start, limit - 1⟩
    else ⟨start, line.stop⟩
  if span.start < span.stop then some span else none

/-- The parts to delete for the paragraphs of the body that match, the last one first. -/
def deletions (doc : Document) (pattern : Pattern) : List Span :=
  (doc.lines.reverse.filter fun l => pattern.occursIn l.text).filterMap (deletion? doc.bodyEnd)

/-- Delete the paragraphs of the body that match. -/
def deleteLines (e : Expression) : Run σ Outcome := do
  let pattern ← Run.compile e
  let doc ← Run.fetch
  if doc.lines.isEmpty then return [("deleted", .text "0 (empty document)".toList)]
  let spans := deletions doc pattern
  if spans.isEmpty then return [("deleted", .text "0 (no matches)".toList)]
  discard <| Run.update (spans.map .deleteRange)
  return [("deleted", .text (Text.ofNat spans.length ++ " lines".toList))]

/-- The text of a line command: escaped newlines are decoded, and there is one at the end. -/
def lineText (replacement : Text) : Text :=
  let text := Text.replaceAll "\\n".toList ['\n'] replacement
  if text.getLast? == some '\n' then text else text ++ ['\n']

/-- The request that inserts a line after or before a paragraph. After the last paragraph it goes
before the newline at the end of the body, with a newline in front. -/
def insertion (after : Bool) (limit : Int) (text : Text) (line : Document.Line) : Request :=
  if !after then Request.insert (max line.start 1) text
  else if limit ≤ line.stop then Request.insert (limit - 1) ('\n' :: text.dropLast)
  else Request.insert line.stop text

/-- Insert a line after or before every paragraph of the body that matches. -/
def insertLines (e : Expression) (after : Bool) : Run σ Outcome := do
  let key := if after then "appended" else "inserted"
  let pattern ← Run.compile e
  let text := lineText e.replacement
  let doc ← Run.fetch
  let matching := doc.lines.reverse.filter fun l => pattern.occursIn l.text
  if matching.isEmpty then return [(key, .text "0 (no matches)".toList)]
  discard <| Run.update (matching.map (insertion after doc.bodyEnd text))
  return [(key, .text (Text.ofNat matching.length ++ " lines".toList))]

/-- Replace characters one by one. With placeholders only the first round is counted. -/
def transliterate (e : Expression) : Run σ Outcome := do
  let pairs := transliterationPairs e.pattern e.replacement
  let response ← Run.update (pairs.map fun (a, b) => .replaceAllText [a] [b] true false)
  let count := Response.occurrences ⟨response.replies.take e.pattern.length⟩
  return [("transliterated", .text (Text.ofInt count ++ " chars across ".toList ++
    Text.ofNat e.pattern.length ++ " pairs".toList))]

/-- Run a command other than a substitution. -/
def runCommand (e : Expression) : Run σ Outcome :=
  match e.command with
  | .delete => deleteLines e
  | .append => insertLines e true
  | .insert => insertLines e false
  | .transliterate => transliterate e
  | .substitute => throw .notACommand

end Session

end Redline
