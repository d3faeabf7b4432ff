import Redline.Directive.Block
import Redline.Reference.Table

/-!
# Expressions

An expression is one editing command with what it looks for, what it writes, and what it is about:
the text of the document, whole tables, or cells.
-/

namespace Redline

/-- The editing commands. -/
inductive Command where
  | substitute
  /-- Delete matching paragraphs. -/
  | delete
  /-- Insert a paragraph after matching ones. -/
  | append
  /-- Insert a paragraph before matching ones. -/
  | insert
  /-- Replace characters one by one. -/
  | transliterate
deriving Repr, DecidableEq

namespace Command

/-- The letter of a command. -/
def letter : Command → Char
  | .substitute => 's'
  | .delete => 'd'
  | .append => 'a'
  | .insert => 'i'
  | .transliterate => 'y'

/-- The command with a letter, other than the substitute command. -/
def ofLetter? (c : Char) : Option Command :=
  [.delete, .append, .insert, .transliterate].find? (·.letter == c)

end Command

/-- An editing command, read from its text. -/
structure Expression where
  command : Command := .substitute
  /-- The pattern to look for, with its flags. -/
  pattern : Text
  /-- The template of the replacement, without its formatting blocks. -/
  replacement : Text := []
  /-- Every match is meant. -/
  isGlobal : Bool := false
  /-- The number of the one match that is meant; zero when none is singled out. -/
  nth : Nat := 0
  target : Target := .text
  /-- The formatting blocks of the replacement. -/
  blocks : List Block := []
  /-- The expression as it is written. -/
  raw : Text

namespace Expression

/-- The directive for all of the replacement: that of a single block over it, or else all such
blocks in one. -/
def directive? (e : Expression) : Option Directive :=
  match e.blocks with
  | [] => none
  | [b] => if b.isGlobal then some b.directive else some (Directive.ofBlocks [b])
  | blocks => some (Directive.ofBlocks blocks)

/-- The cells that the expression is about. -/
def cells? (e : Expression) : Option CellRef :=
  match e.target with
  | .cells ref => some ref
  | _ => none

/-- The tables that the expression is about as a whole. -/
def tables? (e : Expression) : Option TableSelector :=
  match e.target with
  | .tables selector => some selector
  | _ => none

/-- The pattern stands for a place of the document: its start, its end, or all of it when it is
empty. -/
def namesPosition (pattern : Text) : Bool :=
  pattern == ['^'] || pattern == ['$'] || pattern == ['^', '$']

/-- The expression inserts at a place of the document. -/
def isPositional (e : Expression) : Bool :=
  e.command == .substitute && e.target == .text && namesPosition e.pattern

/-- The pattern, ready to search with. -/
def compile [CharNames] (e : Expression) : Except Pattern.Error Pattern :=
  Pattern.read e.pattern

end Expression

end Redline
