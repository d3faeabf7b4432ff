import Redline.Text.Basic
import Redline.Text.Digit

/-!
# Arguments

The arguments of a command line: the document, an expression, and options. An option has a short or
a long name; a long name may be cut short as long as it stays clear, and short ones may be written
together. The document and the expression stand next to each other. After two dashes nothing is an
option.
-/

namespace Redline

/-- What an option is about. -/
inductive Switch where
  | help
  | expression
  | file
  | dryRun
  | json
  | verbose
deriving Repr, DecidableEq

namespace Switch

def all : List Switch :=
  [.help, .expression, .file, .dryRun, .json, .verbose]

/-- The letter of an option. -/
def letter? : Switch → Option Char
  | .help => some 'h'
  | .expression => some 'e'
  | .file => some 'f'
  | .dryRun => none
  | .json => none
  | .verbose => some 'v'

/-- The long name of an option. -/
def word : Switch → String
  | .help => "--help"
  | .expression => "--expression"
  | .file => "--file"
  | .dryRun => "--dry-run"
  | .json => "--json"
  | .verbose => "--verbose"

/-- The option has a value. -/
def takesValue : Switch → Bool
  | .expression | .file => true
  | _ => false

/-- The option with a letter. -/
def ofLetter? (c : Char) : Option Switch :=
  all.find? (·.letter? == some c)

end Switch

/-- How an option is named. -/
inductive SwitchName where
  | short
  | long
deriving Repr, DecidableEq

/-- An argument by its role. -/
inductive Argument where
  | value (t : Text)
  /-- Two dashes: what follows is a value. -/
  | separator
  /-- An option, with the rest of the argument behind its name and behind an equals sign. -/
  | option (switch : Switch) (name : SwitchName) (attached : Option (Bool × Text))
  /-- What looks like an option and is none. -/
  | unknown
deriving Repr, DecidableEq

/-- Why the arguments are not run. -/
inductive Usage where
  /-- Help was asked for. -/
  | help
  /-- The arguments are wrong. -/
  | wrong
deriving Repr, DecidableEq

/-- The status of a program that ends so. -/
def Usage.status : Usage → Nat
  | .help => 0
  | .wrong => 2

namespace Argument

/-- The text is a negative number: digits, or a point and digits. -/
def isNegativeNumber : Text → Bool
  | '-' :: rest =>
    let number := if rest.getLast? == some '\n' then rest.dropLast else rest
    match number.span isDecimal with
    | (_ :: _, []) => true
    | (_, '.' :: places) => !places.isEmpty && places.all isDecimal
    | _ => false
  | _ => false

/-- The option with a name that is written out. -/
def named? (name : Text) : Option (Switch × SwitchName) :=
  match name with
  | ['-', c] => (Switch.ofLetter? c).map (·, .short)
  | _ => (Switch.all.find? (·.word.toList == name)).map (·, .long)

/-- A name and, behind an equals sign, a value. -/
def splitValue (t : Text) : Text × Option Text :=
  match Text.cut? ['='] t with
  | some (name, given) => (name, some given)
  | none => (t, none)

/-- The options that a text may mean when it is not a name that is written out. -/
def candidates (t : Text) : List Argument :=
  match t with
  | '-' :: '-' :: _ =>
    let (start, given) := splitValue t
    (Switch.all.filter fun f => Text.startsWith start f.word.toList).map fun f =>
      .option f .long (given.map (true, ·))
  | '-' :: c :: rest =>
    ((Switch.ofLetter? c).map fun f => .option f .short (some (false, rest))).toList
  | _ => []

/-- The role of a text that starts with a dash and is longer. -/
private def ofDashed (t : Text) : Except Usage Argument :=
  match named? t, splitValue t with
  | some (switch, name), _ => .ok (.option switch name none)
  | none, (start, given) =>
    match named? start, given with
    | some (switch, name), some v => .ok (.option switch name (some (true, v)))
    | _, _ =>
      match candidates t with
      | [a] => .ok a
      | _ :: _ :: _ => .error .wrong
      | [] => .ok (if isNegativeNumber t || t.contains ' ' then .value t else .unknown)

/-- The role of an argument before two dashes. -/
def ofText (t : Text) : Except Usage Argument :=
  match t with
  | '-' :: _ :: _ => if t == ['-', '-'] then .ok .separator else ofDashed t
  | _ => .ok (.value t)

/-- The roles of arguments. -/
def ofTexts : List Text → Except Usage (List Argument)
  | [] => .ok []
  | t :: rest => do
    match ← ofText t with
    | .separator => return .separator :: rest.map .value
    | a => return a :: (← ofTexts rest)

end Argument

/-- What a command line asks for. -/
structure Arguments where
  document : Text := []
  expression : Option Text := none
  expressions : List Text := []
  file : Option Text := none
  dryRun : Bool := false
  json : Bool := false
  verbose : Bool := false
deriving Repr, DecidableEq

namespace Arguments

/-- Where the document and the expression are expected. -/
inductive Phase where
  /-- The document has not come yet. -/
  | start
  /-- The document has come, and the expression may follow it. -/
  | document
  /-- Both have come, with nothing behind them so far. -/
  | expression
  /-- Neither is expected any more. -/
  | closed
deriving Repr, DecidableEq

/-- What has been read. -/
structure Progress where
  arguments : Arguments := {}
  phase : Phase := .start
  /-- There are arguments without a role. -/
  hasExtras : Bool := false

namespace Progress

/-- An option ends the place for the expression, once the document has come. -/
def close (p : Progress) : Progress :=
  if p.phase = .start then p else { p with phase := .closed }

/-- Add a value that belongs to no option. -/
def addValue (p : Progress) (t : Text) : Progress :=
  match p.phase with
  | .start => { p with arguments := { p.arguments with document := t }, phase := .document }
  | .document =>
    let expression := if t == ['-', '-'] then none else some t
    { p with arguments := { p.arguments with expression }, phase := .expression }
  | .expression | .closed => { p with hasExtras := true }

/-- Pass over two dashes. -/
def addSeparator (p : Progress) : Progress :=
  if p.phase = .closed then { p with hasExtras := true } else p

/-- Set an option without a value. -/
def set (p : Progress) (switch : Switch) : Except Usage Progress :=
  match switch with
  | .help => .error .help
  | .dryRun => .ok { p with arguments := { p.arguments with dryRun := true } }
  | .json => .ok { p with arguments := { p.arguments with json := true } }
  | .verbose => .ok { p with arguments := { p.arguments with verbose := true } }
  | .expression | .file => .ok p

/-- Set an option to a value. -/
def setValue (p : Progress) (switch : Switch) (value : Text) : Progress :=
  match switch with
  | .expression =>
    { p with arguments := { p.arguments with expressions := p.arguments.expressions ++ [value] } }
  | .file => { p with arguments := { p.arguments with file := some value } }
  | _ => p

end Progress

/-- The options of one argument. -/
structure Cluster where
  /-- The options that have no value. -/
  switches : List Switch := []
  /-- The last option, if it has a value, and the value, unless it is the next argument. -/
  last : Option (Switch × Option Text) := none
  /-- There is a rest without a role. -/
  hasExtras : Bool := false

/-- An option with nothing behind it in its argument. -/
private def Cluster.ofSwitch (switch : Switch) : Cluster :=
  if switch.takesValue then { last := some (switch, none) } else { switches := [switch] }

/-- The options of an argument with text behind the first one. A short option without a value may
be followed by others. -/
private def Cluster.read (switch : Switch) : Text → Except Usage Cluster
  | [] => if switch.takesValue then .ok { last := some (switch, some []) } else .error .wrong
  | c :: rest =>
    if switch.takesValue then .ok { last := some (switch, some (c :: rest)) }
    else if c == '-' then .error .wrong
    else match Switch.ofLetter? c with
      | none => .ok { switches := [switch], hasExtras := true }
      | some next => do
        let others ← match rest with
          | [] => pure (ofSwitch next)
          | '=' :: value =>
            if next.takesValue then pure { last := some (next, some value) } else throw .wrong
          | d :: more => Cluster.read next (d :: more)
        return { others with switches := switch :: others.switches }

/-- The options of an argument. -/
def cluster (switch : Switch) (name : SwitchName) : Option (Bool × Text) → Except Usage Cluster
  | none => .ok (.ofSwitch switch)
  | some (marked, rest) =>
    if marked || name = .long then
      if switch.takesValue then .ok { last := some (switch, some rest) } else .error .wrong
    else Cluster.read switch rest

/-- Set the options of an argument that have no value. -/
private def setAll (p : Progress) (c : Cluster) : Except Usage Progress :=
  c.switches.foldlM Progress.set { p.close with hasExtras := p.hasExtras || c.hasExtras }

/-- Take in arguments one after another. -/
def consume (p : Progress) : List Argument → Except Usage Progress
  | [] => .ok p
  | .value t :: rest => consume (p.addValue t) rest
  | .separator :: rest => consume p.addSeparator rest
  | .unknown :: rest => consume { p.close with hasExtras := true } rest
  | .option switch name attached :: rest => do
    let c ← cluster switch name attached
    match c.last with
    | none => consume (← setAll p c) rest
    | some (valued, some value) => consume ((← setAll p c).setValue valued value) rest
    | some (valued, none) =>
      match rest with
      | .value value :: rest => consume ((← setAll p c).setValue valued value) rest
      | _ => throw .wrong

/-- Read the arguments of a command line. -/
def read (texts : List Text) : Except Usage Arguments := do
  let p ← consume {} (← Argument.ofTexts texts)
  if p.phase = .start || p.hasExtras then throw .wrong
  return p.arguments

end Arguments

end Redline
