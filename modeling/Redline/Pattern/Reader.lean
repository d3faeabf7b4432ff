import Redline.Pattern.Error
import Redline.Pattern.Node
import Redline.Text.Case

/-!
# Reading patterns

A pattern is read from left to right, one item at a time. Groups that are still open wait in a list
of frames, the innermost first, so that one step never looks further than the item it reads. Which
names of characters an escape can use is left open.
-/

namespace Redline

/-- The characters that an escape can call by name. -/
class CharNames where
  char? : Text → Option Char

/-- No character is known by name. -/
@[reducible] def CharNames.none : CharNames :=
  ⟨fun _ => Option.none⟩

end Redline

namespace Redline.Pattern

variable [CharNames]

/-- The options that are in force while a pattern is read. -/
structure Flags where
  ignoreCase : Bool := false
  multiLine : Bool := false
  dotAll : Bool := false
  verbose : Bool := false
  ascii : Bool := false
  unicode : Bool := false
deriving Repr, DecidableEq

def Flags.folding (f : Flags) : Folding :=
  if !f.ignoreCase then .exact else if f.ascii then .ascii else .full

/-- An item of a sequence, with what a repetition after it has to know. -/
structure Item where
  node : Node
  isAnchor : Bool := false
  isLoop : Bool := false

/-- What an open group will become. -/
inductive FrameKind where
  | capture (index : Nat)
  | plain
  | atomic
  /-- A look around; a look behind that is not inside another one ends the ban on its own groups. -/
  | look (behind negated outermost : Bool)
  /-- A choice by a group; the first branch, once it is read. -/
  | choice (index : Nat) (yes : Option Node)

/-- An open group: where it starts, and what surrounds it. -/
structure Frame where
  kind : FrameKind
  start : Nat
  flags : Flags
  items : List Item
  alternatives : List Node

/-- The state of the reader. Items and alternatives are in reverse order. -/
structure State where
  rest : Text
  flags : Flags := {}
  items : List Item := []
  alternatives : List Node := []
  frames : List Frame := []
  /-- The index of the next group. -/
  nextGroup : Nat := 1
  names : List (Text × Nat) := []
  /-- The widths of the groups that are closed. -/
  widths : List (Nat × Width) := []
  /-- Inside a look behind, the first group that it may not refer to. -/
  lookBehindFrom : Option Nat := none
  /-- Groups that a choice refers to, with the place of the first reference. -/
  choiceRefs : List (Nat × Nat) := []
  /-- Flaws that count only when the whole pattern has been read. -/
  late : List Flaw := []
  /-- Two alphabets have been asked for. -/
  mixed : Bool := false

abbrev ReadM := Except Error

def flaw {α : Type} (f : Flaw) (position : Nat) : ReadM α :=
  .error (.flawed f (some position))

/-- The next token: a character, or a backslash and the character after it. -/
def token? : Text → Option (Text × Text)
  | [] => none
  | '\\' :: c :: rest => some (['\\', c], rest)
  | c :: rest => some ([c], rest)

/-- A text that is about to be read must not be a lone backslash. -/
def settle (total : Nat) (rest : Text) : ReadM Text :=
  if rest == ['\\'] then flaw .danglingEscape (total - 1) else .ok rest

/-- Take a token. -/
def next (total : Nat) (t : Text) : ReadM (Option Text × Text) :=
  match token? t with
  | none => .ok (none, [])
  | some (tok, rest) => do return (some tok, ← settle total rest)

/-- Take the given character if it comes next. -/
def accept? (total : Nat) (c : Char) (t : Text) : ReadM (Bool × Text) :=
  match t with
  | d :: rest =>
    if d == c && c != '\\' then do return (true, ← settle total rest) else .ok (false, t)
  | [] => .ok (false, t)

/-- Take characters of a class, at most so many. -/
def takeWhile (total : Nat) (p : Char → Bool) : Nat → Text → ReadM (Text × Text)
  | 0, t => .ok ([], t)
  | n + 1, c :: rest =>
    if p c then do
      let (taken, rest) ← takeWhile total p n (← settle total rest)
      return (c :: taken, rest)
    else .ok ([], c :: rest)
  | _ + 1, [] => .ok ([], [])

/-- A name up to its terminator. -/
def takeName (total : Nat) (terminator : Char) (what : String) (t : Text) : ReadM (Text × Text) :=
  go t []
where
  position (t : Text) : Nat := total - t.length
  go : Text → Text → ReadM (Text × Text)
    | [], acc =>
      if acc.isEmpty then flaw (.noName what) total
      else flaw (.unterminatedName terminator) (total - acc.length)
    | '\\' :: c :: rest, acc => do
      let _ ← settle total rest
      go rest (c :: '\\' :: acc)
    | c :: rest, acc => do
      let _ ← settle total rest
      if c == terminator then
        if acc.isEmpty then flaw (.noName what) (position rest - 1)
        else return (acc.reverse, rest)
      else go rest (c :: acc)

def isOctal (c : Char) : Bool :=
  '0' ≤ c && c ≤ '7'

def isDigit (c : Char) : Bool :=
  '0' ≤ c && c ≤ '9'

def isHex (c : Char) : Bool :=
  isDigit c || ('a' ≤ c && c ≤ 'f') || ('A' ≤ c && c ≤ 'F')

def isAsciiLetter (c : Char) : Bool :=
  ('a' ≤ c && c ≤ 'z') || ('A' ≤ c && c ≤ 'Z')

/-- The number that digits write in a base; other characters count as zero. -/
def numberIn (base : Nat) (t : Text) : Nat :=
  Whole.value base (t.map fun c => (Whole.hexValue? c).getD 0)

/-- Letters that stand for one character. -/
def letterEscape? : Char → Option Nat
  | 'a' => some 7
  | 'f' => some 12
  | 'n' => some 10
  | 'r' => some 13
  | 't' => some 9
  | 'v' => some 11
  | '\\' => some 92
  | _ => none

/-- Letters that stand for a kind of characters, and whether it is negated. -/
def kindEscape? : Char → Option (CharKind × Bool)
  | 'd' => some (.digit, false)
  | 'D' => some (.digit, true)
  | 's' => some (.space, false)
  | 'S' => some (.space, true)
  | 'w' => some (.word, false)
  | 'W' => some (.word, true)
  | _ => none

/-- The escapes by code that are the same inside and outside of a class. The text starts after the
letter, which stands at `start + 1`. -/
def codeEscape? (total start : Nat) (letter : Char) (t : Text) :
    ReadM (Option (Nat × Text)) :=
  let byDigits (count : Nat) : ReadM (Option (Nat × Text)) := do
    let (digits, rest) ← takeWhile total isHex count t
    let escape := '\\' :: letter :: digits
    if digits.length != count then flaw (.incompleteEscape escape) start
    else
      let n := numberIn 16 digits
      if n > 0x10FFFF then flaw (.badEscape escape) start
      else return some (n, rest)
  match letter with
  | 'x' => byDigits 2
  | 'u' => byDigits 4
  | 'U' => byDigits 8
  | 'N' => do
    let (opened, rest) ← accept? total (Char.ofNat 0x7B) t
    if !opened then flaw .noCharacterBrace (total - t.length)
    else
      let (name, rest) ← takeName total (Char.ofNat 0x7D) "character name" rest
      match CharNames.char? name with
      | some c => return some (c.toNat, rest)
      | none => flaw (.unknownCharacterName name) start
  | _ => return none

/-- An escape inside a class. -/
def classEscape (total start : Nat) (letter : Char) (t : Text) :
    ReadM (ClassItem × Text) :=
  match (if letter == 'b' then some 8 else letterEscape? letter), kindEscape? letter with
  | some n, _ => .ok (.code n, t)
  | _, some (k, negated) => .ok (.kind k negated, t)
  | none, none => do
    match ← codeEscape? total start letter t with
    | some (n, rest) => return (.code n, rest)
    | none =>
      if isOctal letter then
        let (more, rest) ← takeWhile total isOctal 2 t
        let n := numberIn 8 (letter :: more)
        if n > 0o377 then flaw (.octalTooLarge ('\\' :: letter :: more)) start
        else return (.code n, rest)
      else if isDigit letter || isAsciiLetter letter then flaw (.badEscape ['\\', letter]) start
      else return (.code letter.toNat, t)

/-- One end of a range, or an item of its own: what was written, and what it stands for. -/
def classAtom (total : Nat) (t : Text) :
    ReadM (Option (Text × ClassItem × Text)) := do
  let start := total - t.length
  match ← next total t with
  | (none, _) => return none
  | (some ['\\', letter], rest) =>
    let (item, rest) ← classEscape total start letter rest
    return some (['\\', letter], item, rest)
  | (some tok, rest) =>
    return some (tok, .code ((tok.head?.map Char.toNat).getD 0), rest)

/-- The items of a class up to its closing bracket. The budget is the length of the text. -/
def classItems (total here : Nat) :
    Nat → Text → List ClassItem → ReadM (List ClassItem × Text)
  | 0, _, _ => flaw .unterminatedSet here
  | budget + 1, t, acc => do
    match ← classAtom total t with
    | none => flaw .unterminatedSet here
    | some (this, item, rest) =>
      if this == [']'] && !acc.isEmpty then return (acc.reverse, rest)
      let (dash, rest) ← accept? total '-' rest
      if !dash then classItems total here budget rest (item :: acc)
      else match ← classAtom total rest with
        | none => flaw .unterminatedSet here
        | some (that, other, rest) =>
          if that == [']'] then return ((.code 45 :: item :: acc).reverse, rest)
          else
            let place := total - rest.length - (this.length + 1 + that.length)
            match item, other with
            | .code low, .code high =>
              if high < low then flaw (.badRange this that) place
              else classItems total here budget rest (.range low high :: acc)
            | _, _ => flaw (.badRange this that) place

/-- The class of the items under the flags in force. -/
def Flags.charClass (f : Flags) (items : List ClassItem) (negated : Bool) : CharClass :=
  ⟨items, negated, f.folding, f.ascii⟩

def Flags.charNode (f : Flags) (n : Nat) : Node :=
  .one (.single f.folding n)

/-- A group may be referred to: it is closed. -/
def State.isClosed (s : State) (index : Nat) : Bool :=
  s.widths.any (·.1 == index)

/-- Inside a look behind, only groups that were closed before it may be referred to. -/
def State.checkLookBehind (s : State) (total : Nat) (rest : Text) (index : Nat) : ReadM Unit :=
  match s.lookBehindFrom with
  | none => .ok ()
  | some first =>
    if !s.isClosed index then flaw .openGroup (total - rest.length)
    else if index ≥ first then flaw .groupOfLookBehind (total - rest.length)
    else .ok ()

/-- The state with one more item. -/
def State.push (s : State) (rest : Text) (item : Item) : State :=
  { s with rest := rest, items := item :: s.items }

/-- An escape outside of a class that starts with a digit other than zero: three octal digits are
a character, anything else refers to a group. -/
def digitEscape (total start : Nat) (s : State) (first : Char) (t : Text) : ReadM State := do
  let (second, rest) ← takeWhile total isDigit 1 t
  let (third, afterThird) ←
    if isOctal first && second.any isOctal then takeWhile total isOctal 1 rest
    else .ok ([], rest)
  let escape := '\\' :: first :: second ++ third
  if !third.isEmpty then
    let n := numberIn 8 (first :: second ++ third)
    if n > 0o377 then flaw (.octalTooLarge escape) start
    else return s.push afterThird ⟨s.flags.charNode n, false, false⟩
  else
    let index := numberIn 10 (first :: second)
    if index < s.nextGroup then
      if !s.isClosed index then flaw .openGroup start
      s.checkLookBehind total rest index
      return s.push rest ⟨.backref index s.flags.folding, false, false⟩
    else flaw (.noSuchGroup index) (start + 1)

/-- An escape outside of a class. -/
def escapeItem (total start : Nat) (s : State) (letter : Char) (t : Text) :
    ReadM State :=
  let anchor (a : Anchor) : ReadM State := .ok (s.push t ⟨.anchor a, true, false⟩)
  match letter with
  | 'A' => anchor .textStart
  | 'Z' => anchor .textEnd
  | 'b' => anchor (.wordEdge s.flags.ascii)
  | 'B' => anchor (.noWordEdge s.flags.ascii)
  | _ =>
    match kindEscape? letter, letterEscape? letter with
    | some (k, negated), _ =>
      .ok (s.push t ⟨.one (s.flags.charClass [.kind k negated] false), false, false⟩)
    | _, some n => .ok (s.push t ⟨s.flags.charNode n, false, false⟩)
    | none, none => do
      match ← codeEscape? total start letter t with
      | some (n, rest) => return s.push rest ⟨s.flags.charNode n, false, false⟩
      | none =>
        if letter == '0' then
          let (more, rest) ← takeWhile total isOctal 2 t
          return s.push rest ⟨s.flags.charNode (numberIn 8 more), false, false⟩
        else if isDigit letter then digitEscape total start s letter t
        else if isAsciiLetter letter then flaw (.badEscape ['\\', letter]) start
        else return s.push t ⟨s.flags.charNode letter.toNat, false, false⟩

/-- The number of times that is too many to count. -/
def repeatLimit : Nat := 4294967295

/-- A count of a repetition. -/
def repeatCount (digits : Text) : ReadM Nat :=
  match Whole.ofDigits (digits.map fun c => c.toNat - 48) with
  | .error e => .error (.beyond (.digits e))
  | .ok n => if n ≥ repeatLimit then .error (.beyond .repetition) else .ok n

/-- The counts of a repetition in braces: none when the brace stands for itself. The text starts
after the brace. -/
def repeatRange (total : Nat) (t : Text) : ReadM (Option (Nat × Option Nat × Text)) := do
  match t with
  | c :: _ => if c.toNat == 0x7D then return none
  | [] => pure ()
  let (low, rest) ← takeWhile total isDigit t.length t
  let (comma, rest) ← accept? total ',' rest
  let (high, rest) ← if comma then takeWhile total isDigit rest.length rest else .ok (low, rest)
  let (closed, rest) ← accept? total (Char.ofNat 0x7D) rest
  if !closed then return none
  let least ← if low.isEmpty then .ok 0 else repeatCount low
  if high.isEmpty then return some (least, none, rest)
  let most ← repeatCount high
  if most < least then flaw .emptyRepeatRange (total - t.length)
  return some (least, some most, rest)

/-- Repeat the last item. -/
def repeatItem (total place : Nat) (s : State) (least : Nat) (most : Option Nat) (t : Text) :
    ReadM State := do
  match s.items with
  | [] => flaw .nothingToRepeat place
  | item :: items =>
    if item.isAnchor then flaw .nothingToRepeat place
    if item.isLoop then flaw .multipleRepeat place
    let (lazy, rest) ← accept? total '?' t
    let (possessive, rest) ← if lazy then .ok (false, rest) else accept? total '+' rest
    let greed := if lazy then .lazy else if possessive then .possessive else .greedy
    return { s with
      rest := rest
      items := ⟨.loop least most greed item.node, false, true⟩ :: items }

/-- A name of a group: a letter or an underscore, then word characters. -/
def isGroupName : Text → Bool
  | [] => false
  | c :: rest => isWord c && !isDigitLike c && rest.all isWord

/-- A flag by its letter. The flag of templates has no effect of its own. -/
inductive Flag where
  | ignoreCase
  | locale
  | multiLine
  | dotAll
  | verbose
  | ascii
  | template
  | unicode
deriving DecidableEq

def Flag.ofChar? : Char → Option Flag
  | 'i' => some .ignoreCase
  | 'L' => some .locale
  | 'm' => some .multiLine
  | 's' => some .dotAll
  | 'x' => some .verbose
  | 'a' => some .ascii
  | 't' => some .template
  | 'u' => some .unicode
  | _ => none

def Flag.isAlphabet (f : Flag) : Bool :=
  f == .ascii || f == .unicode || f == .locale

/-- The flag that a token names. -/
def flagOf? : Text → Option Flag
  | [c] => Flag.ofChar? c
  | _ => none

/-- A token that starts with a letter is an unknown flag; another one means that something is
missing. -/
def unknownFlagOr (tok : Text) (missing : Flaw) : Flaw :=
  match tok with
  | [c] => if isWord c && !isDigitLike c && c != '_' then .unknownFlag else missing
  | _ => missing

/-- Flags that are turned on, up to the character that ends them. -/
def flagsOn (total : Nat) : Nat → Flag → List Flag → Text → ReadM (List Flag × Char × Text)
  | 0, _, _, _ => flaw .missingFlagEnd total
  | budget + 1, f, acc, t => do
    let here := total - t.length
    if f == .locale then flaw .localeFlag here
    let flags := acc ++ [f]
    if f.isAlphabet && flags.any fun g => g.isAlphabet && g != f then flaw .incompatibleFlags here
    match ← next total t with
    | (none, _) => flaw .missingFlagEnd here
    | (some tok, rest) =>
      match tok with
      | [')'] => return (flags, ')', rest)
      | ['-'] => return (flags, '-', rest)
      | [':'] => return (flags, ':', rest)
      | _ =>
        match flagOf? tok with
        | some g => flagsOn total budget g flags rest
        | none => flaw (unknownFlagOr tok .missingFlagEnd) (total - rest.length - tok.length)

/-- Flags that are turned off, up to the colon. -/
def flagsOff (total : Nat) : Nat → Flag → List Flag → Text → ReadM (List Flag × Text)
  | 0, _, _, _ => flaw .missingFlagColon total
  | budget + 1, f, acc, t => do
    let here := total - t.length
    if f.isAlphabet then flaw .cannotTurnOffAlphabet here
    let flags := acc ++ [f]
    match ← next total t with
    | (none, _) => flaw .missingFlagColon here
    | (some [':'], rest) => return (flags, rest)
    | (some tok, rest) =>
      match flagOf? tok with
      | some g => flagsOff total budget g flags rest
      | none => flaw (unknownFlagOr tok .missingFlagColon) (total - rest.length - tok.length)

/-- What a list of flags asks for: to hold from here on, or inside a group. -/
inductive FlagScope where
  | everywhere (on : List Flag)
  | inside (on off : List Flag)

/-- Flags after the question mark. The first token has been taken. -/
def readFlags (total : Nat) (tok : Text) (t : Text) : ReadM (FlagScope × Text) := do
  let (on, stop, rest) ← match flagOf? tok with
    | some f => flagsOn total (t.length + 1) f [] t
    | none => .ok ([], '-', t)
  if stop == ')' then return (.everywhere on, rest)
  if on.contains .template then flaw .cannotTurnOn (total - rest.length - 1)
  if stop == ':' then return (.inside on [], rest)
  match ← next total rest with
  | (none, _) => flaw .missingFlag (total - rest.length)
  | (some tok, after) =>
    match flagOf? tok with
    | none => flaw (unknownFlagOr tok .missingFlag) (total - after.length - tok.length)
    | some f =>
      let (off, rest) ← flagsOff total (after.length + 1) f [] after
      if off.contains .template then flaw .cannotTurnOff (total - rest.length - 1)
      if on.any off.contains then flaw .flagOnAndOff (total - rest.length - 1)
      return (.inside on off, rest)

/-- The flags with one more turned on. -/
def Flags.turnOn (f : Flags) : Flag → Flags
  | .ignoreCase => { f with ignoreCase := true }
  | .multiLine => { f with multiLine := true }
  | .dotAll => { f with dotAll := true }
  | .verbose => { f with verbose := true }
  | .ascii => { f with ascii := true, unicode := false }
  | .unicode => { f with ascii := false, unicode := true }
  | .locale => f
  | .template => f

/-- The flags with one turned off. -/
def Flags.turnOff (f : Flags) : Flag → Flags
  | .ignoreCase => { f with ignoreCase := false }
  | .multiLine => { f with multiLine := false }
  | .dotAll => { f with dotAll := false }
  | .verbose => { f with verbose := false }
  | _ => f

/-- Open a group that starts at a position. -/
def State.open (s : State) (start : Nat) (kind : FrameKind) (inner : Flags) (rest : Text) : State :=
  { s with
    rest := rest
    flags := inner
    items := []
    alternatives := []
    frames := ⟨kind, start, s.flags, s.items, s.alternatives⟩ :: s.frames }

/-- Open a capturing group, which takes the next index and perhaps a name. -/
def State.openCapture (s : State) (start : Nat) (name : Option Text) (rest : Text) (total : Nat) :
    ReadM State := do
  let index := s.nextGroup
  let names ← match name with
    | none => pure s.names
    | some n =>
      match s.names.lookup n with
      | some previous =>
        flaw (.groupNameTaken n index previous) (total - rest.length - (n.length + 1))
      | none => pure ((n, index) :: s.names)
  return { s.open start (.capture index) s.flags rest with
    nextGroup := index + 1
    names := names }

/-- The rest of the text after a comment. -/
def skipComment (total start : Nat) (t : Text) : ReadM Text :=
  match t with
  | [] => flaw .unterminatedComment start
  | '\\' :: _ :: rest => do
    let _ ← settle total rest
    skipComment total start rest
  | c :: rest => do
    let _ ← settle total rest
    if c == ')' then return rest else skipComment total start rest

/-- A reference to a group by name. -/
def namedBackref (total : Nat) (s : State) (t : Text) : ReadM State := do
  let (name, rest) ← takeName total ')' "group name" t
  let place := total - rest.length - (name.length + 1)
  if !isGroupName name then flaw (.badGroupName name) place
  match s.names.lookup name with
  | none => flaw (.unknownGroupName name) place
  | some index =>
    if !s.isClosed index then flaw .openGroup place
    s.checkLookBehind total rest index
    return s.push rest ⟨.backref index s.flags.folding, false, false⟩

/-- Open a choice by a group. -/
def openChoice (total start : Nat) (s : State) (t : Text) : ReadM State := do
  let (name, rest) ← takeName total ')' "group name" t
  let place := total - rest.length - (name.length + 1)
  if isGroupName name then
    match s.names.lookup name with
    | none => flaw (.unknownGroupName name) place
    | some index =>
      s.checkLookBehind total rest index
      return s.open start (.choice index none) s.flags rest
  else match Whole.readLenient? name with
    | some (.ofNat index) =>
      if index == 0 then flaw .groupNumberZero place
      s.checkLookBehind total rest index
      let refs := if s.choiceRefs.any (·.1 == index) then s.choiceRefs
        else s.choiceRefs ++ [(index, place)]
      return { (s.open start (.choice index none) s.flags rest) with choiceRefs := refs }
    | _ => flaw (.badGroupName name) place

/-- Open a look around. -/
def openLook (s : State) (start : Nat) (behind negated : Bool) (rest : Text) : State :=
  let outermost := behind && s.lookBehindFrom.isNone
  { (s.open start (.look behind negated outermost) s.flags rest) with
    lookBehindFrom := if outermost then some s.nextGroup else s.lookBehindFrom }

/-- A group with a question mark after its parenthesis. -/
def extension (total start : Nat) (s : State) (t : Text) : ReadM State := do
  let place (rest tok : Text) (extra : Nat) : Nat := total - rest.length - (tok.length + extra)
  match ← next total t with
  | (none, rest) => flaw .unexpectedEnd (total - rest.length)
  | (some tok, rest) =>
    match tok with
    | ['P'] =>
      let (named, afterName) ← accept? total '<' rest
      if named then
        let (name, rest) ← takeName total '>' "group name" afterName
        if !isGroupName name then
          flaw (.badGroupName name) (total - rest.length - (name.length + 1))
        s.openCapture start (some name) rest total
      else
        let (back, afterEquals) ← accept? total '=' rest
        if back then namedBackref total s afterEquals
        else match ← next total rest with
          | (none, _) => flaw .unexpectedEnd total
          | (some other, rest) =>
            flaw (.unknownExtension (['?', 'P'] ++ other)) (place rest other 2)
    | [':'] => return s.open start .plain s.flags rest
    | ['#'] => return { s with rest := ← skipComment total start rest }
    | ['='] => return openLook s start false false rest
    | ['!'] => return openLook s start false true rest
    | ['<'] =>
      match ← next total rest with
      | (none, _) => flaw .unexpectedEnd total
      | (some ['='], rest) => return openLook s start true false rest
      | (some ['!'], rest) => return openLook s start true true rest
      | (some other, rest) =>
        flaw (.unknownExtension (['?', '<'] ++ other)) (place rest other 2)
    | ['('] => openChoice total start s rest
    | ['>'] => return s.open start .atomic s.flags rest
    | _ =>
      if (flagOf? tok).isNone && tok != ['-'] then
        flaw (.unknownExtension ('?' :: tok)) (place rest tok 1)
      else
        match ← readFlags total tok rest with
        | (.everywhere on, rest) =>
          if !(s.frames.isEmpty && s.alternatives.isEmpty && s.items.isEmpty) then
            flaw .lateGlobalFlags start
          let mixed := on.any Flag.isAlphabet &&
            (on.contains .ascii && s.flags.unicode || on.contains .unicode && s.flags.ascii)
          return { s with
            rest := rest
            flags := on.foldl Flags.turnOn s.flags
            mixed := s.mixed || mixed }
        | (.inside on off, rest) =>
          return s.open start .plain (off.foldl Flags.turnOff (on.foldl Flags.turnOn s.flags)) rest

/-- The sequence that has been read since the last bar or parenthesis. -/
def State.sequence (s : State) : Node :=
  .ofSequence (s.items.reverse.map (·.node))

/-- The choice that has been read since the last parenthesis. -/
def State.body (s : State) : Node :=
  .ofAlternatives (s.sequence :: s.alternatives).reverse

/-- The width of a group, once it is closed. -/
def State.groupWidth (s : State) (index : Nat) : Width :=
  (s.widths.lookup index).getD .zero

/-- A bar: the sequence becomes an alternative. -/
def bar (total : Nat) (s : State) (rest : Text) : ReadM State := do
  match s.frames with
  | ⟨.choice index none, start, flags, items, alternatives⟩ :: frames =>
    return { s with
      rest := ← settle total rest
      items := []
      frames := ⟨.choice index (some s.sequence), start, flags, items, alternatives⟩ :: frames }
  | ⟨.choice _ (some _), _, _, _, _⟩ :: _ => flaw .moreThanTwoBranches (total - rest.length - 1)
  | _ =>
    return { s with
      rest := ← settle total rest
      items := []
      alternatives := s.sequence :: s.alternatives }

/-- A closing parenthesis: the innermost open group becomes an item. -/
def close (place : Nat) (s : State) (rest : Text) : ReadM State :=
  match s.frames with
  | [] => flaw .unbalancedParenthesis place
  | frame :: frames =>
    let body := s.body
    let outer : State := { s with
      rest := rest
      flags := frame.flags
      items := frame.items
      alternatives := frame.alternatives
      frames := frames }
    match frame.kind with
    | .capture index =>
      .ok { outer.push rest ⟨.group index body, false, false⟩ with
        widths := (index, body.width s.groupWidth) :: s.widths }
    | .plain => .ok (outer.push rest ⟨body, false, false⟩)
    | .atomic => .ok (outer.push rest ⟨.atomic body, false, false⟩)
    | .choice index none => .ok (outer.push rest ⟨.ifGroup index s.sequence .empty, false, false⟩)
    | .choice index (some yes) =>
      .ok (outer.push rest ⟨.ifGroup index yes s.sequence, false, false⟩)
    | .look false negated _ => .ok (outer.push rest ⟨.look none negated body, false, false⟩)
    | .look true negated outermost =>
      let width := body.width s.groupWidth
      let late :=
        if width.least > repeatLimit then [Flaw.lookBehindTooWide]
        else if width.fixed?.isNone then [Flaw.variableLookBehind]
        else []
      .ok { outer.push rest ⟨.look (some width.least) negated body, false, false⟩ with
        lookBehindFrom := if outermost then none else s.lookBehindFrom
        late := s.late ++ late }

/-- A comment of the verbose mode, up to the end of its line. -/
def skipLine (total : Nat) (t : Text) : ReadM Text :=
  match t with
  | [] => .ok []
  | '\\' :: _ :: rest => do
    let _ ← settle total rest
    skipLine total rest
  | c :: rest => do
    let _ ← settle total rest
    if c == '\n' then return rest else skipLine total rest

def isVerboseBlank (c : Char) : Bool :=
  c == ' ' || (9 ≤ c.toNat && c.toNat ≤ 13)

/-- A quantifier: repeat the last item, or take the brace as a character. -/
def quantifier (total start : Nat) (s : State) (c : Char) (rest : Text) : ReadM State := do
  match c with
  | '?' => repeatItem total start s 0 (some 1) rest
  | '*' => repeatItem total start s 0 none rest
  | '+' => repeatItem total start s 1 none rest
  | _ =>
    match ← repeatRange total rest with
    | none => return s.push rest ⟨s.flags.charNode c.toNat, false, false⟩
    | some (least, most, rest) => repeatItem total start s least most rest

/-- A character that is not part of an escape. -/
def plainItem (total start : Nat) (s : State) (c : Char) (rest : Text) :
    ReadM State := do
  let item (n : Node) (isAnchor : Bool) : ReadM State := .ok (s.push rest ⟨n, isAnchor, false⟩)
  if c == '.' then
    item (.one (if s.flags.dotAll then .any else .anyButNewline)) false
  else if c == '^' then
    item (.anchor (if s.flags.multiLine then .lineStart else .textStart)) true
  else if c == '$' then
    item (.anchor (if s.flags.multiLine then .lineEnd else .lastLineEnd)) true
  else if c == '[' then
    let (negated, inner) ← accept? total '^' rest
    let (items, rest) ← classItems total start (inner.length + 1) inner []
    return s.push rest ⟨.one (s.flags.charClass items negated), false, false⟩
  else if c == '(' then
    let (extended, inner) ← accept? total '?' rest
    if extended then extension total start s inner else s.openCapture start none rest total
  else if c == '*' || c == '+' || c == '?' || c.toNat == 0x7B then quantifier total start s c rest
  else item (s.flags.charNode c.toNat) false

/-- Read one item. -/
def step (total : Nat) (s : State) : ReadM State := do
  let start := total - s.rest.length
  match token? s.rest with
  | none => return s
  | some (['|'], rest) => bar total s rest
  | some ([')'], rest) =>
    if s.frames.isEmpty then
      if s.mixed then .error (.beyond .alphabets) else flaw .unbalancedParenthesis start
    else close start s (← settle total rest)
  | some (tok, rest) =>
    let rest ← settle total rest
    match tok with
    | ['\\', letter] => escapeItem total start s letter rest
    | [c] =>
      if s.flags.verbose && isVerboseBlank c then return { s with rest := rest }
      else if s.flags.verbose && c == '#' then return { s with rest := ← skipLine total rest }
      else plainItem total start s c rest
    | _ => return { s with rest := rest }

/-- Read items until the text is used up. -/
def steps (total : Nat) (s : State) : ReadM State :=
  if s.rest.isEmpty then .ok s
  else do
    let s' ← step total s
    if _h : s'.rest.length < s.rest.length then steps total s' else return s'
termination_by s.rest.length

/-- What is left to check when the text is used up. -/
def finish (s : State) : ReadM Unit :=
  match s.frames with
  | frame :: _ => flaw .unterminatedGroup frame.start
  | [] => do
    if s.mixed then .error (.beyond .alphabets)
    match s.choiceRefs.find? fun r => r.1 ≥ s.nextGroup with
    | some (index, place) => flaw (.noSuchGroup index) place
    | none =>
      match s.late with
      | f :: _ => .error (.flawed f none)
      | [] => .ok ()

/-- Read a pattern. -/
def read (source : Text) : Except Error Pattern := do
  let total := source.length
  let s ← steps total { rest := ← settle total source }
  finish s
  return ⟨s.body, s.nextGroup - 1⟩

/-! ## Reading step by step -/

section Steps

variable {total : Nat} {s s' : State}

theorem steps_of_nil (h : s.rest = []) : steps total s = .ok s := by
  rw [steps, h]
  rfl

theorem steps_of_step
    (hne : s.rest ≠ []) (h : step total s = .ok s') (hlt : s'.rest.length < s.rest.length) :
    steps total s = steps total s' := by
  rw [steps, if_neg (by simpa using hne), h]
  exact if_pos hlt

/-- A pattern is what its steps have read when the text is used up. -/
theorem read_of_steps
    (source : Text) (hsource : settle source.length source = .ok source)
    (hsteps : steps source.length { rest := source } = .ok s) (hfinish : finish s = .ok ()) :
    read source = .ok ⟨s.body, s.nextGroup - 1⟩ := by
  simp only [read, hsource, bind, Except.bind, hsteps, hfinish]
  rfl

end Steps

end Redline.Pattern
