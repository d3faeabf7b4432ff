import Redline.Json.Basic
import Redline.Number.Real

/-!
# Reading JSON

A reader for JSON text that says what is wrong and where. Non-finite numbers are read by their
names.
-/

namespace Redline.Json

/-- What is wrong with a JSON text. -/
inductive Flaw where
  | byteOrderMark
  | noValue
  | noPropertyName
  | noColon
  | noComma
  | unterminatedString
  | controlCharacter
  | badEscape
  | badUnitEscape
  | extraData
deriving Repr, DecidableEq

def Flaw.message : Flaw → String
  | .byteOrderMark => "Unexpected UTF-8 BOM (decode using utf-8-sig)"
  | .noValue => "Expecting value"
  | .noPropertyName => "Expecting property name enclosed in double quotes"
  | .noColon => "Expecting ':' delimiter"
  | .noComma => "Expecting ',' delimiter"
  | .unterminatedString => "Unterminated string starting at"
  | .controlCharacter => "Invalid control character at"
  | .badEscape => "Invalid \\escape"
  | .badUnitEscape => "Invalid \\uXXXX escape"
  | .extraData => "Extra data"

/-- A flaw and the text that remains from the place of the flaw on. -/
structure Stop where
  flaw : Flaw
  remaining : Text

/-- A flaw at a position of a text. -/
structure ReadError where
  flaw : Flaw
  position : Nat
  line : Nat
  column : Nat
deriving Repr, DecidableEq

/-- The line and column of a position, both from one. -/
def lineColumn (t : Text) (position : Nat) : Nat × Nat :=
  let before := t.take position
  let lines := Text.fields '\n' before
  (lines.length, (lines.getLast?.map (·.length)).getD 0 + 1)

def ReadError.at (whole : Text) (stop : Stop) : ReadError :=
  let position := whole.length - stop.remaining.length
  let (line, column) := lineColumn whole position
  ⟨stop.flaw, position, line, column⟩

def ReadError.message (e : ReadError) : String :=
  s!"{e.flaw.message}: line {e.line} column {e.column} (char {e.position})"

/-- The rest of the text after JSON white space. -/
def skipBlank (t : Text) : Text :=
  t.dropWhile fun c => c == ' ' || c == '\t' || c == '\n' || c == '\r'

def simpleEscape? : Char → Option Char
  | '"' => some '"'
  | '\\' => some '\\'
  | '/' => some '/'
  | 'b' => some (Char.ofNat 8)
  | 'f' => some (Char.ofNat 12)
  | 'n' => some '\n'
  | 'r' => some '\r'
  | 't' => some '\t'
  | _ => none

/-- The value of four digits in base sixteen. -/
def hexUnit? (a b c d : Char) : Option Nat := do
  let digit (x : Char) : Option Nat := if x.toNat < 128 then Whole.hexValue? x else none
  return (((← digit a) * 16 + (← digit b)) * 16 + (← digit c)) * 16 + (← digit d)

/-- The character of a pair of units, or of a single one. -/
def ofUnits (high : Nat) (low : Option Nat) : Char :=
  match low with
  | some l => Char.ofNat (0x10000 + (high - 0xD800) * 0x400 + (l - 0xDC00))
  | none => Char.ofNat high

/-- The second unit of a pair, written as an escape. -/
def lowUnit? : Text → Option (Nat × Text)
  | '\\' :: 'u' :: a :: b :: c :: d :: rest => do
    let n ← hexUnit? a b c d
    if 0xDC00 ≤ n && n ≤ 0xDFFF then some (n, rest) else none
  | _ => none

/-- The characters of a string up to its closing quote. The first argument is the text from the
opening quote on; the last collects characters in reverse. -/
def readString (opening : Text) (t : Text) (acc : Text) : Except Stop (Text × Text) :=
  match t with
  | [] => .error ⟨.unterminatedString, opening⟩
  | '"' :: rest => .ok (acc.reverse, rest)
  | '\\' :: 'u' :: rest =>
    match rest with
    | a :: b :: c :: d :: more =>
      if more.isEmpty then .error ⟨.badUnitEscape, 'u' :: rest⟩
      else match hexUnit? a b c d with
        | none => .error ⟨.badUnitEscape, 'u' :: rest⟩
        | some n =>
          if 0xD800 ≤ n && n ≤ 0xDBFF then
            match more with
            | '\\' :: 'u' :: e :: f :: g :: h :: tail =>
              match lowUnit? ('\\' :: 'u' :: [e, f, g, h]) with
              | some (l, _) => readString opening tail (ofUnits n (some l) :: acc)
              | none =>
                readString opening ('\\' :: 'u' :: e :: f :: g :: h :: tail) (ofUnits n none :: acc)
            | other => readString opening other (ofUnits n none :: acc)
          else readString opening more (ofUnits n none :: acc)
    | _ => .error ⟨.badUnitEscape, 'u' :: rest⟩
  | '\\' :: c :: rest =>
    match simpleEscape? c with
    | some x => readString opening rest (x :: acc)
    | none => .error ⟨.badEscape, '\\' :: c :: rest⟩
  | ['\\'] => .error ⟨.unterminatedString, opening⟩
  | c :: rest =>
    if c.toNat < 0x20 then .error ⟨.controlCharacter, c :: rest⟩
    else readString opening rest (c :: acc)
termination_by t.length

/-- The whole part of a number: a zero, or digits that do not start with one. -/
def wholePart? : Text → Option (Text × Text)
  | '0' :: rest => some (['0'], rest)
  | c :: rest =>
    if '1' ≤ c && c ≤ '9' then
      let (digits, tail) := rest.span Real.isBasicDigit
      some (c :: digits, tail)
    else none
  | [] => none

/-- The part after the point, if digits follow it. -/
def placesPart : Text → Text × Text
  | '.' :: rest =>
    let (digits, tail) := rest.span Real.isBasicDigit
    if digits.isEmpty then ([], '.' :: rest) else (digits, tail)
  | t => ([], t)

/-- The exponent, if digits follow its mark. -/
def exponentPart (t : Text) : Option Int × Text :=
  match t with
  | e :: rest =>
    if e == 'e' || e == 'E' then
      let (negative, body) := Whole.splitSign rest
      let (digits, tail) := body.span Real.isBasicDigit
      match Whole.digitValues? digits with
      | some (d :: ds) => (some (Whole.signed negative (Whole.value 10 (d :: ds))), tail)
      | _ => (none, t)
    else (none, t)
  | [] => (none, [])

/-- A number at the start of the text. -/
def readNumber? (t : Text) : Option (Json × Text) := do
  let (negative, body) := match t with
    | '-' :: rest => (true, rest)
    | _ => (false, t)
  let (whole, rest) ← wholePart? body
  let (places, rest) := placesPart rest
  let (exponent, rest) := exponentPart rest
  let digits ← Whole.digitValues? (whole ++ places)
  let n := Whole.value 10 digits
  if places.isEmpty && exponent.isNone then
    return (.int (Whole.signed negative n), rest)
  else
    let x := Real.ofScientific n (exponent.getD 0 - places.length)
    return (.real (if negative then -x else x), rest)

/-- Names of values. -/
def readName? (t : Text) : Option (Json × Text) :=
  let names : List (String × Json) :=
    [("null", .null), ("true", .bool true), ("false", .bool false), ("NaN", .real (0.0 / 0.0)),
      ("Infinity", .real (1.0 / 0.0)), ("-Infinity", .real (-(1.0 / 0.0)))]
  names.findSome? fun (name, v) => (Text.after? name.toList t).map fun rest => (v, rest)

/-- Add a member; a key that is there already keeps its place and takes the new value. -/
def putMember (ms : List (Text × Json)) (key : Text) (v : Json) : List (Text × Json) :=
  if ms.any (·.1 == key) then ms.map fun m => if m.1 == key then (key, v) else m
  else ms ++ [(key, v)]

mutual

/-- A value at the start of the text. The budget bounds the nesting. -/
def readValue : Nat → Text → Except Stop (Json × Text)
  | 0, t => .error ⟨.noValue, t⟩
  | budget + 1, t =>
    match t with
    | '"' :: rest => do
      let (s, rest) ← readString t rest []
      return (.str s, rest)
    | '[' :: rest =>
      match skipBlank rest with
      | ']' :: tail => .ok (.arr [], tail)
      | inner => readItems budget inner []
    | c :: rest =>
      if c.toNat == 0x7B then
        match skipBlank rest with
        | d :: tail =>
          if d.toNat == 0x7D then .ok (.obj [], tail) else readMembers budget (d :: tail) []
        | [] => readMembers budget [] []
      else match (readName? t).or (readNumber? t) with
        | some result => .ok result
        | none => .error ⟨.noValue, t⟩
    | [] => .error ⟨.noValue, t⟩

/-- Items up to the closing bracket. -/
def readItems : Nat → Text → List Json → Except Stop (Json × Text)
  | 0, t, _ => .error ⟨.noValue, t⟩
  | budget + 1, t, acc => do
    let (v, rest) ← readValue budget t
    match skipBlank rest with
    | ']' :: tail => return (.arr (v :: acc).reverse, tail)
    | ',' :: tail => readItems budget (skipBlank tail) (v :: acc)
    | other => .error ⟨.noComma, other⟩

/-- Members up to the closing brace. -/
def readMembers : Nat → Text → List (Text × Json) → Except Stop (Json × Text)
  | 0, t, _ => .error ⟨.noPropertyName, t⟩
  | budget + 1, t, acc =>
    match t with
    | '"' :: rest => do
      let (key, rest) ← readString t rest []
      match skipBlank rest with
      | ':' :: rest =>
        let (v, rest) ← readValue budget (skipBlank rest)
        match skipBlank rest with
        | c :: tail =>
          if c.toNat == 0x7D then return (.obj (putMember acc key v), tail)
          else if c == ',' then readMembers budget (skipBlank tail) (putMember acc key v)
          else .error ⟨.noComma, c :: tail⟩
        | [] => .error ⟨.noComma, []⟩
      | other => .error ⟨.noColon, other⟩
    | _ => .error ⟨.noPropertyName, t⟩

end

/-- Read a text that holds one value and nothing else. -/
def read (t : Text) : Except ReadError Json :=
  let located {α : Type} (r : Except Stop α) : Except ReadError α := r.mapError (ReadError.at t)
  match t with
  | c :: _ =>
    if c.toNat == 0xFEFF then located (.error ⟨.byteOrderMark, t⟩)
    else located do
      let (v, rest) ← readValue (t.length + 1) (skipBlank t)
      match skipBlank rest with
      | [] => return v
      | extra => .error ⟨.extraData, extra⟩
  | [] => located (.error ⟨.noValue, t⟩)

end Redline.Json
