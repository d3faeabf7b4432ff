import Redline.Json.Basic
import Redline.Text.Case

/-!
# Links and chips

A link leads to a bookmark or to an address. Chips are special addresses that name a person, a date,
a file and so on; some of them can be replaced by a plain link.
-/

namespace Redline

/-- The target of a link. -/
inductive Link where
  | bookmark (id : Text)
  | url (address : Text)
deriving Repr, DecidableEq

namespace Link

/-- The target of an address: a hash in front makes it a bookmark. -/
def ofAddress : Text → Link
  | '#' :: id => .bookmark id
  | address => .url address

/-- The target in a request. -/
def toJson : Link → Json
  | .bookmark id => .ofFields [("bookmarkId", .str id)]
  | .url address => .ofFields [("url", .str address)]

end Link

/-- The kinds of chips. -/
inductive ChipKind where
  | person
  | date
  | file
  | place
  | dropdown
  | chart
  | bookmark
deriving Repr, DecidableEq

namespace ChipKind

def all : List ChipKind :=
  [.person, .date, .file, .place, .dropdown, .chart, .bookmark]

def name : ChipKind → String
  | .person => "person"
  | .date => "date"
  | .file => "file"
  | .place => "place"
  | .dropdown => "dropdown"
  | .chart => "chart"
  | .bookmark => "bookmark"

end ChipKind

/-- A chip by its kind and value. -/
structure Chip where
  kind : ChipKind
  value : Text
deriving Repr, DecidableEq

namespace Chip

/-- The start of every chip address. -/
def scheme : Text :=
  "chip://".toList

/-- The address is in the form of a chip. -/
def isAddress (url : Text) : Bool :=
  Text.startsWith scheme url

/-- Read a chip address: the kind, in any case, a slash, and the value. -/
def read? (url : Text) : Option Chip := do
  let (kind, value) ← Text.cut? ['/'] (← Text.after? scheme url)
  let kind ← ChipKind.all.find? fun k => k.name.toList == lower kind
  return ⟨kind, value⟩

/-- The choices of a dropdown. -/
def options (c : Chip) : List Text :=
  if c.kind = .dropdown then Text.fields '|' c.value else []

/-- A character that stands for itself in a query. -/
def isUnreserved (c : Char) : Bool :=
  ('a' ≤ c && c ≤ 'z') || ('A' ≤ c && c ≤ 'Z') || ('0' ≤ c && c ≤ '9') ||
    c == '_' || c == '.' || c == '-' || c == '~'

/-- A byte as a percent sign and two digits in base sixteen. -/
def percent (byte : UInt8) : Text :=
  let digit (n : Nat) : Char :=
    if n < 10 then Char.ofNat ('0'.toNat + n) else Char.ofNat ('A'.toNat + n - 10)
  ['%', digit (byte.toNat / 16), digit (byte.toNat % 16)]

/-- A text in the form of a query value: a space is a plus, and other characters that are not
allowed are written byte by byte. -/
def queryText (t : Text) : Text :=
  t.flatMap fun c =>
    if c == ' ' then ['+']
    else if isUnreserved c then [c]
    else (String.utf8EncodeChar c).flatMap percent

/-- The plain address that a chip can be replaced by, if there is one. -/
def address (c : Chip) : Text :=
  match c.kind with
  | .bookmark => '#' :: c.value
  | .file => "https://docs.google.com/document/d/".toList ++ c.value
  | .place => "https://maps.google.com/?q=".toList ++ queryText c.value
  | _ => []

/-- The text that stands for a chip when there is no better form. -/
def fallback (c : Chip) : Text :=
  match c.kind with
  | .place | .date => c.value
  | .dropdown => Text.join " / ".toList c.options
  | _ => []

/-- The plain address for an address that may be a chip, and the text that may stand for it. -/
def resolve (url : Text) : Text × Text :=
  if !isAddress url then (url, [])
  else match read? url with
    | some c => (c.address, c.fallback)
    | none => ([], [])

/-- The address of the person that a chip names. -/
def personOf (url : Text) : Text :=
  match read? url with
  | some ⟨.person, value⟩ => value
  | _ => []

end Chip

/-- The target of an address that may be a chip, if it has one. -/
def Link.ofAddress? (url : Text) : Option Link :=
  let address := (Chip.resolve url).1
  if address.isEmpty then none else some (.ofAddress address)

end Redline
