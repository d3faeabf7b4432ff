import Redline.Text.Basic
import Redline.Text.Case
import Redline.Text.Digit
import Redline.Text.Word

/-!
# Character classes

A class is a list of single code points, ranges and named kinds, possibly negated. It may ignore
letter case: then a character belongs to it when one of the variants of the same letter does.
-/

namespace Redline.Pattern

/-- The named kinds of characters. -/
inductive CharKind where
  | digit
  | space
  | word
deriving Repr, DecidableEq

/-- How letters that differ in case compare. -/
inductive Folding where
  | exact
  | ascii
  | full
deriving Repr, DecidableEq

/-- An item of a class. -/
inductive ClassItem where
  | code (n : Nat)
  | range (low high : Nat)
  | kind (k : CharKind) (negated : Bool)
deriving Repr, DecidableEq

/-- A class of characters. -/
structure CharClass where
  items : List ClassItem
  negated : Bool := false
  folding : Folding := .exact
  /-- The named kinds hold of ASCII characters only. -/
  asciiKinds : Bool := false
deriving Repr, DecidableEq

/-- The kind holds of a code point. -/
def CharKind.holds (asciiOnly : Bool) (k : CharKind) (n : Nat) : Bool :=
  let c := Char.ofNat n
  (!asciiOnly || n < 128) &&
    match k with
    | .digit => isDecimal c
    | .space => isBlank c && !(asciiOnly && 0x1C ≤ n && n ≤ 0x1F)
    | .word => isWord c

/-- The item holds of a code point. -/
def ClassItem.holds (asciiOnly : Bool) (n : Nat) : ClassItem → Bool
  | .code m => m == n
  | .range low high => low ≤ n && n ≤ high
  | .kind k negated => k.holds asciiOnly n != negated

/-- The lower case of a code point under a folding. -/
def Folding.lower (f : Folding) (n : Nat) : Nat :=
  match f with
  | .exact => n
  | .ascii => if 65 ≤ n && n ≤ 90 then n + 32 else n
  | .full => lowerCode n

/-- The code points that are the same letter under a folding. -/
def Folding.variants (f : Folding) (n : Nat) : List Nat :=
  match f with
  | .exact => [n]
  | .ascii =>
    let low := Folding.lower .ascii n
    if 97 ≤ low && low ≤ 122 then [low, low - 32] else [n]
  | .full => caseVariants n

/-- The character belongs to the class. -/
def CharClass.holds (cls : CharClass) (c : Char) : Bool :=
  let n := c.toNat
  let inside := cls.items.any fun item =>
    match item with
    | .kind .. => item.holds cls.asciiKinds (cls.folding.lower n)
    | _ => (cls.folding.variants n).any fun m => item.holds cls.asciiKinds m
  inside != cls.negated

/-- The class of a single code point. -/
def CharClass.single (folding : Folding) (n : Nat) : CharClass :=
  ⟨[.code n], false, folding, false⟩

/-- Every character but the newline. -/
def CharClass.anyButNewline : CharClass :=
  ⟨[.code 10], true, .exact, false⟩

/-- Every character. -/
def CharClass.any : CharClass :=
  ⟨[], true, .exact, false⟩

end Redline.Pattern
