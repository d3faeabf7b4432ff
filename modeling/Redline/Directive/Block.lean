import Redline.Directive.Reader

/-!
# Blocks in a replacement

A block is a part of a replacement in balanced braces. Blocks that can be read as directives are
taken out of the replacement, and each is placed in the text that remains: over all of it, over the
text that it puts in its own place, or at a point.
-/

namespace Redline

/-- The part of the inserted text that a block applies to. -/
inductive Extent where
  /-- All of the text. -/
  | everything
  /-- The text up to a position that the block has put in its place. -/
  | inserted (stop : Nat)
  /-- No text. -/
  | point
deriving Repr, DecidableEq

/-- A block, placed in the cleaned text. -/
structure Block where
  directive : Directive
  start : Nat
  extent : Extent
  raw : Text

namespace Block

/-- The block applies to all of the text. -/
def isGlobal (b : Block) : Bool :=
  b.extent == .everything

/-- The end of the part of the text that the block applies to. It is -1 for a block over all of the
text, and zero for one at a point. -/
def stop (b : Block) : Int :=
  match b.extent with
  | .everything => -1
  | .inserted stop => stop
  | .point => 0

/-- The content up to the brace that closes an open block, and the rest after it. A backslash hides
the character after it. -/
def closing (depth : Nat) : Text → Option (Text × Text)
  | [] => none
  | ['\\'] => none
  | '\\' :: c :: rest => (closing depth rest).map fun (inner, tail) => ('\\' :: c :: inner, tail)
  | '\x7b' :: rest =>
    (closing (depth + 1) rest).map fun (inner, tail) => ('\x7b' :: inner, tail)
  | '\x7d' :: rest =>
    match depth with
    | 0 => some ([], rest)
    | outer + 1 => (closing outer rest).map fun (inner, tail) => ('\x7d' :: inner, tail)
  | c :: rest => (closing depth rest).map fun (inner, tail) => (c :: inner, tail)

/-- The content of a block stands in front of the brace that closes it. -/
theorem eq_append_of_closing {depth : Nat} {t inner tail : Text}
    (h : closing depth t = some (inner, tail)) : t = inner ++ '\x7d' :: tail := by
  fun_induction closing depth t generalizing inner tail with
  | case1 => cases h
  | case2 => cases h
  | case3 depth c rest ih =>
    obtain ⟨⟨i, r⟩, hr, he⟩ := Option.map_eq_some_iff.1 h
    cases he
    rw [ih hr]
    rfl
  | case4 depth rest ih =>
    obtain ⟨⟨i, r⟩, hr, he⟩ := Option.map_eq_some_iff.1 h
    cases he
    rw [ih hr]
    rfl
  | case5 rest =>
    cases h
    rfl
  | case6 rest outer ih =>
    obtain ⟨⟨i, r⟩, hr, he⟩ := Option.map_eq_some_iff.1 h
    cases he
    rw [ih hr]
    rfl
  | case7 depth c rest _ _ _ _ ih =>
    obtain ⟨⟨i, r⟩, hr, he⟩ := Option.map_eq_some_iff.1 h
    cases he
    rw [ih hr]
    rfl

theorem length_of_closing {depth : Nat} {t inner tail : Text}
    (h : closing depth t = some (inner, tail)) :
    tail.length < t.length := by
  rw [eq_append_of_closing h, List.length_append, List.length_cons]
  omega

/-- The content and the rest of a text that starts with a block. -/
def split? : Text → Option (Text × Text)
  | '\x7b' :: rest => closing 0 rest
  | _ => none

/-- The position of the brace that closes the one at a position. -/
def matchingBrace? (t : Text) (position : Nat) : Option Nat :=
  (split? (t.drop position)).map fun (inner, _) => position + inner.length + 1

/-- There is something other than blanks. -/
def hasContent (t : Text) : Bool :=
  t.any fun c => !isBlank c

/-- The blocks that a directive leaves at a position, with the text that takes their place. The flag
tells whether there is text on both sides of the block. -/
def place (d : Directive) (raw : Text) (position : Nat) (between : Bool) : Text × List Block :=
  if !d.inline.isEmpty then
    d.inline.foldl
      (fun (text, blocks) span =>
        let start := position + text.length
        (text ++ span.text,
          blocks ++ [⟨.ofFlag span.flag, start, .inserted (start + span.text.length), raw⟩]))
      ([], [])
  else if !d.text.isEmpty && d.text != "$0".toList then
    (d.text, [⟨d, position, .inserted (position + d.text.length), raw⟩])
  else
    ([], [⟨d, position, if between then .point else .everything, raw⟩])

/-- Take the blocks out of a text. The flag tells whether there was content before it, and the
position is that of the cleaned text. -/
def extractFrom (before : Bool) (position : Nat) (t : Text) : Text × List Block :=
  let literal (c : Char) (r : Text × List Block) : Text × List Block := (c :: r.1, r.2)
  match t with
  | [] => ([], [])
  | '\\' :: c :: rest =>
    if c == '\x7b' || c == '\x7d' then literal c (extractFrom true (position + 1) rest)
    else literal '\\' (extractFrom true (position + 1) (c :: rest))
  | '\x7b' :: rest =>
    match _h : closing 0 rest with
    | none => literal '\x7b' (extractFrom true (position + 1) rest)
    | some (inner, tail) =>
      match Directive.read inner with
      | .error _ => literal '\x7b' (extractFrom true (position + 1) rest)
      | .ok d =>
        let raw := '\x7b' :: inner ++ ['\x7d']
        let (text, blocks) := place d raw position (before && hasContent tail)
        let (more, others) := extractFrom true (position + text.length) tail
        (text ++ more, blocks ++ others)
  | c :: rest => literal c (extractFrom (before || !isBlank c) (position + 1) rest)
termination_by t.length
decreasing_by
  all_goals simp_wf
  all_goals first
    | omega
    | have := length_of_closing _h; omega

/-- Take the blocks out of a replacement: the cleaned text, and the blocks placed in it. -/
def extract (replacement : Text) : Text × List Block :=
  if replacement.contains '\x7b' then extractFrom false 0 replacement else (replacement, [])

/-- Parts of keys that mark the content of a block as a directive. -/
def keyMarks : List String :=
  ["t=", "text=", "c=", "color=", "z=", "bg=", "f=", "font=", "s=", "size=", "u=", "url=", "h=",
    "heading=", "l=", "leading=", "a=", "align=", "o=", "opacity=", "n=", "indent=", "k=",
    "kerning=", "x=", "width=", "y=", "height=", "p=", "spacing=", "e=", "effect=", "cols=",
    "check", "toc", "img=", "T=", "@=", "\"="]

/-- The content looks like a directive rather than like text in braces. -/
def looksLikeDirective (content : Text) : Bool :=
  let content := Text.trim content
  let opens (s : Text) : Bool := Text.startsWith s content
  !content.isEmpty &&
    (content == ['0'] || opens ['0', ' '] ||
      Flag.names.any (fun (name, _) =>
        let flag := name.toList
        content == flag || opens (flag ++ [' ']) || opens (flag ++ ['=']) ||
          content == '!' :: flag || opens ('!' :: flag ++ [' '])) ||
      keyMarks.any (fun mark => Text.occursIn mark.toList content) ||
      content == ['+'] || opens ['+', '='])

/-- A block that is not escaped looks like a directive. The first argument is the character before
the text. -/
def anyDirective (last : Option Char) : Text → Bool
  | [] => false
  | c :: rest =>
    (last != some '\\' &&
      match split? (c :: rest) with
      | some (inner, _) => !inner.isEmpty && looksLikeDirective inner
      | none => false) ||
    anyDirective (some c) rest

/-- The replacement has a formatting block. -/
def occursIn (replacement : Text) : Bool :=
  anyDirective none replacement

end Block

namespace Directive

/-- A setting that takes over from another one when it is there. -/
def laterText (later earlier : Text) : Text :=
  if later.isEmpty then earlier else later

def laterNat (later earlier : Nat) : Nat :=
  if later > 0 then later else earlier

def laterReal (later earlier : Float) : Float :=
  if later != 0 then later else earlier

/-- Two directives in one: the settings of the later one win. Text in place of a block is not taken
over. -/
def merge (earlier later : Directive) : Directive :=
  { bold := later.bold.or earlier.bold
    italic := later.italic.or earlier.italic
    underline := later.underline.or earlier.underline
    strike := later.strike.or earlier.strike
    code := later.code.or earlier.code
    superscript := later.superscript.or earlier.superscript
    subscript := later.subscript.or earlier.subscript
    smallCaps := later.smallCaps.or earlier.smallCaps
    color := laterText later.color earlier.color
    background := laterText later.background earlier.background
    font := laterText later.font earlier.font
    size := later.size.or earlier.size
    url := laterText later.url earlier.url
    heading := laterText later.heading earlier.heading
    leading := later.leading.or earlier.leading
    align := laterText later.align earlier.align
    opacity := laterNat later.opacity earlier.opacity
    indent := later.indent.or earlier.indent
    kerning := laterReal later.kerning earlier.kerning
    width := laterNat later.width earlier.width
    height := laterNat later.height earlier.height
    spacing := later.spacing.or earlier.spacing
    effect := laterText later.effect earlier.effect
    columns := laterNat later.columns earlier.columns
    reset := earlier.reset || later.reset
    keepStyle := earlier.keepStyle || later.keepStyle
    pageBreak := later.pageBreak.or earlier.pageBreak
    comment := laterText later.comment earlier.comment
    bookmark := laterText later.bookmark earlier.bookmark
    check := later.check.or earlier.check
    contents := later.contents.or earlier.contents
    image := laterText later.image earlier.image
    table := laterText later.table earlier.table }

/-- The directive of all blocks that apply to the whole text. -/
def ofBlocks (blocks : List Block) : Directive :=
  (blocks.filter Block.isGlobal).foldl (fun d b => d.merge b.directive) {}

end Directive

end Redline
