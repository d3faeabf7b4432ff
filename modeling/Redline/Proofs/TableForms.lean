import Redline.Proofs.Numeral
import Redline.Reference.Table

/-!
# Two forms of a reference to cells

Cells of a table are named in braces or with pipes.  The two forms are read by two readers, which
share a grammar for the cells: a row and a column, an address, a rectangle, or a change of rows or
columns.  This module has the grammar as a data type, with the text of each form and the reference
that is meant.  Both readers give that reference, except that a pair with a number in it, and with
no number but zero, is taken for the whole table in braces.

## Main results

* `Redline.CellRef.readPiped?_inPipes`: what the form with pipes is read to.
* `Redline.TableRef.target_read_inBraces`: what the form in braces is about.
-/

namespace Redline

/-! ## The grammar -/

/-- A row or a column in writing. -/
inductive WrittenLine where
  /-- A star. -/
  | every
  | number (n : Numeral)

/-- A change of rows or columns in writing. -/
inductive WrittenChange where
  | append
  | insert (target : Numeral)
  | delete (target : Numeral)

/-- An address in writing. -/
structure WrittenAddress where
  letters : Text
  row : Numeral
  ne_nil : letters ≠ []
  isLetter : ∀ c ∈ letters, Place.isLetter c = true
  unsigned : row.negative = false
  positive : 0 < row.value

/-- Cells of a table in writing, in the grammar that both forms of a reference share. -/
inductive WrittenCells where
  | pair (row column : WrittenLine)
  | address (a : WrittenAddress)
  | rectangle (row column lastRow lastColumn : Numeral)
  | change (axis : Axis) (c : WrittenChange)

/-- A character that cells are written with: a mark, a letter or a digit. -/
def isCellChar (c : Char) : Bool :=
  [',', ':', '=', '*', '$', '+', '-'].contains c || Place.isLetter c || isDecimal c

theorem Place.toNat_mem_of_isLetter {c : Char} (h : Place.isLetter c = true) :
    c.toNat ∈ List.range' 97 26 ++ List.range' 65 26 := by
  simp only [Place.isLetter, Bool.or_eq_true, Bool.and_eq_true, decide_eq_true_eq] at h
  rw [List.mem_append, List.mem_range'_1, List.mem_range'_1]
  exact h.imp (fun h => ⟨h.1, Nat.lt_succ_of_le h.2⟩) (fun h => ⟨h.1, Nat.lt_succ_of_le h.2⟩)

/-- A letter of an address is neither a blank nor a digit. -/
theorem Place.other_of_isLetter {c : Char} (h : Place.isLetter c = true) :
    isBlank c = false ∧ isDecimal c = false := by
  have hother : ∀ n ∈ List.range' 97 26 ++ List.range' 65 26,
      inRanges blanks n = false ∧ (digitValueIn digitZeros n).isSome = false := by
    decide
  exact hother _ (Place.toNat_mem_of_isLetter h)

theorem isBlank_of_isCellChar {c : Char} (h : isCellChar c = true) : isBlank c = false := by
  have hmarks : ∀ c ∈ [',', ':', '=', '*', '$', '+', '-'], isBlank c = false :=
    List.all_iff_forall_prop.1 (by decide)
  simp only [isCellChar, Bool.or_eq_true, List.contains_iff_mem] at h
  rcases h with (h | h) | h
  · exact hmarks c h
  · exact (Place.other_of_isLetter h).1
  · exact isBlank_eq_false_of_isDecimal h

theorem trim_of_isCellChar {t : Text} (h : ∀ c ∈ t, isCellChar c = true) : Text.trim t = t :=
  Text.trim_of_no_blank fun c hc => isBlank_of_isCellChar (h c hc)

theorem Numeral.isCellChar_of_mem_text {n : Numeral} {c : Char} (h : c ∈ n.text) :
    isCellChar c = true := by
  rcases mem_text h with rfl | h
  · decide
  · rw [isCellChar, h, Bool.or_true]

namespace WrittenLine

def text : WrittenLine → Text
  | .every => ['*']
  | .number n => n.text

def numerals : WrittenLine → List Numeral
  | .every => []
  | .number n => [n]

/-- The number of the line; zero stands for every line. -/
def value : WrittenLine → Int
  | .every => 0
  | .number n => n.value

/-- The number of the line, if it can be read. -/
def read : WrittenLine → Except TooManyDigits Int
  | .every => .ok 0
  | .number n => n.read

/-- The number of the line, or nothing for a star. -/
def value? : WrittenLine → Option Int
  | .every => none
  | .number n => some n.value

/-- The number of the line, or nothing for a star, if it can be read. -/
def read? : WrittenLine → Except TooManyDigits (Option Int)
  | .every => .ok none
  | .number n => n.read.map some

/-- A line is read to its number in both ways, or refused in both. -/
theorem read_cases (l : WrittenLine) :
    (l.read = .ok l.value ∧ l.read? = .ok l.value?) ∨
      ∃ e, l.read = .error e ∧ l.read? = .error e := by
  cases l with
  | every => exact .inl ⟨rfl, rfl⟩
  | number n =>
    by_cases hfits : n.Fits
    · have hread := Numeral.read_of_fits hfits
      exact .inl ⟨hread, congrArg (Except.map some) hread⟩
    · have hread := Numeral.read_of_not_fits hfits
      exact .inr ⟨_, hread, congrArg (Except.map some) hread⟩

theorem not_mem_text (l : WrittenLine) {c : Char} (hstar : c ≠ '*') (hminus : c ≠ '-')
    (hdecimal : isDecimal c = false) : c ∉ l.text := by
  cases l with
  | every => exact fun h => hstar (List.mem_singleton.1 h)
  | number n => exact n.not_mem_text hminus hdecimal

/-- The comma, the star, the minus and digits are all that a pair of lines is written with. -/
theorem not_mem_pair (row column : WrittenLine) {c : Char} (hmark : c ∉ [',', '*', '-'])
    (hdecimal : isDecimal c = false) : c ∉ row.text ++ ',' :: column.text := by
  simp only [List.mem_cons, List.not_mem_nil, or_false, not_or] at hmark
  obtain ⟨hcomma, hstar, hminus⟩ := hmark
  have hline : ∀ l : WrittenLine, c ∉ l.text := fun l => l.not_mem_text hstar hminus hdecimal
  simp only [List.mem_append, List.mem_cons, not_or]
  exact ⟨hline row, hcomma, hline column⟩

theorem isCellChar_of_mem_text {l : WrittenLine} {c : Char} (h : c ∈ l.text) :
    isCellChar c = true := by
  cases l with
  | every =>
    rw [List.mem_singleton.1 h]
    decide
  | number n => exact Numeral.isCellChar_of_mem_text h

theorem isCellChar_of_mem_pair (row column : WrittenLine) {c : Char}
    (h : c ∈ row.text ++ ',' :: column.text) : isCellChar c = true := by
  simp only [List.mem_append, List.mem_cons] at h
  rcases h with h | rfl | h
  · exact isCellChar_of_mem_text h
  · decide
  · exact isCellChar_of_mem_text h

theorem trim_text (l : WrittenLine) : Text.trim l.text = l.text :=
  trim_of_isCellChar fun _ => isCellChar_of_mem_text

end WrittenLine

namespace WrittenChange

def text : WrittenChange → Text
  | .append => ['$', '+']
  | .insert n => '+' :: n.text
  | .delete n => n.text

def numerals : WrittenChange → List Numeral
  | .append => []
  | .insert n => [n]
  | .delete n => [n]

/-- The change that is meant. -/
def change : WrittenChange → LineChange
  | .append => .append 0
  | .insert n => .insert n.value
  | .delete n => .delete n.value

/-- The change that is meant, if its number can be read. -/
def read : WrittenChange → Except TooManyDigits LineChange
  | .append => .ok (.append 0)
  | .insert n => n.read.map .insert
  | .delete n => n.read.map .delete

theorem isCellChar_of_mem_text {w : WrittenChange} {c : Char} (h : c ∈ w.text) :
    isCellChar c = true := by
  cases w with
  | append =>
    have hmarks : ∀ c ∈ ['$', '+'], isCellChar c = true := List.all_iff_forall_prop.1 (by decide)
    exact hmarks c h
  | insert n =>
    rcases List.mem_cons.1 h with rfl | h
    · decide
    · exact Numeral.isCellChar_of_mem_text h
  | delete n => exact Numeral.isCellChar_of_mem_text h

theorem trim_text (w : WrittenChange) : Text.trim w.text = w.text :=
  trim_of_isCellChar fun _ => isCellChar_of_mem_text

theorem readPiped?_text (w : WrittenChange) :
    LineChange.readPiped? w.text = w.read.map some := by
  cases w with
  | append => rfl
  | insert n =>
    have hread : LineChange.readPiped? ('+' :: n.text) =
        (do return (← Whole.read? n.text).map LineChange.insert) := rfl
    rw [text, hread, n.read?_text, read]
    cases n.read <;> rfl
  | delete n =>
    have hdollar : '$' ∉ n.text := n.not_mem_text (by decide) (by decide)
    have hplus : '+' ∉ n.text := n.not_mem_text (by decide) (by decide)
    have hread : LineChange.readPiped? n.text =
        (do return (← Whole.read? n.text).map LineChange.delete) := by
      generalize n.text = t at hdollar hplus ⊢
      unfold LineChange.readPiped?
      split
      · exact absurd List.mem_cons_self hdollar
      · exact absurd List.mem_cons_self hplus
      · rfl
    rw [text, hread, n.read?_text, read]
    cases n.read <;> rfl

/-- Both forms read a change alike, since there is nothing to trim. -/
theorem read?_text (w : WrittenChange) : LineChange.read? w.text = w.read.map some := by
  rw [← readPiped?_text]
  unfold LineChange.read? LineChange.readPiped?
  rw [w.trim_text]

theorem text_ne_nil (w : WrittenChange) : w.text ≠ [] := by
  cases w with
  | append => exact List.cons_ne_nil _ _
  | insert n => exact List.cons_ne_nil _ _
  | delete n => exact n.text_ne_nil

end WrittenChange

namespace WrittenAddress

def text (a : WrittenAddress) : Text :=
  a.letters ++ a.row.text

theorem mem_text {a : WrittenAddress} {c : Char} (h : c ∈ a.text) :
    Place.isLetter c = true ∨ isDecimal c = true := by
  rcases List.mem_append.1 h with h | h
  · exact .inl (a.isLetter c h)
  · rw [Numeral.text, a.unsigned, if_neg Bool.false_ne_true] at h
    exact .inr (a.row.decimal c h)

theorem not_mem_text (a : WrittenAddress) {c : Char} (hletter : Place.isLetter c = false)
    (hdecimal : isDecimal c = false) : c ∉ a.text := by
  intro h
  rcases mem_text h with h | h
  · rw [hletter] at h
    cases h
  · rw [hdecimal] at h
    cases h

theorem isCellChar_of_mem_text {a : WrittenAddress} {c : Char} (h : c ∈ a.text) :
    isCellChar c = true := by
  rcases mem_text h with h | h
  · rw [isCellChar, h, Bool.or_true, Bool.true_or]
  · rw [isCellChar, h, Bool.or_true]

/-- An address is read to its row and the column of its letters. -/
theorem readAddress?_text (a : WrittenAddress) :
    Place.readAddress? a.text =
      a.row.read.map fun row => some ⟨row, Place.columnOf a.letters⟩ := by
  obtain ⟨v, vs, hvalues, hread⟩ := a.row.exists_ofDigits
  have hrow : a.row.text = a.row.digits := by
    rw [Numeral.text, a.unsigned, if_neg Bool.false_ne_true]
  obtain ⟨d, ds, hdigits⟩ := List.exists_cons_of_ne_nil a.row.ne_nil
  have hdigit : Place.isLetter d = false := by
    have hdecimal := a.row.decimal d (hdigits ▸ List.mem_cons_self)
    refine Bool.eq_false_iff.2 fun hletter => ?_
    rw [(Place.other_of_isLetter hletter).2] at hdecimal
    cases hdecimal
  have hletters : a.text.takeWhile Place.isLetter = a.letters := by
    rw [text, hrow, hdigits, List.takeWhile_append_of_pos a.isLetter, List.takeWhile_cons,
      if_neg (by simp [hdigit]), List.append_nil]
  have hrest : a.text.dropWhile Place.isLetter = a.row.digits := by
    rw [text, hrow, hdigits, List.dropWhile_append_of_pos a.isLetter, List.dropWhile_cons,
      if_neg (by simp [hdigit])]
  obtain ⟨c, cs, hcons⟩ := List.exists_cons_of_ne_nil a.ne_nil
  have hopen : Place.readAddress? a.text = (do
      let row ← Whole.ofDigits (v :: vs)
      return if row < 1 then none else some ⟨row, Place.columnOf a.letters⟩) := by
    unfold Place.readAddress?
    rw [trim_of_isCellChar fun _ => isCellChar_of_mem_text]
    simp only [hletters, hrest, hvalues]
    rw [hcons]
  rw [hopen, ← hread, a.unsigned]
  rw [a.unsigned] at hread
  cases hnumber : Whole.ofDigits (v :: vs) with
  | error e => rfl
  | ok k =>
    -- A number that is read is the value, and the row of an address is not zero.
    have hvalue : (k : Int) = a.row.value := by
      rw [hnumber] at hread
      by_cases hfits : a.row.Fits
      · rw [Numeral.read_of_fits hfits] at hread
        exact Except.ok.inj hread
      · rw [Numeral.read_of_not_fits hfits] at hread
        cases hread
    have hpositive : ¬ k < 1 := by
      have := a.positive
      omega
    show Except.ok (if k < 1 then none else some _) = _
    rw [if_neg hpositive]
    rfl

end WrittenAddress

namespace WrittenCells

/-- The name of an axis in a change. -/
def axisLetters : Axis → Text
  | .row => ['r', 'o', 'w']
  | .column => ['c', 'o', 'l']

/-- The cells as they are written; each form has its own mark after the name of an axis. -/
def text (mark : Char) : WrittenCells → Text
  | .pair row column => row.text ++ ',' :: column.text
  | .address a => a.text
  | .rectangle row column lastRow lastColumn =>
    (row.text ++ ',' :: column.text) ++ ':' :: (lastRow.text ++ ',' :: lastColumn.text)
  | .change axis c => axisLetters axis ++ mark :: c.text

/-- The value of a reference in braces to cells of a table. -/
def inBraces (table : Numeral) (cells : WrittenCells) : Text :=
  table.text ++ '!' :: cells.text '='

/-- The form with pipes of a reference to cells of a table. -/
def inPipes (table : Numeral) (cells : WrittenCells) : Text :=
  '|' :: (table.text ++ '|' :: '[' :: (cells.text ':' ++ [']']))

/-- The numbers of the cells in writing. -/
def numerals : WrittenCells → List Numeral
  | .pair row column => row.numerals ++ column.numerals
  | .address a => [a.row]
  | .rectangle row column lastRow lastColumn => [row, column, lastRow, lastColumn]
  | .change _ c => c.numerals

/-- The reference that is meant. -/
def ref (table : TableSelector) : WrittenCells → CellRef
  | .pair row column => { table, row := row.value, column := column.value }
  | .address a => { table, row := a.row.value, column := Place.columnOf a.letters }
  | .rectangle row column lastRow lastColumn =>
    { table, row := row.value, column := column.value
      corner := some ⟨lastRow.value, lastColumn.value⟩ }
  | .change axis c => { table, change := some (axis, c.change) }

/-- The reference that is meant, if its numbers can be read. -/
def read (table : TableSelector) : WrittenCells → Except TooManyDigits CellRef
  | .pair row column => do return { table, row := ← row.read, column := ← column.read }
  | .address a => do
    return { table, row := ← a.row.read, column := Place.columnOf a.letters }
  | .rectangle row column lastRow lastColumn => do
    let row ← row.read
    let column ← column.read
    return { table, row, column, corner := some ⟨← lastRow.read, ← lastColumn.read⟩ }
  | .change axis c => do return { table, change := some (axis, ← c.read) }

/-- The reference with the table that is written, if its numbers can be read. -/
def readIn (table : Numeral) (cells : WrittenCells) : Except TooManyDigits CellRef := do
  cells.read (.position (← table.read))

/-- A pair with a number in it, and with no number but zero. -/
def isZeroPair : WrittenCells → Bool
  | .pair .every .every => false
  | .pair row column => row.value == 0 && column.value == 0
  | _ => false

/-- What the form in braces is about when the cells mean a reference. -/
def target (cells : WrittenCells) (ref : CellRef) : Target :=
  if cells.isZeroPair then .tables ref.table else .cells ref

theorem isCellChar_of_mem_text {cells : WrittenCells} {mark c : Char}
    (hmark : isCellChar mark = true) (h : c ∈ cells.text mark) : isCellChar c = true := by
  cases cells with
  | pair row column => exact row.isCellChar_of_mem_pair column h
  | address a => exact WrittenAddress.isCellChar_of_mem_text h
  | rectangle row column lastRow lastColumn =>
    rcases List.mem_append.1 h with h | h
    · exact WrittenLine.isCellChar_of_mem_pair (.number row) (.number column) h
    · rcases List.mem_cons.1 h with rfl | h
      · decide
      · exact WrittenLine.isCellChar_of_mem_pair (.number lastRow) (.number lastColumn) h
  | change axis w =>
    have hletters : ∀ c ∈ axisLetters axis, isCellChar c = true := by
      cases axis <;> exact List.all_iff_forall_prop.1 (by decide)
    rcases List.mem_append.1 h with h | h
    · exact hletters c h
    · rcases List.mem_cons.1 h with rfl | h
      · exact hmark
      · exact WrittenChange.isCellChar_of_mem_text h

theorem not_mem_text_rectangle (row column lastRow lastColumn : Numeral) (mark : Char) {c : Char}
    (hmark : c ∉ [',', '*', '-', ':']) (hdecimal : isDecimal c = false) :
    c ∉ (rectangle row column lastRow lastColumn).text mark := by
  have hpair : ∀ n m : Numeral, c ∉ n.text ++ ',' :: m.text := fun n m =>
    WrittenLine.not_mem_pair (.number n) (.number m)
      (fun h => hmark (List.mem_append_left [':'] h)) hdecimal
  have hcolon : c ≠ ':' := fun h => hmark (by simp [h])
  rw [text, List.mem_append, List.mem_cons, not_or, not_or]
  exact ⟨hpair row column, hcolon, hpair lastRow lastColumn⟩

theorem text_ne_nil (cells : WrittenCells) (mark : Char) : cells.text mark ≠ [] := by
  cases cells with
  | pair row column => simp [text]
  | address a => exact List.append_ne_nil_of_left_ne_nil a.ne_nil _
  | rectangle row column lastRow lastColumn => simp [text]
  | change axis w => simp [text]

theorem text_ne_star (cells : WrittenCells) (mark : Char) : cells.text mark ≠ ['*'] := by
  have hsingle : ∀ {c : Char} {t : Text}, c ≠ '*' → c ∈ t → t ≠ ['*'] := by
    rintro c t hc hmem rfl
    exact hc (List.mem_singleton.1 hmem)
  cases cells with
  | pair row column => exact hsingle (c := ',') (by decide) (by simp [text])
  | address a =>
    have hstar : '*' ∉ a.text := a.not_mem_text (by decide) (by decide)
    rintro (h : a.text = ['*'])
    exact hstar (h ▸ List.mem_singleton_self '*')
  | rectangle row column lastRow lastColumn =>
    exact hsingle (c := ',') (by decide) (by simp [text])
  | change axis w =>
    cases axis <;> exact hsingle (c := 'o') (by decide) (by simp [text, axisLetters])

end WrittenCells

/-! ## The form with pipes -/

namespace CellRef

theorem number_text (n : Numeral) : number n.text = OptionT.lift n.read := by
  unfold number
  rw [n.read?_text]
  cases n.read <;> rfl

/-- A row or a column is read as a number, or as zero for a star. -/
theorem number_bind_text {α : Type} (l : WrittenLine)
    (next : Int → OptionT (Except TooManyDigits) α) :
    (if l.text == ['*'] then pure 0 >>= next else number l.text >>= next) =
      OptionT.lift l.read >>= next := by
  cases l with
  | every => rfl
  | number n =>
    show (if n.text == ['*'] then pure 0 >>= next else number n.text >>= next) = _
    rw [n.text_beq_star, if_neg Bool.false_ne_true, number_text]
    rfl

theorem readPair_text (table : TableSelector) (row column : WrittenLine) :
    readPair table row.text column.text [] =
      OptionT.lift ((WrittenCells.pair row column).read table) := by
  have hrow : '+' ∉ row.text := row.not_mem_text (by decide) (by decide) (by decide)
  have hcolumn : '+' ∉ column.text := column.not_mem_text (by decide) (by decide) (by decide)
  have hopen : readPair table row.text column.text [] = (do
      let row ← if row.text == ['*'] then pure 0 else number row.text
      let column ← if column.text == ['*'] then pure 0 else number column.text
      return { table, row, column }) := by
    generalize row.text = r at hrow ⊢
    generalize column.text = c at hcolumn ⊢
    unfold readPair
    split
    · exact absurd List.mem_cons_self hrow
    · split
      · exact absurd List.mem_cons_self hcolumn
      · rfl
  rw [hopen, WrittenCells.read]
  dsimp only
  simp only [number_bind_text]
  cases row.read with
  | error e => rfl
  | ok r => cases column.read <;> rfl

theorem readRectangle_text (table : TableSelector) (row column lastRow lastColumn : Numeral) :
    readRectangle table (row.text ++ ',' :: column.text)
        (lastRow.text ++ ',' :: lastColumn.text) [] =
      OptionT.lift ((WrittenCells.rectangle row column lastRow lastColumn).read table) := by
  have hparts : ∀ n m : Numeral, parts ',' (n.text ++ ',' :: m.text) = pure (n.text, m.text) := by
    intro n m
    unfold parts
    rw [Text.cut?_append_cons (n.not_mem_text (by decide) (by decide)) m.text]
    rfl
  unfold readRectangle
  simp only [hparts, pure_bind, List.mapM_cons, List.mapM_nil, Numeral.read?_text]
  rw [WrittenCells.read]
  cases row.read with
  | error e => rfl
  | ok r =>
    cases column.read with
    | error e => rfl
    | ok c =>
      cases lastRow.read with
      | error e => rfl
      | ok r' => cases lastColumn.read <;> rfl

/-- The cells between the brackets are read to the reference that is meant. -/
theorem readCell_text (table : TableSelector) (cells : WrittenCells) :
    readCell table (cells.text ':') [] = OptionT.lift (cells.read table) := by
  cases cells with
  | change axis c =>
    have hopen : readCell table ((WrittenCells.change axis c).text ':') [] = (do
        let change ← OptionT.mk (LineChange.readPiped? c.text)
        return { table, change := some (axis, change) }) := by
      cases axis <;> rfl
    rw [hopen, c.readPiped?_text, WrittenCells.read]
    cases c.read <;> rfl
  | pair row column =>
    have hcolon : ':' ∉ row.text ++ ',' :: column.text :=
      row.not_mem_pair column (by decide) (by decide)
    have hcomma : ',' ∉ row.text := row.not_mem_text (by decide) (by decide) (by decide)
    rw [WrittenCells.text, ← readPair_text]
    unfold readCell
    rw [Text.after?_of_not_mem (by decide : ':' ∈ "row:".toList) hcolon,
      Text.after?_of_not_mem (by decide : ':' ∈ "col:".toList) hcolon,
      Text.cut?_of_not_mem (List.mem_singleton_self ':') hcolon, Text.cut?_append_cons hcomma]
    simp only [WrittenLine.trim_text]
  | address a =>
    have hcolon : ':' ∉ a.text := a.not_mem_text (by decide) (by decide)
    have hcomma : ',' ∉ a.text := a.not_mem_text (by decide) (by decide)
    rw [WrittenCells.text]
    unfold readCell
    rw [Text.after?_of_not_mem (by decide : ':' ∈ "row:".toList) hcolon,
      Text.after?_of_not_mem (by decide : ':' ∈ "col:".toList) hcolon,
      Text.cut?_of_not_mem (List.mem_singleton_self ':') hcolon,
      Text.cut?_of_not_mem (List.mem_singleton_self ',') hcomma, a.readAddress?_text,
      WrittenCells.read]
    cases a.row.read <;> rfl
  | rectangle row column lastRow lastColumn =>
    have hrow := WrittenCells.not_mem_text_rectangle row column lastRow lastColumn ':' (c := 'o')
      (by decide) (by decide)
    have hfirst : ':' ∉ row.text ++ ',' :: column.text :=
      WrittenLine.not_mem_pair (.number row) (.number column) (by decide) (by decide)
    obtain ⟨d, rest, hcons⟩ :=
      List.exists_cons_of_ne_nil (List.append_ne_nil_of_left_ne_nil row.text_ne_nil
        (',' :: column.text))
    unfold readCell
    rw [Text.after?_of_not_mem (by decide : 'o' ∈ "row:".toList) hrow,
      Text.after?_of_not_mem (by decide : 'o' ∈ "col:".toList) hrow, ← readRectangle_text,
      WrittenCells.text, Text.cut?_append_cons hfirst, hcons]

/-- The form with pipes is read to the reference that is meant. -/
theorem readPiped?_inPipes (table : Numeral) (cells : WrittenCells) (htable : table.value ≠ 0) :
    readPiped? (cells.inPipes table) = (cells.readIn table).map some := by
  have hpipe : '|' ∉ table.text := table.not_mem_text (by decide) (by decide)
  have hbracket : ']' ∉ cells.text ':' := by
    intro h
    exact absurd (WrittenCells.isCellChar_of_mem_text (by decide) h) (by decide)
  have hposition : parts '|' (table.text ++ '|' :: '[' :: (cells.text ':' ++ [']'])) =
      pure (table.text, '[' :: (cells.text ':' ++ [']'])) := by
    unfold parts
    rw [Text.cut?_append_cons hpipe]
    rfl
  have hcell : parts ']' (cells.text ':' ++ [']']) = pure (cells.text ':', []) := by
    unfold parts
    rw [Text.cut?_append_cons hbracket]
    rfl
  unfold readPiped? WrittenCells.inPipes WrittenCells.readIn
  simp only [hposition, hcell, pure_bind, number_text, readCell_text]
  by_cases hfits : table.Fits
  · rw [Numeral.read_of_fits hfits]
    show OptionT.run (if table.value == 0 then _ else _) = _
    rw [beq_false_of_ne htable, if_neg Bool.false_ne_true]
    show _ = (cells.read (.position table.value)).map some
    cases cells.read (.position table.value) <;> rfl
  · rw [Numeral.read_of_not_fits hfits]
    rfl

end CellRef

/-! ## The form in braces -/

namespace TableRef

theorem number_text (n : Numeral) (otherwise : Error) :
    number n.text otherwise = Refusal.ofNumber n.read := by
  unfold number
  rw [n.read?_text]
  cases n.read <;> rfl

theorem lineOrStar_text (l : WrittenLine) (otherwise : Error) :
    lineOrStar l.text otherwise = Refusal.ofNumber l.read? := by
  cases l with
  | every => rfl
  | number n =>
    show (if n.text == ['*'] then pure none else some <$> number n.text otherwise) = _
    rw [n.text_beq_star, if_neg Bool.false_ne_true, number_text, WrittenLine.read?]
    cases n.read <;> rfl

theorem readPlace_text (row column : Numeral) :
    readPlace (row.text ++ ',' :: column.text) =
      Refusal.ofNumber (do return ⟨← row.read, ← column.read⟩) := by
  have htrim : Text.trim (row.text ++ ',' :: column.text) = row.text ++ ',' :: column.text :=
    trim_of_isCellChar fun _ => WrittenLine.isCellChar_of_mem_pair (.number row) (.number column)
  have hcomma : ',' ∉ row.text := row.not_mem_text (by decide) (by decide)
  unfold readPlace
  simp only [htrim, Text.cut?_append_cons hcomma, number_text]
  cases row.read with
  | error e => rfl
  | ok r => cases column.read <;> rfl

/-- The cells are not trimmed, and they are neither nothing nor a star alone. -/
theorem readCells_text_start (cells : WrittenCells) :
    Text.trim (cells.text '=') = cells.text '=' ∧ (cells.text '=').isEmpty = false ∧
      (cells.text '=' == ['*']) = false := by
  refine ⟨?_, ?_, ?_⟩
  · exact trim_of_isCellChar fun c hc => WrittenCells.isCellChar_of_mem_text (by decide) hc
  · exact List.isEmpty_eq_false_iff.2 (cells.text_ne_nil '=')
  · exact beq_false_of_ne (cells.text_ne_star '=')

theorem readCells_change (axis : Axis) (c : WrittenChange) :
    readCells ((WrittenCells.change axis c).text '=') = pure (.change axis c.text) := by
  obtain ⟨htrim, hempty, hstar⟩ := readCells_text_start (.change axis c)
  have hchange : readChange axis c.text = pure (.change axis c.text) := by
    unfold readChange
    rw [c.trim_text, if_neg (by simp [c.text_ne_nil])]
  unfold readCells
  simp only [htrim, hempty, hstar]
  cases axis with
  | row => exact hchange
  | column => exact hchange

theorem readCells_pair (row column : WrittenLine) :
    readCells ((WrittenCells.pair row column).text '=') =
      Refusal.ofNumber (do return .pair (← row.read?) (← column.read?)) := by
  obtain ⟨htrim, hempty, hstar⟩ := readCells_text_start (.pair row column)
  have hequals : '=' ∉ (WrittenCells.pair row column).text '=' :=
    row.not_mem_pair column (by decide) (by decide)
  have hcolon : ':' ∉ (WrittenCells.pair row column).text '=' :=
    row.not_mem_pair column (by decide) (by decide)
  have hcomma : ',' ∉ row.text := row.not_mem_text (by decide) (by decide) (by decide)
  unfold readCells
  simp only [htrim, hempty, hstar, Text.cut?_of_not_mem (List.mem_singleton_self ':') hcolon,
    Text.after?_of_not_mem (by decide : '=' ∈ "row=".toList) hequals,
    Text.after?_of_not_mem (by decide : '=' ∈ "col=".toList) hequals]
  rw [WrittenCells.text, Text.cut?_append_cons hcomma]
  simp only [WrittenLine.trim_text, lineOrStar_text]
  cases row.read? with
  | error e => rfl
  | ok r => cases column.read? <;> rfl

theorem readCells_address (a : WrittenAddress) :
    readCells ((WrittenCells.address a).text '=') =
      Refusal.ofNumber (do
        return .address ⟨← a.row.read, Place.columnOf a.letters⟩ a.text) := by
  obtain ⟨htrim, hempty, hstar⟩ := readCells_text_start (.address a)
  have hequals : '=' ∉ (WrittenCells.address a).text '=' :=
    a.not_mem_text (by decide) (by decide)
  have hcolon : ':' ∉ (WrittenCells.address a).text '=' := a.not_mem_text (by decide) (by decide)
  have hcomma : ',' ∉ (WrittenCells.address a).text '=' := a.not_mem_text (by decide) (by decide)
  unfold readCells
  simp only [htrim, hempty, hstar, Text.cut?_of_not_mem (List.mem_singleton_self ':') hcolon,
    Text.cut?_of_not_mem (List.mem_singleton_self ',') hcomma,
    Text.after?_of_not_mem (by decide : '=' ∈ "row=".toList) hequals,
    Text.after?_of_not_mem (by decide : '=' ∈ "col=".toList) hequals]
  rw [WrittenCells.text, a.readAddress?_text]
  cases a.row.read <;> rfl

theorem readCells_rectangle (row column lastRow lastColumn : Numeral) :
    readCells ((WrittenCells.rectangle row column lastRow lastColumn).text '=') =
      Refusal.ofNumber (do
        let first : Place := ⟨← row.read, ← column.read⟩
        let last : Place := ⟨← lastRow.read, ← lastColumn.read⟩
        return .rectangle first last) := by
  obtain ⟨htrim, hempty, hstar⟩ := readCells_text_start (.rectangle row column lastRow lastColumn)
  have hequals := WrittenCells.not_mem_text_rectangle row column lastRow lastColumn '=' (c := '=')
    (by decide) (by decide)
  have hfirst : ':' ∉ row.text ++ ',' :: column.text :=
    WrittenLine.not_mem_pair (.number row) (.number column) (by decide) (by decide)
  unfold readCells
  simp only [htrim, hempty, hstar,
    Text.after?_of_not_mem (by decide : '=' ∈ "row=".toList) hequals,
    Text.after?_of_not_mem (by decide : '=' ∈ "col=".toList) hequals]
  rw [WrittenCells.text, Text.cut?_append_cons hfirst]
  simp only [readPlace_text]
  cases row.read with
  | error e => rfl
  | ok r =>
    cases column.read with
    | error e => rfl
    | ok c =>
      cases lastRow.read with
      | error e => rfl
      | ok r' => cases lastColumn.read <;> rfl

theorem place_beq_zero (row column : Int) :
    ((⟨row, column⟩ : Place) == ⟨0, 0⟩) = (row == 0 && column == 0) := by
  rw [Bool.eq_iff_iff, beq_iff_eq, Place.mk.injEq, Bool.and_eq_true, beq_iff_eq, beq_iff_eq]

theorem target_pair (table : TableSelector) (row column : WrittenLine) :
    (existing table (.pair row.value? column.value?)).target =
      .ok ((WrittenCells.pair row column).target ((WrittenCells.pair row column).ref table)) := by
  have hwhole : (existing table (.pair row.value? column.value?)).isWhole =
      (WrittenCells.pair row column).isZeroPair := by
    cases row with
    | every =>
      cases column with
      | every => rfl
      | number m => exact place_beq_zero 0 m.value
    | number n =>
      cases column with
      | every => exact place_beq_zero n.value 0
      | number m => exact place_beq_zero n.value m.value
  unfold target WrittenCells.target
  rw [hwhole]
  cases (WrittenCells.pair row column).isZeroPair with
  | true => rfl
  | false => cases row <;> cases column <;> rfl

theorem target_address (table : TableSelector) (a : WrittenAddress) :
    (existing table (.address ⟨a.row.value, Place.columnOf a.letters⟩ a.text)).target =
      .ok (.cells ((WrittenCells.address a).ref table)) := by
  have hwhole : (existing table
      (.address ⟨a.row.value, Place.columnOf a.letters⟩ a.text)).isWhole = false := by
    have hrow : (a.row.value == 0) = false := beq_false_of_ne (Int.ne_of_gt a.positive)
    show ((⟨a.row.value, Place.columnOf a.letters⟩ : Place) == ⟨0, 0⟩) = false
    rw [place_beq_zero, hrow, Bool.false_and]
  unfold target
  rw [hwhole]
  rfl

/-- The cells in braces are read to the reference that is meant, or to the whole table. -/
theorem target_readCells_text (table : TableSelector) (cells : WrittenCells) :
    (do (TableRef.existing table (← readCells (cells.text '='))).target) =
      Refusal.ofNumber ((cells.read table).map cells.target) := by
  cases cells with
  | change axis c =>
    rw [readCells_change, pure_bind]
    show Except.bind (Refusal.ofNumber (LineChange.read? c.text)) _ = _
    rw [c.read?_text, WrittenCells.read]
    cases c.read <;> rfl
  | pair row column =>
    rw [readCells_pair, WrittenCells.read]
    rcases row.read_cases with ⟨hrow, hrow?⟩ | ⟨e, hrow, hrow?⟩
    · rcases column.read_cases with ⟨hcolumn, hcolumn?⟩ | ⟨e, hcolumn, hcolumn?⟩
      · rw [hrow, hrow?, hcolumn, hcolumn?]
        exact target_pair table row column
      · rw [hrow, hrow?, hcolumn, hcolumn?]
        rfl
    · rw [hrow, hrow?]
      rfl
  | address a =>
    rw [readCells_address, WrittenCells.read]
    by_cases hfits : a.row.Fits
    · rw [Numeral.read_of_fits hfits]
      exact target_address table a
    · rw [Numeral.read_of_not_fits hfits]
      rfl
  | rectangle row column lastRow lastColumn =>
    rw [readCells_rectangle, WrittenCells.read]
    cases row.read with
    | error e => rfl
    | ok r =>
      cases column.read with
      | error e => rfl
      | ok c =>
        cases lastRow.read with
        | error e => rfl
        | ok r' => cases lastColumn.read <;> rfl

/-- The form in braces is read to the reference that is meant, or to the whole table. -/
theorem target_read_inBraces (table : Numeral) (cells : WrittenCells) (htable : table.value ≠ 0) :
    (read (cells.inBraces table) >>= target) =
      Refusal.ofNumber ((cells.readIn table).map cells.target) := by
  have hmark : '!' ∉ table.text := table.not_mem_text (by decide) (by decide)
  have htrim : Text.trim (cells.inBraces table) = cells.inBraces table := by
    refine Text.trim_of_no_blank fun c hc => ?_
    simp only [WrittenCells.inBraces, List.mem_append, List.mem_cons] at hc
    rcases hc with hc | rfl | hc
    · exact Numeral.isBlank_of_mem_text hc
    · decide
    · exact isBlank_of_isCellChar (WrittenCells.isCellChar_of_mem_text (by decide) hc)
  have hempty : (cells.inBraces table).isEmpty = false := by
    simp [WrittenCells.inBraces]
  have hsize : isSize (cells.inBraces table) = false := by
    simp [isSize, WrittenCells.inBraces]
  have hcut : Text.cut? ['!'] (cells.inBraces table) = some (table.text, cells.text '=') :=
    Text.cut?_append_cons hmark _
  unfold read WrittenCells.readIn
  simp only [htrim, hempty, hsize, hcut, table.text_beq_star, Option.getD_some, number_text]
  by_cases hfits : table.Fits
  · rw [Numeral.read_of_fits hfits]
    show (if table.value = 0 then _ else _) >>= target = _
    rw [if_neg htable]
    simp only [bind_assoc, pure_bind]
    exact target_readCells_text (.position table.value) cells
  · rw [Numeral.read_of_not_fits hfits]
    rfl

end TableRef

/-! ## The two forms together -/

namespace WrittenCells

/-- No number of the reference has more digits than are read. -/
def Fits (table : Numeral) (cells : WrittenCells) : Prop :=
  ∀ n ∈ table :: cells.numerals, n.Fits

instance (table : Numeral) (cells : WrittenCells) : Decidable (cells.Fits table) :=
  inferInstanceAs (Decidable (∀ n ∈ table :: cells.numerals, n.Fits))

end WrittenCells

theorem WrittenCells.table_ref (table : TableSelector) (cells : WrittenCells) :
    (cells.ref table).table = table := by
  cases cells <;> rfl

/-- A reader gives a value when the numbers it reads fit, and refuses otherwise. -/
def Reads {α : Type} (fits : Prop) (reader : Except TooManyDigits α) (a : α) : Prop :=
  (fits ∧ reader = .ok a) ∨ (¬ fits ∧ ∃ e, reader = .error e)

namespace Reads

variable {α β : Type} {p q : Prop} {x : Except TooManyDigits α} {a : α} {b : β}

theorem bind {f : α → Except TooManyDigits β} (hx : Reads p x a) (hf : Reads q (f a) b) :
    Reads (p ∧ q) (x >>= f) b := by
  rcases hx with ⟨hp, rfl⟩ | ⟨hp, e, rfl⟩
  · rcases hf with ⟨hq, hf⟩ | ⟨hq, e, hf⟩
    · exact .inl ⟨⟨hp, hq⟩, hf⟩
    · exact .inr ⟨fun h => hq h.2, e, hf⟩
  · exact .inr ⟨fun h => hp h.1, e, rfl⟩

theorem map (hx : Reads p x a) (f : α → β) : Reads p (x >>= fun a => pure (f a)) (f a) := by
  rcases hx with ⟨hp, rfl⟩ | ⟨hp, e, rfl⟩
  · exact .inl ⟨hp, rfl⟩
  · exact .inr ⟨hp, e, rfl⟩

theorem of_iff (hx : Reads p x a) (h : q ↔ p) : Reads q x a := by
  rwa [Reads, h]

end Reads

theorem Numeral.reads (n : Numeral) : Reads n.Fits n.read n.value := by
  by_cases hfits : n.Fits
  · exact .inl ⟨hfits, read_of_fits hfits⟩
  · exact .inr ⟨hfits, _, read_of_not_fits hfits⟩

theorem WrittenLine.reads (l : WrittenLine) : Reads (∀ n ∈ l.numerals, n.Fits) l.read l.value := by
  cases l with
  | every => exact .inl ⟨nofun, rfl⟩
  | number n => exact n.reads.of_iff List.forall_mem_singleton

theorem WrittenChange.reads (w : WrittenChange) :
    Reads (∀ n ∈ w.numerals, n.Fits) w.read w.change := by
  cases w with
  | append => exact .inl ⟨nofun, rfl⟩
  | insert n => exact (n.reads.map LineChange.insert).of_iff List.forall_mem_singleton
  | delete n => exact (n.reads.map LineChange.delete).of_iff List.forall_mem_singleton

/-- The cells are read to the reference that is meant. -/
theorem WrittenCells.reads (table : TableSelector) (cells : WrittenCells) :
    Reads (∀ n ∈ cells.numerals, n.Fits) (cells.read table) (cells.ref table) := by
  cases cells with
  | pair row column =>
    exact (row.reads.bind (column.reads.map _)).of_iff List.forall_mem_append
  | address a => exact (a.row.reads.map _).of_iff List.forall_mem_singleton
  | rectangle row column lastRow lastColumn =>
    refine Reads.of_iff (row.reads.bind (column.reads.bind (lastRow.reads.bind
      (lastColumn.reads.map _)))) ?_
    simp [numerals]
  | change axis c => exact c.reads.map _

/-- The two forms of a reference to cells give the same reference, unless a number has too many
digits, when both are refused alike, or the cells are a pair of zeros, which is the whole table in
braces. -/
theorem TableRef.target_inBraces_iff_inPipes (table : Numeral) (cells : WrittenCells)
    (htable : table.value ≠ 0) :
    (cells.Fits table →
      CellRef.readPiped? (cells.inPipes table) =
          .ok (some (cells.ref (.position table.value))) ∧
        (TableRef.read (cells.inBraces table) >>= TableRef.target) =
          .ok (if cells.isZeroPair then .tables (.position table.value)
            else .cells (cells.ref (.position table.value)))) ∧
    (¬ cells.Fits table → ∃ e,
      CellRef.readPiped? (cells.inPipes table) = .error e ∧
        (TableRef.read (cells.inBraces table) >>= TableRef.target) =
          .error (.beyond (.digits e))) ∧
    ((∃ ref, CellRef.readPiped? (cells.inPipes table) = .ok (some ref) ∧
        (TableRef.read (cells.inBraces table) >>= TableRef.target) = .ok (.cells ref)) ↔
      cells.Fits table ∧ cells.isZeroPair = false) := by
  have hpipes := CellRef.readPiped?_inPipes table cells htable
  have hbraces := TableRef.target_read_inBraces table cells htable
  have hreads : Reads (cells.Fits table) (cells.readIn table)
      (cells.ref (.position table.value)) :=
    (table.reads.bind (cells.reads _)).of_iff List.forall_mem_cons
  have htarget : cells.target (cells.ref (.position table.value)) =
      if cells.isZeroPair then .tables (.position table.value)
        else .cells (cells.ref (.position table.value)) := by
    rw [WrittenCells.target, cells.table_ref]
  rcases hreads with ⟨hfits, hread⟩ | ⟨hfits, e, hread⟩
  · rw [hread] at hpipes hbraces
    replace hbraces := hbraces.trans (congrArg Except.ok htarget)
    refine ⟨fun _ => ⟨hpipes, hbraces⟩, fun h => absurd hfits h, ?_⟩
    rw [hpipes, hbraces]
    constructor
    · rintro ⟨ref, -, hcells⟩
      refine ⟨hfits, Bool.eq_false_iff.2 fun hzero => ?_⟩
      rw [if_pos hzero] at hcells
      nomatch hcells
    · rintro ⟨-, hzero⟩
      refine ⟨_, rfl, ?_⟩
      rw [hzero]
      rfl
  · rw [hread] at hpipes hbraces
    refine ⟨fun h => absurd h hfits, fun _ => ⟨e, hpipes, hbraces⟩, ?_⟩
    rw [hpipes]
    constructor
    · rintro ⟨ref, href, -⟩
      cases href
    · exact fun h => absurd h.1 hfits

/-- The second row of the last table. -/
theorem TableRef.target_inBraces_iff_inPipes_secondRow :
    (WrittenCells.pair (.number (.ofInt 2)) .every).inBraces (.ofInt (-1)) = "-1!2,*".toList ∧
    (WrittenCells.pair (.number (.ofInt 2)) .every).inPipes (.ofInt (-1)) = "|-1|[2,*]".toList ∧
    (Numeral.ofInt (-1)).value ≠ 0 ∧
    ∃ ref, CellRef.readPiped? "|-1|[2,*]".toList = .ok (some ref) ∧
      (TableRef.read "-1!2,*".toList >>= TableRef.target) = .ok (.cells ref) := by
  have hbraces : (WrittenCells.pair (.number (.ofInt 2)) .every).inBraces (.ofInt (-1)) =
      "-1!2,*".toList := rfl
  have hpipes : (WrittenCells.pair (.number (.ofInt 2)) .every).inPipes (.ofInt (-1)) =
      "|-1|[2,*]".toList := rfl
  have htable : (Numeral.ofInt (-1)).value ≠ 0 := by decide
  have hforms := (TableRef.target_inBraces_iff_inPipes (.ofInt (-1))
    (.pair (.number (.ofInt 2)) .every) htable).2.2
  rw [hbraces, hpipes] at hforms
  exact ⟨hbraces, hpipes, htable, hforms.2 ⟨by decide, by decide⟩⟩

/-- Row zero of the first table is every cell with pipes, and the table itself in braces. -/
theorem TableRef.target_inBraces_rowZero :
    CellRef.readPiped? "|1|[0,*]".toList = .ok (some { table := .position 1 }) ∧
      (TableRef.read "1!0,*".toList >>= TableRef.target) = .ok (.tables (.position 1)) := by
  constructor
  · rfl
  · rfl

end Redline
