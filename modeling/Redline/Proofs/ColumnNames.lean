import Mathlib.Data.List.Induction
import Redline.Proofs.TableForms

/-!
# Columns in letters

The columns of a table are named in base twenty-six with the digits `A` to `Z` and no zero: after
`Z` comes `AA`, and after `AZ` comes `BA`.  The name of a column, in any mix of upper and lower case
and with a row behind it, is an address of that column.  Every word of letters is the name of one
column, and words that are not the same in upper case name different columns.
-/

namespace Redline

namespace Place

/-- The letter of a number from one to twenty-six. -/
def letter (value : Nat) : Char :=
  Char.ofNat (64 + value)

/-- The name of a column: the column before it, taken apart into twenty-sixes and a rest. -/
def columnName : Nat → Text
  | 0 => []
  | n + 1 => columnName (n / 26) ++ [letter (n % 26 + 1)]
decreasing_by exact Nat.lt_succ_of_le (Nat.div_le_self n 26)

/-- Letters that are the name of a column, in any mix of cases. -/
structure Names (letters : Text) (column : Nat) : Prop where
  isLetter : ∀ c ∈ letters, isLetter c = true
  upper_eq : upper letters = columnName column

/-! ## Letters and their values -/

theorem letter_digit {value : Nat} (hpos : 1 ≤ value) (hle : value ≤ 26) :
    isLetter (letter value) = true ∧ letterValue (letter value) = value ∧
      upperChar (letter value) = [letter value] := by
  have hletters : (List.range' 1 26).all (fun v => isLetter (letter v) &&
      letterValue (letter v) == v && upperChar (letter v) == [letter v]) = true := by
    decide
  have hmem : value ∈ List.range' 1 26 := by
    rw [List.mem_range'_1]
    omega
  have h := List.all_eq_true.1 hletters value hmem
  simp only [Bool.and_eq_true, beq_iff_eq] at h
  exact ⟨h.1.1, h.1.2, h.2⟩

theorem letterValue_of_isLetter {c : Char} (h : isLetter c = true) :
    1 ≤ letterValue c ∧ letterValue c ≤ 26 ∧ upperChar c = [letter (letterValue c)] := by
  have hletters : (List.range' 97 26 ++ List.range' 65 26).all (fun n =>
      1 ≤ letterValue (Char.ofNat n) && letterValue (Char.ofNat n) ≤ 26 &&
        upperChar (Char.ofNat n) == [letter (letterValue (Char.ofNat n))]) = true := by
    decide
  have h := List.all_eq_true.1 hletters _ (toNat_mem_of_isLetter h)
  rw [Char.ofNat_toNat] at h
  simp only [Bool.and_eq_true, decide_eq_true_eq, beq_iff_eq] at h
  exact ⟨h.1.1, h.1.2, h.2⟩

/-! ## Names and numbers of columns -/

theorem columnOf_concat (front : Text) (c : Char) :
    columnOf (front ++ [c]) = columnOf front * 26 + letterValue c :=
  List.foldl_concat ..

theorem columnOf_columnName (n : Nat) : columnOf (columnName n) = n := by
  fun_induction columnName n with
  | case1 => rfl
  | case2 n ih =>
    have hdigit := letter_digit (Nat.le_add_left 1 (n % 26)) (Nat.mod_lt n (by decide))
    rw [columnOf_concat, ih, hdigit.2.1]
    omega

theorem isLetter_of_mem_columnName {n : Nat} : ∀ c ∈ columnName n, isLetter c = true := by
  fun_induction columnName n with
  | case1 => exact fun _ hc => absurd hc List.not_mem_nil
  | case2 n ih =>
    have hdigit := letter_digit (Nat.le_add_left 1 (n % 26)) (Nat.mod_lt n (by decide))
    intro c hc
    rcases List.mem_append.1 hc with hc | hc
    · exact ih c hc
    · rw [List.mem_singleton.1 hc]
      exact hdigit.1

theorem columnName_add {value : Nat} (hpos : 1 ≤ value) (hle : value ≤ 26) (n : Nat) :
    columnName (n * 26 + value) = columnName n ++ [letter value] := by
  obtain ⟨v, rfl⟩ := Nat.exists_eq_add_of_le' hpos
  have hdiv : (n * 26 + v) / 26 = n := by omega
  have hmod : (n * 26 + v) % 26 = v := by omega
  rw [← Nat.add_assoc, columnName, hdiv, hmod]

/-- Letters in upper case are the name of their column. -/
theorem columnName_columnOf {letters : Text} (h : ∀ c ∈ letters, isLetter c = true) :
    columnName (columnOf letters) = upper letters := by
  induction letters using List.reverseRecOn with
  | nil => rw [columnOf, List.foldl_nil, columnName]; rfl
  | append_singleton front c ih =>
    obtain ⟨hpos, hle, hupper⟩ := letterValue_of_isLetter (h c (by simp))
    have hfront := ih fun d hd => h d (List.mem_append_left [c] hd)
    rw [columnOf_concat, columnName_add hpos hle, hfront, upper, upper, List.flatMap_append,
      List.flatMap_singleton, hupper]

theorem names_iff {letters : Text} {column : Nat} :
    Names letters column ↔
      (∀ c ∈ letters, isLetter c = true) ∧ columnOf letters = column := by
  constructor
  · rintro ⟨hletters, hupper⟩
    rw [← columnName_columnOf hletters] at hupper
    have hcolumn := congrArg columnOf hupper
    rw [columnOf_columnName, columnOf_columnName] at hcolumn
    exact ⟨hletters, hcolumn⟩
  · rintro ⟨hletters, rfl⟩
    exact ⟨hletters, (columnName_columnOf hletters).symm⟩

theorem names_columnName (n : Nat) : Names (columnName n) n :=
  names_iff.2 ⟨isLetter_of_mem_columnName, columnOf_columnName n⟩

/-! ## Addresses -/

/-- The number of a row that can be read. -/
structure IsRow (row : Nat) : Prop where
  pos : 1 ≤ row
  fits : (Text.ofInt row).length ≤ TooManyDigits.limit

theorem readAddress?_append {letters : Text} (hne : letters ≠ [])
    (hletters : ∀ c ∈ letters, isLetter c = true) {row : Nat} (hrow : IsRow row) :
    readAddress? (letters ++ Text.ofInt row) = .ok (some ⟨row, columnOf letters⟩) := by
  have hvalue : (Numeral.ofInt row).value = row := Numeral.value_ofInt row
  let address : WrittenAddress :=
    { letters, row := Numeral.ofInt row, ne_nil := hne, isLetter := hletters, unsigned := rfl
      positive := by rw [hvalue]; exact Int.natCast_pos.2 hrow.pos }
  have hfits : address.row.Fits := hrow.fits
  have hread := address.readAddress?_text
  rw [WrittenAddress.text, Numeral.text_ofInt, Numeral.read_of_fits hfits, hvalue] at hread
  exact hread

/-- Addresses and places correspond: the name of a column with a row behind it is read as that
place, every column has a name, and every word of letters is the name of just one column.  Two words
are read as the same column exactly when they are the same in upper case. -/
theorem addresses_name_places :
    (∀ (letters : Text) (column row : Nat), 1 ≤ column → IsRow row → Names letters column →
        readAddress? (letters ++ Text.ofInt row) = .ok (some ⟨row, column⟩)) ∧
      (∀ (a b : Text) (row row' : Nat), a ≠ [] → b ≠ [] → (∀ c ∈ a ++ b, isLetter c = true) →
        IsRow row → IsRow row' →
          ∃ place place', readAddress? (a ++ Text.ofInt row) = .ok (some place) ∧
            readAddress? (b ++ Text.ofInt row') = .ok (some place') ∧
            (place.column = place'.column ↔ upper a = upper b)) ∧
      (∀ column, Names (columnName column) column) ∧
      ∀ letters : Text, (∀ c ∈ letters, isLetter c = true) → ∃! column, Names letters column := by
  refine ⟨?_, ?_, names_columnName, ?_⟩
  · intro letters column row hcolumn hrow hnames
    obtain ⟨hletters, hcolumnOf⟩ := names_iff.1 hnames
    have hne : letters ≠ [] := by
      rintro rfl
      rw [← hcolumnOf] at hcolumn
      exact absurd hcolumn (by decide)
    rw [readAddress?_append hne hletters hrow, hcolumnOf]
  · intro a b row row' ha hb hletters hrow hrow'
    obtain ⟨hlettersA, hlettersB⟩ := List.forall_mem_append.1 hletters
    refine ⟨_, _, readAddress?_append ha hlettersA hrow, readAddress?_append hb hlettersB hrow', ?_⟩
    rw [← columnName_columnOf hlettersA, ← columnName_columnOf hlettersB]
    constructor
    · intro hcolumn
      rw [Int.natCast_inj.1 hcolumn]
    · intro hname
      have hcolumn := congrArg columnOf hname
      rw [columnOf_columnName, columnOf_columnName] at hcolumn
      rw [hcolumn]
  · intro letters hletters
    refine ⟨columnOf letters, names_iff.2 ⟨hletters, rfl⟩, ?_⟩
    intro column hnames
    exact (names_iff.1 hnames).2.symm

/-- The name of a column in two cases, and the last column of two letters beside the first one of
three. -/
theorem addresses_name_places_mixed :
    Names "aB".toList 28 ∧ IsRow 10 ∧ readAddress? "aB10".toList = .ok (some ⟨10, 28⟩) ∧
      ∃ place place', readAddress? "zz10".toList = .ok (some place) ∧
        readAddress? "AAA10".toList = .ok (some place') ∧ place.column ≠ place'.column := by
  have hnames : Names "aB".toList 28 :=
    names_iff.2 ⟨List.all_iff_forall_prop.1 (by decide), by decide⟩
  have hrow : IsRow 10 := ⟨by decide, by decide⟩
  obtain ⟨hread, hapart, -, -⟩ := addresses_name_places
  obtain ⟨place, place', hplace, hplace', hcolumn⟩ :=
    hapart "zz".toList "AAA".toList 10 10 (by decide) (by decide)
      (List.all_iff_forall_prop.1 (by decide)) hrow hrow
  refine ⟨hnames, hrow, hread _ 28 10 (by decide) hrow hnames, place, place', hplace, hplace', ?_⟩
  intro hsame
  exact absurd (hcolumn.1 hsame) (by decide)

end Place

end Redline
