import Redline.Proofs.PlainReplacement

/-!
# Numbers as they are written

A numeral is a whole number in writing: a minus or no sign, and one or more decimal digits of any
script.  Reading it gives its value, unless it has more digits than are read.  Every integer has a
numeral, the one that is written in decimal notation.
-/

namespace Redline

theorem exists_mapM_eq_some
    {α β : Type} {f : α → Option β} {xs : List α} (h : ∀ x ∈ xs, (f x).isSome = true) :
    ∃ ys, xs.mapM f = some ys ∧ ys.length = xs.length := by
  induction xs with
  | nil => exact ⟨[], rfl, rfl⟩
  | cons x xs ih =>
    obtain ⟨y, hy⟩ := Option.isSome_iff_exists.1 (h x List.mem_cons_self)
    obtain ⟨ys, hys, hlength⟩ := ih fun x' hx' => h x' (List.mem_cons_of_mem x hx')
    refine ⟨y :: ys, ?_, congrArg Nat.succ hlength⟩
    rw [List.mapM_cons, hy, hys]
    rfl

theorem exists_digitValues? {t : Text} (h : ∀ d ∈ t, isDecimal d = true) :
    ∃ values, Whole.digitValues? t = some values ∧ values.length = t.length :=
  exists_mapM_eq_some h

theorem forall₂_of_mapM_eq_some
    {α β : Type} {f : α → Option β} {xs : List α} {ys : List β} (h : xs.mapM f = some ys) :
    List.Forall₂ (fun x y => f x = some y) xs ys := by
  induction xs generalizing ys with
  | nil =>
    cases h
    exact .nil
  | cons x xs ih =>
    rw [List.mapM_cons] at h
    obtain ⟨y, hy, h⟩ := Option.bind_eq_some_iff.1 h
    obtain ⟨ys', hys, h⟩ := Option.bind_eq_some_iff.1 h
    cases h
    exact .cons hy (ih hys)

theorem Whole.dropUnderscores_of_not_mem {isDigit : Char → Bool} {t : Text} (h : '_' ∉ t) :
    Whole.dropUnderscores isDigit t = some t := by
  fun_induction Whole.dropUnderscores isDigit t with
  | case1 => rfl
  | case2 => simp at h
  | case3 => simp at h
  | case4 => simp at h
  | case5 => simp at h
  | case6 c rest _ _ _ ih => rw [ih fun hrest => h (List.mem_cons_of_mem c hrest), Option.map_some]

/-- A whole number in writing: a minus or no sign, and one or more decimal digits. -/
structure Numeral where
  negative : Bool
  digits : Text
  ne_nil : digits ≠ []
  decimal : ∀ d ∈ digits, isDecimal d = true

namespace Numeral

def text (n : Numeral) : Text :=
  if n.negative then '-' :: n.digits else n.digits

/-- The number that is written. -/
def value (n : Numeral) : Int :=
  Whole.signed n.negative (Whole.value 10 ((Whole.digitValues? n.digits).getD []))

/-- The number has no more digits than are read. -/
def Fits (n : Numeral) : Prop :=
  n.digits.length ≤ TooManyDigits.limit

instance (n : Numeral) : Decidable n.Fits :=
  inferInstanceAs (Decidable (_ ≤ _))

/-- The number, or the number of its digits when there are too many. -/
def read (n : Numeral) : Except TooManyDigits Int :=
  if n.Fits then .ok n.value else .error ⟨n.digits.length⟩

theorem read_of_fits {n : Numeral} (h : n.Fits) : n.read = .ok n.value :=
  if_pos h

theorem read_of_not_fits {n : Numeral} (h : ¬ n.Fits) : n.read = .error ⟨n.digits.length⟩ :=
  if_neg h

theorem mem_text {n : Numeral} {c : Char} (h : c ∈ n.text) : c = '-' ∨ isDecimal c = true := by
  unfold text at h
  split at h
  · exact (List.mem_cons.1 h).imp_right (n.decimal c)
  · exact .inr (n.decimal c h)

theorem not_mem_text (n : Numeral) {c : Char} (hminus : c ≠ '-') (hdecimal : isDecimal c = false) :
    c ∉ n.text := by
  intro h
  rcases mem_text h with h | h
  · exact hminus h
  · rw [h] at hdecimal
    cases hdecimal

theorem text_ne_nil (n : Numeral) : n.text ≠ [] := by
  unfold text
  split
  · exact List.cons_ne_nil _ _
  · exact n.ne_nil

/-- No number is a star. -/
theorem text_beq_star (n : Numeral) : (n.text == ['*']) = false := by
  have hstar : '*' ∉ n.text := n.not_mem_text (by decide) (by decide)
  refine beq_false_of_ne fun h => ?_
  exact hstar (h ▸ List.mem_singleton_self '*')

theorem isBlank_of_mem_text {n : Numeral} {c : Char} (h : c ∈ n.text) : isBlank c = false := by
  rcases mem_text h with rfl | h
  · decide
  · exact isBlank_eq_false_of_isDecimal h

theorem trim_text (n : Numeral) : Text.trim n.text = n.text :=
  Text.trim_of_no_blank fun _ => isBlank_of_mem_text

theorem splitSign_text (n : Numeral) : Whole.splitSign n.text = (n.negative, n.digits) := by
  unfold text
  cases n.negative with
  | true => rfl
  | false =>
    obtain ⟨d, rest, hdigits⟩ := List.exists_cons_of_ne_nil n.ne_nil
    have hd := n.decimal d (hdigits ▸ List.mem_cons_self)
    rw [if_neg Bool.false_ne_true, hdigits]
    unfold Whole.splitSign
    split
    · next heq => exact absurd (List.cons.inj heq).1 (Template.ne_of_isDecimal hd (by decide))
    · next heq => exact absurd (List.cons.inj heq).1 (Template.ne_of_isDecimal hd (by decide))
    · rfl

theorem exists_ofDigits (n : Numeral) :
    ∃ v vs, Whole.digitValues? n.digits = some (v :: vs) ∧
      (Whole.ofDigits (v :: vs)).map (Whole.signed n.negative) = n.read := by
  obtain ⟨values, hvalues, hlength⟩ := exists_digitValues? n.decimal
  have hne : values ≠ [] := by
    rintro rfl
    exact n.ne_nil (List.length_eq_zero_iff.1 hlength.symm)
  obtain ⟨v, vs, rfl⟩ := List.exists_cons_of_ne_nil hne
  refine ⟨v, vs, hvalues, ?_⟩
  unfold Whole.ofDigits
  by_cases hfits : n.Fits
  · rw [read_of_fits hfits, if_neg (by rw [hlength]; exact Nat.not_lt.2 hfits), value, hvalues]
    rfl
  · rw [read_of_not_fits hfits, if_pos (by rw [hlength]; exact Nat.lt_of_not_le hfits), hlength]
    rfl

/-- Reading a numeral gives its value, unless there are too many digits. -/
theorem read?_text (n : Numeral) : Whole.read? n.text = n.read.map some := by
  obtain ⟨v, vs, hvalues, hread⟩ := n.exists_ofDigits
  unfold Whole.read?
  rw [n.trim_text, n.splitSign_text]
  simp only [hvalues]
  rw [← hread]
  cases Whole.ofDigits (v :: vs) with
  | ok k => rfl
  | error e => rfl

theorem isPadding_of_mem_text {n : Numeral} {c : Char} (h : c ∈ n.text) :
    Whole.isPadding c = false := by
  rw [Whole.isPadding, isBlank_of_mem_text h, Bool.false_and]

/-- A numeral is read in the lenient grammar too, up to the number of its digits. -/
theorem readLenient?_text (n : Numeral) : Whole.readLenient? n.text = n.read.toOption := by
  obtain ⟨v, vs, hvalues, hread⟩ := n.exists_ofDigits
  have hunderscores : Whole.dropUnderscores isDecimal n.digits = some n.digits :=
    Whole.dropUnderscores_of_not_mem fun h => by
      have hdecimal := n.decimal '_' h
      revert hdecimal
      decide
  unfold Whole.readLenient?
  rw [Text.trimWhere_of_forall_not fun _ => isPadding_of_mem_text, n.splitSign_text]
  simp only [hunderscores, Option.bind_some, hvalues]
  rw [← hread]
  cases Whole.ofDigits (v :: vs) with
  | ok k => rfl
  | error e => rfl

/-! ## Numerals of integers -/

theorem digitValue?_of_isDigit {c : Char} (h : c.isDigit = true) :
    digitValue? c = some (c.toNat - '0'.toNat) := by
  have hrange : c.toNat ∈ List.range' 48 10 := by
    simp only [Char.isDigit, Bool.and_eq_true, decide_eq_true_eq] at h
    rw [List.mem_range'_1]
    exact ⟨h.1, Nat.lt_succ_of_le h.2⟩
  have hdigits : ∀ n ∈ List.range' 48 10, digitValueIn digitZeros n = some (n - 48) := by
    decide
  exact hdigits _ hrange

theorem digitValues?_of_isDigit {t : Text} (h : ∀ c ∈ t, c.isDigit = true) :
    Whole.digitValues? t = some (t.map fun c => c.toNat - '0'.toNat) := by
  induction t with
  | nil => rfl
  | cons c rest ih =>
    have hrest := ih fun d hd => h d (List.mem_cons_of_mem c hd)
    rw [Whole.digitValues?] at hrest ⊢
    rw [List.mapM_cons, digitValue?_of_isDigit (h c List.mem_cons_self), hrest]
    rfl

theorem isDigit_of_mem_toDigits {k : Nat} {c : Char} (h : c ∈ Nat.toDigits 10 k) :
    c.isDigit = true :=
  Nat.isDigit_of_mem_toDigits (by decide) (by decide) h

theorem value_toDigits (k : Nat) :
    Whole.value 10 ((Whole.digitValues? (Nat.toDigits 10 k)).getD []) = k := by
  rw [digitValues?_of_isDigit fun _ => isDigit_of_mem_toDigits, Option.getD_some, Whole.value,
    List.foldl_map]
  simp only [Nat.mul_comm _ 10]
  rw [← Nat.ofDigitChars_eq_foldl, Nat.ofDigitChars_ten_toDigits]

/-- The numeral of a natural number, with a minus in front of it or not. -/
def ofNat (negative : Bool) (k : Nat) : Numeral where
  negative
  digits := Nat.toDigits 10 k
  ne_nil := Nat.toDigits_ne_nil
  decimal d hd := by
    rw [isDecimal, digitValue?_of_isDigit (isDigit_of_mem_toDigits hd)]
    rfl

/-- The numeral of an integer in decimal notation. -/
def ofInt : Int → Numeral
  | .ofNat k => ofNat false k
  | .negSucc k => ofNat true (k + 1)

theorem text_ofInt (i : Int) : (ofInt i).text = Text.ofInt i := by
  cases i with
  | ofNat k => rfl
  | negSucc k => rfl

theorem value_ofInt (i : Int) : (ofInt i).value = i := by
  cases i with
  | ofNat k => exact congrArg Int.ofNat (value_toDigits k)
  | negSucc k => exact congrArg (fun n : Nat => -(n : Int)) (value_toDigits (k + 1))

end Numeral

/-! ## Texts that are read as numbers -/

theorem digitValueIn_lt {zeros : List Nat} {n v : Nat} (h : digitValueIn zeros n = some v) :
    v < 10 := by
  induction zeros with
  | nil => cases h
  | cons z zeros ih =>
    rw [digitValueIn] at h
    split at h
    · cases h
    · split at h
      · cases h
        omega
      · exact ih h

namespace Whole

theorem forall₂_of_digitValues? {t : Text} {values : List Nat} (h : digitValues? t = some values) :
    List.Forall₂ (fun c v => digitValue? c = some v) t values :=
  forall₂_of_mapM_eq_some h

theorem foldl_lt {values : List Nat} (h : ∀ v ∈ values, v < 10) (start : Nat) :
    values.foldl (fun acc d => acc * 10 + d) start < (start + 1) * Nat.pow 10 values.length := by
  induction values generalizing start with
  | nil =>
    have hone : Nat.pow 10 0 = 1 := rfl
    rw [List.foldl_nil, List.length_nil, hone, Nat.mul_one]
    exact Nat.lt_succ_self start
  | cons v rest ih =>
    have hv := h v List.mem_cons_self
    have hpower : Nat.pow 10 (rest.length + 1) = Nat.pow 10 rest.length * 10 := rfl
    calc
      _ < (start * 10 + v + 1) * Nat.pow 10 rest.length :=
        ih (fun w hw => h w (List.mem_cons_of_mem v hw)) (start * 10 + v)
      _ ≤ ((start + 1) * 10) * Nat.pow 10 rest.length := Nat.mul_le_mul_right _ (by omega)
      _ = (start + 1) * Nat.pow 10 (v :: rest).length := by
        rw [List.length_cons, hpower, Nat.mul_comm (Nat.pow 10 rest.length), Nat.mul_assoc]

theorem splitSign_cases (t : Text) :
    t = (if (splitSign t).1 then '-' :: (splitSign t).2 else (splitSign t).2) ∨
      t = '+' :: (splitSign t).2 ∧ (splitSign t).1 = false := by
  unfold splitSign
  split
  · exact .inr ⟨rfl, rfl⟩
  · exact .inl rfl
  · exact .inl rfl

end Whole

namespace Numeral

theorem natAbs_value_lt (n : Numeral) : n.value.natAbs < Nat.pow 10 n.digits.length := by
  obtain ⟨values, hvalues, hlength⟩ := exists_digitValues? n.decimal
  have hdigits : ∀ v ∈ values, v < 10 := by
    intro v hv
    obtain ⟨c, -, hc⟩ := exists_of_mem_forall₂ (Whole.forall₂_of_digitValues? hvalues) hv
    exact digitValueIn_lt hc
  have hlt := Whole.foldl_lt hdigits 0
  rw [Nat.one_mul, hlength] at hlt
  rw [value, hvalues]
  unfold Whole.signed
  split
  · rw [Int.natAbs_neg]
    exact hlt
  · exact hlt

/-- The decimal notation of a number has no more digits than any way to write it. -/
theorem length_digits_ofInt_le (n : Numeral) : (ofInt n.value).digits.length ≤ n.digits.length := by
  have hpos : 0 < n.digits.length := List.length_pos_iff.2 n.ne_nil
  have hdigits : (ofInt n.value).digits = Nat.toDigits 10 n.value.natAbs := by
    cases n.value with
    | ofNat k => rfl
    | negSucc k => rfl
  rw [hdigits]
  exact (Nat.length_toDigits_le_iff (by decide) hpos).2 n.natAbs_value_lt

end Numeral

/-- A text that is read as a number is a numeral, with blanks around it and maybe a plus. -/
theorem Whole.exists_numeral_of_read? {t : Text} {i : Int} (h : read? t = .ok (some i)) :
    ∃ n : Numeral, n.Fits ∧ n.value = i ∧ (Text.trim t = n.text ∨ Text.trim t = '+' :: n.text) := by
  unfold read? at h
  dsimp only at h
  split at h
  · next d ds hvalues =>
    obtain ⟨k, hk, h⟩ := exists_of_bind_eq_ok h
    have hdigits := forall₂_of_digitValues? hvalues
    have hdecimal : ∀ c ∈ (splitSign (Text.trim t)).2, isDecimal c = true := by
      intro c hc
      obtain ⟨v, -, hv⟩ := exists_of_mem_forall₂ hdigits.flip hc
      rw [isDecimal, hv]
      rfl
    have hne : (splitSign (Text.trim t)).2 ≠ [] := by
      intro hnil
      rw [hnil] at hdigits
      cases hdigits
    unfold ofDigits at hk
    split at hk
    · cases hk
    · next hlength =>
      cases hk
      cases h
      refine ⟨⟨(splitSign (Text.trim t)).1, _, hne, hdecimal⟩, ?_, ?_, ?_⟩
      · rw [Numeral.Fits, hdigits.length_eq]
        exact Nat.le_of_not_lt hlength
      · rw [Numeral.value, hvalues]
        rfl
      · rcases splitSign_cases (Text.trim t) with hsign | ⟨hsign, hplus⟩
        · exact .inl hsign
        · refine .inr (hsign.trans (congrArg ('+' :: ·) ?_))
          simp only [Numeral.text, hplus, Bool.false_eq_true, if_false]
  · cases h

end Redline
