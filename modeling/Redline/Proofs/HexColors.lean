import Redline.Style.Color
import Redline.Proofs.Hexadecimal

/-!
# Colours in writing

A colour is written as three or six digits of the basic alphabet, with an optional hash in front.
Reading takes all of these, and the share of each channel is the number of its two digits over 255.
It also takes every other number in base sixteen that fills six characters: one with a sign, a mark,
an underscore, blanks or digits of another script.  Capital letters leave what is read as it is, but
for one ligature: it is no digit, and its capitals are two.
-/

namespace Redline

open Whole (role SameRoles)

/-! ## Roles in upper case -/

theorem shiftCase_cases (runs : List CaseRun) (n : Nat) :
    shiftCase runs n = n ∨
      ∃ run ∈ runs, run.covers n = true ∧ shiftCase runs n = ((n : Int) + run.shift).toNat := by
  induction runs with
  | nil => exact .inl rfl
  | cons run runs ih =>
    rw [shiftCase]
    split
    · next hcovers => exact .inr ⟨run, List.mem_cons_self, hcovers, rfl⟩
    · rcases ih with h | ⟨other, hmem, h⟩
      · exact .inl h
      · exact .inr ⟨other, List.mem_cons_of_mem run hmem, h⟩

theorem CaseRun.bounds_of_covers {run : CaseRun} {n : Nat} (h : run.covers n = true) :
    run.first ≤ n ∧ n ≤ run.last := by
  simp only [CaseRun.covers, Bool.and_eq_true, decide_eq_true_eq] at h
  exact h.1

/-- No character of a number has its code point between these two. -/
def Whole.isFree (first last : Nat) : Bool :=
  Whole.numberRanges.all fun range => last.blt range.1 || range.2.blt first

theorem Whole.role_of_isFree
    {first last n : Nat} (h : isFree first last = true) (hfirst : first ≤ n) (hlast : n ≤ last) :
    role (Char.ofNat n) = .idle := by
  by_contra hne
  obtain ⟨range, hmem, hlo, hhi⟩ := exists_numberRange hne
  have hpos : ∀ range ∈ numberRanges, 0 < range.1 := by decide
  have hrange := List.all_eq_true.1 h range hmem
  simp only [Bool.or_eq_true, Nat.blt_eq] at hrange
  have hzero := hpos range hmem
  -- A number that is no code point stands for the null character, which is in no number either.
  have hcode : (Char.ofNat n).toNat = n ∨ (Char.ofNat n).toNat = 0 := by
    by_cases hvalid : n.isValidChar
    · exact .inl (congrArg Char.toNat (dif_pos hvalid))
    · exact .inr (congrArg Char.toNat (dif_neg hvalid))
  omega

/-- The ligature of two letters f. -/
def ligature : Char :=
  '\ufb00'

theorem role_of_mem_longUpper
    {n : Nat} {out : List Nat} (hmem : (n, out) ∈ longUpper) (hne : n ≠ 0xFB00) :
    role (Char.ofNat n) = .idle ∧ ∃ d ∈ out.map Char.ofNat, role d = .idle := by
  have hfree : longUpper.all (fun entry => entry.1 == 0xFB00 ||
      (Whole.isFree entry.1 entry.1 && entry.2.any fun m => Whole.isFree m m)) = true := by
    decide +kernel
  have hentry := List.all_eq_true.1 hfree _ hmem
  simp only [Bool.or_eq_true, Bool.and_eq_true, beq_iff_eq, List.any_eq_true] at hentry
  obtain ⟨hn, m, hm, hfree'⟩ := hentry.resolve_left hne
  exact ⟨Whole.role_of_isFree hn (Nat.le_refl n) (Nat.le_refl n), Char.ofNat m,
    List.mem_map_of_mem hm, Whole.role_of_isFree hfree' (Nat.le_refl m) (Nat.le_refl m)⟩

theorem role_of_mem_upperRuns
    {run : CaseRun} (hmem : run ∈ upperRuns) {n : Nat} (hcovers : run.covers n = true)
    (hn : 128 ≤ n) :
    role (Char.ofNat n) = .idle ∧ role (Char.ofNat ((n : Int) + run.shift).toNat) = .idle := by
  have hfree : upperRuns.all (fun run => run.last.blt 128 ||
      (Whole.isFree run.first run.last &&
        Whole.isFree ((run.first : Int) + run.shift).toNat ((run.last : Int) + run.shift).toNat)) =
      true := by
    decide +kernel
  obtain ⟨hfirst, hlast⟩ := CaseRun.bounds_of_covers hcovers
  have hrun := List.all_eq_true.1 hfree run hmem
  simp only [Bool.or_eq_true, Bool.and_eq_true, Nat.blt_eq] at hrun
  obtain ⟨hsource, himage⟩ := hrun.resolve_left (by omega)
  exact ⟨Whole.role_of_isFree hsource hfirst hlast,
    Whole.role_of_isFree himage (by omega) (by omega)⟩

theorem upperChar_basic {c : Char} (h : c.toNat < 128) :
    ∃ d, upperChar c = [d] ∧ role d = role c := by
  have hletters : (List.range' 97 26).all
      (fun n => role (Char.ofNat (n - 32)) == role (Char.ofNat n)) = true := by decide +kernel
  refine ⟨_, if_pos h, ?_⟩
  split
  · next hletter =>
    have hmem : c.toNat ∈ List.range' 97 26 := by
      simp only [Bool.and_eq_true, decide_eq_true_eq] at hletter
      rw [List.mem_range'_1]
      omega
    have hrole := eq_of_beq (List.all_eq_true.1 hletters _ hmem)
    rwa [Char.ofNat_toNat] at hrole
  · rw [Char.ofNat_toNat]

/-- Upper case keeps the role of a character, or the character stands in no number and neither does
some character of its upper case. -/
theorem upperChar_cases {c : Char} (h : c ≠ ligature) :
    (∃ d, upperChar c = [d] ∧ role d = role c) ∨
      role c = .idle ∧ ∃ d ∈ upperChar c, role d = .idle := by
  by_cases hbasic : c.toNat < 128
  · exact .inl (upperChar_basic hbasic)
  -- Beyond the basic alphabet, no character that has an upper case of its own stands in a number.
  unfold upperChar
  dsimp only
  rw [if_neg hbasic]
  split
  · next n out hfind =>
    have hcode := List.find?_some hfind
    rw [beq_iff_eq] at hcode
    subst hcode
    have hne : c.toNat ≠ 0xFB00 := fun hcode => h (by rw [← Char.ofNat_toNat c, hcode]; rfl)
    have hrole := role_of_mem_longUpper (List.mem_of_find?_eq_some hfind) hne
    rw [Char.ofNat_toNat] at hrole
    exact .inr hrole
  · rcases shiftCase_cases upperRuns c.toNat with hshift | ⟨run, hmem, hcovers, hshift⟩
    · rw [hshift, Char.ofNat_toNat]
      exact .inl ⟨c, rfl, rfl⟩
    · have hrole := role_of_mem_upperRuns hmem hcovers (Nat.not_lt.1 hbasic)
      rw [Char.ofNat_toNat, ← hshift] at hrole
      exact .inr ⟨hrole.1, _, List.mem_singleton_self _, hrole.2⟩

theorem upper_cases {t : Text} (h : ligature ∉ t) :
    SameRoles t (upper t) ∨
      (∃ c ∈ t, role c = .idle) ∧ ∃ d ∈ upper t, role d = .idle := by
  induction t with
  | nil => exact .inl rfl
  | cons c t ih =>
    simp only [List.mem_cons, not_or] at h
    have hupper : upper (c :: t) = upperChar c ++ upper t := rfl
    rw [hupper]
    rcases upperChar_cases (Ne.symm h.1) with ⟨d, hd, hrole⟩ | ⟨hidle, d, hd, hdidle⟩
    · rw [hd, List.singleton_append]
      rcases ih h.2 with hsame | ⟨⟨e, he, heidle⟩, e', he', heidle'⟩
      · exact .inl (congrArg₂ List.cons hrole.symm hsame)
      · exact .inr ⟨⟨e, List.mem_cons_of_mem c he, heidle⟩, e', List.mem_cons_of_mem d he', heidle'⟩
    · exact .inr ⟨⟨c, List.mem_cons_self, hidle⟩, d, List.mem_append_left _ hd, hdidle⟩

/-! ## Digits of a colour -/

namespace Color

/-- The text without a hash in front. -/
def dropHash (t : Text) : Text :=
  if t.head? = some '#' then t.tail else t

/-- Three characters stand for six, each of them twice. -/
def doubled (t : Text) : Text :=
  if t.length = 3 then t.flatMap fun c => [c, c] else t

/-- The characters that are read as the digits of a colour. -/
def fullDigits (v : Text) : Text :=
  doubled (dropHash v)

/-- Three or six digits of the basic alphabet, with an optional hash in front. -/
def IsPlain (v : Text) : Prop :=
  ((dropHash v).length = 3 ∨ (dropHash v).length = 6) ∧ ∀ c ∈ dropHash v, isHexDigit c = true

/-- A number of six characters in base sixteen, not all of them digits of the basic alphabet. -/
def IsLoose (v : Text) : Prop :=
  (fullDigits v).length = 6 ∧ (∃ n : HexNumeral, n.text = fullDigits v) ∧
    ∃ c ∈ fullDigits v, isHexDigit c = false

/-- The colour of a number. -/
def ofNumber (n : Int) : Color :=
  .rgb (channel n 65536) (channel n 256) (channel n 1)

theorem read?_eq (v : Text) :
    read? v =
      if (fullDigits v).length ≠ 6 then none else (Whole.readHex? (fullDigits v)).map ofNumber := by
  rw [fullDigits, dropHash]
  split
  · next h =>
    obtain ⟨rest, rfl⟩ := List.head?_eq_some_iff.1 h
    rfl
  · next h =>
    have hne : ∀ rest, v = '#' :: rest → False := by
      rintro rest rfl
      exact h rfl
    simp only [read?, doubled]
    rfl

theorem mem_doubled {c : Char} {t : Text} : c ∈ doubled t ↔ c ∈ t := by
  unfold doubled
  split
  · simp
  · rfl

theorem length_doubled_eq_six {t : Text} :
    (doubled t).length = 6 ↔ t.length = 3 ∨ t.length = 6 := by
  unfold doubled
  split
  · next h => simp [List.length_flatMap, h]
  · next h => simp [h]

theorem doubled_doubled (t : Text) : doubled (doubled t) = doubled t := by
  have hne : (doubled t).length ≠ 3 := by
    unfold doubled
    split
    · next h => simp [List.length_flatMap, h]
    · next h => exact h
  exact if_neg hne

theorem sameRoles_doubled {t u : Text} (h : SameRoles t u) : SameRoles (doubled t) (doubled u) := by
  have htwice (t : Text) : (t.flatMap fun c => [c, c]).map role =
      (t.map role).flatMap fun r => [r, r] := by
    simp [List.map_flatMap, List.flatMap_map]
  unfold doubled
  rw [h.length_eq]
  split
  · rw [SameRoles, htwice, htwice, h]
  · exact h

theorem isHex_of_isHexDigit {c : Char} (h : isHexDigit c = true) : Whole.isHex c = true := by
  unfold Whole.isHex Whole.hexValue?
  split
  · rfl
  · split
    · rfl
    · have hdigit : c.isDigit = true := by
        simp only [isHexDigit, Bool.or_eq_true, Bool.and_eq_true, decide_eq_true_eq] at h
        rcases h with (h | h) | h
        · simp only [Char.isDigit, Bool.and_eq_true, decide_eq_true_eq]
          exact h
        · contradiction
        · contradiction
      rw [Numeral.digitValue?_of_isDigit hdigit]
      rfl

theorem isSome_read?_iff_exists {v : Text} :
    (read? v).isSome = true ↔
      (fullDigits v).length = 6 ∧ ∃ n : HexNumeral, n.text = fullDigits v := by
  rw [read?_eq]
  split
  · next hlength => exact ⟨fun h => absurd h Bool.false_ne_true, fun h => absurd h.1 hlength⟩
  · next hlength =>
    rw [Option.isSome_map, Option.isSome_iff_exists, and_iff_right (not_not.1 hlength)]
    constructor
    · rintro ⟨i, hi⟩
      obtain ⟨n, htext, -⟩ := Whole.readHex?_eq_some_iff.1 hi
      exact ⟨n, htext⟩
    · rintro ⟨n, htext⟩
      exact ⟨n.value, Whole.readHex?_eq_some_iff.2 ⟨n, htext, rfl⟩⟩

theorem IsPlain.isHex {v : Text} (h : IsPlain v) : ∀ c ∈ fullDigits v, Whole.isHex c = true :=
  fun c hc => isHex_of_isHexDigit (h.2 c (mem_doubled.1 hc))

theorem IsPlain.length_eq {v : Text} (h : IsPlain v) : (fullDigits v).length = 6 :=
  length_doubled_eq_six.2 h.1

theorem IsPlain.not_isLoose {v : Text} (h : IsPlain v) : ¬ IsLoose v := by
  rintro ⟨-, -, c, hc, hdigit⟩
  exact Bool.false_ne_true (hdigit.symm.trans (h.2 c (mem_doubled.1 hc)))

theorem isSome_read?_iff {v : Text} : (read? v).isSome = true ↔ IsPlain v ∨ IsLoose v := by
  rw [isSome_read?_iff_exists]
  constructor
  · rintro ⟨hsix, hnumber⟩
    by_cases hdigits : ∀ c ∈ fullDigits v, isHexDigit c = true
    · exact .inl ⟨length_doubled_eq_six.1 hsix, fun c hc => hdigits c (mem_doubled.2 hc)⟩
    · simp only [not_forall, Bool.not_eq_true] at hdigits
      obtain ⟨c, hc, hdigit⟩ := hdigits
      exact .inr ⟨hsix, hnumber, c, hc, hdigit⟩
  · rintro (h | ⟨hsix, hnumber, -⟩)
    · have hne : fullDigits v ≠ [] := List.ne_nil_of_length_eq_add_one h.length_eq
      exact ⟨h.length_eq, .ofDigits _ hne h.isHex, HexNumeral.text_ofDigits ..⟩
    · exact ⟨hsix, hnumber⟩

/-! ## Channels -/

theorem exists_of_length_eq_six {α : Type} {xs : List α} (h : xs.length = 6) :
    ∃ a b c d e f, xs = [a, b, c, d, e, f] := by
  rcases xs with - | ⟨a, - | ⟨b, - | ⟨c, - | ⟨d, - | ⟨e, - | ⟨f, - | ⟨g, xs⟩⟩⟩⟩⟩⟩⟩
  case cons.cons.cons.cons.cons.cons.nil => exact ⟨a, b, c, d, e, f, rfl⟩
  all_goals simp at h

theorem ofNumber_value {r r' g g' b b' : Nat}
    (hr : r < 16) (hr' : r' < 16) (hg : g < 16) (hg' : g' < 16) (hb : b < 16) (hb' : b' < 16) :
    ofNumber (Whole.signed false (Whole.value 16 [r, r', g, g', b, b'])) =
      .rgb (16 * r + r') (16 * g + g') (16 * b + b') := by
  have hvalue : Whole.value 16 [r, r', g, g', b, b'] =
      65536 * (16 * r + r') + 256 * (16 * g + g') + (16 * b + b') := by
    simp only [Whole.value, List.foldl_cons, List.foldl_nil]
    omega
  have hsigned (n : Nat) : Whole.signed false n = n := rfl
  rw [hvalue, hsigned]
  simp only [ofNumber, channel]
  congr 1 <;> omega

/-- Six digits give the channels, two digits each. -/
theorem IsPlain.exists_values {v : Text} (h : IsPlain v) :
    ∃ r r' g g' b b', (fullDigits v).mapM Whole.hexValue? = some [r, r', g, g', b, b'] ∧
      read? v = some (.rgb (16 * r + r') (16 * g + g') (16 * b + b')) := by
  have hne : fullDigits v ≠ [] := List.ne_nil_of_length_eq_add_one h.length_eq
  obtain ⟨values, hvalues, hlength⟩ := exists_mapM_eq_some h.isHex
  have hlt : ∀ x ∈ values, x < 16 := by
    intro x hx
    obtain ⟨c, -, hc⟩ := exists_of_mem_forall₂ (forall₂_of_mapM_eq_some hvalues) hx
    exact Whole.hexValue?_lt hc
  have hread : read? v = some (ofNumber (Whole.signed false (Whole.value 16 values))) := by
    have hnumber := HexNumeral.readHex?_text (.ofDigits _ hne h.isHex)
    rw [HexNumeral.text_ofDigits, HexNumeral.value_ofDigits, hvalues, Option.getD_some] at hnumber
    rw [read?_eq, if_neg (not_not.2 h.length_eq), hnumber, Option.map_some]
  rw [h.length_eq] at hlength
  obtain ⟨r, r', g, g', b, b', rfl⟩ := exists_of_length_eq_six hlength
  simp only [List.forall_mem_cons] at hlt
  obtain ⟨hr, hr', hg, hg', hb, hb', -⟩ := hlt
  refine ⟨r, r', g, g', b, b', hvalues, ?_⟩
  rw [hread, ofNumber_value hr hr' hg hg' hb hb']

/-! ## Hashes and capital letters -/

theorem isHashed_iff {v : Text} (h : v.head? = some '#') : isHashed v = true ↔ IsPlain v := by
  obtain ⟨digits, rfl⟩ := List.head?_eq_some_iff.1 h
  simp only [isHashed, IsPlain, dropHash, h, if_true, List.tail_cons, Bool.and_eq_true,
    Bool.or_eq_true, beq_iff_eq, List.all_eq_true]

theorem read?_eq_none_of_idle {v : Text} {c : Char} (hc : c ∈ fullDigits v) (h : role c = .idle) :
    read? v = none := by
  rw [read?_eq, Whole.readHex?_eq_none_of_idle hc h, Option.map_none, ite_self]

theorem read?_eq_of_sameRoles {v w : Text} (h : SameRoles (fullDigits v) (fullDigits w)) :
    read? v = read? w := by
  rw [read?_eq, read?_eq, h.readHex?_eq, h.length_eq]

theorem fullDigits_normalize (rest : Text) :
    fullDigits (normalize ('#' :: rest)) = doubled (upper rest) :=
  doubled_doubled (upper rest)

theorem normalize_of_head? {v : Text} (h : v.head? ≠ some '#') : normalize v = v := by
  unfold normalize
  split
  · exact absurd rfl h
  · rfl

theorem read?_normalize {v : Text} (h : ligature ∉ v) : read? (normalize v) = read? v := by
  by_cases hhead : v.head? = some '#'
  · obtain ⟨rest, rfl⟩ := List.head?_eq_some_iff.1 hhead
    have hrest : ligature ∉ rest := fun hmem => h (List.mem_cons_of_mem _ hmem)
    have hdigits : fullDigits ('#' :: rest) = doubled rest := rfl
    rcases upper_cases hrest with hsame | ⟨⟨c, hc, hidle⟩, d, hd, hidle'⟩
    · refine (read?_eq_of_sameRoles ?_).symm
      rw [hdigits, fullDigits_normalize]
      exact sameRoles_doubled hsame
    · rw [read?_eq_none_of_idle (fullDigits_normalize rest ▸ mem_doubled.2 hd) hidle',
        read?_eq_none_of_idle (hdigits ▸ mem_doubled.2 hc) hidle]
  · rw [normalize_of_head? hhead]

theorem read?_eq_none_of_ligature {v : Text} (h : ligature ∈ v) : read? v = none := by
  refine read?_eq_none_of_idle (mem_doubled.2 ?_) (by decide : role ligature = .idle)
  unfold dropHash
  split
  · next hhead =>
    obtain ⟨rest, rfl⟩ := List.head?_eq_some_iff.1 hhead
    exact (List.mem_cons.1 h).resolve_left (by decide)
  · exact h

example : read? ['#', ligature, '1'] = none ∧ normalize ['#', ligature, '1'] = "#FFFF11".toList :=
  ⟨rfl, by decide +kernel⟩

/-- What is read as a colour is three or six digits of the basic alphabet, with the channels in
pairs of digits, or a number that is written in another way.  The numbers of the other kind are the
only texts with a hash on which reading and the test for a colour differ, and only the ligature is
changed into a colour by capital letters. -/
theorem read?_plain_or_loose (v : Text) :
    ((read? v).isSome = true ↔ IsPlain v ∨ IsLoose v) ∧
      (IsPlain v → ¬ IsLoose v ∧
        ∃ r r' g g' b b', (fullDigits v).mapM Whole.hexValue? = some [r, r', g, g', b, b'] ∧
          (read? v).map shares = some [Float.ofNat (16 * r + r') / 255,
            Float.ofNat (16 * g + g') / 255, Float.ofNat (16 * b + b') / 255]) ∧
      (v.head? = some '#' → ((read? v).isSome = isHashed v ↔ ¬ IsLoose v)) ∧
      (read? (normalize v) = read? v ↔
        ¬ (ligature ∈ v ∧ (IsPlain (normalize v) ∨ IsLoose (normalize v)))) := by
  refine ⟨isSome_read?_iff, fun h => ⟨h.not_isLoose, ?_⟩, fun hhead => ?_, ?_⟩
  · obtain ⟨r, r', g, g', b, b', hvalues, hread⟩ := h.exists_values
    refine ⟨r, r', g, g', b, b', hvalues, ?_⟩
    rw [hread]
    rfl
  · rw [Bool.eq_iff_iff, isSome_read?_iff, isHashed_iff hhead]
    constructor
    · exact fun h hloose => (h.1 (.inr hloose)).not_isLoose hloose
    · exact fun h => or_iff_left h
  · rw [← isSome_read?_iff]
    by_cases h : ligature ∈ v
    · rw [read?_eq_none_of_ligature h, and_iff_right h, Option.not_isSome_iff_eq_none]
    · exact iff_of_true (read?_normalize h) fun hand => h hand.1

theorem read?_plain_or_loose_short :
    IsPlain "#1aF".toList ∧ (read? "#1aF".toList).isSome = isHashed "#1aF".toList ∧
      (read? "#1aF".toList).isSome = true := by
  have hplain : IsPlain "#1aF".toList := ⟨.inl rfl, List.all_eq_true.1 (by decide)⟩
  obtain ⟨hsome, hchannels, hhash, -⟩ := read?_plain_or_loose "#1aF".toList
  exact ⟨hplain, (hhash rfl).2 (hchannels hplain).1, hsome.2 (.inl hplain)⟩

/-- A mark in front of four digits is read as a colour. -/
theorem read?_marked_number :
    (read? "#0x1234".toList).isSome = true ∧ ¬ IsPlain "#0x1234".toList ∧
      isHashed "#0x1234".toList = false := by
  refine ⟨by decide, fun h => ?_, by decide⟩
  exact absurd (h.2 'x' (by decide)) (by decide)

end Color

end Redline
