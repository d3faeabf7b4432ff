import Mathlib.Data.Bool.AllAny
import Redline.Proofs.Replacing
import Redline.Proofs.Template

/-!
# Conversion of replacements

A replacement is converted to a template in passes over the whole text, with marks that hold the
places of group references and of literal ampersands.  Whatever a replacement without braces is
converted to, braces stand in the template only around the digit of a reference, and dollars come in
pairs or in front of a reference.
-/

namespace Redline.Template

/-! ## Templates of characters and references -/

/-- A character that is a piece of its own wherever it stands. -/
def IsPlain (c : Char) : Prop :=
  c ≠ '$' ∧ c ≠ '\x7b' ∧ c ≠ '\x7d'

/-- A template that is made of plain characters, doubled dollars, and references by one digit. -/
inductive Woven : Text → Prop
  | nil : Woven []
  | plain {c : Char} {t : Text} (hc : IsPlain c) (ht : Woven t) : Woven (c :: t)
  | dollar {t : Text} (ht : Woven t) : Woven ('$' :: '$' :: t)
  | reference {d : Char} {t : Text} (hd : isDecimal d = true) (ht : Woven t) :
    Woven (Template.reference [d] ++ t)

theorem ne_of_isDecimal
    {c d : Char} (hd : isDecimal d = true) (hc : isDecimal c = false) : d ≠ c := by
  rintro rfl
  rw [hd] at hc
  cases hc

theorem isPlain_of_isDecimal {d : Char} (h : isDecimal d = true) : IsPlain d :=
  ⟨ne_of_isDecimal h (by decide), ne_of_isDecimal h (by decide), ne_of_isDecimal h (by decide)⟩

namespace Woven

variable {t : Text}

theorem head_ne (h : Woven t) {c : Char} {rest : Text} (ht : t = c :: rest) :
    c ≠ '\x7b' ∧ c ≠ '\x7d' := by
  cases h with
  | nil => cases ht
  | plain hc _ =>
    obtain ⟨rfl, -⟩ := List.cons.inj ht
    exact hc.2
  | dollar _ =>
    obtain ⟨rfl, -⟩ := List.cons.inj ht
    decide
  | reference _ _ =>
    obtain ⟨rfl, -⟩ := List.cons.inj ht
    decide

theorem append_of_plain {s : Text} (hs : ∀ c ∈ s, IsPlain c) (ht : Woven t) : Woven (s ++ t) := by
  induction s with
  | nil => exact ht
  | cons c rest ih =>
    exact .plain (hs c List.mem_cons_self) (ih fun d hd => hs d (List.mem_cons_of_mem c hd))

theorem drop (h : Woven t) {n : Nat} (hn : ∀ c ∈ t.take n, IsPlain c) : Woven (t.drop n) := by
  induction n generalizing t with
  | zero => exact h
  | succ n ih =>
    cases h with
    | nil => exact .nil
    | plain hc ht => exact ih ht fun d hd => hn d (List.mem_cons_of_mem _ hd)
    | dollar ht => exact absurd rfl (hn '$' List.mem_cons_self).1
    | reference hd ht => exact absurd rfl (hn '$' List.mem_cons_self).1

/-- A rule that puts woven text in the place of plain characters keeps a template woven, if it does
not apply to the digit of a reference. -/
theorem replaceBy
    {rule : Text → Option (Nat × Text)} (h : Woven t)
    (hrule : ∀ c rest used new, rule (c :: rest) = some (used, new) →
      0 < used ∧ isDecimal c = false ∧ (∀ d ∈ (c :: rest).take used, IsPlain d) ∧
        ∀ u, Woven u → Woven (new ++ u)) :
    Woven (Text.replaceBy rule t) := by
  have hnone : ∀ c rest, (¬ IsPlain c ∨ isDecimal c = true) → rule (c :: rest) = none := by
    intro c rest hc
    cases happly : rule (c :: rest) with
    | none => rfl
    | some result =>
      obtain ⟨hused, hdecimal, hplain, -⟩ := hrule c rest result.1 result.2 happly
      rcases hc with hc | hc
      · refine absurd (hplain c ?_) hc
        obtain ⟨n, hn⟩ := Nat.exists_eq_add_of_lt hused
        rw [hn]
        simp
      · rw [hdecimal] at hc
        exact absurd hc Bool.false_ne_true
  -- By length, since the part that the rule uses up may be of any size.
  induction hn : t.length using Nat.strongRecOn generalizing t with
  | ind n ih =>
    subst hn
    cases h with
    | nil => exact .nil
    | @plain c rest hc ht =>
      cases happly : rule (c :: rest) with
      | none =>
        rw [Text.replaceBy_of_none happly]
        exact .plain hc (ih rest.length (by simp) ht rfl)
      | some result =>
        obtain ⟨hused, -, hplain, hnew⟩ := hrule c rest result.1 result.2 happly
        rw [Text.replaceBy_of_some (List.cons_ne_nil c rest) happly hused]
        refine hnew _ (ih _ ?_ ((Woven.plain hc ht).drop hplain) rfl)
        rw [List.length_drop, List.length_cons]
        omega
    | @dollar rest ht =>
      rw [Text.replaceBy_of_none (hnone _ _ (.inl (by simp [IsPlain]))),
        Text.replaceBy_of_none (hnone _ _ (.inl (by simp [IsPlain])))]
      exact .dollar (ih rest.length (by simp only [List.length_cons]; omega) ht rfl)
    | @reference d rest hd ht =>
      simp only [Template.reference, List.cons_append, List.nil_append]
      rw [Text.replaceBy_of_none (hnone _ _ (.inl (by simp [IsPlain]))),
        Text.replaceBy_of_none (hnone _ _ (.inl (by simp [IsPlain]))),
        Text.replaceBy_of_none (hnone _ _ (.inr hd)),
        Text.replaceBy_of_none (hnone _ _ (.inl (by simp [IsPlain])))]
      exact .reference hd (ih rest.length (by simp [Template.reference]; omega) ht rfl)

theorem pieces_plain
    {c : Char} (hc : IsPlain c) (rest : Text) :
    pieces (c :: rest) = .char c :: pieces rest :=
  (standsAlone_of_ne hc.1 rest).pieces

theorem refers_digit {d : Char} (hd : isDecimal d = true) (rest : Text) :
    Refers (d :: '\x7d' :: rest) [d] rest :=
  ⟨rfl, by simpa using hd, by simp⟩

theorem pieces_reference
    {d : Char} (hd : isDecimal d = true) (rest : Text) :
    pieces (Template.reference [d] ++ rest) = .group [d] :: pieces rest :=
  (refers_digit hd rest).pieces

end Woven

/-! ## The passes of the conversion -/

/-- There is no brace in the text. -/
def BraceFree (t : Text) : Prop :=
  '\x7b' ∉ t ∧ '\x7d' ∉ t

theorem BraceFree.of_cons {c : Char} {t : Text} (h : BraceFree (c :: t)) : BraceFree t :=
  ⟨fun hmem => h.1 (List.mem_cons_of_mem c hmem), fun hmem => h.2 (List.mem_cons_of_mem c hmem)⟩

theorem BraceFree.head {c : Char} {t : Text} (h : BraceFree (c :: t)) :
    c ≠ '\x7b' ∧ c ≠ '\x7d' :=
  ⟨fun hc => h.1 (hc ▸ List.mem_cons_self), fun hc => h.2 (hc ▸ List.mem_cons_self)⟩

theorem isDecimal_of_isGroupDigit {d : Char} (h : isGroupDigit d = true) : isDecimal d = true := by
  have hrange : d.toNat ∈ List.range' 49 9 := by
    simp only [isGroupDigit, Bool.and_eq_true, decide_eq_true_eq] at h
    rw [List.mem_range'_1]
    exact ⟨h.1, Nat.lt_succ_of_le h.2⟩
  have hdigits : ∀ n ∈ List.range' 49 9, (digitValueIn digitZeros n).isSome = true := by
    decide
  exact hdigits _ hrange

theorem isPlain_of_mem_groupMark
    {d c : Char} (hd : isDecimal d = true) (hc : c ∈ groupMark d) : IsPlain c := by
  rcases List.mem_append.1 hc with hc | hc
  · have hlead : ∀ c ∈ "\x00BACKREF_".toList, c ≠ '$' ∧ c ≠ '\x7b' ∧ c ≠ '\x7d' :=
      List.all_iff_forall_prop.1 (by decide)
    exact hlead c hc
  · rcases List.mem_cons.1 hc with rfl | hc
    · exact isPlain_of_isDecimal hd
    · rw [List.mem_singleton.1 hc]
      refine ⟨?_, ?_, ?_⟩ <;> decide

theorem isPlain_of_mem_ampersandMark {c : Char} (hc : c ∈ ampersandMark) : IsPlain c := by
  have hmark : ∀ c ∈ ampersandMark, c ≠ '$' ∧ c ≠ '\x7b' ∧ c ≠ '\x7d' :=
    List.all_iff_forall_prop.1 (by decide)
  exact hmark c hc

theorem woven_escapeMarked
    {c : Char} {t : Text} (hc : c ≠ '\x7b' ∧ c ≠ '\x7d') (ht : Woven t) :
    Woven (escapeMarked c ++ t) := by
  unfold escapeMarked
  split
  next hdigit =>
    have hd := isDecimal_of_isGroupDigit hdigit
    exact ht.append_of_plain fun e he => isPlain_of_mem_groupMark hd he
  next =>
    split
    next => exact .dollar ht
    next hdollar =>
      have hplain : IsPlain c := ⟨by simpa using hdollar, hc⟩
      have hbackslash : IsPlain '\\' := by
        refine ⟨?_, ?_, ?_⟩ <;> decide
      split
      · exact .plain hplain ht
      · split
        · exact ht.append_of_plain fun e he => isPlain_of_mem_ampersandMark he
        · split
          · exact .plain hbackslash ht
          · exact .plain hbackslash (.plain hplain ht)

/-- With marks in the places of references a replacement without braces is woven. -/
theorem woven_marked {r : Text} (h : BraceFree r) : Woven (marked r) := by
  fun_induction marked r with
  | case1 => exact .nil
  | case2 c rest ih => exact woven_escapeMarked h.of_cons.head (ih h.of_cons.of_cons)
  | case3 tail ih => exact .dollar (ih h.of_cons.of_cons)
  | case4 tail ih => exact absurd rfl h.of_cons.head.1
  | case5 c tail _ _ hdigit ih =>
    exact (ih h.of_cons.of_cons).append_of_plain fun e he =>
      isPlain_of_mem_groupMark (isDecimal_of_isGroupDigit hdigit) he
  | case6 c tail _ _ _ ih => exact .dollar (ih h.of_cons)
  | case7 => exact .dollar .nil
  | case8 c rest _ hdollar ih =>
    exact .plain ⟨fun hc => hdollar hc, h.head⟩ (ih h.of_cons)

theorem groupLead_eq :
    "\x00BACKREF_".toList = ['\x00', 'B', 'A', 'C', 'K', 'R', 'E', 'F', '_'] :=
  rfl

theorem groupMark_eq (d : Char) :
    groupMark d = ['\x00', 'B', 'A', 'C', 'K', 'R', 'E', 'F', '_', d, '\x00'] :=
  rfl

theorem ampersandMark_eq :
    ampersandMark = ['\x00', 'L', 'I', 'T', 'A', 'M', 'P', '\x00'] :=
  rfl

theorem groupMark?_eq_some
    {t new : Text} {used : Nat} (h : groupMark? t = some (used, new)) :
    ∃ d rest, t = groupMark d ++ rest ∧ isDecimal d = true ∧ used = 11 ∧
      new = reference [d] := by
  unfold groupMark? at h
  split at h
  next d rest hafter =>
    split at h
    next hd =>
      obtain ⟨hused, hnew⟩ := Prod.mk.inj (Option.some.inj h)
      refine ⟨d, rest, ?_, hd, hused.symm, hnew.symm⟩
      rw [groupLead_eq] at hafter
      rw [Text.eq_append_of_after? hafter, groupMark_eq]
      rfl
    next => cases h
  next => cases h

theorem groupMark?_append
    {d : Char} (hd : isDecimal d = true) (rest : Text) :
    groupMark? (groupMark d ++ rest) = some (11, reference [d]) := by
  have hafter : Text.after? "\x00BACKREF_".toList (groupMark d ++ rest) =
      some (d :: '\x00' :: rest) := by
    rw [groupLead_eq, groupMark_eq]
    exact Text.after?_append ['\x00', 'B', 'A', 'C', 'K', 'R', 'E', 'F', '_'] _
  simp only [groupMark?, hafter, hd, if_true]

theorem isDecimal_nul : isDecimal '\x00' = false := by
  decide

theorem Woven.replaceBy_groupMark? {t : Text} (h : Woven t) :
    Woven (Text.replaceBy groupMark? t) := by
  apply h.replaceBy
  intro c rest used new happly
  obtain ⟨d, tail, ht, hd, rfl, rfl⟩ := groupMark?_eq_some happly
  refine ⟨by omega, ?_, ?_, fun u hu => .reference hd hu⟩
  · rw [(List.cons.inj ht).1]
    exact isDecimal_nul
  · intro e he
    rw [ht, List.take_left' (by rw [groupMark_eq]; rfl)] at he
    exact isPlain_of_mem_groupMark hd he

theorem Woven.replaceAll_ampersandMark {t : Text} (h : Woven t) :
    Woven (Text.replaceAll ampersandMark ['&'] t) := by
  apply h.replaceBy
  intro c rest used new happly
  split at happly
  next hstarts =>
    cases happly
    have ht := Text.eq_append_of_startsWith hstarts
    refine ⟨by rw [ampersandMark_eq]; simp, ?_, ?_, fun u hu => .plain ?_ hu⟩
    · rw [ampersandMark_eq] at ht
      rw [(List.cons.inj ht).1]
      exact isDecimal_nul
    · intro e he
      rw [ht, List.take_left] at he
      exact isPlain_of_mem_ampersandMark he
    · refine ⟨?_, ?_, ?_⟩ <;> decide
  next => cases happly

theorem isDecimal_zero : isDecimal '0' = true := by
  decide

theorem Woven.replaceAll_ampersand {t : Text} (h : Woven t) :
    Woven (Text.replaceAll ['&'] (Template.reference ['0']) t) := by
  apply h.replaceBy
  intro c rest used new happly
  split at happly
  next hstarts =>
    cases happly
    have ht := Text.eq_append_of_startsWith hstarts
    obtain ⟨rfl, -⟩ := List.cons.inj ht
    refine ⟨by decide, by decide, ?_, fun u hu => .reference isDecimal_zero hu⟩
    intro e he
    rw [List.mem_singleton.1 he]
    refine ⟨?_, ?_, ?_⟩ <;> decide
  next => cases happly

/-- The template of a replacement without braces has braces only around the digit of a reference. -/
theorem woven_convert {r : Text} (h : BraceFree r) : Woven (convert r) :=
  (woven_marked h).replaceBy_groupMark?.replaceAll_ampersand.replaceAll_ampersandMark

end Redline.Template
