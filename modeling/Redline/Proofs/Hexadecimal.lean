import Mathlib.Data.List.TakeWhile
import Redline.Proofs.Numeral
import Redline.Proofs.PipeTable

/-!
# Numbers in base sixteen as they are written

A number in base sixteen is written with more than its digits: there may be padding around it, a
sign, a mark in front of the digits, and underscores between them.  The texts that are read are
exactly these, and what is read is the number that the digits write.  It depends only on the role
that each character can play in a number.
-/

namespace Redline

/-! ## Trimming -/

namespace Text

theorem trimWhere_append_append
    {p : Char → Bool} {before core after : Text} (hbefore : ∀ c ∈ before, p c = true)
    (hcore : ∀ c ∈ core, p c = false) (hafter : ∀ c ∈ after, p c = true) :
    trimWhere p (before ++ core ++ after) = core := by
  have hend : dropEnd p (core ++ after) = core := by
    rw [dropEnd, List.reverse_append,
      List.dropWhile_append_of_pos fun c hc => hafter c (List.mem_reverse.1 hc),
      dropWhile_of_forall_not fun c hc => hcore c (List.mem_reverse.1 hc), List.reverse_reverse]
  rw [trimWhere, dropStart, List.append_assoc, List.dropWhile_append_of_pos hbefore]
  cases core with
  | nil =>
    rw [List.nil_append, List.dropWhile_eq_nil_iff.2 hafter]
    rfl
  | cons c core =>
    rw [List.cons_append, List.dropWhile_cons_of_neg (by simp [hcore c List.mem_cons_self])]
    exact hend

theorem exists_trimWhere (p : Char → Bool) (t : Text) :
    ∃ before after, (∀ c ∈ before ++ after, p c = true) ∧ before ++ trimWhere p t ++ after = t := by
  refine ⟨t.takeWhile p, ((dropStart p t).reverse.takeWhile p).reverse, ?_, ?_⟩
  · intro c hc
    rcases List.mem_append.1 hc with hc | hc
    · exact List.mem_takeWhile_imp hc
    · exact List.mem_takeWhile_imp (List.mem_reverse.1 hc)
  · rw [trimWhere, dropEnd, List.append_assoc, ← List.reverse_append, List.takeWhile_append_dropWhile,
      List.reverse_reverse, dropStart, List.takeWhile_append_dropWhile]

end Text

namespace Whole

/-! ## Underscores between digits -/

section Underscores

variable {p : Char → Bool}

theorem dropUnderscores_cons_underscore (c : Char) (rest : Text) :
    dropUnderscores p (c :: '_' :: rest) =
      if p c && rest.head?.any p then (dropUnderscores p rest).map (c :: ·) else none := by
  cases rest with
  | nil =>
    rw [List.head?_nil, Option.any_none, Bool.and_false, if_neg Bool.false_ne_true]
    by_cases hc : c = '_'
    · rw [hc]
      rfl
    · rw [dropUnderscores]
      exact hc
  | cons d rest =>
    rw [dropUnderscores]
    rfl

theorem dropUnderscores_cons
    {c : Char} {rest : Text} (hc : c ≠ '_') (hrest : rest.head? ≠ some '_') :
    dropUnderscores p (c :: rest) = (dropUnderscores p rest).map (c :: ·) := by
  rw [dropUnderscores]
  · rintro d tail rfl
    exact hrest rfl
  · exact hc
  · rintro rfl
    exact hrest rfl

theorem dropUnderscores_underscore (hp : p '_' = false) (rest : Text) :
    dropUnderscores p ('_' :: rest) = none := by
  by_cases h : rest.head? = some '_'
  · obtain ⟨tail, rfl⟩ := List.head?_eq_some_iff.1 h
    rw [dropUnderscores_cons_underscore, hp, Bool.false_and, if_neg Bool.false_ne_true]
  · rw [dropUnderscores]
    rintro d tail rfl
    exact h rfl

/-- One or more groups of one or more digits. -/
structure Grouped (p : Char → Bool) (groups : List Text) : Prop where
  ne_nil : groups ≠ []
  group_ne_nil : ∀ group ∈ groups, group ≠ []
  digits : ∀ group ∈ groups, ∀ c ∈ group, p c = true

namespace Grouped

theorem singleton {group : Text} (hne : group ≠ []) (h : ∀ c ∈ group, p c = true) :
    Grouped p [group] where
  ne_nil := List.cons_ne_nil _ _
  group_ne_nil := List.forall_mem_singleton.2 hne
  digits := List.forall_mem_singleton.2 h

theorem cons {group : Text} {groups : List Text} (hne : group ≠ []) (h : ∀ c ∈ group, p c = true)
    (hgroups : Grouped p groups) : Grouped p (group :: groups) where
  ne_nil := List.cons_ne_nil _ _
  group_ne_nil := List.forall_mem_cons.2 ⟨hne, hgroups.group_ne_nil⟩
  digits := List.forall_mem_cons.2 ⟨h, hgroups.digits⟩

theorem cons_head {c : Char} {group : Text} {groups : List Text} (hc : p c = true)
    (h : Grouped p (group :: groups)) : Grouped p ((c :: group) :: groups) where
  ne_nil := List.cons_ne_nil _ _
  group_ne_nil := List.forall_mem_cons.2
    ⟨List.cons_ne_nil _ _, (List.forall_mem_cons.1 h.group_ne_nil).2⟩
  digits := List.forall_mem_cons.2
    ⟨List.forall_mem_cons.2 ⟨hc, h.digits group List.mem_cons_self⟩,
      (List.forall_mem_cons.1 h.digits).2⟩

theorem exists_join {groups : List Text} (h : Grouped p groups) :
    ∃ c rest, p c = true ∧ Text.join ['_'] groups = c :: rest := by
  obtain ⟨group, groups, rfl⟩ := List.exists_cons_of_ne_nil h.ne_nil
  obtain ⟨c, group, rfl⟩ := List.exists_cons_of_ne_nil (h.group_ne_nil _ List.mem_cons_self)
  have hc := h.digits _ List.mem_cons_self c List.mem_cons_self
  cases groups with
  | nil => exact ⟨c, group, hc, Text.join_singleton _ _⟩
  | cons next groups =>
    exact ⟨c, _, hc, Text.join_cons _ _ (List.cons_ne_nil _ _)⟩

theorem mem_join {groups : List Text} (h : Grouped p groups) {c : Char}
    (hc : c ∈ Text.join ['_'] groups) : c = '_' ∨ p c = true := by
  by_contra hnot
  rw [not_or] at hnot
  refine Text.not_mem_join (by simp [hnot.1]) (fun group hgroup hmem => ?_) hc
  exact hnot.2 (h.digits group hgroup c hmem)

end Grouped

theorem ne_underscore (hp : p '_' = false) {c : Char} (hc : p c = true) : c ≠ '_' := by
  rintro rfl
  exact Bool.false_ne_true (hp.symm.trans hc)

theorem dropUnderscores_append
    (hp : p '_' = false) {group : Text} (hne : group ≠ []) (h : ∀ c ∈ group, p c = true)
    {c : Char} (hc : p c = true) (rest : Text) :
    dropUnderscores p (group ++ '_' :: c :: rest) =
      (dropUnderscores p (c :: rest)).map (group ++ ·) := by
  induction group with
  | nil => exact absurd rfl hne
  | cons d group ih =>
    have hd := h d List.mem_cons_self
    cases group with
    | nil =>
      rw [List.singleton_append, dropUnderscores_cons_underscore, List.head?_cons, Option.any_some,
        hd, hc, Bool.and_self, if_pos rfl]
      rfl
    | cons e group =>
      have hgroup := fun x hx => h x (List.mem_cons_of_mem d hx)
      have he := ne_underscore hp (hgroup e List.mem_cons_self)
      rw [List.cons_append, dropUnderscores_cons (ne_underscore hp hd) (by simpa using he),
        ih (List.cons_ne_nil _ _) hgroup, Option.map_map]
      rfl

theorem dropUnderscores_join (hp : p '_' = false) {groups : List Text} (h : Grouped p groups) :
    dropUnderscores p (Text.join ['_'] groups) = some groups.flatten := by
  induction groups with
  | nil => exact absurd rfl h.ne_nil
  | cons group groups ih =>
    have hgroup := h.digits group List.mem_cons_self
    cases groups with
    | nil =>
      rw [Text.join_singleton, List.flatten_singleton]
      exact dropUnderscores_of_not_mem fun hmem => ne_underscore hp (hgroup _ hmem) rfl
    | cons next groups =>
      have hrest : Grouped p (next :: groups) :=
        ⟨List.cons_ne_nil _ _, (List.forall_mem_cons.1 h.group_ne_nil).2,
          (List.forall_mem_cons.1 h.digits).2⟩
      obtain ⟨c, rest, hc, hjoin⟩ := hrest.exists_join
      rw [Text.join_cons _ _ (List.cons_ne_nil _ _), List.singleton_append, hjoin,
        dropUnderscores_append hp (h.group_ne_nil _ List.mem_cons_self) hgroup hc, ← hjoin, ih hrest]
      rfl

/-- When the underscores can be dropped and only digits are left, they stood between groups. -/
theorem exists_grouped_of_dropUnderscores
    {t digits : Text} (h : dropUnderscores p t = some digits) (hdigits : ∀ c ∈ digits, p c = true)
    (hne : t ≠ []) :
    ∃ groups, Grouped p groups ∧ Text.join ['_'] groups = t ∧ groups.flatten = digits := by
  fun_induction dropUnderscores p t generalizing digits with
  | case1 => exact absurd rfl hne
  | case2 c d rest _ ih =>
    obtain ⟨tail, htail, rfl⟩ := Option.map_eq_some_iff.1 h
    obtain ⟨hc, hrest⟩ := List.forall_mem_cons.1 hdigits
    obtain ⟨groups, hgroups, hjoin, rfl⟩ := ih htail hrest (List.cons_ne_nil _ _)
    -- An underscore follows, so the digit is a group of its own until another one joins it.
    have hgroup := hgroups.cons (List.cons_ne_nil _ _) (List.forall_mem_singleton.2 hc)
    refine ⟨[c] :: groups, hgroup, ?_, rfl⟩
    rw [Text.join_cons _ _ hgroups.ne_nil, hjoin]
    rfl
  | case3 => cases h
  | case4 => cases h
  | case5 => cases h
  | case6 c rest _ _ _ ih =>
    obtain ⟨tail, htail, rfl⟩ := Option.map_eq_some_iff.1 h
    obtain ⟨hc, hrest⟩ := List.forall_mem_cons.1 hdigits
    by_cases hnil : rest = []
    · subst hnil
      cases htail
      exact ⟨[[c]], .singleton (List.cons_ne_nil _ _) hdigits, Text.join_singleton _ _, rfl⟩
    · obtain ⟨groups, hgroups, rfl, rfl⟩ := ih htail hrest hnil
      obtain ⟨group, groups, rfl⟩ := List.exists_cons_of_ne_nil hgroups.ne_nil
      refine ⟨(c :: group) :: groups, hgroups.cons_head hc, ?_, rfl⟩
      cases groups with
      | nil => rw [Text.join_singleton, Text.join_singleton]
      | cons next groups =>
        rw [Text.join_cons _ _ (List.cons_ne_nil _ _), Text.join_cons _ _ (List.cons_ne_nil _ _)]
        rfl

end Underscores

/-! ## Signs and marks -/

/-- A digit in base sixteen, of any script. -/
def isHex (c : Char) : Bool :=
  (hexValue? c).isSome

theorem mem_range'_toNat {c first last : Char} (h : first ≤ c ∧ c ≤ last) :
    c.toNat ∈ List.range' first.toNat (last.toNat + 1 - first.toNat) := by
  have hfirst : first.toNat ≤ c.toNat := h.1
  have hlast : c.toNat ≤ last.toNat := h.2
  rw [List.mem_range'_1]
  omega

theorem isHex_cases {c : Char} (h : isHex c = true) :
    c.toNat ∈ List.range' 97 6 ∨ c.toNat ∈ List.range' 65 6 ∨ isDecimal c = true := by
  unfold isHex hexValue? at h
  split at h
  · next hlower => exact .inl (mem_range'_toNat hlower)
  · split at h
    · next hupper => exact .inr (.inl (mem_range'_toNat hupper))
    · exact .inr (.inr h)

theorem hexValue?_lt {c : Char} {v : Nat} (h : hexValue? c = some v) : v < 16 := by
  unfold hexValue? at h
  split at h
  · next hlower =>
    have hlast : c.toNat ≤ 'f'.toNat := hlower.2
    cases h
    change c.toNat ≤ 102 at hlast
    change c.toNat - 97 + 10 < 16
    omega
  · split at h
    · next hupper =>
      have hlast : c.toNat ≤ 'F'.toNat := hupper.2
      cases h
      change c.toNat ≤ 70 at hlast
      change c.toNat - 65 + 10 < 16
      omega
    · have hdigit := digitValueIn_lt h
      omega

theorem isPadding_of_isHex {c : Char} (h : isHex c = true) : isPadding c = false := by
  have hlower : ∀ n ∈ List.range' 97 6, inRanges blanks n = false := by decide
  have hupper : ∀ n ∈ List.range' 65 6, inRanges blanks n = false := by decide
  have hblank : isBlank c = false := by
    rcases isHex_cases h with h | h | h
    · exact hlower _ h
    · exact hupper _ h
    · exact isBlank_eq_false_of_isDecimal h
  rw [isPadding, hblank, Bool.false_and]

theorem ne_of_isHex {c d : Char} (h : isHex c = true) (hd : isHex d = false) : c ≠ d := by
  rintro rfl
  exact Bool.false_ne_true (hd.symm.trans h)

theorem splitSign_of_ne {c : Char} (hplus : c ≠ '+') (hminus : c ≠ '-') (rest : Text) :
    splitSign (c :: rest) = (false, c :: rest) := by
  unfold splitSign
  split
  · next heq => exact absurd (List.cons.inj heq).1 hplus
  · next heq => exact absurd (List.cons.inj heq).1 hminus
  · rfl

theorem splitSign_append
    {sign : Text} (hsign : sign ∈ [[], ['+'], ['-']]) {c : Char} (hc : isHex c = true) (rest : Text) :
    splitSign (sign ++ c :: rest) = (sign == ['-'], c :: rest) := by
  simp only [List.mem_cons, List.not_mem_nil, or_false] at hsign
  rcases hsign with rfl | rfl | rfl
  · exact splitSign_of_ne (ne_of_isHex hc (by decide)) (ne_of_isHex hc (by decide)) rest
  · rfl
  · rfl

theorem exists_sign (t : Text) :
    ∃ sign ∈ [[], ['+'], ['-']], sign ++ (splitSign t).2 = t ∧ (sign == ['-']) = (splitSign t).1 := by
  unfold splitSign
  split
  · exact ⟨['+'], by simp, rfl, rfl⟩
  · exact ⟨['-'], by simp, rfl, rfl⟩
  · exact ⟨[], by simp, rfl, rfl⟩

/-- The rest of a text after an underscore, if it starts with one. -/
def dropUnderscore (t : Text) : Text :=
  if t.head? = some '_' then t.tail else t

/-- A zero and the letter x stand in front of a number. -/
def IsMarked (zero x : Char) : Prop :=
  hexValue? zero = some 0 ∧ (x = 'x' ∨ x = 'X')

instance (zero x : Char) : Decidable (IsMarked zero x) :=
  inferInstanceAs (Decidable (_ ∧ _))

theorem dropHexMark_cons_cons (zero x : Char) (rest : Text) :
    dropHexMark (zero :: x :: rest) =
      if IsMarked zero x then dropUnderscore rest else zero :: x :: rest := by
  unfold dropHexMark
  simp only [Bool.and_eq_true, Bool.or_eq_true, beq_iff_eq]
  refine if_congr Iff.rfl ?_ rfl
  split
  · rfl
  · next hne =>
    refine (if_neg fun h => ?_).symm
    obtain ⟨tail, rfl⟩ := List.head?_eq_some_iff.1 h
    exact hne tail rfl

/-- The mark of a number in base sixteen: a zero and the letter x, and maybe an underscore. -/
def IsHexMark (mark : Text) : Prop :=
  ∃ zero x, IsMarked zero x ∧ (mark = [zero, x] ∨ mark = [zero, x, '_'])

theorem IsHexMark.mem {mark : Text} (hmark : IsHexMark mark) {c : Char} (h : c ∈ mark) :
    isHex c = true ∨ c ∈ ['+', '-', '_', 'x', 'X'] := by
  obtain ⟨zero, x, ⟨hzero, hx⟩, hmark⟩ := hmark
  have hmem : c = zero ∨ c = x ∨ c = '_' := by
    rcases hmark with rfl | rfl
    · simp only [List.mem_cons, List.not_mem_nil, or_false] at h
      exact h.imp_right .inl
    · simpa using h
  rcases hmem with rfl | rfl | rfl
  · exact .inl (by rw [isHex, hzero]; rfl)
  · rcases hx with rfl | rfl
    · exact .inr (by simp)
    · exact .inr (by simp)
  · exact .inr (by simp)

theorem dropHexMark_append
    {mark : Text} (hmark : IsHexMark mark) {c : Char} (hc : c ≠ '_') (rest : Text) :
    dropHexMark (mark ++ c :: rest) = c :: rest := by
  obtain ⟨zero, x, hmarked, rfl | rfl⟩ := hmark
  · rw [List.cons_append, List.singleton_append, dropHexMark_cons_cons, if_pos hmarked]
    exact if_neg (by simpa using hc)
  · rw [List.cons_append, List.cons_append, dropHexMark_cons_cons, if_pos hmarked]
    rfl

theorem dropHexMark_of_not_mem {t : Text} (hlower : 'x' ∉ t) (hupper : 'X' ∉ t) :
    dropHexMark t = t := by
  rcases t with - | ⟨zero, - | ⟨x, rest⟩⟩
  · rfl
  · rfl
  · rw [dropHexMark_cons_cons, if_neg]
    rintro ⟨-, rfl | rfl⟩
    · exact hlower (by simp)
    · exact hupper (by simp)

theorem dropHexMark_cases (t : Text) :
    dropHexMark t = t ∨ ∃ mark, IsHexMark mark ∧ mark ++ dropHexMark t = t := by
  rcases t with - | ⟨zero, - | ⟨x, rest⟩⟩
  · exact .inl rfl
  · exact .inl rfl
  · rw [dropHexMark_cons_cons]
    split
    · next hmarked =>
      right
      unfold dropUnderscore
      split
      · next hhead =>
        obtain ⟨tail, rfl⟩ := List.head?_eq_some_iff.1 hhead
        exact ⟨[zero, x, '_'], ⟨zero, x, hmarked, .inr rfl⟩, rfl⟩
      · exact ⟨[zero, x], ⟨zero, x, hmarked, .inl rfl⟩, rfl⟩
    · exact .inl rfl

end Whole

/-! ## Numbers -/

/-- A number in base sixteen as it is written. -/
structure HexNumeral where
  before : Text
  sign : Text
  mark : Text
  groups : List Text
  after : Text
  padding : ∀ c ∈ before ++ after, Whole.isPadding c = true
  signed : sign ∈ [[], ['+'], ['-']]
  marked : mark = [] ∨ Whole.IsHexMark mark
  grouped : Whole.Grouped Whole.isHex groups

namespace HexNumeral

def core (n : HexNumeral) : Text :=
  n.sign ++ (n.mark ++ Text.join ['_'] n.groups)

def text (n : HexNumeral) : Text :=
  n.before ++ n.core ++ n.after

/-- The number that is written. -/
def value (n : HexNumeral) : Int :=
  Whole.signed (n.sign == ['-']) (Whole.value 16 ((n.groups.flatten.mapM Whole.hexValue?).getD []))

theorem exists_join (n : HexNumeral) :
    ∃ c rest, Whole.isHex c = true ∧ Text.join ['_'] n.groups = c :: rest :=
  n.grouped.exists_join

theorem dropHexMark_marked (n : HexNumeral) :
    Whole.dropHexMark (n.mark ++ Text.join ['_'] n.groups) = Text.join ['_'] n.groups := by
  rcases n.marked with hmark | hmark
  · have hnot {x : Char} (hx : x ≠ '_') (hhex : Whole.isHex x = false) :
        x ∉ Text.join ['_'] n.groups := fun hmem => by
      rcases n.grouped.mem_join hmem with rfl | h
      · exact hx rfl
      · exact Bool.false_ne_true (hhex.symm.trans h)
    rw [hmark, List.nil_append]
    exact Whole.dropHexMark_of_not_mem (hnot (by decide) (by decide)) (hnot (by decide) (by decide))
  · obtain ⟨c, rest, hc, hjoin⟩ := n.exists_join
    rw [hjoin]
    exact Whole.dropHexMark_append hmark (Whole.ne_of_isHex hc (by decide)) rest

theorem splitSign_core (n : HexNumeral) :
    Whole.splitSign n.core = (n.sign == ['-'], n.mark ++ Text.join ['_'] n.groups) := by
  have hhead : ∃ c rest, Whole.isHex c = true ∧ n.mark ++ Text.join ['_'] n.groups = c :: rest := by
    rcases n.marked with hmark | ⟨zero, x, hmarked, hmark | hmark⟩
    · rw [hmark]
      exact n.exists_join
    · exact ⟨zero, _, by rw [Whole.isHex, hmarked.1]; rfl, by rw [hmark]; rfl⟩
    · exact ⟨zero, _, by rw [Whole.isHex, hmarked.1]; rfl, by rw [hmark]; rfl⟩
  obtain ⟨c, rest, hc, hbody⟩ := hhead
  rw [core, hbody]
  exact Whole.splitSign_append n.signed hc rest

theorem mem_core {n : HexNumeral} {c : Char} (h : c ∈ n.core) :
    Whole.isHex c = true ∨ c ∈ ['+', '-', '_', 'x', 'X'] := by
  rcases List.mem_append.1 h with h | h
  · have hsign := n.signed
    simp only [List.mem_cons, List.not_mem_nil, or_false] at hsign
    rcases hsign with hsign | hsign | hsign
    · rw [hsign] at h
      cases h
    · rw [hsign] at h
      exact .inr (by simp [List.mem_singleton.1 h])
    · rw [hsign] at h
      exact .inr (by simp [List.mem_singleton.1 h])
  · rcases List.mem_append.1 h with h | h
    · rcases n.marked with hmark | hmark
      · rw [hmark] at h
        cases h
      · exact hmark.mem h
    · rcases n.grouped.mem_join h with rfl | h
      · exact .inr (by simp)
      · exact .inl h

theorem isPadding_of_mem_core {n : HexNumeral} {c : Char} (h : c ∈ n.core) :
    Whole.isPadding c = false := by
  have hmarks : ['+', '-', '_', 'x', 'X'].all (fun c => !Whole.isPadding c) = true := by decide
  rcases mem_core h with h | h
  · exact Whole.isPadding_of_isHex h
  · simpa using List.all_eq_true.1 hmarks c h

theorem trimWhere_text (n : HexNumeral) : Text.trimWhere Whole.isPadding n.text = n.core :=
  Text.trimWhere_append_append (fun c hc => n.padding c (List.mem_append_left _ hc))
    (fun _ => isPadding_of_mem_core) fun c hc => n.padding c (List.mem_append_right _ hc)

theorem isHex_of_mem_flatten {n : HexNumeral} {c : Char} (h : c ∈ n.groups.flatten) :
    Whole.isHex c = true := by
  obtain ⟨group, hgroup, hc⟩ := List.mem_flatten.1 h
  exact n.grouped.digits group hgroup c hc

theorem flatten_ne_nil (n : HexNumeral) : n.groups.flatten ≠ [] := by
  obtain ⟨group, groups, hgroups⟩ := List.exists_cons_of_ne_nil n.grouped.ne_nil
  have hgroup : group ∈ n.groups := hgroups ▸ List.mem_cons_self
  intro hnil
  exact n.grouped.group_ne_nil group hgroup (List.flatten_eq_nil_iff.1 hnil group hgroup)

/-- Reading a number in base sixteen gives its value. -/
theorem readHex?_text (n : HexNumeral) : Whole.readHex? n.text = some n.value := by
  obtain ⟨values, hvalues, hlength⟩ := exists_mapM_eq_some fun _ => isHex_of_mem_flatten (n := n)
  have hne : values ≠ [] := by
    rintro rfl
    exact n.flatten_ne_nil (List.length_eq_zero_iff.1 hlength.symm)
  obtain ⟨v, vs, rfl⟩ := List.exists_cons_of_ne_nil hne
  have hdrop : Whole.dropUnderscores (fun c => (Whole.hexValue? c).isSome)
      (Text.join ['_'] n.groups) = some n.groups.flatten :=
    Whole.dropUnderscores_join (by decide) n.grouped
  unfold Whole.readHex?
  rw [n.trimWhere_text, n.splitSign_core]
  simp only [n.dropHexMark_marked, hdrop, Option.bind_some, hvalues]
  rw [value, hvalues]
  rfl

/-- A number of digits alone. -/
def ofDigits (digits : Text) (hne : digits ≠ []) (h : ∀ c ∈ digits, Whole.isHex c = true) :
    HexNumeral where
  before := []
  sign := []
  mark := []
  groups := [digits]
  after := []
  padding := by simp
  signed := by simp
  marked := .inl rfl
  grouped := .singleton hne h

theorem text_ofDigits {digits : Text} (hne : digits ≠ []) (h : ∀ c ∈ digits, Whole.isHex c = true) :
    (ofDigits digits hne h).text = digits := by
  simp [text, core, ofDigits, Text.join_singleton]

theorem value_ofDigits {digits : Text} (hne : digits ≠ []) (h : ∀ c ∈ digits, Whole.isHex c = true) :
    (ofDigits digits hne h).value =
      Whole.signed false (Whole.value 16 ((digits.mapM Whole.hexValue?).getD [])) := by
  simp [value, ofDigits]

end HexNumeral

/-- A text that is read as a number in base sixteen is one in writing. -/
theorem Whole.exists_hexNumeral_of_readHex? {t : Text} {i : Int} (h : readHex? t = some i) :
    ∃ n : HexNumeral, n.text = t ∧ n.value = i := by
  obtain ⟨before, after, hpadding, htrim⟩ := Text.exists_trimWhere isPadding t
  obtain ⟨sign, hsign, hcore, hnegative⟩ := exists_sign (Text.trimWhere isPadding t)
  unfold readHex? at h
  dsimp only at h
  split at h
  · next d ds hvalues =>
    obtain ⟨digits, hdigits, hvalues⟩ := Option.bind_eq_some_iff.1 hvalues
    have hforall := forall₂_of_mapM_eq_some hvalues
    have hhex : ∀ c ∈ digits, isHex c = true := by
      intro c hc
      obtain ⟨v, -, hv⟩ := exists_of_mem_forall₂ hforall.flip hc
      rw [isHex, hv]
      rfl
    have hne : dropHexMark (splitSign (Text.trimWhere isPadding t)).2 ≠ [] := by
      intro hnil
      rw [hnil] at hdigits
      cases hdigits
      cases hforall
    obtain ⟨groups, hgroups, hjoin, rfl⟩ := exists_grouped_of_dropUnderscores hdigits hhex hne
    cases h
    obtain ⟨mark, hmark, hbody⟩ : ∃ mark, (mark = [] ∨ IsHexMark mark) ∧
        mark ++ Text.join ['_'] groups = (splitSign (Text.trimWhere isPadding t)).2 := by
      rw [hjoin]
      rcases dropHexMark_cases (splitSign (Text.trimWhere isPadding t)).2 with h | ⟨mark, hmark, h⟩
      · exact ⟨[], .inl rfl, h⟩
      · exact ⟨mark, .inr hmark, h⟩
    refine ⟨⟨before, sign, mark, groups, after, hpadding, hsign, hmark, hgroups⟩, ?_, ?_⟩
    · rw [HexNumeral.text, HexNumeral.core, hbody, hcore, htrim]
    · rw [HexNumeral.value, hnegative, hvalues]
      rfl
  · cases h

theorem Whole.readHex?_eq_some_iff {t : Text} {i : Int} :
    readHex? t = some i ↔ ∃ n : HexNumeral, n.text = t ∧ n.value = i := by
  constructor
  · exact exists_hexNumeral_of_readHex?
  · rintro ⟨n, rfl, rfl⟩
    exact n.readHex?_text

/-! ## Roles of characters -/

namespace Whole

/-- What a character can be in a number in base sixteen. -/
structure Role where
  padding : Bool
  value : Option Nat
  plus : Bool
  minus : Bool
  underscore : Bool
  letter : Bool
deriving DecidableEq

/-- The role of a character that stands in no number. -/
def Role.idle : Role :=
  ⟨false, none, false, false, false, false⟩

def role (c : Char) : Role where
  padding := isPadding c
  value := hexValue? c
  plus := c == '+'
  minus := c == '-'
  underscore := c == '_'
  letter := c == 'x' || c == 'X'

theorem role_ne_idle_iff {c : Char} :
    role c ≠ .idle ↔ isPadding c = true ∨ isHex c = true ∨ c ∈ ['+', '-', '_', 'x', 'X'] := by
  simp only [role, Role.idle, isHex, Ne, Role.mk.injEq, List.mem_cons, List.not_mem_nil, or_false,
    Option.isSome_iff_ne_none]
  grind

theorem eq_underscore_iff {c : Char} : c = '_' ↔ (role c).underscore = true :=
  beq_iff_eq.symm

theorem isMarked_iff {zero x : Char} :
    IsMarked zero x ↔ (role zero).value = some 0 ∧ (role x).letter = true := by
  simp [IsMarked, role]

theorem splitSign_cons (c : Char) (rest : Text) :
    splitSign (c :: rest) =
      if (role c).plus then (false, rest) else if (role c).minus then (true, rest)
      else (false, c :: rest) := by
  by_cases hplus : c = '+'
  · rw [hplus]
    rfl
  · by_cases hminus : c = '-'
    · rw [hminus]
      rfl
    · rw [splitSign_of_ne hplus hminus, if_neg (by simpa [role] using hplus),
        if_neg (by simpa [role] using hminus)]

/-- The texts are equal in the roles of their characters. -/
def SameRoles (t u : Text) : Prop :=
  t.map role = u.map role

namespace SameRoles

variable {t u : Text}

theorem trimWhere (h : SameRoles t u) :
    SameRoles (Text.trimWhere isPadding t) (Text.trimWhere isPadding u) := by
  have hroles (t : Text) : (Text.trimWhere isPadding t).map role =
      (((t.map role).dropWhile Role.padding).reverse.dropWhile Role.padding).reverse := by
    rw [List.dropWhile_map, ← List.map_reverse, List.dropWhile_map, ← List.map_reverse]
    rfl
  rw [SameRoles, hroles, hroles, h]

theorem exists_cons {c : Char} (h : SameRoles (c :: t) u) :
    ∃ d u', u = d :: u' ∧ role c = role d ∧ SameRoles t u' := by
  cases u with
  | nil => cases h
  | cons d u => exact ⟨d, u, rfl, (List.cons.inj h).1, (List.cons.inj h).2⟩

theorem length_eq (h : SameRoles t u) : t.length = u.length := by
  simpa using congrArg List.length h

theorem eq_nil (h : SameRoles [] u) : u = [] :=
  List.map_eq_nil_iff.1 h.symm

theorem splitSign (h : SameRoles t u) :
    (Whole.splitSign t).1 = (Whole.splitSign u).1 ∧
      SameRoles (Whole.splitSign t).2 (Whole.splitSign u).2 := by
  cases t with
  | nil =>
    rw [h.eq_nil]
    exact ⟨rfl, rfl⟩
  | cons c t =>
    obtain ⟨d, u, rfl, hrole, htail⟩ := h.exists_cons
    rw [splitSign_cons, splitSign_cons, ← hrole]
    split
    · exact ⟨rfl, htail⟩
    · split
      · exact ⟨rfl, htail⟩
      · exact ⟨rfl, h⟩

theorem head?_eq_underscore_iff (h : SameRoles t u) : t.head? = some '_' ↔ u.head? = some '_' := by
  cases t with
  | nil => rw [h.eq_nil]
  | cons c t =>
    obtain ⟨d, u, rfl, hrole, -⟩ := h.exists_cons
    rw [List.head?_cons, List.head?_cons, Option.some_inj, Option.some_inj, eq_underscore_iff, hrole,
      eq_underscore_iff]

theorem dropUnderscore (h : SameRoles t u) :
    SameRoles (Whole.dropUnderscore t) (Whole.dropUnderscore u) := by
  unfold Whole.dropUnderscore
  by_cases hhead : t.head? = some '_'
  · rw [if_pos hhead, if_pos (h.head?_eq_underscore_iff.1 hhead), SameRoles, List.map_tail,
      List.map_tail, h]
  · rw [if_neg hhead, if_neg (mt h.head?_eq_underscore_iff.2 hhead)]
    exact h

theorem dropHexMark (h : SameRoles t u) :
    SameRoles (Whole.dropHexMark t) (Whole.dropHexMark u) := by
  rcases t with - | ⟨zero, - | ⟨x, t⟩⟩
  · rw [h.eq_nil]
    rfl
  · obtain ⟨zero', u, rfl, -, hnil⟩ := h.exists_cons
    rw [hnil.eq_nil] at h ⊢
    exact h
  · obtain ⟨zero', u, rfl, hzero, htail⟩ := h.exists_cons
    obtain ⟨x', u, rfl, hx, hrest⟩ := htail.exists_cons
    have hmarked : IsMarked zero x ↔ IsMarked zero' x' := by
      rw [isMarked_iff, isMarked_iff, hzero, hx]
    rw [dropHexMark_cons_cons, dropHexMark_cons_cons]
    by_cases hmark : IsMarked zero x
    · rw [if_pos hmark, if_pos (hmarked.1 hmark)]
      exact hrest.dropUnderscore
    · rw [if_neg hmark, if_neg (mt hmarked.2 hmark)]
      exact h

theorem exists_underscore (h : SameRoles ('_' :: t) u) : ∃ u', u = '_' :: u' ∧ SameRoles t u' := by
  obtain ⟨d, u, rfl, hd, htail⟩ := h.exists_cons
  have hunderscore : (role d).underscore = true := by rw [← hd]; rfl
  rw [eq_underscore_iff.2 hunderscore]
  exact ⟨u, rfl, htail⟩

theorem isHex_eq {c d : Char} (h : role c = role d) : isHex c = isHex d :=
  congrArg (fun r : Role => r.value.isSome) h

theorem any_head?_eq (h : SameRoles t u) : t.head?.any isHex = u.head?.any isHex := by
  cases t with
  | nil => rw [h.eq_nil]
  | cons c t =>
    obtain ⟨d, u, rfl, hrole, -⟩ := h.exists_cons
    exact isHex_eq hrole

theorem map_role_cons (x : Option Text) (c : Char) :
    (x.map (c :: ·)).map (List.map role) = (x.map (List.map role)).map (role c :: ·) := by
  rw [Option.map_map, Option.map_map]
  rfl

theorem dropUnderscores (h : SameRoles t u) :
    (Whole.dropUnderscores isHex t).map (List.map role) =
      (Whole.dropUnderscores isHex u).map (List.map role) := by
  fun_induction Whole.dropUnderscores isHex t generalizing u with
  | case1 => rw [h.eq_nil, Whole.dropUnderscores]
  | case2 c d rest hdigits ih =>
    obtain ⟨c', u, rfl, hc, h⟩ := h.exists_cons
    obtain ⟨u, rfl, hrest⟩ := h.exists_underscore
    have hdigits' : (isHex c' && u.head?.any isHex) = true := by
      rw [← isHex_eq hc, ← hrest.any_head?_eq]
      exact hdigits
    rw [dropUnderscores_cons_underscore, if_pos hdigits', map_role_cons, map_role_cons, hc, ih hrest]
  | case3 c d rest hdigits =>
    obtain ⟨c', u, rfl, hc, h⟩ := h.exists_cons
    obtain ⟨u, rfl, hrest⟩ := h.exists_underscore
    have hdigits' : ¬ (isHex c' && u.head?.any isHex) = true := by
      rw [← isHex_eq hc, ← hrest.any_head?_eq]
      exact hdigits
    rw [dropUnderscores_cons_underscore, if_neg hdigits']
  | case4 rest =>
    obtain ⟨u, rfl, -⟩ := h.exists_underscore
    rw [dropUnderscores_underscore (by decide)]
  | case5 c =>
    obtain ⟨c', u, rfl, -, h⟩ := h.exists_cons
    obtain ⟨u, rfl, hrest⟩ := h.exists_underscore
    rw [dropUnderscores_cons_underscore, ← hrest.any_head?_eq, List.head?_nil, Option.any_none,
      Bool.and_false, if_neg Bool.false_ne_true]
  | case6 c rest hpair hc hlast ih =>
    obtain ⟨c', u, rfl, hrole, hrest⟩ := h.exists_cons
    have hc' : c' ≠ '_' := by
      rw [Ne, eq_underscore_iff, ← hrole, ← eq_underscore_iff]
      exact hc
    have hhead : u.head? ≠ some '_' := by
      rw [Ne, ← hrest.head?_eq_underscore_iff, List.head?_eq_some_iff]
      rintro ⟨- | ⟨d, tail⟩, rfl⟩
      · exact hlast rfl
      · exact hpair d tail rfl
    rw [dropUnderscores_cons hc' hhead, map_role_cons, map_role_cons, hrole, ih hrest]

theorem bind_mapM_hexValue? (x : Option Text) :
    x.bind (·.mapM hexValue?) = (x.map (List.map role)).bind (·.mapM Role.value) := by
  have hroles (t : Text) : t.mapM hexValue? = (t.map role).mapM Role.value := by
    rw [List.mapM_map]
    rfl
  rw [Option.bind_map]
  exact Option.bind_congr fun t _ => hroles t

/-- What is read as a number in base sixteen depends only on the roles of the characters. -/
theorem readHex?_eq (h : SameRoles t u) : readHex? t = readHex? u := by
  obtain ⟨hnegative, hbody⟩ := h.trimWhere.splitSign
  have hdigits := hbody.dropHexMark.dropUnderscores
  unfold isHex at hdigits
  unfold readHex?
  simp only [bind_mapM_hexValue?, hnegative, hdigits]

end SameRoles

end Whole

namespace HexNumeral

theorem role_ne_idle_of_mem_text {n : HexNumeral} {c : Char} (h : c ∈ n.text) :
    Whole.role c ≠ .idle := by
  rw [Whole.role_ne_idle_iff]
  rcases List.mem_append.1 h with h | h
  · rcases List.mem_append.1 h with h | h
    · exact .inl (n.padding c (List.mem_append_left _ h))
    · exact .inr (mem_core h)
  · exact .inl (n.padding c (List.mem_append_right _ h))

end HexNumeral

theorem Whole.readHex?_eq_none_of_idle {t : Text} {c : Char} (hc : c ∈ t) (h : role c = .idle) :
    readHex? t = none := by
  refine Option.eq_none_iff_forall_ne_some.2 fun i hi => ?_
  obtain ⟨n, rfl, -⟩ := readHex?_eq_some_iff.1 hi
  exact HexNumeral.role_ne_idle_of_mem_text hc h

/-! ## Code points of characters in numbers -/

theorem exists_of_digitValueIn
    {zs : List Nat} {n : Nat} (h : (digitValueIn zs n).isSome = true) :
    ∃ z ∈ zs, z ≤ n ∧ n ≤ z + 9 := by
  induction zs with
  | nil => cases h
  | cons z zs ih =>
    rw [digitValueIn] at h
    split at h
    · cases h
    · split at h
      · exact ⟨z, List.mem_cons_self, by omega, by omega⟩
      · obtain ⟨other, hmem, hbounds⟩ := ih h
        exact ⟨other, List.mem_cons_of_mem z hmem, hbounds⟩

namespace Whole

/-- The code points of the characters that may stand in a number in base sixteen. -/
def numberRanges : List (Nat × Nat) :=
  [(43, 43), (45, 45), (65, 70), (88, 88), (95, 95), (97, 102), (120, 120)] ++ blanks ++
    digitZeros.map fun z => (z, z + 9)

theorem exists_numberRange_of_isHex {c : Char} (h : isHex c = true) :
    ∃ range ∈ numberRanges, range.1 ≤ c.toNat ∧ c.toNat ≤ range.2 := by
  rcases isHex_cases h with h | h | h
  · rw [List.mem_range'_1] at h
    exact ⟨(97, 102), by simp [numberRanges], h.1, by omega⟩
  · rw [List.mem_range'_1] at h
    exact ⟨(65, 70), by simp [numberRanges], h.1, by omega⟩
  · obtain ⟨z, hmem, hbounds⟩ := exists_of_digitValueIn h
    exact ⟨(z, z + 9), List.mem_append_right _ (List.mem_map.2 ⟨z, hmem, rfl⟩), hbounds⟩

theorem exists_numberRange {c : Char} (h : role c ≠ .idle) :
    ∃ range ∈ numberRanges, range.1 ≤ c.toNat ∧ c.toNat ≤ range.2 := by
  rcases role_ne_idle_iff.1 h with h | h | h
  · obtain ⟨range, hmem, hbounds⟩ := exists_of_inRanges (Bool.and_eq_true_iff.1 h).1
    exact ⟨range, List.mem_append_left _ (List.mem_append_right _ hmem), hbounds⟩
  · exact exists_numberRange_of_isHex h
  · have hmarks : ['+', '-', '_', 'x', 'X'].all
        (fun c => numberRanges.contains (c.toNat, c.toNat)) = true := by decide
    exact ⟨(c.toNat, c.toNat), List.contains_iff_mem.1 (List.all_eq_true.1 hmarks c h),
      Nat.le_refl _, Nat.le_refl _⟩

end Whole

end Redline
