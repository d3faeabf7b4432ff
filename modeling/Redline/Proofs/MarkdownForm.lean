import Mathlib.Data.List.TakeDrop
import Mathlib.Data.List.TakeWhile
import Redline.Proofs.NativeReplacement

/-!
# Text that is nothing but text

The forms of markdown, said by what a text looks like.  A text is read as itself, without formats,
exactly when it has none of these forms and no escape or mark of one in it.  An image is recognised
before markdown, and its form is said in the same way.
-/

namespace Redline

namespace Text

/-- A text is cut at the first place of a piece. -/
theorem exists_cut?_append (piece before behind : Text) :
    ∃ before' behind', cut? piece (before ++ piece ++ behind) = some (before', behind') ∧
      before'.length ≤ before.length := by
  induction before with
  | nil =>
    have hstarts : startsWith piece ([] ++ piece ++ behind) = true := by
      rw [startsWith, List.isPrefixOf_iff_prefix]
      exact ⟨behind, rfl⟩
    cases hwhole : ([] ++ piece ++ behind : Text) with
    | nil =>
      have hpiece : piece = [] := by
        cases piece with
        | nil => rfl
        | cons c rest => cases hwhole
      subst hpiece
      exact ⟨[], [], rfl, Nat.le_refl _⟩
    | cons c rest =>
      rw [hwhole] at hstarts
      refine ⟨[], (c :: rest).drop piece.length, ?_, Nat.le_refl _⟩
      rw [cut?, if_pos hstarts]
  | cons c rest ih =>
    obtain ⟨before', behind', hcut, hlength⟩ := ih
    rw [List.cons_append, List.cons_append, cut?]
    split
    · exact ⟨[], _, rfl, Nat.zero_le _⟩
    · rw [hcut]
      exact ⟨c :: before', behind', rfl, Nat.succ_le_succ hlength⟩

theorem getElem?_of_lastIndexOf? {c : Char} {t : Text} {i : Nat} (h : lastIndexOf? c t = some i) :
    t[i]? = some c := by
  obtain ⟨j, hj, rfl⟩ := Option.map_eq_some_iff.1 h
  obtain ⟨hlt, hchar, -⟩ := List.findIdx?_eq_some_iff_getElem.1 hj
  rw [List.length_reverse] at hlt
  have hget : t.reverse[j]? = t[t.length - 1 - j]? := List.getElem?_reverse hlt
  rw [← hget, List.getElem?_eq_getElem (by simpa using hlt)]
  exact congrArg some (by simpa using hchar)

theorem exists_lastIndexOf?_append (c : Char) (before behind : Text) :
    ∃ i, lastIndexOf? c (before ++ c :: behind) = some i ∧ before.length ≤ i := by
  have hreverse : (before ++ c :: behind).reverse = behind.reverse ++ c :: before.reverse := by
    simp
  cases hfind : (before ++ c :: behind).reverse.findIdx? (· == c) with
  | none =>
    have hnone := List.findIdx?_eq_none_iff.1 hfind c (by simp)
    simp at hnone
  | some j =>
    refine ⟨(before ++ c :: behind).length - 1 - j, by rw [lastIndexOf?, hfind]; rfl, ?_⟩
    obtain ⟨hlt, -, hfirst⟩ := List.findIdx?_eq_some_iff_getElem.1 hfind
    -- The character is found at the latest where it stands, counted from the end.
    have hle : j ≤ behind.length := by
      by_contra hgt
      have hbefore := hfirst behind.length (by omega)
      simp [hreverse] at hbefore
    rw [List.length_append, List.length_cons]
    omega

theorem lastIndexOf?_append_cons {c : Char} {behind : Text} (h : c ∉ behind) (before : Text) :
    lastIndexOf? c (before ++ c :: behind) = some before.length := by
  have hfind : (before ++ c :: behind).reverse.findIdx? (· == c) = some behind.length := by
    rw [List.reverse_append, List.reverse_cons, List.append_assoc, List.findIdx?_append]
    have hnone : behind.reverse.findIdx? (· == c) = none := by
      rw [List.findIdx?_eq_none_iff]
      intro d hd
      refine beq_false_of_ne ?_
      rintro rfl
      exact h (List.mem_reverse.1 hd)
    rw [hnone, List.singleton_append, List.findIdx?_cons]
    simp
  rw [lastIndexOf?, hfind]
  simp

theorem lastIndexOf?_eq_some_iff {c : Char} {t : Text} {i : Nat} :
    lastIndexOf? c t = some i ↔
      ∃ before behind, t = before ++ c :: behind ∧ c ∉ behind ∧ before.length = i := by
  constructor
  · intro h
    have hmem : c ∈ t.reverse :=
      List.mem_reverse.2 (List.mem_of_getElem? (getElem?_of_lastIndexOf? h))
    obtain ⟨behind, before, heq, hbehind⟩ := List.eq_append_cons_of_mem hmem
    have ht : t = before.reverse ++ c :: behind.reverse := by
      rw [← List.reverse_reverse t, heq]
      simp
    have hlast : c ∉ behind.reverse := fun hc => hbehind (List.mem_reverse.1 hc)
    refine ⟨before.reverse, behind.reverse, ht, hlast, ?_⟩
    rw [ht, lastIndexOf?_append_cons hlast] at h
    exact Option.some.inj h
  · rintro ⟨before, behind, rfl, hlast, rfl⟩
    exact lastIndexOf?_append_cons hlast before

end Text

namespace Markdown

/-- The text stands between two marks, with something in between. -/
def Between (opening closing : String) (t : Text) : Prop :=
  ∃ inner, inner ≠ [] ∧ t = opening.toList ++ inner ++ closing.toList

/-- The text starts with the mark of a list item. -/
inductive ListMark : Text → Prop where
  | dash (rest : Text) : ListMark ('-' :: ' ' :: rest)
  | plus (rest : Text) : ListMark ('+' :: ' ' :: rest)
  | star {rest : Text} (hlast : ('*' :: ' ' :: rest).getLast? ≠ some '*') :
      ListMark ('*' :: ' ' :: rest)
  | number {d : Char} (hd : isDecimal d = true) (rest : Text) : ListMark (d :: '.' :: ' ' :: rest)

/-- The forms that markdown gives a meaning to. -/
inductive Form : Text → Prop where
  | rule {t : Text} (h : Text.trim t ∈ ["---", "***", "___"].map String.toList) : Form t
  | quote (rest : Text) : Form ('>' :: ' ' :: rest)
  | footnote {t : Text} (h : Between "[^" "]" t) : Form t
  | emphasis {t : Text} (h : Between "*" "*" t) : Form t
  | strike {t : Text} (h : Between "~~" "~~" t) : Form t
  | code {t : Text} (h : Between "`" "`" t) : Form t
  | link (label : Text) {target : Text} (h : target ≠ []) (rest : Text) :
      Form ('[' :: label ++ "](".toList ++ target ++ ')' :: rest)
  | item (level : Nat) {t : Text} (h : ListMark t) : Form (List.replicate (2 * level) ' ' ++ t)
  | heading (rest : Text) : Form ('#' :: rest)

theorem enclosed?_eq_some_iff {opening closing : String} {t inner : Text} :
    enclosed? opening closing t = some inner ↔
      inner ≠ [] ∧ t = opening.toList ++ inner ++ closing.toList := by
  simp only [enclosed?, Option.ite_none_right_eq_some, Option.some.injEq, Bool.and_eq_true,
    decide_eq_true_eq]
  have hpart : ∀ part : Text, ((opening.toList ++ part ++ closing.toList).take
      ((opening.toList ++ part ++ closing.toList).length - closing.toList.length)).drop
        opening.toList.length = part := by
    intro part
    rw [List.length_append, Nat.add_sub_cancel, List.take_left, List.drop_left]
  constructor
  · rintro ⟨⟨⟨hstarts, hends⟩, hlength⟩, hinner⟩
    have heq := Text.eq_append_of_startsWith hstarts
    have hsuffix : closing.toList <:+ t.drop opening.toList.length := by
      refine List.suffix_of_suffix_length_le (List.isSuffixOf_iff_suffix.1 hends)
        (List.drop_suffix _ _) ?_
      rw [List.length_drop]
      omega
    obtain ⟨part, hdrop⟩ := hsuffix
    rw [← hdrop, ← List.append_assoc] at heq
    rw [heq, hpart] at hinner
    subst hinner
    refine ⟨?_, heq⟩
    rintro rfl
    rw [heq] at hlength
    simp at hlength
  · rintro ⟨hinner, rfl⟩
    have hpos := List.length_pos_of_ne_nil hinner
    refine ⟨⟨⟨?_, ?_⟩, ?_⟩, hpart inner⟩
    · rw [Text.startsWith, List.isPrefixOf_iff_prefix, List.append_assoc]
      exact List.prefix_append _ _
    · rw [Text.endsWith, List.isSuffixOf_iff_suffix]
      exact List.suffix_append _ _
    · simp only [List.length_append]
      omega

theorem isSome_enclosed?_iff {opening closing : String} {t : Text} :
    (enclosed? opening closing t).isSome ↔ Between opening closing t := by
  simp only [Option.isSome_iff_exists, enclosed?_eq_some_iff, Between]

theorem isSome_link?_iff {t : Text} :
    (link? t).isSome ↔
      ∃ label target rest, target ≠ [] ∧
        t = '[' :: label ++ "](".toList ++ target ++ ')' :: rest := by
  constructor
  · intro h
    unfold link? at h
    split at h
    next tail =>
      split at h
      next x label behind close hcut hclose =>
        have heq := Text.eq_append_of_cut? hcut
        obtain ⟨rfl, -⟩ := List.cons.inj heq
        simp only [] at h
        split at h
        next hstart =>
          obtain ⟨k, rfl⟩ := Nat.exists_eq_add_of_lt hstart
          have hget := Text.getElem?_of_lastIndexOf? hclose
          have hbehind : behind[k + 1]? = some ')' := by
            rw [heq, List.getElem?_append_right (by simp; omega)] at hget
            rw [← hget]
            congr 1
            simp
            omega
          obtain ⟨hlt, hchar⟩ := List.getElem?_eq_some_iff.1 hbehind
          refine ⟨label, behind.take (k + 1), behind.drop (k + 2), ?_, ?_⟩
          · intro hnil
            have hlength := congrArg List.length hnil
            rw [List.length_take, List.length_nil] at hlength
            omega
          · rw [heq, ← hchar, List.append_assoc _ _ (behind[k + 1] :: _), List.getElem_cons_drop,
              List.take_append_drop]
        next => cases h
      next => cases h
    next => cases h
  · rintro ⟨label, target, rest, htarget, rfl⟩
    have hpos := List.length_pos_of_ne_nil htarget
    obtain ⟨before, behind, hcut, hbefore⟩ :=
      Text.exists_cut?_append "](".toList ('[' :: label) (target ++ ')' :: rest)
    rw [← List.append_assoc] at hcut
    obtain ⟨close, hclose, hle⟩ :=
      Text.exists_lastIndexOf?_append ')' ('[' :: label ++ "](".toList ++ target) rest
    have heq := Text.eq_append_of_cut? hcut
    cases before with
    | nil => exact absurd (List.cons.inj heq).1 (by decide)
    | cons x label' =>
      rw [List.length_cons, List.length_cons] at hbefore
      simp only [List.length_append, List.length_cons] at hle
      have hstart : label'.length + 3 < close := by
        have hmiddle : "](".toList.length = 2 := rfl
        omega
      have hopen : '[' :: label ++ "](".toList ++ target ++ ')' :: rest =
          '[' :: (label ++ "](".toList ++ target ++ ')' :: rest) := rfl
      rw [hopen] at hcut hclose ⊢
      simp only [link?, hcut, hclose, if_pos hstart]
      rfl

theorem isSome_listItem?_iff {t : Text} : (listItem? t).isSome ↔ ListMark t := by
  fun_cases listItem? t with
  | case1 rest => simpa using ListMark.dash rest
  | case2 rest => simpa using ListMark.plus rest
  | case3 rest hlast =>
    rw [if_pos hlast]
    refine ⟨fun h => (by cases h), fun h => ?_⟩
    cases h with
    | star hother => exact absurd (beq_iff_eq.1 hlast) hother
  | case4 rest hlast =>
    rw [if_neg hlast]
    exact ⟨fun _ => .star (mt beq_iff_eq.2 hlast), fun _ => rfl⟩
  | case5 t hnumber =>
    rw [if_pos hnumber]
    refine ⟨fun _ => ?_, fun _ => rfl⟩
    revert hnumber
    fun_cases startsNumbered t with
    | case1 d rest => exact fun hd => .number hd rest
    | case2 => exact fun h => by cases h
  | case6 t hnumber hdash hplus hstar =>
    rw [if_neg hnumber]
    refine ⟨fun h => (by cases h), fun h => ?_⟩
    cases h with
    | dash rest => exact absurd rfl (hdash rest)
    | plus rest => exact absurd rfl (hplus rest)
    | star hlast => exact absurd rfl (hstar _)
    | number hd rest => exact absurd hd hnumber

theorem nesting_eq (t : Text) :
    t = List.replicate (2 * (nesting t).1) ' ' ++ (nesting t).2 := by
  fun_induction nesting t with
  | case1 rest level tail hrest ih =>
    rw [hrest] at ih
    rw [ih, show 2 * (level + 1) = 2 * level + 1 + 1 by omega, List.replicate_succ,
      List.replicate_succ]
    rfl
  | case2 t hother => rfl

theorem nesting_append {t : Text} (h : ListMark t) (level : Nat) :
    nesting (List.replicate (2 * level) ' ' ++ t) = (level, t) := by
  induction level with
  | zero =>
    cases h with
    | dash rest => rfl
    | plus rest => rfl
    | star hlast => rfl
    | number hd rest =>
      unfold nesting
      split
      next heq => exact absurd (List.cons.inj (List.cons.inj heq).2).1 (by decide)
      next => rfl
  | succ level ih =>
    rw [show 2 * (level + 1) = 2 * level + 1 + 1 by omega, List.replicate_succ,
      List.replicate_succ, List.cons_append, List.cons_append, nesting, ih]

theorem isSome_listItem?_nesting_iff {t : Text} :
    (listItem? (nesting t).2).isSome ↔
      ∃ level item, ListMark item ∧ t = List.replicate (2 * level) ' ' ++ item := by
  constructor
  · intro h
    exact ⟨(nesting t).1, (nesting t).2, isSome_listItem?_iff.1 h, nesting_eq t⟩
  · rintro ⟨level, item, hitem, rfl⟩
    rw [nesting_append hitem]
    exact isSome_listItem?_iff.2 hitem

theorem isRule_iff {t : Text} :
    isRule t = true ↔ Text.trim t ∈ ["---", "***", "___"].map String.toList := by
  rw [isRule, List.any_eq_true, List.mem_map]
  simp only [beq_iff_eq]

/-- A text between longer marks stands between their outer parts. -/
theorem Between.outer
    {opening closing opening' closing' : String} {x y t : Text}
    (h : Between opening closing t) (hopening : opening.toList = opening'.toList ++ x)
    (hclosing : closing.toList = y ++ closing'.toList) :
    Between opening' closing' t := by
  obtain ⟨inner, hinner, rfl⟩ := h
  refine ⟨x ++ inner ++ y, by simp [hinner], ?_⟩
  rw [hopening, hclosing]
  simp only [List.append_assoc]

/-- Without a form of its own, a text is read without formats. -/
theorem inline_eq_self {t : Text} (h : ¬ Form t) : inline t = (t, []) := by
  have hstar : ¬ Between "*" "*" t := fun hbetween => h (.emphasis hbetween)
  have hnone : ∀ opening closing, ¬ Between opening closing t →
      enclosed? opening closing t = none := by
    intro opening closing hnot
    exact Option.not_isSome_iff_eq_none.1 (mt isSome_enclosed?_iff.1 hnot)
  have hlink : link? t = none := by
    refine Option.not_isSome_iff_eq_none.1 fun hsome => ?_
    obtain ⟨label, target, rest, htarget, rfl⟩ := isSome_link?_iff.1 hsome
    exact h (.link label htarget rest)
  have hheading : heading? t = none := by
    refine heading?_eq_none_iff.2 fun hstarts => ?_
    obtain ⟨rest, rfl⟩ := hstarts
    exact h (.heading rest)
  have hthree : ¬ Between "***" "***" t := fun hbetween =>
    hstar (hbetween.outer (x := ['*', '*']) (y := ['*', '*']) rfl rfl)
  have htwo : ¬ Between "**" "**" t := fun hbetween =>
    hstar (hbetween.outer (x := ['*']) (y := ['*']) rfl rfl)
  have hstrike : ¬ Between "~~" "~~" t := fun hbetween => h (.strike hbetween)
  have hcode : ¬ Between "`" "`" t := fun hbetween => h (.code hbetween)
  simp only [inline, hnone _ _ hthree, hnone _ _ htwo, hnone _ _ hstar, hnone _ _ hstrike,
    hnone _ _ hcode, hlink, hheading]

/-- A text that has no form once its escapes are out of sight is kept, without formats. -/
theorem read_of_not_form_escape {t : Text} (h : ¬ Form (escape t)) :
    read t = (unescape (escape t), []) := by
  have hrule : isRule (escape t) = false := by
    rw [← Bool.not_eq_true]
    exact fun hrule => h (.rule (isRule_iff.1 hrule))
  have hcode : enclosed? "```" "```" (escape t) = none := by
    refine Option.not_isSome_iff_eq_none.1 fun hsome => h (.code ?_)
    exact (isSome_enclosed?_iff.1 hsome).outer (x := "``".toList) (y := "``".toList) rfl rfl
  have hquote : Text.after? "> ".toList (escape t) = none := by
    refine Option.not_isSome_iff_eq_none.1 fun hsome => ?_
    obtain ⟨rest, hrest⟩ := Option.isSome_iff_exists.1 hsome
    rw [Text.eq_append_of_after? hrest] at h
    exact h (.quote rest)
  have hfootnote : enclosed? "[^" "]" (escape t) = none :=
    Option.not_isSome_iff_eq_none.1 fun hsome => h (.footnote (isSome_enclosed?_iff.1 hsome))
  have hitem : listItem? (nesting (escape t)).2 = none := by
    refine Option.not_isSome_iff_eq_none.1 fun hsome => ?_
    obtain ⟨level, item, hitem, heq⟩ := isSome_listItem?_nesting_iff.1 hsome
    rw [heq] at h
    exact h (.item level hitem)
  simp only [read, hrule, hcode, hquote, hfootnote, hitem, inline_eq_self h]
  rfl

theorem read_of_not_form {t : Text} (hescape : escape t = t) (h : ¬ Form t) :
    read t = (unescape t, []) := by
  have hread := read_of_not_form_escape (t := t) (hescape.symm ▸ h)
  rwa [hescape] at hread

theorem not_form_of_inline
    {t : Text} (h : (inline t).2 = []) :
    ¬ Between "*" "*" t ∧ ¬ Between "~~" "~~" t ∧ ¬ Between "`" "`" t ∧ link? t = none ∧
      heading? t = none := by
  have hnone : ∀ {opening closing}, enclosed? opening closing t = none →
      ¬ Between opening closing t := by
    intro opening closing heq hbetween
    have hsome := isSome_enclosed?_iff.2 hbetween
    rw [heq] at hsome
    cases hsome
  revert h
  fun_cases inline t with
  | case8 _ _ hstar hstrike hcode hlink hheading =>
    exact fun _ => ⟨hnone hstar, hnone hstrike, hnone hcode, hlink, hheading⟩
  | _ => exact fun h => absurd h (List.cons_ne_nil _ _)

/-- A text that is read without formats has no form. -/
theorem not_form_of_read {t : Text} (hescape : escape t = t) (h : (read t).2 = []) : ¬ Form t := by
  revert h
  fun_cases read t with
  | case6 s hrule _ hquote hfootnote level tail hnesting hitem plain formats hinline =>
    intro h hform
    have hs : s = t := hescape
    rw [hs] at hrule hquote hfootnote hnesting hinline
    have hlast : (inline t).2 = [] := by
      rw [hinline]
      exact h
    obtain ⟨hstar, hstrike, hcode', hlink, hheading⟩ := not_form_of_inline hlast
    cases hform with
    | rule hform => exact hrule (isRule_iff.2 hform)
    | quote rest => cases hquote
    | footnote hform =>
      have hsome := isSome_enclosed?_iff.2 hform
      rw [hfootnote] at hsome
      cases hsome
    | emphasis hform => exact hstar hform
    | strike hform => exact hstrike hform
    | code hform => exact hcode' hform
    | link label htarget rest =>
      have hsome := isSome_link?_iff.2 ⟨label, _, rest, htarget, rfl⟩
      rw [hlink] at hsome
      cases hsome
    | item level hform =>
      rw [nesting_append hform] at hnesting
      cases hnesting
      have hsome := isSome_listItem?_iff.2 hform
      rw [hitem] at hsome
      cases hsome
    | heading rest => exact heading?_eq_none_iff.1 hheading ⟨rest, rfl⟩
  | _ => exact fun h => absurd h (List.cons_ne_nil _ _)

/-- A text is read as itself, without formats, exactly when it has no form, no escape and no mark
of one. -/
theorem read_eq_self_iff {t : Text} :
    read t = (t, []) ↔
      ¬ Form t ∧ ¬ ['\\', 'n'] <:+: t ∧
        ∀ entry ∈ escapable, ¬ ['\\', entry.1] <:+: t ∧ ¬ mark entry.2 <:+: t := by
  constructor
  · intro h
    have hformats : (read t).2 = [] := congrArg Prod.snd h
    have hkept : unescape (escape t) = t :=
      (read_of_formats_eq_nil hformats).1.symm.trans (congrArg Prod.fst h)
    obtain ⟨hescape, hunescape⟩ := unescape_escape_eq_iff.1 hkept
    obtain ⟨hnewline, hescapes⟩ := escape_eq_self_iff.1 hescape
    refine ⟨not_form_of_read hescape hformats, hnewline, ?_⟩
    intro entry hentry
    exact ⟨hescapes entry hentry, unescape_eq_self_iff.1 hunescape entry hentry⟩
  · rintro ⟨hform, hnewline, hentries⟩
    have hescape : escape t = t :=
      escape_eq_self_iff.2 ⟨hnewline, fun entry hentry => (hentries entry hentry).1⟩
    have hunescape : unescape t = t :=
      unescape_eq_self_iff.2 fun entry hentry => (hentries entry hentry).2
    rw [read_of_not_form hescape hform, hunescape]

end Markdown

namespace ImageSpec

/-- The form of an image: an alternative text in brackets, and an address that comes to an end. -/
def Form (t : Text) : Prop :=
  ∃ alt address stop rest, stop ∈ ['"', ')', '\x7b'] ∧
    t = "![".toList ++ alt ++ "](".toList ++ address ++ stop :: rest

/-- An address comes to an end exactly when there is a character that ends it. -/
theorem breakAt_snd_ne_nil_iff {t : Text} :
    (Text.breakAt endsAddress t).2 ≠ [] ↔
      ∃ address stop rest, endsAddress stop = true ∧ t = address ++ stop :: rest := by
  rw [Text.breakAt, List.span_eq_takeWhile_dropWhile]
  constructor
  · intro hne
    have hstop := List.head_dropWhile_not (fun c => !endsAddress c) hne
    refine ⟨t.takeWhile fun c => !endsAddress c, _,
      (t.dropWhile fun c => !endsAddress c).tail, by simpa using hstop, ?_⟩
    rw [List.cons_head_tail, List.takeWhile_append_dropWhile]
  · rintro ⟨address, stop, rest, hstop, rfl⟩ hnil
    have hall := List.dropWhile_eq_nil_iff.1 hnil stop (by simp)
    simp [hstop] at hall

theorem isSome_read?_iff_cut? {t : Text} :
    (read? t).isSome ↔
      Text.startsWith "![".toList t = true ∧ ∃ before behind,
        Text.cut? "](".toList t = some (before, behind) ∧
          (Text.breakAt endsAddress behind).2 ≠ [] := by
  unfold read?
  by_cases hstarts : Text.startsWith "![".toList t = true
  · have hafter : Text.after? "![".toList t = some (t.drop 2) := by
      rw [Text.after?, if_pos hstarts]
      rfl
    rw [hafter]
    cases hcut : Text.cut? "](".toList t with
    | none =>
      refine ⟨fun h => (by cases h), ?_⟩
      rintro ⟨-, before, behind, hsome, -⟩
      cases hsome
    | some cut =>
      obtain ⟨before, behind⟩ := cut
      simp only [Option.bind_eq_bind, Option.bind_some, List.isEmpty_iff]
      by_cases hnil : (Text.breakAt endsAddress behind).2 = []
      · rw [if_pos hnil]
        refine ⟨fun h => (by cases h), ?_⟩
        rintro ⟨-, before', behind', hsome, hne⟩
        cases hsome
        exact absurd hnil hne
      · rw [if_neg hnil]
        exact ⟨fun _ => ⟨hstarts, before, behind, rfl, hnil⟩, fun _ => rfl⟩
  · have hafter : Text.after? "![".toList t = none := by
      rw [Text.after?, if_neg hstarts]
    rw [hafter]
    exact ⟨fun h => (by cases h), fun h => absurd h.1 hstarts⟩

theorem isSome_read?_iff {t : Text} : (read? t).isSome ↔ Form t := by
  have hends : ∀ c, endsAddress c = true ↔ c ∈ ['"', ')', '\x7b'] := by
    intro c
    simp [endsAddress, or_assoc]
  rw [isSome_read?_iff_cut?]
  constructor
  · rintro ⟨hstarts, before, behind, hcut, hne⟩
    obtain ⟨address, stop, rest, hstop, rfl⟩ := breakAt_snd_ne_nil_iff.1 hne
    have heq := Text.eq_append_of_cut? hcut
    have hopen : "![".toList = ['!', '['] := rfl
    have hmiddle : "](".toList = [']', '('] := rfl
    rw [Text.startsWith, List.isPrefixOf_iff_prefix, heq, hopen, hmiddle] at hstarts
    -- The brackets of the alternative text stand before the place where the text is cut.
    obtain ⟨tail, htail⟩ := hstarts
    rcases before with _ | ⟨x, _ | ⟨y, alt⟩⟩
    · exact absurd (List.cons.inj htail).1 (by decide)
    · exact absurd (List.cons.inj (List.cons.inj htail).2).1 (by decide)
    · have hx : '!' = x := (List.cons.inj htail).1
      have hy : '[' = y := (List.cons.inj (List.cons.inj htail).2).1
      refine ⟨alt, address, stop, rest, (hends stop).1 hstop, ?_⟩
      rw [heq, hopen, hmiddle, ← hx, ← hy]
      simp
  · rintro ⟨alt, address, stop, rest, hstop, rfl⟩
    obtain ⟨before, behind, hcut, hbefore⟩ :=
      Text.exists_cut?_append "](".toList ("![".toList ++ alt) (address ++ stop :: rest)
    rw [← List.append_assoc] at hcut
    have heq := Text.eq_append_of_cut? hcut
    refine ⟨?_, before, behind, hcut, ?_⟩
    · rw [Text.startsWith, List.isPrefixOf_iff_prefix]
      simp only [List.append_assoc]
      exact List.prefix_append _ _
    · rw [breakAt_snd_ne_nil_iff]
      -- What is left behind the first cut still ends with the address and its end.
      have hsuffix : address ++ stop :: rest <:+ behind := by
        rw [List.append_assoc _ address] at heq
        have hbehind : behind <:+ "![".toList ++ alt ++ "](".toList ++ (address ++ stop :: rest) :=
          heq ▸ List.suffix_append _ _
        refine List.suffix_of_suffix_length_le (List.suffix_append _ _) hbehind ?_
        have hlength := congrArg List.length heq
        simp only [List.length_append] at hlength hbefore ⊢
        omega
      obtain ⟨more, rfl⟩ := hsuffix
      exact ⟨more ++ address, stop, rest, (hends stop).2 hstop, by simp⟩

end ImageSpec

namespace Markdown

/-- A text that is written as it is: no image, no form of markdown, no escape and no mark of one. -/
structure Verbatim (t : Text) : Prop where
  image : ¬ ImageSpec.Form t
  form : ¬ Form t
  newline : ¬ ['\\', 'n'] <:+: t
  escapes : ∀ entry ∈ escapable, ¬ ['\\', entry.1] <:+: t ∧ ¬ mark entry.2 <:+: t

theorem verbatim_iff {t : Text} :
    Verbatim t ↔ ImageSpec.read? t = none ∧ read t = (t, []) := by
  rw [← Option.not_isSome_iff_eq_none, ImageSpec.isSome_read?_iff, read_eq_self_iff]
  constructor
  · intro h
    exact ⟨h.image, h.form, h.newline, h.escapes⟩
  · rintro ⟨himage, hform, hnewline, hescapes⟩
    exact ⟨himage, hform, hnewline, hescapes⟩

end Markdown

end Redline
