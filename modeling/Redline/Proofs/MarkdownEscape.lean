import Mathlib.Data.Bool.AllAny
import Redline.Markdown.Escape
import Redline.Proofs.Replacing

/-!
# Escapes in markdown, back and forth

Reading markdown hides escaped characters behind marks and puts the characters back afterwards.  The
two passes together leave a text as it is exactly when each of them does: a text with an escape or a
mark in it is changed, also where a mark is made up from the text and the mark of an escape.
-/

namespace Redline.Markdown

open Text (replaceBy)

/-! ## The two rules -/

/-- The names of marks have only characters that neither rule puts into a text. -/
theorem name_chars : ∀ entry ∈ escapable, ∀ c ∈ "ESC_".toList ++ entry.2.toList,
    c ≠ '\x00' ∧ c ≠ '\n' ∧ ∀ other ∈ escapable, c ≠ other.1 := by
  have hall : ∀ entry ∈ escapable, ("ESC_".toList ++ entry.2.toList).all (fun c =>
      c ≠ '\x00' ∧ c ≠ '\n' ∧ ∀ other ∈ escapable, c ≠ other.1) = true := by
    decide +kernel
  intro entry hentry
  exact List.all_iff_forall_prop.1 (hall entry hentry)

theorem mark_append (name : String) (u : Text) :
    mark name ++ u = '\x00' :: (("ESC_".toList ++ name.toList) ++ '\x00' :: u) := by
  have hmark : mark name = '\x00' :: ("ESC_".toList ++ name.toList ++ ['\x00']) := rfl
  rw [hmark, List.cons_append, List.append_assoc _ ['\x00'], List.singleton_append]

theorem escapeRule_eq_some
    {t new : Text} {used : Nat} (h : escapeRule t = some (used, new)) :
    ∃ c rest, t = '\\' :: c :: rest ∧ used = 2 ∧
      (c = 'n' ∧ new = ['\n'] ∨ ∃ name, (c, name) ∈ escapable ∧ new = mark name) := by
  unfold escapeRule at h
  split at h
  next rest =>
    cases h
    exact ⟨'n', rest, rfl, rfl, .inl ⟨rfl, rfl⟩⟩
  next c rest _ =>
    obtain ⟨⟨d, name⟩, hfind, heq⟩ := Option.map_eq_some_iff.1 h
    obtain ⟨rfl, rfl⟩ := Prod.mk.inj heq
    have hd : d = c := by simpa using List.find?_some hfind
    subst hd
    exact ⟨d, rest, rfl, rfl, .inr ⟨name, List.mem_of_find?_eq_some hfind, rfl⟩⟩
  next => cases h

theorem escapeRule_of_mem
    {entry : Char × String} (h : entry ∈ escapable) (rest : Text) :
    escapeRule ('\\' :: entry.1 :: rest) = some (2, mark entry.2) := by
  have hfind : ∀ entry ∈ escapable, entry.1 ≠ 'n' ∧
      escapable.find? (·.1 == entry.1) = some entry := by
    decide +kernel
  obtain ⟨hne, hentry⟩ := hfind entry h
  rw [escapeRule, hentry]
  · rfl
  · exact fun hn => hne hn

theorem unescapeRule_eq_some
    {t new : Text} {used : Nat} (h : unescapeRule t = some (used, new)) :
    ∃ entry ∈ escapable, ∃ rest, t = mark entry.2 ++ rest ∧ used = (mark entry.2).length ∧
      new = [entry.1] := by
  obtain ⟨⟨c, name⟩, hfind, heq⟩ := Option.map_eq_some_iff.1 h
  obtain ⟨rfl, rfl⟩ := Prod.mk.inj heq
  have hstarts : Text.startsWith (mark name) t = true := by simpa using List.find?_some hfind
  exact ⟨(c, name), List.mem_of_find?_eq_some hfind, _, Text.eq_append_of_startsWith hstarts, rfl,
    rfl⟩

theorem used_pos_of_unescapeRule
    (t : Text) (used : Nat) (new : Text) (h : unescapeRule t = some (used, new)) : 0 < used := by
  obtain ⟨entry, -, tail, -, rfl, -⟩ := unescapeRule_eq_some h
  exact Nat.succ_pos _

/-- Marks at the start of one text have one name. -/
theorem name_eq_of_mark_append_eq
    {entry other : Char × String} (hentry : entry ∈ escapable) (hother : other ∈ escapable)
    {u v : Text} (h : mark entry.2 ++ u = mark other.2 ++ v) : entry.2 = other.2 := by
  -- A name ends at the next character that marks are made with.
  have hname : ∀ e ∈ escapable, ∀ w,
      ("ESC_".toList ++ e.2.toList ++ '\x00' :: w).takeWhile (· != '\x00') =
        "ESC_".toList ++ e.2.toList := by
    intro e he w
    have hchars : ∀ c ∈ "ESC_".toList ++ e.2.toList, (c != '\x00') = true := fun c hc =>
      bne_iff_ne.2 (name_chars e he c hc).1
    rw [List.takeWhile_append_of_pos hchars, List.takeWhile_cons_of_neg (by simp), List.append_nil]
  rw [mark_append, mark_append] at h
  have hnames := congrArg (List.takeWhile (· != '\x00')) (List.cons.inj h).2
  rw [hname entry hentry, hname other hother] at hnames
  exact String.toList_injective (List.append_cancel_left hnames)

theorem eq_of_name_eq : ∀ entry ∈ escapable, ∀ other ∈ escapable,
    entry.2 = other.2 → entry = other := by
  decide +kernel

theorem unescapeRule_of_mem
    {entry : Char × String} (h : entry ∈ escapable) (rest : Text) :
    unescapeRule (mark entry.2 ++ rest) = some ((mark entry.2).length, [entry.1]) := by
  have hstarts : Text.startsWith (mark entry.2) (mark entry.2 ++ rest) = true :=
    List.isPrefixOf_iff_prefix.2 (List.prefix_append _ _)
  cases hrule : unescapeRule (mark entry.2 ++ rest) with
  | none =>
    have hnone := List.find?_eq_none.1 (Option.map_eq_none_iff.1 hrule) entry h
    exact absurd hstarts hnone
  | some result =>
    obtain ⟨used, new⟩ := result
    obtain ⟨other, hother, tail, heq, rfl, rfl⟩ := unescapeRule_eq_some hrule
    rw [eq_of_name_eq entry h other hother (name_eq_of_mark_append_eq h hother heq)]

/-! ## Texts that a rule leaves as they are -/

theorem mark_ne_nil (name : String) : mark name ≠ [] :=
  List.cons_ne_nil _ _

theorem unescape_mark_append
    {entry : Char × String} (h : entry ∈ escapable) (rest : Text) :
    unescape (mark entry.2 ++ rest) = entry.1 :: unescape rest := by
  have hne : mark entry.2 ++ rest ≠ [] := List.append_ne_nil_of_left_ne_nil (mark_ne_nil _) _
  rw [unescape, Text.replaceBy_of_some hne (unescapeRule_of_mem h rest)
    (List.length_pos_iff.2 (mark_ne_nil _)), List.drop_left]
  rfl

theorem unescape_cons_of_ne
    {c : Char} (h : c ≠ '\x00') (rest : Text) : unescape (c :: rest) = c :: unescape rest := by
  apply Text.replaceBy_of_none
  cases hrule : unescapeRule (c :: rest) with
  | none => rfl
  | some result =>
    obtain ⟨entry, -, tail, heq, -⟩ := unescapeRule_eq_some hrule
    exact absurd (List.cons.inj heq).1 h

/-- Marks are made with a character that cannot be escaped. -/
theorem nul_ne_of_mem : ∀ entry ∈ escapable, entry.1 ≠ '\x00' := by
  decide

/-- Marks hold no character that can be escaped. -/
theorem not_mem_mark : ∀ entry ∈ escapable, ∀ other ∈ escapable, other.1 ∉ mark entry.2 := by
  decide +kernel

/-- What stands at the start of a text after the second pass, and is no escapable character, stood
there before. -/
theorem isPrefix_of_isPrefix_unescape
    {s w : Text} (hs : ∀ c ∈ s, ∀ entry ∈ escapable, c ≠ entry.1) (h : s <+: unescape w) :
    s <+: w := by
  induction s generalizing w with
  | nil => exact List.nil_prefix
  | cons a s ih =>
    cases w with
    | nil => exact h
    | cons d w =>
      cases hrule : unescapeRule (d :: w) with
      | none =>
        rw [unescape, Text.replaceBy_of_none hrule, List.cons_prefix_cons] at h
        obtain ⟨rfl, hrest⟩ := h
        have hlead := ih (fun c hc => hs c (List.mem_cons_of_mem a hc)) hrest
        exact List.cons_prefix_cons.2 ⟨rfl, hlead⟩
      | some result =>
        obtain ⟨entry, hentry, rest, heq, -⟩ := unescapeRule_eq_some hrule
        rw [heq, unescape_mark_append hentry, List.cons_prefix_cons] at h
        exact absurd h.1 (hs a List.mem_cons_self entry hentry)

/-- The second pass leaves no mark. -/
theorem mark_not_infix_unescape
    {entry : Char × String} (h : entry ∈ escapable) (w : Text) :
    ¬ mark entry.2 <:+: unescape w := by
  have hchars : ∀ c ∈ mark entry.2, ∀ other ∈ escapable, c ≠ other.1 := by
    rintro _ hc other hother rfl
    exact not_mem_mark entry h other hother hc
  induction w using Text.induction_by_rule used_pos_of_unescapeRule with
  | nil => exact fun hpart => mark_ne_nil _ (List.infix_nil.1 hpart)
  | keep c rest hrule ih =>
    intro hpart
    rw [unescape, Text.replaceBy_of_none hrule, List.infix_cons_iff] at hpart
    rcases hpart with hlead | hpart
    · rw [← Text.replaceBy_of_none hrule] at hlead
      obtain ⟨tail, htail⟩ := isPrefix_of_isPrefix_unescape hchars hlead
      rw [← htail, unescapeRule_of_mem h] at hrule
      cases hrule
    · exact ih hpart
  | use c rest used new hrule ih =>
    intro hpart
    obtain ⟨other, hother, tail, heq, rfl, rfl⟩ := unescapeRule_eq_some hrule
    rw [heq, List.drop_left] at ih
    rw [heq, unescape_mark_append hother, List.infix_cons_iff] at hpart
    rcases hpart with hlead | hpart
    · obtain ⟨v, hv⟩ := hlead
      exact nul_ne_of_mem other hother (List.cons.inj hv).1.symm
    · exact ih hpart

theorem used_pos_of_escapeRule
    (t : Text) (used : Nat) (new : Text) (h : escapeRule t = some (used, new)) : 0 < used := by
  obtain ⟨c, rest, -, rfl, -⟩ := escapeRule_eq_some h
  decide

/-- An escape gives way to a newline or to the mark of its character. -/
theorem escape_of_escapeRule
    {t new : Text} {used : Nat} (h : escapeRule t = some (used, new)) :
    ∃ c rest, t = '\\' :: c :: rest ∧ rest = t.drop used ∧
      (escape t = '\n' :: escape rest ∨
        ∃ entry ∈ escapable, c = entry.1 ∧ escape t = mark entry.2 ++ escape rest) := by
  obtain ⟨c, rest, rfl, rfl, hnew⟩ := escapeRule_eq_some h
  have heq := Text.replaceBy_of_some (List.cons_ne_nil _ _) h (by decide)
  refine ⟨c, rest, rfl, rfl, ?_⟩
  rcases hnew with ⟨-, rfl⟩ | ⟨name, hentry, rfl⟩
  · exact .inl heq
  · exact .inr ⟨(c, name), hentry, rfl, heq⟩

/-- What stands at the start of a text after the first pass, and is put there by no escape, stood
there before. -/
theorem exists_of_escape_eq_append
    {s r u : Text} (hs : ∀ c ∈ s, c ≠ '\x00' ∧ c ≠ '\n') (h : escape r = s ++ u) :
    ∃ rest, r = s ++ rest ∧ escape rest = u := by
  induction s generalizing r with
  | nil => exact ⟨r, rfl, h⟩
  | cons a s ih =>
    obtain ⟨hnul, hnewline⟩ := hs a List.mem_cons_self
    cases r with
    | nil => cases h
    | cons d r =>
      cases hrule : escapeRule (d :: r) with
      | none =>
        rw [escape, Text.replaceBy_of_none hrule] at h
        obtain ⟨rfl, hrest⟩ := List.cons.inj h
        obtain ⟨rest, rfl, hu⟩ := ih (fun c hc => hs c (List.mem_cons_of_mem d hc)) hrest
        exact ⟨rest, rfl, hu⟩
      | some result =>
        obtain ⟨c, tail, -, -, hnewline' | ⟨entry, -, -, hmark⟩⟩ := escape_of_escapeRule hrule
        · exact absurd (List.cons.inj (h.symm.trans hnewline')).1 hnewline
        · exact absurd (List.cons.inj (h.symm.trans hmark)).1 hnul

theorem replicate_append_cons (k : Nat) (c : Char) (t : Text) :
    List.replicate k c ++ c :: t = List.replicate (k + 1) c ++ t := by
  rw [List.replicate_succ', List.append_assoc, List.singleton_append]

/-- Where a mark stands at the start of a text after the first pass, what the second pass makes of
the rest is not the whole text that was there. -/
theorem unescape_ne_of_escape_eq_mark
    {entry : Char × String} (h : entry ∈ escapable) {rest u : Text}
    (hmark : '\x00' :: escape rest = mark entry.2 ++ u) (k : Nat) :
    unescape u ≠ List.replicate k '\\' ++ '\x00' :: rest := by
  intro heq
  rw [mark_append] at hmark
  obtain ⟨tail, rfl, htail⟩ := exists_of_escape_eq_append
    (fun c hc => ⟨(name_chars entry h c hc).1, (name_chars entry h c hc).2.1⟩)
    (List.cons.inj hmark).2
  cases tail with
  | nil => cases htail
  | cons d tail =>
    cases hrule : escapeRule (d :: tail) with
    | none =>
      -- The mark stood in the text as a whole, and no mark is left.
      rw [escape, Text.replaceBy_of_none hrule] at htail
      obtain ⟨rfl, -⟩ := List.cons.inj htail
      rw [← mark_append] at heq
      exact mark_not_infix_unescape h u ⟨_, tail, by rw [heq, List.append_assoc]⟩
    | some result =>
      obtain ⟨c, rest, -, -, hnewline | ⟨other, -, -, hother⟩⟩ := escape_of_escapeRule hrule
      · exact absurd (List.cons.inj (hnewline.symm.trans htail)).1 (by decide)
      · -- The mark ends where that of an escape starts, whose name is what comes next.
        rw [hother, mark_append] at htail
        rw [← (List.cons.inj htail).2] at heq
        have hname := heq.symm.trans (unescape_cons_of_ne (by decide : 'E' ≠ '\x00') _)
        cases k with
        | zero => exact absurd (List.cons.inj hname).1 (by decide)
        | succ k => exact absurd (List.cons.inj hname).1 (by decide)

/-- The two passes together put no backslashes in front of a text, and leave it as it is only if the
first pass does. -/
theorem escape_eq_self_of_unescape_escape
    {t : Text} {k : Nat} (h : unescape (escape t) = List.replicate k '\\' ++ t) :
    k = 0 ∧ escape t = t := by
  induction t using Text.induction_by_rule used_pos_of_escapeRule generalizing k with
  | nil =>
    have hlength := congrArg List.length h
    rw [List.append_nil, List.length_replicate] at hlength
    exact ⟨hlength.symm, rfl⟩
  | keep d rest hrule ih =>
    have hescape : escape (d :: rest) = d :: escape rest := Text.replaceBy_of_none hrule
    rw [hescape] at h ⊢
    cases hun : unescapeRule (d :: escape rest) with
    | none =>
      rw [unescape, Text.replaceBy_of_none hun] at h
      cases k with
      | zero =>
        obtain ⟨-, hrest⟩ := ih (k := 0) (List.cons.inj h).2
        exact ⟨rfl, by rw [hrest]⟩
      | succ k =>
        rw [List.replicate_succ, List.cons_append] at h
        obtain ⟨rfl, hrest⟩ := List.cons.inj h
        rw [replicate_append_cons] at hrest
        exact absurd (ih hrest).1 (Nat.succ_ne_zero k)
    | some result =>
      obtain ⟨entry, hentry, u, hmark, -⟩ := unescapeRule_eq_some hun
      rw [hmark, unescape_mark_append hentry] at h
      have hnul : d = '\x00' := (List.cons.inj hmark).1
      subst hnul
      cases k with
      | zero => exact absurd (List.cons.inj h).1 (nul_ne_of_mem entry hentry)
      | succ k =>
        rw [List.replicate_succ, List.cons_append] at h
        exact absurd (List.cons.inj h).2 (unescape_ne_of_escape_eq_mark hentry hmark k)
  | use d rest used new hrule ih =>
    obtain ⟨c, tail, heq, htail, hnewline | ⟨entry, hentry, rfl, hmark⟩⟩ :=
      escape_of_escapeRule hrule
    · rw [hnewline, unescape_cons_of_ne (by decide), heq, replicate_append_cons] at h
      exact absurd (List.cons.inj h).1 (by decide)
    · rw [hmark, unescape_mark_append hentry, heq, replicate_append_cons, List.replicate_succ,
        List.cons_append] at h
      obtain ⟨hbackslash, hrest⟩ := List.cons.inj h
      rw [hbackslash, replicate_append_cons, htail] at hrest
      exact absurd (ih hrest).1 (Nat.succ_ne_zero k)

/-- The two passes together leave a text as it is exactly when each of them does. -/
theorem unescape_escape_eq_iff {t : Text} :
    unescape (escape t) = t ↔ escape t = t ∧ unescape t = t := by
  constructor
  · intro h
    obtain ⟨-, hescape⟩ := escape_eq_self_of_unescape_escape (k := 0) h
    rw [hescape] at h
    exact ⟨hescape, h⟩
  · rintro ⟨hescape, hunescape⟩
    rw [hescape, hunescape]

theorem escape_eq_self_iff {t : Text} :
    escape t = t ↔
      ¬ ['\\', 'n'] <:+: t ∧ ∀ entry ∈ escapable, ¬ ['\\', entry.1] <:+: t := by
  rw [escape, Text.replaceBy_eq_self_iff]
  · constructor
    · intro hnone
      have happlies : ∀ c, ['\\', c] <:+: t → ∃ rest, escapeRule ('\\' :: c :: rest) = none := by
        intro c hpart
        obtain ⟨s, ⟨rest, rfl⟩, hsuffix⟩ := List.infix_iff_prefix_suffix.1 hpart
        exact ⟨rest, hnone _ _ hsuffix⟩
      constructor
      · intro hpart
        obtain ⟨rest, hrule⟩ := happlies 'n' hpart
        cases hrule
      · intro entry hentry hpart
        obtain ⟨rest, hrule⟩ := happlies entry.1 hpart
        rw [escapeRule_of_mem hentry] at hrule
        cases hrule
    · rintro ⟨hnewline, hescapes⟩ c rest hsuffix
      cases hrule : escapeRule (c :: rest) with
      | none => rfl
      | some result =>
        obtain ⟨d, tail, heq, -, hnew⟩ := escapeRule_eq_some hrule
        have hpart : ['\\', d] <:+: t :=
          List.infix_iff_prefix_suffix.2 ⟨c :: rest, ⟨tail, heq.symm⟩, hsuffix⟩
        rcases hnew with ⟨rfl, -⟩ | ⟨name, hentry, -⟩
        · exact absurd hpart hnewline
        · exact absurd hpart (hescapes _ hentry)
  · intro c rest used new hrule
    obtain ⟨d, tail, heq, rfl, hnew⟩ := escapeRule_eq_some hrule
    rw [(List.cons.inj heq).1]
    rcases hnew with ⟨-, rfl⟩ | ⟨name, -, rfl⟩
    · exact ⟨by decide, '\n', [], rfl, by decide⟩
    · exact ⟨by decide, '\x00', _, rfl, by decide⟩

theorem unescape_eq_self_iff {t : Text} :
    unescape t = t ↔ ∀ entry ∈ escapable, ¬ mark entry.2 <:+: t := by
  constructor
  · intro h entry hentry
    rw [← h]
    exact mark_not_infix_unescape hentry t
  · intro h
    apply (Text.replaceBy_eq_self_iff _).2
    · intro c rest hsuffix
      cases hrule : unescapeRule (c :: rest) with
      | none => rfl
      | some result =>
        obtain ⟨entry, hentry, tail, heq, -⟩ := unescapeRule_eq_some hrule
        exact absurd (List.infix_iff_prefix_suffix.2 ⟨c :: rest, ⟨tail, heq.symm⟩, hsuffix⟩)
          (h entry hentry)
    · intro c rest used new hrule
      obtain ⟨entry, hentry, tail, heq, rfl, rfl⟩ := unescapeRule_eq_some hrule
      rw [(List.cons.inj heq).1]
      exact ⟨Nat.succ_pos _, entry.1, [], rfl, nul_ne_of_mem entry hentry⟩

end Redline.Markdown
