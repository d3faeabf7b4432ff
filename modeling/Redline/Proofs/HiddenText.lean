import Mathlib.Data.List.Infix
import Redline.Proofs.MarkdownForm

/-!
# Text with hidden escapes

While markdown is read, a mark stands in the place of every escaped character.  Marks are never cut:
where such a text is cut at a character outside of marks, the parts are what hiding the escapes makes
of parts of the text as it is written.  So a text in which every character of markdown is escaped has
no form left but those that need none of these characters, and is read as itself.
-/

namespace Redline.Markdown

/-! ## Cutting texts with hidden escapes -/

/-- The characters that can be escaped. -/
def specials : List Char :=
  ['\\', '*', '#', '~', '`', '-', '+']

/-- The characters that marks are made of. -/
def markChars : List Char :=
  ['\x00', '_', 'A', 'B', 'C', 'D', 'E', 'H', 'I', 'K', 'L', 'P', 'R', 'S', 'T', 'U']

/-- No mark holds the character. -/
def isOutsideMarks (c : Char) : Bool :=
  !markChars.contains c

/-- The character takes no part in escapes: it cannot be escaped, and no escape puts it into a
text. -/
def isInert (c : Char) : Bool :=
  isOutsideMarks c && c != '\n' && c != 'n' && !specials.contains c

theorem mem_specials_iff {c : Char} : c ∈ specials ↔ ∃ entry ∈ escapable, entry.1 = c := by
  have hchars : specials = escapable.map Prod.fst := rfl
  rw [hchars, List.mem_map]

theorem not_mem_mark_of_isOutsideMarks
    {c : Char} (h : isOutsideMarks c = true) {entry : Char × String} (hentry : entry ∈ escapable) :
    c ∉ mark entry.2 := by
  have hmarks : ∀ entry ∈ escapable, (mark entry.2).all markChars.contains = true := by
    decide +kernel
  intro hmem
  rw [isOutsideMarks, List.all_eq_true.1 (hmarks entry hentry) c hmem] at h
  cases h

@[simp]
theorem escape_nil : escape [] = [] :=
  rfl

theorem escape_newline (t : Text) : escape ('\\' :: 'n' :: t) = '\n' :: escape t :=
  @Text.replaceBy_of_some escapeRule ('\\' :: 'n' :: t) 2 ['\n'] (List.cons_ne_nil _ _) rfl
    (by decide)

theorem escape_of_mem {entry : Char × String} (h : entry ∈ escapable) (t : Text) :
    escape ('\\' :: entry.1 :: t) = mark entry.2 ++ escape t :=
  Text.replaceBy_of_some (List.cons_ne_nil _ _) (escapeRule_of_mem h t) (by decide)

theorem escape_cons_of_ne {c : Char} (h : c ≠ '\\') (t : Text) :
    escape (c :: t) = c :: escape t := by
  apply Text.replaceBy_of_none
  cases hrule : escapeRule (c :: t) with
  | none => rfl
  | some result =>
    obtain ⟨d, rest, heq, -⟩ := escapeRule_eq_some hrule
    exact absurd (List.cons.inj heq).1 h

theorem escape_append_of_not_mem {s : Text} (h : '\\' ∉ s) (t : Text) :
    escape (s ++ t) = s ++ escape t := by
  induction s with
  | nil => rfl
  | cons c s ih =>
    simp only [List.mem_cons, not_or] at h
    rw [List.cons_append, escape_cons_of_ne (Ne.symm h.1), ih h.2, List.cons_append]

theorem escape_eq_nil_iff {t : Text} : escape t = [] ↔ t = [] := by
  constructor
  · intro h
    cases t with
    | nil => rfl
    | cons c t =>
      cases hrule : escapeRule (c :: t) with
      | none =>
        rw [escape, Text.replaceBy_of_none hrule] at h
        cases h
      | some result =>
        obtain ⟨d, rest, -, -, hnewline | ⟨entry, -, -, hmark⟩⟩ := escape_of_escapeRule hrule
        · rw [hnewline] at h
          cases h
        · exact absurd (List.append_eq_nil_iff.1 (hmark.symm.trans h)).1 (mark_ne_nil _)
  · rintro rfl
    rfl

/-- Whether an escape stands at the start is settled by what stands there. -/
theorem escapeRule_eq_none_of_append {s u : Text} (h : escapeRule (s ++ u) = none) :
    escapeRule s = none := by
  cases hrule : escapeRule s with
  | none => rfl
  | some result =>
    obtain ⟨c, rest, rfl, -, ⟨rfl, -⟩ | ⟨name, hentry, -⟩⟩ := escapeRule_eq_some hrule
    · cases h
    · rw [List.cons_append, List.cons_append, escapeRule_of_mem hentry] at h
      cases h

/-- A text with hidden escapes that is cut at a character outside of marks was cut there before.  A
newline may have been written as an escape. -/
theorem exists_of_escape_eq
    {c : Char} (hc : isOutsideMarks c = true) {t x y : Text} (h : escape t = x ++ c :: y) :
    ∃ x' cut y', t = x' ++ cut ++ y' ∧ escape x' = x ∧ escape y' = y ∧
      (cut = [c] ∨ c = '\n' ∧ cut = ['\\', 'n']) := by
  induction t using Text.induction_by_rule used_pos_of_escapeRule generalizing x with
  | nil => exact absurd h.symm (List.append_ne_nil_of_right_ne_nil _ (List.cons_ne_nil _ _))
  | keep d rest hrule ih =>
    rw [escape, Text.replaceBy_of_none hrule] at h
    cases x with
    | nil =>
      obtain ⟨rfl, rfl⟩ := List.cons.inj h
      exact ⟨[], [d], rest, rfl, rfl, rfl, .inl rfl⟩
    | cons e x =>
      obtain ⟨rfl, hrest⟩ := List.cons.inj h
      obtain ⟨x', cut, y', rfl, rfl, rfl, hcut⟩ := ih hrest
      refine ⟨d :: x', cut, y', rfl, ?_, rfl, hcut⟩
      have hkeep : escapeRule (d :: x') = none := by
        rw [List.append_assoc] at hrule
        exact escapeRule_eq_none_of_append hrule
      exact Text.replaceBy_of_none hkeep
  | use d rest used new hrule ih =>
    obtain ⟨e, tail, heq, rfl, ⟨rfl, rfl⟩ | ⟨name, hentry, rfl⟩⟩ := escapeRule_eq_some hrule
    · rw [heq] at h ih ⊢
      rw [escape_newline] at h
      cases x with
      | nil =>
        obtain ⟨rfl, rfl⟩ := List.cons.inj h
        exact ⟨[], ['\\', 'n'], tail, rfl, rfl, rfl, .inr ⟨rfl, rfl⟩⟩
      | cons e x =>
        obtain ⟨rfl, hrest⟩ := List.cons.inj h
        obtain ⟨x', cut, y', hparts, rfl, rfl, hcut⟩ := ih hrest
        refine ⟨'\\' :: 'n' :: x', cut, y', ?_, escape_newline x', rfl, hcut⟩
        exact congrArg (fun rest => '\\' :: 'n' :: rest) hparts
    · rw [heq] at h ih ⊢
      rw [escape_of_mem hentry] at h
      have hnot := not_mem_mark_of_isOutsideMarks hc hentry
      obtain ⟨x'', rfl⟩ := isPrefix_of_append_eq h hnot
      rw [List.append_assoc] at h
      obtain ⟨x', cut, y', hparts, rfl, rfl, hcut⟩ := ih (List.append_cancel_left h)
      refine ⟨'\\' :: e :: x', cut, y', ?_, escape_of_mem hentry x', rfl, hcut⟩
      exact congrArg (fun rest => '\\' :: e :: rest) hparts

/-- A character that cannot be escaped makes no escape of what stands before it. -/
theorem escapeRule_append_cons
    {c : Char} (hc : c ∉ 'n' :: specials) {x : Text} (h : escapeRule x = none) (y : Text) :
    escapeRule (x ++ c :: y) = none := by
  cases hrule : escapeRule (x ++ c :: y) with
  | none => rfl
  | some result =>
    obtain ⟨e, tail, heq, -, hnew⟩ := escapeRule_eq_some hrule
    have he : e ∈ 'n' :: specials := by
      rcases hnew with ⟨rfl, -⟩ | ⟨name, hentry, -⟩
      · decide
      · exact List.mem_cons_of_mem _ (mem_specials_iff.2 ⟨_, hentry, rfl⟩)
    rcases x with _ | ⟨a, _ | ⟨b, x⟩⟩
    · rw [(List.cons.inj heq).1] at hc
      exact absurd (by decide) hc
    · rw [← (List.cons.inj (List.cons.inj heq).2).1] at he
      exact absurd he hc
    · obtain ⟨rfl, hrest⟩ := List.cons.inj heq
      obtain ⟨rfl, -⟩ := List.cons.inj hrest
      rcases hnew with ⟨rfl, -⟩ | ⟨name, hentry, -⟩
      · cases h
      · rw [escapeRule_of_mem hentry] at h
        cases h

/-- What stands before a character that cannot be escaped is hidden on its own. -/
theorem escape_append_cons {c : Char} (hc : c ∉ 'n' :: specials) (x y : Text) :
    escape (x ++ c :: y) = escape x ++ c :: escape y := by
  induction x using Text.induction_by_rule used_pos_of_escapeRule with
  | nil => exact Text.replaceBy_of_none (escapeRule_append_cons hc (x := []) rfl y)
  | keep d rest hrule ih =>
    have hkept : escape (d :: rest) = d :: escape rest := Text.replaceBy_of_none hrule
    rw [hkept, List.cons_append, List.cons_append, ← ih]
    exact Text.replaceBy_of_none (escapeRule_append_cons hc hrule y)
  | use d rest used new hrule ih =>
    obtain ⟨e, tail, heq, rfl, ⟨rfl, rfl⟩ | ⟨name, hentry, rfl⟩⟩ := escapeRule_eq_some hrule
    · rw [heq] at ih ⊢
      rw [List.cons_append, List.cons_append, escape_newline, escape_newline]
      exact congrArg ('\n' :: ·) ih
    · rw [heq] at ih ⊢
      have hmark := escape_of_mem hentry
      rw [List.cons_append, List.cons_append, hmark, hmark, List.append_assoc]
      exact congrArg (mark name ++ ·) ih

/-! ### Pieces that take no part in escapes -/

section Piece

variable {piece : Text}

theorem of_isInert {c : Char} (h : isInert c = true) :
    isOutsideMarks c = true ∧ c ≠ '\n' ∧ c ∉ 'n' :: specials := by
  simp only [isInert, Bool.and_eq_true, bne_iff_ne, Bool.not_eq_true'] at h
  obtain ⟨⟨⟨houtside, hline⟩, hletter⟩, hspecial⟩ := h
  refine ⟨houtside, hline, fun hmem => ?_⟩
  rcases List.mem_cons.1 hmem with rfl | hmem
  · exact hletter rfl
  · exact Bool.false_ne_true (hspecial.symm.trans (List.contains_iff_mem.2 hmem))

theorem escape_append_piece
    (hne : piece ≠ []) (hpiece : piece.all isInert = true) (x y : Text) :
    escape (x ++ piece ++ y) = escape x ++ piece ++ escape y := by
  induction piece generalizing x with
  | nil => exact absurd rfl hne
  | cons c piece ih =>
    rw [List.all_cons, Bool.and_eq_true] at hpiece
    obtain ⟨-, -, hc⟩ := of_isInert hpiece.1
    rw [List.append_assoc, List.cons_append, escape_append_cons hc]
    cases piece with
    | nil => simp
    | cons d piece =>
      have hrest : escape (d :: piece ++ y) = d :: piece ++ escape y :=
        ih (List.cons_ne_nil _ _) hpiece.2 []
      rw [hrest]
      simp

theorem exists_of_escape_eq_start
    (hpiece : piece.all isInert = true) {t y : Text} (h : escape t = piece ++ y) :
    ∃ y', t = piece ++ y' ∧ escape y' = y := by
  refine exists_of_escape_eq_append (fun c hc => ?_) h
  obtain ⟨hmark, hline, -⟩ := of_isInert (List.all_eq_true.1 hpiece c hc)
  refine ⟨?_, hline⟩
  rintro rfl
  exact absurd hmark (by decide)

theorem exists_of_escape_eq_piece
    (hne : piece ≠ []) (hpiece : piece.all isInert = true) {t x y : Text}
    (h : escape t = x ++ piece ++ y) :
    ∃ x' y', t = x' ++ piece ++ y' ∧ escape x' = x ∧ escape y' = y := by
  cases piece with
  | nil => exact absurd rfl hne
  | cons c piece =>
    rw [List.all_cons, Bool.and_eq_true] at hpiece
    obtain ⟨houtside, hline, -⟩ := of_isInert hpiece.1
    rw [List.append_assoc, List.cons_append] at h
    obtain ⟨x', cut, y', rfl, hx, hy, rfl | ⟨hnewline, -⟩⟩ := exists_of_escape_eq houtside h
    · obtain ⟨rest, rfl, hrest⟩ := exists_of_escape_eq_start hpiece.2 hy
      exact ⟨x', rest, by simp, hx, hrest⟩
    · exact absurd hnewline hline

theorem isInfix_escape_iff
    (hne : piece ≠ []) (hpiece : piece.all isInert = true) {t : Text} :
    piece <:+: escape t ↔ piece <:+: t := by
  constructor
  · rintro ⟨x, y, heq⟩
    obtain ⟨x', y', rfl, -⟩ := exists_of_escape_eq_piece hne hpiece heq.symm
    exact ⟨x', y', rfl⟩
  · rintro ⟨x, y, rfl⟩
    rw [escape_append_piece hne hpiece]
    exact ⟨_, _, rfl⟩

theorem escape_start
    (hpiece : piece.all isInert = true) (y : Text) : escape (piece ++ y) = piece ++ escape y := by
  cases piece with
  | nil => rfl
  | cons c piece => exact escape_append_piece (List.cons_ne_nil _ _) hpiece [] y

theorem mem_escape_iff {c : Char} (hc : isInert c = true) {t : Text} : c ∈ escape t ↔ c ∈ t := by
  have hpart := isInfix_escape_iff (t := t) (List.cons_ne_nil c []) (by simpa using hc)
  rwa [List.singleton_infix_iff, List.singleton_infix_iff] at hpart

theorem escape_append_singleton {c : Char} (hc : isInert c = true) (t : Text) :
    escape (t ++ [c]) = escape t ++ [c] := by
  have hpiece := escape_append_piece (List.cons_ne_nil c []) (by simpa using hc) t []
  rwa [List.append_nil, escape_nil, List.append_nil] at hpiece

/-- A text between two inert marks is so whether its escapes are hidden or not. -/
theorem between_escape_iff
    {opening closing : String} (hopening : opening.toList.all isInert = true)
    (hclosing : closing.toList.all isInert = true) (hne : closing.toList ≠ []) {t : Text} :
    Between opening closing (escape t) ↔ Between opening closing t := by
  constructor
  · rintro ⟨inner, hinner, heq⟩
    rw [List.append_assoc] at heq
    obtain ⟨rest, rfl, hrest⟩ := exists_of_escape_eq_start hopening heq
    rw [← List.append_nil (inner ++ _)] at hrest
    obtain ⟨inner', none, rfl, rfl, hnone⟩ := exists_of_escape_eq_piece hne hclosing hrest
    refine ⟨inner', fun hnil => hinner (escape_eq_nil_iff.2 hnil), ?_⟩
    rw [escape_eq_nil_iff.1 hnone, List.append_nil, List.append_assoc]
  · rintro ⟨inner, hinner, rfl⟩
    refine ⟨escape inner, fun hnil => hinner (escape_eq_nil_iff.1 hnil), ?_⟩
    have hpieces := escape_append_piece hne hclosing inner []
    rw [List.append_nil, escape_nil, List.append_nil] at hpieces
    rw [List.append_assoc, escape_start hopening, hpieces, List.append_assoc]

end Piece

/-! ## Escaped texts -/

/-- The text with a backslash before each backslash and each character of markdown. -/
def escaped (t : Text) : Text :=
  t.flatMap fun c => if c ∈ specials then ['\\', c] else [c]

/-- An escaped character gives way to its mark, and each other one is kept. -/
theorem escape_escaped_cons (c : Char) (t : Text) :
    (∃ entry ∈ escapable, entry.1 = c ∧
        escape (escaped (c :: t)) = mark entry.2 ++ escape (escaped t)) ∨
      (∀ entry ∈ escapable, entry.1 ≠ c) ∧
        escape (escaped (c :: t)) = c :: escape (escaped t) := by
  by_cases hc : c ∈ specials
  · obtain ⟨entry, hentry, rfl⟩ := mem_specials_iff.1 hc
    refine .inl ⟨entry, hentry, rfl, ?_⟩
    have hescaped : escaped (entry.1 :: t) = '\\' :: entry.1 :: escaped t := by
      rw [escaped, List.flatMap_cons, if_pos hc]
      rfl
    rw [hescaped, escape_of_mem hentry]
  · have hnot : ∀ entry ∈ escapable, entry.1 ≠ c := fun entry hentry heq =>
      hc (mem_specials_iff.2 ⟨entry, hentry, heq⟩)
    refine .inr ⟨hnot, ?_⟩
    have hescaped : escaped (c :: t) = c :: escaped t := by
      rw [escaped, List.flatMap_cons, if_neg hc]
      rfl
    have hbackslash : c ≠ '\\' := Ne.symm (hnot ('\\', "BACKSLASH") (by decide))
    rw [hescaped, escape_cons_of_ne hbackslash]

theorem unescape_escape_escaped {t : Text} (h : '\x00' ∉ t) : unescape (escape (escaped t)) = t := by
  induction t with
  | nil => rfl
  | cons c t ih =>
    simp only [List.mem_cons, not_or] at h
    rcases escape_escaped_cons c t with ⟨entry, hentry, rfl, heq⟩ | ⟨-, heq⟩
    · rw [heq, unescape_mark_append hentry, ih h.2]
    · rw [heq, unescape_cons_of_ne (Ne.symm h.1), ih h.2]

/-- Behind its marks an escaped text has none of the characters that can be escaped. -/
theorem not_mem_escape_escaped
    {entry : Char × String} (h : entry ∈ escapable) (t : Text) :
    entry.1 ∉ escape (escaped t) := by
  induction t with
  | nil => exact List.not_mem_nil
  | cons c t ih =>
    rcases escape_escaped_cons c t with ⟨other, hother, -, heq⟩ | ⟨hnot, heq⟩
    · rw [heq, List.mem_append, not_or]
      exact ⟨not_mem_mark other hother entry h, ih⟩
    · rw [heq, List.mem_cons, not_or]
      exact ⟨hnot entry h, ih⟩

/-- What stands at the start of an escaped text, outside of marks, stands at the start of the text. -/
theorem isPrefix_of_escape_escaped
    {s t : Text} (hs : '\x00' ∉ s) (h : s <+: escape (escaped t)) : s <+: t := by
  induction s generalizing t with
  | nil => exact List.nil_prefix
  | cons a s ih =>
    simp only [List.mem_cons, not_or] at hs
    cases t with
    | nil => exact h
    | cons c t =>
      rcases escape_escaped_cons c t with ⟨entry, -, -, heq⟩ | ⟨-, heq⟩
      · rw [heq, mark_append, List.cons_prefix_cons] at h
        exact absurd h.1.symm hs.1
      · rw [heq, List.cons_prefix_cons] at h
        exact List.cons_prefix_cons.2 ⟨h.1, ih hs.2 h.2⟩

/-- An escaped text in which nothing is hidden is the text. -/
theorem escape_escaped_of_not_mem {t : Text} (h : '\x00' ∉ escape (escaped t)) :
    escape (escaped t) = t := by
  induction t with
  | nil => rfl
  | cons c t ih =>
    rcases escape_escaped_cons c t with ⟨entry, -, -, heq⟩ | ⟨-, heq⟩
    · rw [heq, mark_append] at h
      exact absurd List.mem_cons_self h
    · rw [heq] at h ⊢
      rw [ih fun hmem => h (List.mem_cons_of_mem c hmem)]

/-- A form that needs none of the characters that can be escaped is a line of underscores, starts
with a bracket, or is a quote or a numbered item. -/
theorem Form.of_no_specials {u : Text} (h : Form u) (hfree : ∀ c ∈ specials, c ∉ u) :
    Text.trim u = "___".toList ∨ ['['] <+: u ∨ "> ".toList <+: u ∨
      ∃ level d rest, isDecimal d = true ∧
        u = List.replicate (2 * level) ' ' ++ d :: '.' :: ' ' :: rest := by
  cases h with
  | rule h =>
    have htrim : ∀ c ∈ Text.trim u, c ∈ u := fun c hc => (Text.trim_isInfix u).subset hc
    simp only [List.map_cons, List.map_nil, List.mem_cons, List.not_mem_nil, or_false] at h
    rcases h with h | h | h
    · exact absurd (htrim '-' (by rw [h]; decide)) (hfree '-' (by decide))
    · exact absurd (htrim '*' (by rw [h]; decide)) (hfree '*' (by decide))
    · exact .inl h
  | quote rest => exact .inr (.inr (.inl ⟨rest, rfl⟩))
  | footnote h =>
    obtain ⟨inner, -, rfl⟩ := h
    exact .inr (.inl ⟨_, rfl⟩)
  | emphasis h =>
    obtain ⟨inner, -, rfl⟩ := h
    exact absurd List.mem_cons_self (hfree '*' (by decide))
  | strike h =>
    obtain ⟨inner, -, rfl⟩ := h
    exact absurd List.mem_cons_self (hfree '~' (by decide))
  | code h =>
    obtain ⟨inner, -, rfl⟩ := h
    exact absurd List.mem_cons_self (hfree '`' (by decide))
  | link label htarget rest => exact .inr (.inl ⟨_, rfl⟩)
  | item level h =>
    have hmark : ∀ {c rest}, c ∈ List.replicate (2 * level) ' ' ++ c :: rest :=
      List.mem_append_right _ List.mem_cons_self
    cases h with
    | dash rest => exact absurd hmark (hfree '-' (by decide))
    | plus rest => exact absurd hmark (hfree '+' (by decide))
    | star hlast => exact absurd hmark (hfree '*' (by decide))
    | @number d hd rest => exact .inr (.inr (.inr ⟨level, d, rest, hd, rfl⟩))
  | heading rest => exact absurd List.mem_cons_self (hfree '#' (by decide))

/-- A text with all its marks of markdown escaped is read as the text, without formats, unless it has
one of the forms that no escape can take from it. -/
theorem read_escaped
    {t : Text} (hnul : '\x00' ∉ t) (hbracket : ¬ ['['] <+: t) (hquote : ¬ "> ".toList <+: t)
    (hrule : Text.trim t ≠ "___".toList)
    (hnumber : ∀ level d rest, isDecimal d = true →
      t ≠ List.replicate (2 * level) ' ' ++ d :: '.' :: ' ' :: rest) :
    read (escaped t) = (t, []) := by
  have hfree : ∀ c ∈ specials, c ∉ escape (escaped t) := by
    intro c hc
    obtain ⟨entry, hentry, rfl⟩ := mem_specials_iff.1 hc
    exact not_mem_escape_escaped hentry t
  have hkept : ¬ Form (escape (escaped t)) := by
    intro hform
    rcases hform.of_no_specials hfree with hline | hopen | hopen | ⟨level, d, rest, hd, hitem⟩
    · have hnone : '\x00' ∉ escape (escaped t) := by
        intro hmem
        have hmark := Text.mem_trim (by decide) hmem
        rw [hline] at hmark
        exact absurd hmark (by decide)
      rw [escape_escaped_of_not_mem hnone] at hline
      exact hrule hline
    · exact hbracket (isPrefix_of_escape_escaped (by decide) hopen)
    · exact hquote (isPrefix_of_escape_escaped (by decide) hopen)
    · have hlead : '\x00' ∉ List.replicate (2 * level) ' ' ++ [d, '.', ' '] := by
        rw [List.mem_append, not_or]
        refine ⟨fun hmem => absurd (List.eq_of_mem_replicate hmem) (by decide), fun hmem => ?_⟩
        rcases List.mem_cons.1 hmem with rfl | hmem
        · exact absurd hd (by decide)
        · exact absurd hmem (by decide)
      have hprefix : List.replicate (2 * level) ' ' ++ [d, '.', ' '] <+: escape (escaped t) :=
        ⟨rest, by simp [hitem]⟩
      obtain ⟨behind, hbehind⟩ := isPrefix_of_escape_escaped hlead hprefix
      refine hnumber level d behind hd ?_
      rw [← hbehind, List.append_assoc]
      rfl
  rw [read_of_not_form_escape hkept, unescape_escape_escaped hnul]

theorem read_escaped_bullet :
    read "  \\- \\*\\*2. \\\\n_\\`".toList = ("  - **2. \\n_`".toList, []) := by
  have hescaped : escaped "  - **2. \\n_`".toList = "  \\- \\*\\*2. \\\\n_\\`".toList := rfl
  rw [← hescaped]
  refine read_escaped (by decide) (by decide) (by decide) (by decide) ?_
  rintro (_ | _ | level) d rest hd heq
  · rw [← (List.cons.inj heq).1] at hd
    exact absurd hd (by decide)
  · have hdash : '-' = d := (List.cons.inj (List.cons.inj (List.cons.inj heq).2).2).1
    rw [← hdash] at hd
    exact absurd hd (by decide)
  · exact absurd (List.cons.inj (List.cons.inj (List.cons.inj heq).2).2).1 (by decide)

end Redline.Markdown
