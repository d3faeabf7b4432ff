import Redline.Proofs.HiddenText

/-!
# Marks that leave with a link

The marks of escaped characters are to be gone when markdown has been read.  Every part of the text
that is kept is masked, which means that its marks are whole, and the second pass finds all of them.
The target of a link does not go through the second pass.  So a mark leaves with a format exactly when
the text is a link that has an escape in its target.
-/

namespace Redline.Markdown

/-! ## What is left of marks in the text -/

theorem not_mem_unescape_escape {t : Text} (h : '\x00' ∉ t) : '\x00' ∉ unescape (escape t) := by
  induction t using Text.induction_by_rule used_pos_of_escapeRule with
  | nil => exact List.not_mem_nil
  | keep c rest hrule ih =>
    simp only [List.mem_cons, not_or] at h
    rw [escape, Text.replaceBy_of_none hrule, ← escape, unescape_cons_of_ne (Ne.symm h.1),
      List.mem_cons, not_or]
    exact ⟨h.1, ih h.2⟩
  | use c rest used new hrule ih =>
    have hrest : '\x00' ∉ (c :: rest).drop used := fun hmem => h (List.mem_of_mem_drop hmem)
    obtain ⟨d, tail, -, htail, hnewline | ⟨entry, hentry, -, hmark⟩⟩ := escape_of_escapeRule hrule
    · rw [hnewline, unescape_cons_of_ne (by decide), List.mem_cons, not_or]
      exact ⟨by decide, htail ▸ ih hrest⟩
    · rw [hmark, unescape_mark_append hentry, List.mem_cons, not_or]
      exact ⟨Ne.symm (nul_ne_of_mem entry hentry), htail ▸ ih hrest⟩

/-- The text is what hiding the escapes makes of a text without marks. -/
def Masked (t : Text) : Prop :=
  ∃ written, '\x00' ∉ written ∧ escape written = t

namespace Masked

variable {t x y : Text}

theorem not_mem_unescape (h : Masked t) : '\x00' ∉ unescape t := by
  obtain ⟨written, hwritten, rfl⟩ := h
  exact not_mem_unescape_escape hwritten

/-- Both sides of a character outside of marks are masked when the whole is. -/
theorem cut {c : Char} (h : Masked (x ++ c :: y)) (hc : isOutsideMarks c = true) :
    Masked x ∧ Masked y := by
  obtain ⟨written, hwritten, heq⟩ := h
  obtain ⟨x', between, y', rfl, rfl, rfl, -⟩ := exists_of_escape_eq hc heq
  simp only [List.mem_append, not_or] at hwritten
  exact ⟨⟨x', hwritten.1.1, rfl⟩, ⟨y', hwritten.2, rfl⟩⟩

theorem behind (h : Masked (x ++ y)) (hx : x.all isOutsideMarks = true) : Masked y := by
  induction x with
  | nil => exact h
  | cons c x ih =>
    rw [List.all_cons, Bool.and_eq_true] at hx
    exact ih ((cut (x := []) h hx.1).2) hx.2

theorem before (h : Masked (x ++ y)) (hy : y.all isOutsideMarks = true) : Masked x := by
  cases y with
  | nil => rwa [List.append_nil] at h
  | cons c y =>
    rw [List.all_cons, Bool.and_eq_true] at hy
    exact (h.cut hy.1).1

theorem tabs (h : Masked t) (level : Nat) : Masked (List.replicate level '\t' ++ t) := by
  obtain ⟨written, hwritten, rfl⟩ := h
  refine ⟨List.replicate level '\t' ++ written, ?_, ?_⟩
  · rw [List.mem_append, not_or]
    refine ⟨fun hmem => ?_, hwritten⟩
    exact absurd (List.eq_of_mem_replicate hmem) (by decide)
  · refine escape_start (List.all_eq_true.2 fun c hc => ?_) written
    rw [List.eq_of_mem_replicate hc]
    decide

theorem enclosed
    {opening closing : String} {inner : Text} (h : Masked t)
    (hinner : enclosed? opening closing t = some inner)
    (hopening : opening.toList.all isOutsideMarks = true)
    (hclosing : closing.toList.all isOutsideMarks = true) :
    Masked inner := by
  rw [(enclosed?_eq_some_iff.1 hinner).2] at h
  exact (h.before hclosing).behind hopening

end Masked

/-! ## Links -/

/-- The text is a link: its label ends where a target can begin for the first time, and the target
at the last closing parenthesis. -/
structure IsLink (t label target rest : Text) : Prop where
  text : t = '[' :: label ++ "](".toList ++ target ++ ')' :: rest
  label : ¬ "](".toList <:+: label ++ [']']
  target : target ≠ []
  rest : ')' ∉ rest

theorem link?_eq_some_iff {t label shown : Text} :
    link? t = some (label, shown) ↔ ∃ target rest, IsLink t label target rest ∧
      shown = Text.replaceAll "\\/".toList ['/'] target := by
  have hpiece : "](".toList ≠ [] := by decide
  constructor
  · intro h
    unfold link? at h
    split at h
    next tail =>
      split at h
      next x label' behind close hcut hclose =>
        simp only [Option.ite_none_right_eq_some, Option.some.injEq, Prod.mk.injEq] at h
        obtain ⟨hstart, rfl, rfl⟩ := h
        obtain ⟨heq, hfirst⟩ := (Text.cut?_eq_some_iff hpiece).1 hcut
        obtain ⟨before, rest, hlast, hrest, rfl⟩ := Text.lastIndexOf?_eq_some_iff.1 hclose
        obtain ⟨rfl, -⟩ := List.cons.inj heq
        have hlength : ('[' :: label' ++ "](".toList).length = label'.length + 3 := by simp
        -- The last closing parenthesis stands behind the start of the target.
        obtain ⟨target, rfl, hbehind⟩ : ∃ target,
            before = '[' :: label' ++ "](".toList ++ target ∧ behind = target ++ ')' :: rest := by
          rcases List.append_eq_append_iff.1 (heq.symm.trans hlast) with
            ⟨target, hbefore, hbehind⟩ | ⟨part, hfront, -⟩
          · exact ⟨target, hbefore, hbehind⟩
          · have hle := congrArg List.length hfront
            rw [hlength, List.length_append] at hle
            omega
        rw [List.length_append, hlength] at hstart
        refine ⟨target, rest, ⟨hlast, ?_, ?_, hrest⟩, ?_⟩
        · intro hpart
          exact hfirst (List.infix_cons_iff.2 (.inr hpart))
        · rintro rfl
          exact absurd hstart (Nat.lt_irrefl _)
        · rw [hlast, Text.slice, List.take_left, ← hlength, List.drop_left]
      next => cases h
    next => cases h
  · rintro ⟨target, rest, hlink, rfl⟩
    have hcut : Text.cut? "](".toList t = some ('[' :: label, target ++ ')' :: rest) := by
      refine (Text.cut?_eq_some_iff hpiece).2 ⟨?_, fun hpart => ?_⟩
      · rw [hlink.text, List.append_assoc _ target]
      · rw [List.cons_append, List.infix_cons_iff] at hpart
        rcases hpart with hlead | hpart
        · obtain ⟨tail, htail⟩ := hlead
          exact absurd (List.cons.inj htail).1 (by decide)
        · exact hlink.label hpart
    have hclose := Text.lastIndexOf?_append_cons hlink.rest ('[' :: label ++ "](".toList ++ target)
    have hlength : ('[' :: label ++ "](".toList).length = label.length + 3 := by simp
    have hpos := List.length_pos_of_ne_nil hlink.target
    have hopen : t = '[' :: (label ++ "](".toList ++ target ++ ')' :: rest) := hlink.text
    have hslice : Text.slice (label.length + 3) ('[' :: label ++ "](".toList ++ target).length t =
        target := by
      rw [hlink.text, Text.slice, List.take_left, ← hlength, List.drop_left]
    rw [← hlink.text] at hclose
    rw [hopen] at hcut hclose hslice ⊢
    have hstart : label.length + 3 < ('[' :: label ++ "](".toList ++ target).length := by
      rw [List.length_append, hlength]
      omega
    simp only [link?, hcut, hclose, if_pos hstart, hslice]

namespace IsLink

variable {t label target rest : Text}

theorem parts (label target rest : Text) :
    '[' :: label ++ "](".toList ++ target ++ ')' :: rest =
      ['['] ++ (label ++ "](".toList ++ (target ++ [')'] ++ rest)) := by
  simp

theorem head (h : IsLink t label target rest) : ∃ tail, t = '[' :: tail :=
  ⟨_, h.text⟩

/-- A link is one also when the escapes in it are hidden. -/
theorem hide (h : IsLink t label target rest) :
    IsLink (escape t) (escape label) (escape target) (escape rest) where
  text := by
    rw [h.text, parts, parts, escape_start (by decide),
      escape_append_piece (by decide) (by decide), escape_append_piece (by decide) (by decide)]
  label := by
    rw [← escape_append_singleton (by decide), isInfix_escape_iff (by decide) (by decide)]
    exact h.label
  target := fun hnil => h.target (escape_eq_nil_iff.1 hnil)
  rest := by
    rw [mem_escape_iff (by decide)]
    exact h.rest

/-- A text that is a link once its escapes are hidden is one as it is written. -/
theorem of_hidden (h : IsLink (escape t) label target rest) :
    ∃ label' target' rest', IsLink t label' target' rest' ∧ escape target' = target := by
  have htext := h.text
  rw [parts] at htext
  obtain ⟨behind, rfl, hbehind⟩ := exists_of_escape_eq_start (by decide) htext
  obtain ⟨label', last, rfl, rfl, hlast⟩ :=
    exists_of_escape_eq_piece (by decide) (by decide) hbehind
  obtain ⟨target', rest', rfl, rfl, rfl⟩ :=
    exists_of_escape_eq_piece (by decide) (by decide) hlast
  refine ⟨label', target', rest', ⟨(parts _ _ _).symm, ?_, ?_, ?_⟩, rfl⟩
  · rw [← isInfix_escape_iff (by decide) (by decide), escape_append_singleton (by decide)]
    exact h.label
  · exact fun hnil => h.target (escape_eq_nil_iff.2 hnil)
  · rw [← mem_escape_iff (by decide)]
    exact h.rest

end IsLink

/-- A text without marks has some when its escapes are hidden exactly when a character that can be
escaped stands behind a backslash. -/
theorem nul_mem_escape_iff {t : Text} (h : '\x00' ∉ t) :
    '\x00' ∈ escape t ↔ ∃ c ∈ specials, ['\\', c] <:+: t := by
  induction t using Text.induction_by_rule used_pos_of_escapeRule with
  | nil => simp
  | keep d rest hrule ih =>
    simp only [List.mem_cons, not_or] at h
    have hkept : escape (d :: rest) = d :: escape rest := Text.replaceBy_of_none hrule
    rw [hkept, List.mem_cons, or_iff_right h.1]
    refine (ih h.2).trans (exists_congr fun c => and_congr_right fun hc => ?_)
    rw [List.infix_cons_iff, or_iff_right]
    -- The rule would apply to a special character behind the first one.
    rintro ⟨tail, htail⟩
    obtain ⟨entry, hentry, rfl⟩ := mem_specials_iff.1 hc
    rw [← htail] at hrule
    have happlies := hrule.symm.trans (escapeRule_of_mem hentry tail)
    cases happlies
  | use d rest used new hrule ih =>
    obtain ⟨e, tail, heq, rfl, ⟨rfl, rfl⟩ | ⟨name, hentry, rfl⟩⟩ := escapeRule_eq_some hrule
    · rw [heq] at h ih ⊢
      simp only [List.mem_cons, not_or] at h
      rw [escape_newline, List.mem_cons, or_iff_right (by decide)]
      refine (ih h.2.2).trans (exists_congr fun c => and_congr_right fun hc => ?_)
      have hfirst : ¬ ['\\', c] <+: '\\' :: 'n' :: tail := by
        rintro ⟨behind, hbehind⟩
        rw [(List.cons.inj (List.cons.inj hbehind).2).1] at hc
        exact absurd hc (by decide)
      have hsecond : ¬ ['\\', c] <+: 'n' :: tail := by
        rintro ⟨behind, hbehind⟩
        exact absurd (List.cons.inj hbehind).1 (by decide)
      rw [List.infix_cons_iff, or_iff_right hfirst, List.infix_cons_iff, or_iff_right hsecond]
      rfl
    · rw [heq]
      refine iff_of_true ?_ ⟨e, mem_specials_iff.2 ⟨_, hentry, rfl⟩, [], tail, rfl⟩
      rw [escape_of_mem hentry, mark_append]
      exact List.mem_cons_self

/-! ## What is read of masked texts -/

theorem isOutsideMarks_of_isDecimal
    {d : Char} (h : isDecimal d = true) : isOutsideMarks d = true := by
  have hletters : markChars.all (!isDecimal ·) = true := by decide +kernel
  rw [isOutsideMarks, Bool.not_eq_true', ← Bool.not_eq_true, List.contains_iff_mem]
  intro hmem
  have hnot := List.all_eq_true.1 hletters d hmem
  rw [h] at hnot
  cases hnot

/-- What may stand before a text and make a list item of it. -/
inductive ItemLead (t : Text) : Text → Prop where
  | dash : ItemLead t "- ".toList
  | plus : ItemLead t "+ ".toList
  | star (hlast : t.getLast? ≠ some '*') : ItemLead t "* ".toList
  | number {d : Char} (hd : isDecimal d = true) : ItemLead t [d, '.', ' ']

theorem getLast?_star_iff {t : Text} :
    ('*' :: ' ' :: t).getLast? = some '*' ↔ t.getLast? = some '*' := by
  rw [List.getLast?_cons_cons, List.getLast?_cons]
  cases t.getLast? with
  | none => decide
  | some c => rfl

theorem listItem?_eq_some
    {t rest : Text} {format : Format} (h : listItem? t = some (format, rest)) :
    '\x00' ∉ format.text ∧ ∃ lead, t = lead ++ rest ∧ ItemLead rest lead := by
  revert h
  fun_cases listItem? t with
  | case1 tail =>
    intro h
    cases h
    exact ⟨by decide, _, rfl, .dash⟩
  | case2 tail =>
    intro h
    cases h
    exact ⟨by decide, _, rfl, .plus⟩
  | case3 tail hlast =>
    rw [if_pos hlast]
    exact fun h => (by cases h)
  | case4 tail hlast =>
    rw [if_neg hlast]
    intro h
    cases h
    rw [beq_iff_eq, getLast?_star_iff] at hlast
    exact ⟨by decide, _, rfl, .star hlast⟩
  | case5 _ hnumber =>
    rw [if_pos hnumber]
    intro h
    cases h
    revert hnumber
    fun_cases startsNumbered t with
    | case1 d tail => exact fun hd => ⟨by decide, _, rfl, .number hd⟩
    | case2 => exact fun hnumber => (by cases hnumber)
  | case6 _ hnumber =>
    rw [if_neg hnumber]
    exact fun h => (by cases h)

theorem ItemLead.listItem? {t lead : Text} (h : ItemLead t lead) :
    ∃ format, listItem? (lead ++ t) = some (format, t) := by
  cases h with
  | dash => exact ⟨_, rfl⟩
  | plus => exact ⟨_, rfl⟩
  | star hlast =>
    exact ⟨_, if_neg fun hstar => hlast (getLast?_star_iff.1 (beq_iff_eq.1 hstar))⟩
  | number hd =>
    refine ⟨.numbered, ?_⟩
    rw [List.cons_append, List.cons_append, List.cons_append, List.nil_append, Markdown.listItem?]
    · exact if_pos hd
    all_goals
      intro rest heq
      exact absurd (List.cons.inj (List.cons.inj heq).2).1 (by decide)

theorem ItemLead.ne_nil {t lead : Text} (h : ItemLead t lead) : lead ≠ [] := by
  cases h with
  | dash => decide
  | plus => decide
  | star => decide
  | number => exact List.cons_ne_nil _ _

/-- Neither escapes nor the other block forms have a part in the mark of a list item. -/
theorem ItemLead.not_mem {t lead : Text} (h : ItemLead t lead) :
    ∀ c ∈ lead, c ∉ "\x00\n\\`>[".toList := by
  cases h with
  | dash => exact List.all_iff_forall_prop.1 (by decide)
  | plus => exact List.all_iff_forall_prop.1 (by decide)
  | star => exact List.all_iff_forall_prop.1 (by decide)
  | @number d hd =>
    intro c hc hmem
    rcases List.mem_cons.1 hc with rfl | hc
    · have hdigits : ∀ c ∈ "\x00\n\\`>[".toList, isDecimal c = false :=
        List.all_iff_forall_prop.1 (by decide +kernel)
      exact Bool.false_ne_true ((hdigits c hmem).symm.trans hd)
    · have hrest : ∀ c ∈ ['.', ' '], c ∉ "\x00\n\\`>[".toList :=
        List.all_iff_forall_prop.1 (by decide)
      exact hrest c hc hmem

theorem ItemLead.all_isOutsideMarks {t lead : Text} (h : ItemLead t lead) :
    lead.all isOutsideMarks = true := by
  cases h with
  | dash => decide
  | plus => decide
  | star => decide
  | number hd =>
    rw [List.all_cons, isOutsideMarks_of_isDecimal hd]
    decide

theorem heading?_eq_some
    {t inner : Text} {level : Char} (h : heading? t = some (level, inner)) :
    level ≠ '\x00' ∧ ∃ lead, t = lead ++ inner ∧ lead.all isOutsideMarks = true := by
  have hlevels : ∀ n < 7, Char.ofNat ('0'.toNat + n) ≠ '\x00' := by decide
  unfold heading? at h
  simp only [Option.ite_none_left_eq_some, Option.some.injEq, Prod.mk.injEq] at h
  obtain ⟨-, rfl, hinner⟩ := h
  refine ⟨hlevels _ (by omega), ?_⟩
  generalize hn : min (t.takeWhile (· == '#')).length 6 = n at hinner
  have hmarks : (t.take n).all isOutsideMarks = true := by
    have htake : (t.takeWhile (· == '#') ++ t.dropWhile (· == '#')).take n =
        (t.takeWhile (· == '#')).take n := List.take_append_of_le_length (by omega)
    rw [List.takeWhile_append_dropWhile] at htake
    refine List.all_eq_true.2 fun c hc => ?_
    rw [htake] at hc
    have hhash := List.mem_takeWhile_imp (List.mem_of_mem_take hc)
    rw [eq_of_beq hhash]
    decide
  split at hinner
  next rest hdrop =>
    refine ⟨t.take n ++ [' '], ?_, ?_⟩
    · rw [List.append_assoc, List.singleton_append, ← hinner, ← hdrop, List.take_append_drop]
    · rw [List.all_append, hmarks]
      decide
  next =>
    exact ⟨t.take n, by rw [← hinner, List.take_append_drop], hmarks⟩

namespace Masked

variable {t : Text}

theorem inline (h : Masked t) : Masked (inline t).1 := by
  fun_cases Markdown.inline t with
  | case1 inner hinner => exact h.enclosed hinner (by decide) (by decide)
  | case2 _ inner hinner => exact h.enclosed hinner (by decide) (by decide)
  | case3 _ _ inner hinner => exact h.enclosed hinner (by decide) (by decide)
  | case4 _ _ _ inner hinner => exact h.enclosed hinner (by decide) (by decide)
  | case5 _ _ _ _ inner hinner => exact h.enclosed hinner (by decide) (by decide)
  | case6 _ _ _ _ _ label target hlink =>
    obtain ⟨target, rest, hlink, -⟩ := link?_eq_some_iff.1 hlink
    rw [hlink.text, IsLink.parts, List.append_assoc label] at h
    exact ((h.behind (by decide)).cut (by decide)).1
  | case7 _ _ _ _ _ _ level inner hheading =>
    obtain ⟨-, lead, rfl, hlead⟩ := heading?_eq_some hheading
    exact h.behind hlead
  | case8 => exact h

theorem fencedCode (h : Masked t) : Masked (fencedCode t) := by
  fun_cases Markdown.fencedCode t with
  | case1 line code hcut =>
    rw [Text.eq_append_of_cut? hcut, List.append_assoc] at h
    exact (h.cut (by decide)).2
  | case2 => exact h

end Masked

theorem not_mem_read {t : Text} (h : '\x00' ∉ t) : '\x00' ∉ (read t).1 := by
  have hmasked : Masked (escape t) := ⟨t, h, rfl⟩
  fun_cases read t with
  | case1 => decide
  | case2 _ _ inner hinner =>
    exact (hmasked.enclosed hinner (by decide) (by decide)).fencedCode.not_mem_unescape
  | case3 _ _ _ inner hquote =>
    have heq : escape t = "> ".toList ++ inner := Text.eq_append_of_after? hquote
    rw [heq] at hmasked
    exact (hmasked.behind (by decide)).not_mem_unescape
  | case4 _ _ _ _ inner hinner =>
    exact (hmasked.enclosed hinner (by decide) (by decide)).not_mem_unescape
  | case5 _ _ _ _ _ level item hnesting format rest hitem plain formats hinline =>
    have hspaces := nesting_eq (escape t)
    rw [show nesting (escape t) = (level, item) from hnesting] at hspaces
    rw [hspaces] at hmasked
    have hitemMasked := hmasked.behind (List.all_eq_true.2 fun c hc =>
      List.eq_of_mem_replicate hc ▸ (by decide))
    obtain ⟨-, lead, rfl, hlead⟩ := listItem?_eq_some hitem
    have hplain := ((hitemMasked.behind hlead.all_isOutsideMarks).tabs level).inline
    rw [hinline] at hplain
    exact hplain.not_mem_unescape
  | case6 _ _ _ _ _ level item hnesting hitem plain formats hinline =>
    have hplain : Masked (inline (escape t)).1 := hmasked.inline
    rw [hinline] at hplain
    exact hplain.not_mem_unescape

/-! ## Marks in formats -/

/-- Of the formats of an inline form only a link can show a mark. -/
theorem link?_of_mem_inline
    {t : Text} {format : Format} (h : format ∈ (inline t).2) (hnul : '\x00' ∈ format.text) :
    ∃ label target, link? t = some (label, target) ∧ '\x00' ∈ target := by
  revert h
  fun_cases inline t with
  | case1 inner hinner =>
    intro h
    simp only [List.mem_cons, List.not_mem_nil, or_false] at h
    rcases h with rfl | rfl
    · exact absurd hnul (by decide)
    · exact absurd hnul (by decide)
  | case6 _ _ _ _ _ label target hlink =>
    intro h
    rw [List.mem_singleton.1 h] at hnul
    rcases List.mem_append.1 (hnul : '\x00' ∈ "link:".toList ++ target) with hname | htarget
    · exact absurd hname (by decide)
    · exact ⟨label, target, hlink, htarget⟩
  | case7 _ _ _ _ _ _ level inner hheading =>
    intro h
    rw [List.mem_singleton.1 h] at hnul
    rcases List.mem_append.1 (hnul : '\x00' ∈ "heading".toList ++ [level]) with hname | hlevel
    · exact absurd hname (by decide)
    · exact absurd (List.mem_singleton.1 hlevel).symm (heading?_eq_some hheading).1
  | case8 => exact fun h => absurd h List.not_mem_nil
  | _ =>
    intro h
    rw [List.mem_singleton.1 h] at hnul
    exact absurd hnul (by decide)

theorem enclosed?_cons_eq_none
    {opening closing : String} {o c : Char} (h : opening.toList.head? = some o) (hne : o ≠ c)
    (t : Text) : enclosed? opening closing (c :: t) = none := by
  refine Option.eq_none_iff_forall_ne_some.2 fun inner hinner => hne ?_
  obtain ⟨-, heq⟩ := enclosed?_eq_some_iff.1 hinner
  obtain ⟨os, hopening⟩ := List.head?_eq_some_iff.1 h
  rw [hopening] at heq
  exact (List.cons.inj heq).1.symm

theorem inline_of_link?
    {t label target : Text} (h : link? t = some (label, target)) :
    (inline t).2 = [.link target] := by
  obtain ⟨written, rest, hlink, -⟩ := link?_eq_some_iff.1 h
  obtain ⟨tail, rfl⟩ := hlink.head
  have hnone : ∀ (opening closing : String) (o : Char), opening.toList.head? = some o → o ≠ '[' →
      enclosed? opening closing ('[' :: tail) = none :=
    fun _ _ _ ho hne => enclosed?_cons_eq_none ho hne tail
  rw [inline, hnone "***" "***" '*' rfl (by decide), hnone "**" "**" '*' rfl (by decide),
    hnone "*" "*" '*' rfl (by decide), hnone "~~" "~~" '~' rfl (by decide),
    hnone "`" "`" '`' rfl (by decide), h]

theorem isRule_of_bracket {t : Text} (h : '[' ∈ t) : isRule t = false := by
  have hrules : ∀ rule ∈ ["---", "***", "___"].map String.toList, '[' ∉ rule := by decide
  rw [← Bool.not_eq_true, isRule_iff]
  exact fun hrule => hrules _ hrule (Text.mem_trim (by decide) h)

/-- A list item has the format of its mark and those of its text. -/
theorem read_of_listItem?
    {t rest : Text} {format : Format} (h : listItem? (escape t) = some (format, rest))
    (hrule : isRule (escape t) = false) :
    (read t).2 = format :: (inline rest).2 := by
  obtain ⟨-, lead, heq, hlead⟩ := listItem?_eq_some h
  obtain ⟨c, tail, rfl⟩ := List.exists_cons_of_ne_nil hlead.ne_nil
  have hne : ∀ o ∈ "\x00\n\\`>[".toList, o ≠ c := fun o ho hoc =>
    hlead.not_mem c List.mem_cons_self (hoc ▸ ho)
  have hcode : enclosed? "```" "```" (escape t) = none := by
    rw [heq]
    exact enclosed?_cons_eq_none rfl (hne '`' (by decide)) _
  have hnote : enclosed? "[^" "]" (escape t) = none := by
    rw [heq]
    exact enclosed?_cons_eq_none rfl (hne '[' (by decide)) _
  have hquote : Text.after? "> ".toList (escape t) = none := by
    rw [heq]
    exact if_neg (Bool.not_eq_true _ ▸ Text.startsWith_cons_of_ne (hne '>' (by decide)) _ _)
  have hmark : ListMark (escape t) := isSome_listItem?_iff.1 (Option.isSome_iff_exists.2 ⟨_, h⟩)
  have hnesting : nesting (escape t) = (0, escape t) := nesting_append hmark 0
  simp only [read, hrule, hcode, hquote, hnote, hnesting, h, List.replicate_zero, List.nil_append]
  rfl

theorem read_of_bracket
    {t tail : Text} (h : escape t = '[' :: tail) (hnote : ¬ Between "[^" "]" (escape t)) :
    (read t).2 = (inline (escape t)).2 := by
  have hrule : isRule (escape t) = false := isRule_of_bracket (h ▸ List.mem_cons_self)
  have hcode : enclosed? "```" "```" (escape t) = none := by
    rw [h]
    exact enclosed?_cons_eq_none rfl (by decide) tail
  have hquote : Text.after? "> ".toList (escape t) = none := by
    rw [h]
    rfl
  have hfootnote : enclosed? "[^" "]" (escape t) = none :=
    Option.not_isSome_iff_eq_none.1 (mt isSome_enclosed?_iff.1 hnote)
  have hitem : listItem? (nesting (escape t)).2 = none := by
    refine Option.not_isSome_iff_eq_none.1 fun hsome => ?_
    obtain ⟨level, item, hitem, heq⟩ := isSome_listItem?_nesting_iff.1 hsome
    rw [h] at heq
    cases level with
    | zero =>
      rw [Nat.mul_zero, List.replicate_zero, List.nil_append] at heq
      subst heq
      cases hitem with
      | number hd rest => exact absurd hd (by decide)
    | succ level => exact absurd (List.cons.inj heq).1 (by decide)
  simp only [read, hrule, hcode, hquote, hfootnote, hitem]
  rfl

/-- The text is a link to a target as it is written, by itself or as the text of a list item that is
not nested. -/
inductive LinksTo : Text → Text → Prop where
  | alone {t label target rest : Text} (h : IsLink t label target rest)
      (hnote : ¬ Between "[^" "]" t) : LinksTo t target
  | item {lead t label target rest : Text} (h : IsLink t label target rest)
      (hlead : ItemLead (escape t) lead) : LinksTo (lead ++ t) target

/-- The mark of a list item stays as it is when escapes are hidden. -/
theorem ItemLead.escape_eq_iff {t u rest lead : Text} (h : ItemLead u lead) :
    escape t = lead ++ rest ↔ ∃ s, t = lead ++ s ∧ escape s = rest := by
  constructor
  · refine exists_of_escape_eq_append fun c hc => ⟨?_, ?_⟩
    · rintro rfl
      exact h.not_mem _ hc (by decide)
    · rintro rfl
      exact h.not_mem _ hc (by decide)
  · rintro ⟨s, rfl, rfl⟩
    refine escape_append_of_not_mem (fun hmem => ?_) s
    exact h.not_mem _ hmem (by decide)

theorem exists_linksTo_of_format
    {t : Text} {format : Format} (h : format ∈ (read t).2) (hnul : '\x00' ∈ format.text) :
    ∃ target, LinksTo t target ∧ '\x00' ∈ escape target := by
  have hlinks : ∀ {u label shown : Text}, link? (escape u) = some (label, shown) → '\x00' ∈ shown →
      ∃ label target rest, IsLink u label target rest ∧ '\x00' ∈ escape target := by
    intro u label shown hlink hshown
    obtain ⟨hidden, rest, hhidden, rfl⟩ := link?_eq_some_iff.1 hlink
    obtain ⟨label', target, rest', hwritten, rfl⟩ := hhidden.of_hidden
    rw [Text.mem_replaceAll_iff (by decide) (by decide) (by decide)] at hshown
    exact ⟨label', target, rest', hwritten, hshown⟩
  revert h
  fun_cases read t with
  | case5 s _ _ _ _ level item hnesting mark rest hitem plain formats hinline =>
    intro h
    obtain ⟨hmark, lead, hlead, hitemLead⟩ := listItem?_eq_some hitem
    rcases List.mem_cons.1 h with rfl | h
    · exact absurd hnul hmark
    · have hformat : format ∈ (inline (List.replicate level '\t' ++ rest)).2 := by
        rw [hinline]
        exact h
      obtain ⟨label, shown, hlink, hshown⟩ := link?_of_mem_inline hformat hnul
      -- A nested item starts with a tab, so that it is no link.
      obtain ⟨hidden, behind, hbracket, -⟩ := link?_eq_some_iff.1 hlink
      obtain ⟨tail, htail⟩ := hbracket.head
      cases level with
      | succ level => exact absurd (List.cons.inj htail).1 (by decide)
      | zero =>
        have hitemText := nesting_eq (escape t)
        rw [show nesting (escape t) = (0, item) from hnesting, hlead] at hitemText
        obtain ⟨u, rfl, rfl⟩ := hitemLead.escape_eq_iff.1 hitemText
        obtain ⟨label', target, rest', hwritten, htarget⟩ := hlinks hlink hshown
        exact ⟨target, .item hwritten hitemLead, htarget⟩
  | case6 s _ _ _ hnote level item hnesting hitem plain formats hinline =>
    intro h
    have hformat : format ∈ (inline (escape t)).2 := by
      rw [show inline (escape t) = (plain, formats) from hinline]
      exact h
    obtain ⟨label, shown, hlink, hshown⟩ := link?_of_mem_inline hformat hnul
    obtain ⟨label', target, rest', hwritten, htarget⟩ := hlinks hlink hshown
    refine ⟨target, .alone hwritten fun hbetween => ?_, htarget⟩
    rw [← between_escape_iff (by decide) (by decide) (by decide), ← isSome_enclosed?_iff] at hbetween
    rw [show enclosed? "[^" "]" (escape t) = none from hnote] at hbetween
    cases hbetween
  | _ =>
    intro h
    rw [List.mem_singleton.1 h] at hnul
    exact absurd hnul (by decide)

/-- A link with a mark in its target shows it in its format. -/
theorem exists_format_of_linksTo
    {t target : Text} (h : LinksTo t target) (hnul : '\x00' ∈ escape target) :
    ∃ format ∈ (read t).2, '\x00' ∈ format.text := by
  have hinline : ∀ {u label rest : Text}, IsLink u label target rest →
      ∃ format ∈ (inline (escape u)).2, '\x00' ∈ format.text := by
    intro u label rest hlink
    refine ⟨_, inline_of_link? (link?_eq_some_iff.2 ⟨_, _, hlink.hide, rfl⟩) ▸
      List.mem_singleton_self _, List.mem_append_right "link:".toList ?_⟩
    exact (Text.mem_replaceAll_iff (by decide) (by decide) (by decide)).2 hnul
  cases h with
  | alone hlink hnote =>
    obtain ⟨tail, htail⟩ := hlink.hide.head
    rw [read_of_bracket htail]
    · exact hinline hlink
    · rwa [between_escape_iff (by decide) (by decide) (by decide)]
  | @item lead u label target rest hlink hlead =>
    have hitem : escape (lead ++ u) = lead ++ escape u := hlead.escape_eq_iff.2 ⟨u, rfl, rfl⟩
    obtain ⟨tail, htail⟩ := hlink.hide.head
    obtain ⟨format, hformat⟩ := hlead.listItem?
    rw [← hitem] at hformat
    have hrule : isRule (escape (lead ++ u)) = false := by
      refine isRule_of_bracket ?_
      rw [hitem, htail]
      exact List.mem_append_right _ List.mem_cons_self
    rw [read_of_listItem? hformat hrule]
    obtain ⟨shown, hshown, hmark⟩ := hinline hlink
    exact ⟨shown, List.mem_cons_of_mem _ hshown, hmark⟩

theorem IsLink.target_subset {t label target rest : Text} (h : IsLink t label target rest) :
    target ⊆ t := by
  rw [h.text]
  exact fun c hc => List.mem_append_left _ (List.mem_append_right _ hc)

theorem LinksTo.target_subset {t target : Text} (h : LinksTo t target) : target ⊆ t := by
  cases h with
  | alone hlink => exact hlink.target_subset
  | item hlink => exact fun c hc => List.mem_append_right _ (hlink.target_subset hc)

/-- Marks never leave with the text, and they leave with a format exactly when the text is a link
with an escaped character in its target. -/
theorem marks_leave_iff {t : Text} (h : '\x00' ∉ t) :
    '\x00' ∉ (read t).1 ∧
      ((∃ format ∈ (read t).2, '\x00' ∈ format.text) ↔
        ∃ target, LinksTo t target ∧ ∃ c ∈ specials, ['\\', c] <:+: target) := by
  have hwritten : ∀ {target}, LinksTo t target → '\x00' ∉ target := fun hlinks hnul =>
    h (hlinks.target_subset hnul)
  refine ⟨not_mem_read h, ?_, ?_⟩
  · rintro ⟨format, hformat, hnul⟩
    obtain ⟨target, hlinks, hmark⟩ := exists_linksTo_of_format hformat hnul
    exact ⟨target, hlinks, (nul_mem_escape_iff (hwritten hlinks)).1 hmark⟩
  · rintro ⟨target, hlinks, hescape⟩
    exact exists_format_of_linksTo hlinks ((nul_mem_escape_iff (hwritten hlinks)).2 hescape)

theorem marks_leave_listItem :
    '\x00' ∉ "- [plan](notes\\#2)".toList ∧
      '\x00' ∉ (read "- [plan](notes\\#2)".toList).1 ∧
        ∃ format ∈ (read "- [plan](notes\\#2)".toList).2, '\x00' ∈ format.text := by
  have hnul : '\x00' ∉ "- [plan](notes\\#2)".toList := by decide
  have hlink : IsLink "[plan](notes\\#2)".toList "plan".toList "notes\\#2".toList [] := by
    refine ⟨rfl, ?_, by decide, by decide⟩
    rw [← Text.occursIn_iff]
    decide
  obtain ⟨htext, hformats⟩ := marks_leave_iff hnul
  refine ⟨hnul, htext, hformats.2 ⟨_, .item hlink .dash, '#', by decide, ?_⟩⟩
  exact ⟨"notes".toList, "2".toList, rfl⟩

/-- A mark can leave: the star in the address of a link is not put back. -/
theorem mark_leaves_starredAddress :
    '\x00' ∉ "[a](b\\*c)".toList ∧
      ∃ format ∈ (read "[a](b\\*c)".toList).2, '\x00' ∈ format.text :=
  ⟨by decide, .link ('b' :: mark "ASTERISK" ++ ['c']), by decide, by decide⟩

end Redline.Markdown
