import Redline.Edit.Match
import Redline.Proofs.MarkdownEscape
import Redline.Proofs.Template
import Redline.Routing.Kind

/-!
# Replacements that are left to the service

A plain replacement is sent to the service as it is, where a replacement that is not plain is
expanded against each match and read as markdown.  Expanding a plain replacement gives the text that
is sent, but reading it as markdown does not always keep it: a heading without a space, a nested
numbered item, an escape and a mark of an escape are not seen by the test for plain text.
-/

namespace Redline

/-! ## Templates without references -/

namespace Template

theorem mentionsGroup_of_cons
    {c : Char} {rest : Text} (h : Markdown.mentionsGroup (c :: rest) = false) :
    Markdown.mentionsGroup rest = false := by
  cases rest with
  | nil => rfl
  | cons d tail =>
    by_cases hc : c = '$'
    · subst hc
      rw [Markdown.mentionsGroup, Bool.or_eq_false_iff] at h
      exact h.2
    · rwa [Markdown.mentionsGroup] at h
      exact fun d tail hcd _ => hc hcd

/-- What holds of a template without references by its first piece, and of what follows it, holds of
every template without references. -/
theorem induction_of_not_mentionsGroup
    {motive : (t : Text) → Markdown.mentionsGroup t = false → Prop} (nil : motive [] rfl)
    (dollar : ∀ rest h, motive rest (mentionsGroup_of_cons (mentionsGroup_of_cons h)) →
      motive ('$' :: '$' :: rest) h)
    (char : ∀ c rest h, StandsAlone c rest → motive rest (mentionsGroup_of_cons h) →
      motive (c :: rest) h)
    (t : Text) (h : Markdown.mentionsGroup t = false) : motive t h := by
  induction t using induction_by_piece with
  | nil => exact nil
  | dollar rest ih => exact dollar rest h (ih _)
  | reference rest digits tail hrefers ih =>
    rw [Markdown.mentionsGroup] at h
    simp at h
  | char c rest halone ih => exact char c rest h halone (ih _)

/-- A template without references is its text, character by character. -/
theorem pieces_eq_map_literal
    {t : Text} (h : Markdown.mentionsGroup t = false) : pieces t = (literal t).map .char := by
  induction t, h using induction_of_not_mentionsGroup with
  | nil => exact pieces_nil
  | dollar rest _ ih => rw [pieces_dollar_dollar, literal_dollar_dollar, ih, List.map_cons]
  | char c rest _ halone ih => rw [halone.pieces, halone.literal, ih, List.map_cons]

/-- A template without references expands to its text. -/
theorem expand_eq_literal
    {t : Text} (h : Markdown.mentionsGroup t = false) (m : Option Match) :
    expand m t = .ok (literal t) := by
  have hchars : ∀ s : Text,
      (s.map Piece.char).mapM (Piece.expand m) = .ok (s.map fun c => [c]) := by
    intro s
    induction s with
    | nil => rfl
    | cons c s ih =>
      rw [List.map_cons, List.mapM_cons, ih]
      rfl
  rw [expand, pieces_eq_map_literal h, hchars]
  exact congrArg Except.ok (List.flatMap_singleton' _)

/-- What stands at the start of the text of a template, without dollars, stands at the start of the
template. -/
theorem isPrefix_of_isPrefix_literal
    {t s : Text} (h : Markdown.mentionsGroup t = false) (hs : '$' ∉ s) (hlead : s <+: literal t) :
    s <+: t := by
  induction t, h using induction_of_not_mentionsGroup generalizing s with
  | nil => exact hlead
  | dollar rest _ ih =>
    cases s with
    | nil => exact List.nil_prefix
    | cons a s =>
      rw [literal_dollar_dollar, List.cons_prefix_cons] at hlead
      exact absurd (hlead.1 ▸ List.mem_cons_self) hs
  | char c rest _ halone ih =>
    cases s with
    | nil => exact List.nil_prefix
    | cons a s =>
      rw [halone.literal, List.cons_prefix_cons] at hlead
      obtain ⟨rfl, hrest⟩ := hlead
      have hlead := ih (fun hmem => hs (List.mem_cons_of_mem a hmem)) hrest
      exact List.cons_prefix_cons.2 ⟨rfl, hlead⟩

/-- What stands in the text of a template, without dollars, stands in the template. -/
theorem isInfix_of_isInfix_literal
    {t s : Text} (h : Markdown.mentionsGroup t = false) (hs : '$' ∉ s) (hpart : s <:+: literal t) :
    s <:+: t := by
  induction t, h using induction_of_not_mentionsGroup with
  | nil => exact hpart
  | dollar rest hmentions ih =>
    have hliteral := literal_dollar_dollar rest
    rw [hliteral, List.infix_cons_iff, ← hliteral] at hpart
    rcases hpart with hlead | hpart
    · exact (isPrefix_of_isPrefix_literal hmentions hs hlead).isInfix
    · exact (ih hpart).trans ⟨['$', '$'], [], by simp⟩
  | char c rest hmentions halone ih =>
    have hliteral := halone.literal
    rw [hliteral, List.infix_cons_iff, ← hliteral] at hpart
    rcases hpart with hlead | hpart
    · exact (isPrefix_of_isPrefix_literal hmentions hs hlead).isInfix
    · exact (ih hpart).trans ⟨[c], [], by simp⟩

/-- A template whose text has no dollar is its text. -/
theorem literal_eq_self
    {t : Text} (h : Markdown.mentionsGroup t = false) (hdollar : '$' ∉ literal t) :
    literal t = t := by
  induction t, h using induction_of_not_mentionsGroup with
  | nil => rfl
  | dollar rest _ ih =>
    rw [literal_dollar_dollar] at hdollar
    exact absurd List.mem_cons_self hdollar
  | char c rest _ halone ih =>
    rw [halone.literal] at hdollar ⊢
    rw [ih fun hmem => hdollar (List.mem_cons_of_mem c hmem)]

end Template

/-! ## Markdown forms -/

namespace Markdown

theorem enclosed?_eq_none
    {opening closing : String} {t : Text} (h : ¬ opening.toList <:+: t) :
    enclosed? opening closing t = none := by
  have hstarts : Text.startsWith opening.toList t = false := by
    rw [← Bool.not_eq_true]
    exact fun hstarts => h (List.isPrefixOf_iff_prefix.1 hstarts).isInfix
  simp only [enclosed?, hstarts, Bool.false_and]
  rfl

theorem cut?_eq_none {piece t : Text} (h : ¬ piece <:+: t) : Text.cut? piece t = none := by
  rw [← Option.not_isSome_iff_eq_none]
  exact fun hsome => h (Text.occursIn_iff.1 hsome)

theorem link?_eq_none {t : Text} (h : ¬ "](".toList <:+: t) : link? t = none := by
  unfold link?
  split
  next => rw [cut?_eq_none h]
  next => rfl

theorem heading?_eq_none_iff {t : Text} : heading? t = none ↔ ¬ ['#'] <+: t := by
  cases t with
  | nil => simp [heading?]
  | cons c rest =>
    rw [heading?, List.takeWhile_cons]
    by_cases hc : c = '#'
    · simp [hc]
    · simp [hc, Ne.symm hc]

theorem nesting_isSuffix (t : Text) : (nesting t).2 <:+ t := by
  fun_induction nesting t with
  | case1 rest level tail hrest ih =>
    rw [hrest] at ih
    exact ih.trans ⟨[' ', ' '], rfl⟩
  | case2 t hother => exact List.suffix_refl t

/-- Of the items of lists only numbered ones go without a mark. -/
theorem listItem?_eq_none_iff
    {t : Text} (hmarks : ∀ mark ∈ marks, ¬ mark.toList <:+: t) :
    listItem? t = none ↔ startsNumbered t = false := by
  fun_cases listItem? t with
  | case1 rest => exact absurd ⟨[], rest, rfl⟩ (hmarks "- " (by simp [marks]))
  | case2 rest => exact absurd ⟨[], rest, rfl⟩ (hmarks "+ " (by simp [marks]))
  | case3 rest hlast => exact absurd ⟨[], ' ' :: rest, rfl⟩ (hmarks "*" (by simp [marks]))
  | case4 rest hlast => exact absurd ⟨[], ' ' :: rest, rfl⟩ (hmarks "*" (by simp [marks]))
  | case5 => simp
  | case6 => simp

theorem listItem?_nesting_eq_none_iff
    {t : Text} (hmarks : ∀ mark ∈ marks, ¬ mark.toList <:+: t) :
    listItem? (nesting t).2 = none ↔ startsNumbered (nesting t).2 = false :=
  listItem?_eq_none_iff fun mark hmark hpart =>
    hmarks mark hmark (hpart.trans (nesting_isSuffix t).isInfix)

/-- Every inline form has a format. -/
theorem inline_of_formats_eq_nil
    {t : Text} (h : (inline t).2 = []) : inline t = (t, []) ∧ heading? t = none := by
  revert h
  fun_cases inline t with
  | case8 _ _ _ _ _ _ hheading => exact fun _ => ⟨rfl, hheading⟩
  | _ => exact fun h => absurd h (List.cons_ne_nil _ _)

/-- Every block form has a format, so what is read without formats has no form. -/
theorem read_of_formats_eq_nil
    {t : Text} (h : (read t).2 = []) :
    (read t).1 = unescape (escape t) ∧ heading? (escape t) = none ∧
      listItem? (nesting (escape t)).2 = none := by
  revert h
  fun_cases read t with
  | case6 _ _ _ _ _ level tail hnesting hitem plain formats hinline =>
    intro h
    have hnone : (inline (escape t)).2 = [] := by
      rw [hinline]
      exact h
    obtain ⟨hplain, hheading⟩ := inline_of_formats_eq_nil hnone
    obtain ⟨rfl, rfl⟩ := Prod.mk.inj (hinline.symm.trans hplain)
    refine ⟨rfl, hheading, ?_⟩
    rw [hnesting]
    exact hitem
  | _ => exact fun h => absurd h (List.cons_ne_nil _ _)

/-- A text with no form, escape or mark is read as it is. -/
theorem read_eq_self
    {t : Text} (hmarks : ∀ mark ∈ marks, ¬ mark.toList <:+: t) (hrule : isRule t = false)
    (hlink : ¬ "](".toList <:+: t) (hheading : ¬ ['#'] <+: t)
    (hnumbered : startsNumbered (nesting t).2 = false) (hescape : escape t = t)
    (hunescape : unescape t = t) :
    read t = (t, []) := by
  have hnot : ∀ mark ∈ marks, ∀ piece, mark.toList <:+: piece → ¬ piece <:+: t :=
    fun mark hmark piece hpiece hpart => hmarks mark hmark (hpiece.trans hpart)
  have hinline : inline t = (t, []) := by
    have hstar : ∀ piece, ['*'] <:+: piece → ¬ piece <:+: t := hnot "*" (by simp [marks])
    simp only [inline, enclosed?_eq_none (hstar "***".toList ⟨[], ['*', '*'], rfl⟩),
      enclosed?_eq_none (hstar "**".toList ⟨[], ['*'], rfl⟩),
      enclosed?_eq_none (hstar "*".toList ⟨[], [], rfl⟩),
      enclosed?_eq_none (hmarks "~~" (by simp [marks])),
      enclosed?_eq_none (hmarks "`" (by simp [marks])), link?_eq_none hlink,
      heading?_eq_none_iff.2 hheading]
  have hcode : enclosed? "```" "```" t = none :=
    enclosed?_eq_none (hnot "`" (by simp [marks]) _ ⟨[], "``".toList, rfl⟩)
  have hquote : Text.after? "> ".toList t = none := by
    have hstarts : ¬ Text.startsWith "> ".toList t = true := fun hstarts =>
      hmarks "> " (by simp [marks]) (List.isPrefixOf_iff_prefix.1 hstarts).isInfix
    rw [Text.after?, if_neg hstarts]
  have hfootnote : enclosed? "[^" "]" t = none := enclosed?_eq_none (hmarks "[^" (by simp [marks]))
  have hitem := (listItem?_nesting_eq_none_iff hmarks).2 hnumbered
  simp only [read, hescape, hrule, hcode, hquote, hfootnote, hitem, hinline, hunescape]
  rfl

/-- The text of a template is a rule only if the template is. -/
theorem isRule_literal
    {t : Text} (h : mentionsGroup t = false) (hrule : isRule t = false) :
    isRule (Template.literal t) = false := by
  rw [← Bool.not_eq_true]
  intro htext
  obtain ⟨rule, hmem, heq⟩ := List.any_eq_true.1 htext
  have hdollars : ∀ rule ∈ ["---", "***", "___"], '$' ∉ rule.toList := by
    decide
  have hdollar : '$' ∉ Template.literal t := fun hmem' =>
    hdollars rule hmem (eq_of_beq heq ▸ Text.mem_trim (by decide) hmem')
  rw [Template.literal_eq_self h hdollar, hrule] at htext
  exact Bool.false_ne_true htext

/-- What the test for plain text rules out of a replacement does not stand in its text either. -/
theorem isPlain_literal
    {t : Text} (h : isPlain t = true) :
    mentionsGroup t = false ∧ (∀ mark ∈ marks, ¬ mark.toList <:+: Template.literal t) ∧
      isRule (Template.literal t) = false ∧ ¬ "](".toList <:+: Template.literal t ∧
      ¬ ['\\', 'n'] <:+: Template.literal t := by
  simp only [isPlain, Bool.not_eq_true', Bool.or_eq_false_iff] at h
  obtain ⟨⟨⟨⟨⟨⟨-, hmarks⟩, hrule⟩, -⟩, hnewline⟩, hgroup⟩, hlink⟩ := h
  have habsent : ∀ piece, '$' ∉ piece → Text.occursIn piece t = false →
      ¬ piece <:+: Template.literal t := by
    intro piece hdollar hoccurs hpart
    have hstands := Text.occursIn_iff.2 (Template.isInfix_of_isInfix_literal hgroup hdollar hpart)
    rw [hoccurs] at hstands
    exact Bool.false_ne_true hstands
  have hdollars : ∀ mark ∈ marks, '$' ∉ mark.toList := by
    decide
  refine ⟨hgroup, ?_, isRule_literal hgroup hrule, habsent _ (by decide) hlink,
    habsent _ (by decide) hnewline⟩
  intro mark hmark
  exact habsent _ (hdollars mark hmark) (by simpa using List.any_eq_false.1 hmarks mark hmark)

end Markdown

/-! ## Native expressions -/

namespace Expression

/-- Text without the middle of an image is written as markdown. -/
theorem ofMatch_eq_ok
    {e : Expression} (hblocks : e.blocks = []) {m : Match} {text : Text}
    (htext : Template.expand (some m) e.replacement = .ok text) (hlink : ¬ "](".toList <:+: text) :
    Written.ofMatch e m =
      .ok (.text (Markdown.read text).1 (Markdown.read text).2 none) := by
  have hdirective : e.directive? = none := by
    rw [directive?, hblocks]
  have himage : ImageSpec.read? text = none := by
    rw [ImageSpec.read?, Markdown.cut?_eq_none hlink]
    cases Text.after? "![".toList text <;> rfl
  have hnone : Written.imageOf? text none = none := by
    rw [Written.imageOf?, himage]
    rfl
  simp only [Written.ofMatch, htext, hdirective, Except.mapError, bind, Except.bind, hnone]
  rfl

/-- A replacement that is left to the service expands to the text that is sent, whatever the match,
and would be written as what this text reads as in markdown.  The text is kept so, without formats,
exactly when it starts no heading and no numbered item, however nested, and has in it no escape and
no mark of one. -/
theorem read_expand_of_isNative
    {e : Expression} (h : e.isNative = true) (m : Match) :
    let text := Template.literal e.replacement
    Template.expand (some m) e.replacement = .ok text ∧
      Written.ofMatch e m = .ok (.text (Markdown.read text).1 (Markdown.read text).2 none) ∧
      (Markdown.read text = (text, []) ↔
        ¬ ['#'] <+: text ∧ Markdown.startsNumbered (Markdown.nesting text).2 = false ∧
        ∀ entry ∈ Markdown.escapable,
          ¬ ['\\', entry.1] <:+: text ∧ ¬ Markdown.mark entry.2 <:+: text) := by
  intro text
  simp only [isNative, Bool.and_eq_true] at h
  obtain ⟨⟨-, hblocks⟩, hplain⟩ := h
  obtain ⟨hgroup, hmarks, hrule, hlink, hnewline⟩ := Markdown.isPlain_literal hplain
  have hexpand := Template.expand_eq_literal hgroup (some m)
  refine ⟨hexpand, ofMatch_eq_ok (List.isEmpty_iff.1 hblocks) hexpand hlink, ?_, ?_⟩
  · intro hread
    obtain ⟨htext, hheading, hitem⟩ := Markdown.read_of_formats_eq_nil (congrArg Prod.snd hread)
    -- No format is found in what the first pass leaves, which then is the text itself.
    have hkept : Markdown.unescape (Markdown.escape text) = text :=
      htext.symm.trans (congrArg Prod.fst hread)
    obtain ⟨hescape, hunescape⟩ := Markdown.unescape_escape_eq_iff.1 hkept
    rw [hescape] at hheading hitem
    refine ⟨Markdown.heading?_eq_none_iff.1 hheading,
      (Markdown.listItem?_nesting_eq_none_iff hmarks).1 hitem, fun entry hentry => ⟨?_, ?_⟩⟩
    · exact (Markdown.escape_eq_self_iff.1 hescape).2 entry hentry
    · exact Markdown.unescape_eq_self_iff.1 hunescape entry hentry
  · rintro ⟨hheading, hnumbered, hescapes⟩
    have hescape : Markdown.escape text = text :=
      Markdown.escape_eq_self_iff.2 ⟨hnewline, fun entry hentry => (hescapes entry hentry).1⟩
    have hunescape : Markdown.unescape text = text :=
      Markdown.unescape_eq_self_iff.2 fun entry hentry => (hescapes entry hentry).2
    exact Markdown.read_eq_self hmarks hrule hlink hheading hnumbered hescape hunescape

/-- An expression whose replacement has a hash, a point after a number and a backslash, none of them
as markdown, and a dollar. -/
def plainExpression : Expression :=
  { pattern := ['a'], replacement := "  1.a #b\\c$$".toList, isGlobal := true, raw := [] }

theorem read_expand_plainExpression :
    plainExpression.isNative = true ∧
      ∀ m, Template.expand (some m) plainExpression.replacement = .ok "  1.a #b\\c$".toList ∧
        Written.ofMatch plainExpression m = .ok (.text "  1.a #b\\c$".toList [] none) := by
  have hnative : plainExpression.isNative = true := by
    decide +kernel
  refine ⟨hnative, fun m => ?_⟩
  obtain ⟨hexpand, hwritten, hread⟩ := read_expand_of_isNative hnative m
  have hkept := hread.2 ⟨by decide, by decide, by decide +kernel⟩
  rw [hkept] at hwritten
  exact ⟨hexpand, hwritten⟩

/-- A heading without a space after its hashes is left to the service. -/
theorem isNative_of_heading :
    ∃ e : Expression, e.isNative = true ∧ Template.literal e.replacement = "#x".toList ∧
      Markdown.read "#x".toList = (['x'], [.heading '1']) :=
  ⟨{ pattern := ['a'], replacement := "#x".toList, isGlobal := true, raw := [] },
    by decide +kernel, rfl, rfl⟩

end Expression

end Redline
