import Redline.Proofs.WellFormed

/-!
# Flags and references

The flags of a substitution that concern its pattern are put in front of the pattern, and only then
is it looked at for a reference to tables, cells or images.  A pattern with flags in front opens with
a parenthesis and no reference does, so a reference is lost with them.  This module compares the
readings of a substitution with flags and without: they are about the same exactly when no such flag
is given, or when there is no reference to lose.
-/

namespace Redline

/-! ## Patterns with flags -/

namespace Delimited

/-- The flags ask for a search without regard to case, or for line by line matching. -/
def ConcernPattern (flags : Text) : Prop :=
  'i' ∈ plainFlags flags ∨ 'm' ∈ plainFlags flags

theorem withFlags_of_not_concernPattern {flags : Text} (h : ¬ ConcernPattern flags) (t : Text) :
    withFlags t flags = t := by
  have hinline : ['i', 'm'].filter (plainFlags flags).contains = [] := by
    rw [ConcernPattern, not_or] at h
    simp [h.1, h.2]
  rw [withFlags, hinline]
  rfl

theorem exists_withFlags {flags : Text} (h : ConcernPattern flags) :
    ∃ lead, ∀ t, withFlags t flags = '(' :: (lead ++ t) := by
  have hinline : (['i', 'm'].filter (plainFlags flags).contains).isEmpty = false := by
    rw [List.isEmpty_eq_false_iff_exists_mem]
    rcases h with h | h
    · exact ⟨'i', by simp [h]⟩
    · exact ⟨'m', by simp [h]⟩
  refine ⟨'?' :: (['i', 'm'].filter (plainFlags flags).contains ++ [')']), fun t => ?_⟩
  simp only [withFlags]
  rw [if_neg (by rw [hinline]; decide)]
  simp

end Delimited

namespace Text

theorem exists_trim_cons {c : Char} (h : isBlank c = false) (t : Text) :
    ∃ rest, trim (c :: t) = c :: rest := by
  have hstart : dropStart isBlank (c :: t) = c :: t := by
    rw [dropStart, List.dropWhile_cons, if_neg (by simp [h])]
  rw [trim, trimWhere, hstart, dropEnd, List.reverse_cons, List.dropWhile_append]
  split
  · refine ⟨[], ?_⟩
    rw [List.dropWhile_cons, if_neg (by simp [h])]
    rfl
  · refine ⟨(t.reverse.dropWhile isBlank).reverse, ?_⟩
    rw [List.reverse_append]
    rfl

end Text

namespace Expression

/-- No reference opens with a parenthesis. -/
theorem noReference_of_parenthesis [CharNames] (t : Text) : NoReference ('(' :: t) where
  cells := rfl
  tables := by
    obtain ⟨rest, hrest⟩ := Text.exists_trim_cons (by decide : isBlank '(' = false) t
    rw [TableSelector.readPiped?, hrest]
    rfl
  lead h := by
    rw [Text.startsWith_cons_of_ne (by decide)] at h
    cases h

theorem readPattern?_of_parenthesis [CharNames] (t : Text) :
    ImageRef.readPattern? ('(' :: t) = .ok none :=
  rfl

/-! ## What is left of a pattern -/

theorem length_of_split? {t content rest : Text} (h : Block.split? t = some (content, rest)) :
    rest.length < t.length := by
  unfold Block.split? at h
  split at h
  · next behind =>
    have hclosing := Block.length_of_closing h
    rw [List.length_cons]
    omega
  · cases h

/-- A table reference in braces is taken off its pattern. -/
theorem length_of_detect [CharNames]
    {pattern rest : Text} {ref : TableRef}
    (h : LeadingRef.detect pattern = .ok (rest, some (.table ref))) :
    rest.length < pattern.length := by
  unfold LeadingRef.detect at h
  dsimp only at h
  split at h
  · cases h
  · next content behind hsplit =>
    have hbehind := length_of_split? hsplit
    have hpattern := (Text.trim_isInfix pattern).length_le
    split at h
    · obtain ⟨found, -, h⟩ := exists_of_bind_eq_ok h
      cases h
      have hrest := (Text.trim_isInfix behind).length_le
      omega
    · obtain ⟨found, -, h⟩ := exists_of_bind_eq_ok h
      cases h
    · cases h

theorem head_asPattern (ref : ImageRef) : ref.asPattern.head? = some '!' := by
  cases ref with
  | all => rfl
  | position i => rfl
  | alt source pattern => rfl

/-- What is left of a pattern that is about text: all of it when there is no reference, and behind a
reference in braces a shorter pattern or one for an image. -/
theorem cases_of_aimOfLead [CharNames]
    {pattern replacement : Text} {a : Aim} (h : aimOfLead pattern replacement = .ok a)
    (htext : a.target = .text) :
    (a.pattern = pattern ∧ (Text.startsWith ['\x7b'] pattern = true →
        ∃ rest, LeadingRef.detect pattern = .ok (rest, none))) ∨
      a.pattern.length < pattern.length ∨
        pattern.head? = some '\x7b' ∧ a.pattern.head? = some '!' := by
  unfold aimOfLead at h
  split at h
  · next hbrace =>
    cases h
    refine .inl ⟨rfl, fun hstarts => ?_⟩
    rw [hstarts] at hbrace
    cases hbrace
  · next hbrace =>
    obtain ⟨lead, hlead, h⟩ := exists_of_bind_eq_ok h
    have hlead := eq_ok_of_refuseAs_eq_ok hlead
    split at h
    · obtain ⟨target, -, h⟩ := exists_of_bind_eq_ok h
      cases h
      exact .inr (.inl (length_of_detect hlead))
    · cases h
      refine .inr (.inr ⟨?_, head_asPattern _⟩)
      simp only [Bool.not_eq_true, Bool.not_eq_false'] at hbrace
      rw [Text.eq_append_of_startsWith hbrace]
      rfl
    · cases h
      exact .inl ⟨rfl, fun _ => ⟨_, hlead⟩⟩

theorem cases_of_aim [CharNames]
    {pattern replacement : Text} {a : Aim} (h : aim pattern replacement = .ok a)
    (htext : a.target = .text) :
    (a.pattern = pattern ∧ NoReference pattern) ∨
      a.pattern.length < pattern.length ∨
        pattern.head? = some '\x7b' ∧ a.pattern.head? = some '!' := by
  obtain ⟨cells, hcells, h⟩ := exists_of_bind_eq_ok h
  have hcells := eq_ok_of_ofNumber_eq_ok hcells
  split at h
  · cases h
    cases htext
  · obtain ⟨lead, hlead, h⟩ := exists_of_bind_eq_ok h
    split at h
    · obtain ⟨selector, hselector, h⟩ := exists_of_bind_eq_ok h
      have hselector := eq_ok_of_ofNumber_eq_ok hselector
      split at h
      · cases h
        cases htext
      · cases h
        rcases cases_of_aimOfLead hlead htext with ⟨hpattern, hdetect⟩ | hother
        · exact .inl ⟨hpattern, hcells, hpattern ▸ hselector, hdetect⟩
        · exact .inr hother
    · next hother =>
      cases h
      exact absurd htext hother

/-! ## Readings that are about the same -/

/-- The replacement and its blocks do not depend on what else is in the expression. -/
theorem addReplacement_eq_map {e : Expression} (h : e.blocks = []) (replacement : Text) :
    addReplacement e replacement =
      (addReplacement { pattern := [], raw := [] } replacement).map fun plain =>
        { e with replacement := plain.replacement, blocks := plain.blocks } := by
  unfold addReplacement
  cases hoccurs : Block.occursIn replacement with
  | false =>
    show Except.ok _ = Except.ok _
    rw [h]
  | true =>
    rcases Block.extract replacement with ⟨cleaned, blocks⟩
    have hdirective : ({ e with replacement := cleaned, blocks } : Expression).directive? =
        ({ pattern := [], raw := [], replacement := cleaned, blocks } : Expression).directive? :=
      rfl
    dsimp only
    rw [hdirective, h, if_neg (by decide), if_neg (by decide)]
    cases ({ pattern := [], raw := [], replacement := cleaned, blocks } : Expression).directive? with
    | none => rfl
    | some d =>
      dsimp only
      rcases sizeOfDirective d with refusal | _ | size
      · rfl
      · rfl
      · rfl

/-- Two expressions are about the same tables, cells and images and have the same replacement, and
the pattern of the first one is that of the second one, maybe with flags in front. -/
structure SameReferences [CharNames] (flags : Text) (e e' : Expression) : Prop where
  tables : e.tables? = e'.tables?
  cells : (e.cells?.map fun ref => { ref with inner := [] }) =
    e'.cells?.map fun ref => { ref with inner := [] }
  image : ImageRef.readPattern? e.pattern = ImageRef.readPattern? e'.pattern
  replacement : e.replacement = e'.replacement
  blocks : e.blocks = e'.blocks
  pattern : e.pattern = e'.pattern ∨ e.pattern = Delimited.withFlags e'.pattern flags

/-- Two expressions with one target are about the same tables and cells. -/
theorem sameReferences_of_target_eq [CharNames]
    {flags : Text} {e e' : Expression} (htarget : e.target = e'.target)
    (himage : ImageRef.readPattern? e.pattern = ImageRef.readPattern? e'.pattern)
    (hreplacement : e.replacement = e'.replacement) (hblocks : e.blocks = e'.blocks)
    (hpattern : e.pattern = e'.pattern ∨ e.pattern = Delimited.withFlags e'.pattern flags) :
    SameReferences flags e e' where
  tables := by rw [tables?, htarget, tables?]
  cells := by rw [cells?, htarget, cells?]
  image := himage
  replacement := hreplacement
  blocks := hblocks
  pattern := hpattern

theorem SameReferences.target_eq_text [CharNames]
    {flags : Text} {e e' : Expression} (h : SameReferences flags e e') (htext : e.target = .text) :
    e'.target = .text := by
  have htables := h.tables
  have hcells := h.cells
  rw [tables?, htext, tables?] at htables
  rw [cells?, htext, cells?] at hcells
  cases htarget : e'.target with
  | text => rfl
  | tables selector =>
    rw [htarget] at htables
    cases htables
  | cells ref =>
    rw [htarget] at hcells
    cases hcells

/-- What is read of a substitution comes from its pattern with flags and its replacement. -/
theorem exists_of_read [CharNames]
    {raw pattern replacement flags : Text} {e : Expression}
    (hfields : HasFields raw pattern replacement flags) (h : read raw = .ok e) :
    ∃ a plain, aim (Delimited.withFlags pattern flags) (Template.convert replacement) = .ok a ∧
      addReplacement { pattern := [], raw := [] } a.replacement = .ok plain ∧
      e.command = .substitute ∧ e.target = a.target ∧ e.pattern = a.pattern ∧
      e.replacement = plain.replacement ∧ e.blocks = plain.blocks := by
  obtain ⟨more, rfl, hread⟩ := read_of_hasFields hfields
  rw [hread] at h
  obtain ⟨a, ha, h⟩ := exists_of_bind_eq_ok h
  obtain ⟨e', he', h⟩ := exists_of_bind_eq_ok h
  obtain ⟨nth, -, h⟩ := exists_of_bind_eq_ok h
  rw [addReplacement_eq_map rfl] at he'
  cases hplain : addReplacement { pattern := [], raw := [] } a.replacement with
  | error refusal =>
    rw [hplain] at he'
    cases he'
  | ok plain =>
    rw [hplain] at he'
    cases he'
    cases h
    exact ⟨a, plain, ha, hplain, rfl, rfl, rfl, rfl, rfl⟩

/-- A pattern that is left over with the flags of the whole pattern in front is the whole pattern. -/
theorem noReference_of_flagged [CharNames]
    {pattern replacement lead : Text} {a : Aim} (ha : aim pattern replacement = .ok a)
    (htext : a.target = .text)
    (h : '(' :: (lead ++ pattern) = a.pattern ∨
      '(' :: (lead ++ pattern) = '(' :: (lead ++ a.pattern)) :
    a.pattern = pattern ∧ NoReference pattern := by
  have hwhole : a.pattern.length = lead.length + pattern.length + 1 ∧ a.pattern.head? = some '(' ∨
      a.pattern = pattern := by
    rcases h with h | h
    · rw [← h]
      exact .inl ⟨by simp, rfl⟩
    · exact .inr (List.append_cancel_left (List.cons.inj h).2).symm
  rcases cases_of_aim ha htext with hkept | hshort | ⟨hbrace, hmark⟩
  · exact hkept
  · rcases hwhole with ⟨hlength, -⟩ | hwhole
    · omega
    · rw [hwhole] at hshort
      omega
  · rcases hwhole with ⟨-, hhead⟩ | hwhole
    · cases hmark.symm.trans hhead
    · rw [hwhole] at hmark
      cases hmark.symm.trans hbrace

/-- With flags that concern the pattern a substitution is about text, whatever the pattern is. -/
theorem target_of_concernPattern [CharNames]
    {raw pattern replacement flags : Text} {e : Expression}
    (hflags : Delimited.ConcernPattern flags) (hfields : HasFields raw pattern replacement flags)
    (hread : read raw = .ok e) :
    e.target = .text ∧ e.pattern = Delimited.withFlags pattern flags ∧
      ImageRef.readPattern? e.pattern = .ok none := by
  obtain ⟨a, -, ha, -, -, htarget, hpattern, -, -⟩ := exists_of_read hfields hread
  obtain ⟨lead, hlead⟩ := Delimited.exists_withFlags hflags
  rw [hlead, aim_of_noReference (noReference_of_parenthesis _)] at ha
  cases ha
  refine ⟨htarget, hpattern.trans (hlead pattern).symm, ?_⟩
  rw [hpattern, readPattern?_of_parenthesis]

/-- A substitution with flags and one without are about the same exactly when no flag concerns the
pattern, or the pattern refers to no table, cell or image.  Otherwise the one with flags is about
text. -/
theorem sameReferences_iff [CharNames]
    {raw raw' pattern replacement flags : Text} {e e' : Expression}
    (hfields : HasFields raw pattern replacement flags)
    (hfields' : HasFields raw' pattern replacement []) (hread : read raw = .ok e)
    (hread' : read raw' = .ok e') :
    (SameReferences flags e e' ↔ ¬ Delimited.ConcernPattern flags ∨
        (NoReference pattern ∧ ImageRef.readPattern? pattern = .ok none)) ∧
      (Delimited.ConcernPattern flags →
        e.target = .text ∧ e.pattern = Delimited.withFlags pattern flags ∧
          ImageRef.readPattern? e.pattern = .ok none) := by
  refine ⟨?_, fun hflags => target_of_concernPattern hflags hfields hread⟩
  obtain ⟨a, plain, ha, hplain, -, htarget, hpattern, hreplacement, hblocks⟩ :=
    exists_of_read hfields hread
  obtain ⟨a', plain', ha', hplain', -, htarget', hpattern', hreplacement', hblocks'⟩ :=
    exists_of_read hfields' hread'
  rw [show Delimited.withFlags pattern [] = pattern from rfl] at ha'
  by_cases hflags : Delimited.ConcernPattern flags
  · obtain ⟨lead, hlead⟩ := Delimited.exists_withFlags hflags
    -- With flags in front no reference is read.
    rw [hlead, aim_of_noReference (noReference_of_parenthesis _)] at ha
    cases ha
    constructor
    · intro hsame
      have hleft := hsame.pattern
      rw [hpattern, hpattern', hlead] at hleft
      obtain ⟨hwhole, hreference⟩ :=
        noReference_of_flagged ha' (htarget'.symm.trans (hsame.target_eq_text htarget)) hleft
      have himage := hsame.image
      rw [hpattern, hpattern', hwhole, readPattern?_of_parenthesis] at himage
      exact .inr ⟨hreference, himage.symm⟩
    · rintro (hnone | ⟨hreference, himage⟩)
      · exact absurd hflags hnone
      · rw [aim_of_noReference hreference] at ha'
        cases ha'
        cases hplain.symm.trans hplain'
        refine sameReferences_of_target_eq (htarget.trans htarget'.symm) ?_
          (hreplacement.trans hreplacement'.symm) (hblocks.trans hblocks'.symm) (.inr ?_)
        · rw [hpattern, hpattern', himage, readPattern?_of_parenthesis]
        · rw [hpattern, hpattern', hlead]
  · rw [Delimited.withFlags_of_not_concernPattern hflags] at ha
    cases ha.symm.trans ha'
    cases hplain.symm.trans hplain'
    refine ⟨fun _ => .inl hflags, fun _ => ?_⟩
    refine sameReferences_of_target_eq (htarget.trans htarget'.symm) ?_
      (hreplacement.trans hreplacement'.symm) (hblocks.trans hblocks'.symm)
      (.inl (hpattern.trans hpattern'.symm))
    rw [hpattern, hpattern']

attribute [local instance] CharNames.none

/-- A search without regard to case is about the same text. -/
theorem sameReferences_letters :
    HasFields "s/a|b/x/gi".toList "a|b".toList ['x'] "gi".toList ∧
      HasFields "s/a|b/x/".toList "a|b".toList ['x'] [] ∧
      ∃ e e', read "s/a|b/x/gi".toList = .ok e ∧ read "s/a|b/x/".toList = .ok e' ∧
        SameReferences "gi".toList e e' := by
  have hfields : HasFields "s/a|b/x/gi".toList "a|b".toList ['x'] "gi".toList :=
    ⟨'/', "a|b/x/gi".toList, ["gi".toList], rfl, by decide, by decide, rfl⟩
  have hfields' : HasFields "s/a|b/x/".toList "a|b".toList ['x'] [] :=
    ⟨'/', "a|b/x/".toList, [[]], rfl, by decide, by decide, rfl⟩
  have hread : read "s/a|b/x/gi".toList = .ok
      { pattern := "(?i)a|b".toList, replacement := ['x'], isGlobal := true
        raw := "s/a|b/x/gi".toList } := rfl
  have hread' : read "s/a|b/x/".toList = .ok
      { pattern := "a|b".toList, replacement := ['x'], raw := "s/a|b/x/".toList } := rfl
  have hreference : NoReference "a|b".toList := ⟨rfl, rfl, fun h => absurd h (by decide)⟩
  have himage : ImageRef.readPattern? "a|b".toList = .ok none := rfl
  exact ⟨hfields, hfields', _, _, hread, hread',
    (sameReferences_iff hfields hfields' hread hread').1.2 (.inr ⟨hreference, himage⟩)⟩

/-- A search without regard to case is no longer about a table. -/
theorem not_sameReferences_table :
    ∃ e e', read "s/|1|/x/i".toList = .ok e ∧ read "s/|1|/x/".toList = .ok e' ∧
      e.tables? = none ∧ e'.tables? = some (.position 1) ∧ ¬ SameReferences ['i'] e e' := by
  refine ⟨_, _, rfl, rfl, rfl, rfl, fun hsame => ?_⟩
  cases hsame.tables

end Expression

end Redline
