import Redline.Proofs.FlaggedPattern
import Redline.Proofs.Numeral
import Redline.Proofs.Routing

/-!
# Image references as search patterns

A reference to images in front of a pattern is written back as a search pattern, and everything that
carries out the expression reads the reference again from there.  A position and a star come back as
they are.  A pattern for the alternative text comes back unless a closing bracket in it stands
before an opening parenthesis: that is the mark of an image with an address, and what holds it is
not read as a reference.
-/

namespace Redline

namespace ImageRef

/-! ## Values of references -/

/-- The mark between the alternative text and the address of an image. -/
def addressMark : Text :=
  "](".toList

theorem addressMark_no_blank : ∀ c ∈ addressMark, isBlank c = false :=
  List.all_iff_forall_prop.1 (by decide)

/-- What is read of the value of a reference. -/
theorem cases_of_read [CharNames] {value : Text} {ref : ImageRef} (h : read value = .ok ref) :
    (Text.trim value = ['*'] ∧ ref = .all) ∨
      (∃ i, Whole.read? (Text.trim value) = .ok (some i) ∧ i ≠ 0 ∧ ref = .position i) ∨
      ∃ p, Text.trim value ≠ [] ∧ Pattern.read (Text.trim value) = .ok p ∧
        ref = .alt (Text.trim value) p := by
  unfold read at h
  dsimp only at h
  split at h
  · cases h
  · next hempty =>
    split at h
    · next hstar =>
      cases h
      exact .inl ⟨eq_of_beq hstar, rfl⟩
    · obtain ⟨number, hnumber, h⟩ := exists_of_bind_eq_ok h
      have hnumber := eq_ok_of_ofNumber_eq_ok hnumber
      split at h
      · cases h
      · next i hzero _ =>
        cases h
        exact .inr (.inl ⟨i, hnumber, hzero, rfl⟩)
      · split at h
        · next p hp =>
          cases h
          exact .inr (.inr ⟨p, fun hnil => hempty (List.isEmpty_iff.2 hnil), hp, rfl⟩)
        · cases h
        · cases h

theorem read_of_pattern [CharNames] {value : Text} {p : Pattern}
    (hne : (Text.trim value).isEmpty = false) (hstar : (Text.trim value == ['*']) = false)
    (hnumber : Whole.read? (Text.trim value) = .ok none)
    (hp : Pattern.read (Text.trim value) = .ok p) :
    read value = .ok (.alt (Text.trim value) p) := by
  simp only [read, hne, hstar, hnumber, hp]
  rfl

/-- The mark of an address is in no number. -/
theorem not_addressMark_of_number {t : Text} {i : Int} (h : Whole.read? t = .ok (some i)) :
    ¬ addressMark <:+: t := by
  intro hmark
  obtain ⟨n, -, -, htext⟩ := Whole.exists_numeral_of_read? h
  have hbracket : ']' ∈ Text.trim t :=
    ((Text.isInfix_trim_iff addressMark_no_blank).2 hmark).subset (by decide)
  have hnumeral : ']' ∉ n.text := n.not_mem_text (by decide) (by decide)
  rcases htext with htext | htext
  · exact hnumeral (htext ▸ hbracket)
  · rw [htext, List.mem_cons] at hbracket
    rcases hbracket with hplus | hbracket
    · cases hplus
    · exact hnumeral hbracket

/-! ## Patterns of references -/

theorem readPosition_ofInt {i : Int} (hzero : i ≠ 0) (hfits : (Numeral.ofInt i).Fits) :
    readPosition (Text.ofInt i) = .ok (some (.position i)) := by
  have hread := (Numeral.ofInt i).read?_text
  rw [Numeral.text_ofInt, Numeral.read_of_fits hfits, Numeral.value_ofInt] at hread
  have hstar := (Numeral.ofInt i).text_beq_star
  rw [Numeral.text_ofInt] at hstar
  rw [readPosition, hstar, hread]
  simp only [Except.map, hzero, if_false, Bool.false_eq_true]

theorem readPattern?_position [CharNames] {i : Int} (hzero : i ≠ 0)
    (hfits : (Numeral.ofInt i).Fits) :
    readPattern? (asPattern (.position i)) = .ok (some (.position i)) := by
  have hinner : between? "!(" ')' (asPattern (.position i)) = some (Text.ofInt i) :=
    (between?_eq_some_iff (by decide)).2 rfl
  rw [readPattern?, hinner]
  exact readPosition_ofInt hzero hfits

/-- The marks around a pattern for alternative texts add no mark of an address. -/
theorem addressMark_isInfix_iff (source : Text) :
    addressMark <:+: "![".toList ++ source ++ [']'] ↔ addressMark <:+: source := by
  constructor
  · intro h
    rcases List.infix_concat_iff.1 h with hend | h
    · obtain ⟨before, hbefore⟩ := hend
      have hlast : (before ++ addressMark).getLast? = some ']' :=
        hbefore ▸ List.getLast?_concat
      have hmark : (before ++ addressMark).getLast? = some '(' :=
        List.getLast?_append_of_ne_nil before (by decide)
      cases hlast.symm.trans hmark
    · rcases List.infix_cons_iff.1 h with ⟨behind, hbehind⟩ | h
      · cases hbehind
      · rcases List.infix_cons_iff.1 h with ⟨behind, hbehind⟩ | h
        · cases hbehind
        · exact h
  · intro h
    exact h.trans ⟨_, _, rfl⟩

theorem readPattern?_alt [CharNames] {source : Text} {p : Pattern} (hne : source ≠ [])
    (hp : Pattern.read source = .ok p) :
    readPattern? (asPattern (.alt source p)) =
      .ok (if Text.occursIn addressMark source then none else some (.alt source p)) := by
  have hshape : asPattern (.alt source p) = "![".toList ++ source ++ [']'] :=
    rfl
  obtain ⟨hround, hlinked, hsquare⟩ := between?_of_brackets hshape
  have hoccurs : Text.occursIn "](".toList (asPattern (.alt source p)) =
      Text.occursIn addressMark source := by
    rw [Bool.eq_iff_iff, Text.occursIn_iff, Text.occursIn_iff]
    exact addressMark_isInfix_iff source
  rw [readPattern?, hround, hlinked, hsquare, hoccurs]
  simp only [List.isEmpty_eq_false_iff.2 hne, Bool.or_false, hp]
  split
  · rfl
  · rfl

/-- A reference that is read from a value comes back from its pattern unless the value holds the
mark of an address; then the pattern is no reference. -/
theorem readPattern?_asPattern [CharNames] {value : Text} {ref : ImageRef}
    (h : read value = .ok ref) :
    readPattern? ref.asPattern =
      .ok (if Text.occursIn addressMark value then none else some ref) := by
  have hoccurs : Text.occursIn addressMark value = Text.occursIn addressMark (Text.trim value) := by
    rw [Bool.eq_iff_iff, Text.occursIn_iff, Text.occursIn_iff]
    exact (Text.isInfix_trim_iff addressMark_no_blank).symm
  rw [hoccurs]
  rcases cases_of_read h with ⟨hstar, rfl⟩ | ⟨i, hnumber, hzero, rfl⟩ | ⟨p, hne, hp, rfl⟩
  · rw [hstar]
    rfl
  · have hmark : ¬ Text.occursIn addressMark (Text.trim value) = true :=
      fun hmark => not_addressMark_of_number hnumber (Text.occursIn_iff.1 hmark)
    obtain ⟨n, hfits, rfl, -⟩ := Whole.exists_numeral_of_read? hnumber
    rw [if_neg hmark]
    exact readPattern?_position hzero (n.length_digits_ofInt_le.trans hfits)
  · exact readPattern?_alt hne hp

theorem readPattern?_asPattern_eq_some_iff [CharNames] {value : Text} {ref : ImageRef}
    (h : read value = .ok ref) (found : ImageRef) :
    readPattern? ref.asPattern = .ok (some found) ↔ ¬ addressMark <:+: value ∧ found = ref := by
  rw [readPattern?_asPattern h, ← Text.occursIn_iff]
  split
  · next hmark => exact iff_of_false nofun fun h => h.1 hmark
  · next hmark => simp [hmark, eq_comm]

end ImageRef

namespace Expression

/-! ## Expressions about images -/

/-- The pattern opens with a brace, and the first block in it has the given content. -/
def OpensWith (content pattern : Text) : Prop :=
  pattern.head? = some '\x7b' ∧ ∃ rest, Block.split? (Text.trim pattern) = some (content, rest)

theorem read_of_aim [CharNames] {raw pattern replacement flags : Text} {a : Aim}
    (hfields : HasFields raw pattern replacement flags)
    (ha : aim (Delimited.withFlags pattern flags) (Template.convert replacement) = .ok a) :
    read raw = (do
      let e ← addReplacement
        { pattern := a.pattern, target := a.target, isGlobal := flags.contains 'g', raw }
        a.replacement
      return { e with nth := ← Refusal.ofNumber (Delimited.nth flags) }) := by
  obtain ⟨more, rfl, hread⟩ := read_of_hasFields hfields
  simp only [hread, readSubstitute, ha, bind, Except.bind]

theorem aim_of_opensWith [CharNames] {value pattern : Text} {ref : ImageRef}
    (hopens : OpensWith ("img=".toList ++ value) pattern) (href : ImageRef.read value = .ok ref)
    (replacement : Text) :
    aim pattern replacement = .ok { target := .text, pattern := ref.asPattern, replacement } := by
  obtain ⟨hbrace, rest, hsplit⟩ := hopens
  obtain ⟨behind, rfl⟩ := List.head?_eq_some_iff.1 hbrace
  have hdetect : LeadingRef.detect ('\x7b' :: behind) =
      .ok (Text.trim rest, some (.image ref)) := by
    have htable : Text.after? "T=".toList ("img=".toList ++ value) = none :=
      rfl
    rw [LeadingRef.detect]
    simp only [hsplit, htable, Text.after?_append, href]
    rfl
  have hcells : CellRef.readPiped? ('\x7b' :: behind) = .ok none :=
    rfl
  have htables : TableSelector.readPiped? ref.asPattern = .ok none := by
    obtain ⟨inner, hinner⟩ := List.head?_eq_some_iff.1 (head_asPattern ref)
    obtain ⟨kept, hkept⟩ := Text.exists_trim_cons (by decide : isBlank '!' = false) inner
    rw [TableSelector.readPiped?, hinner, hkept]
    rfl
  have hlead : aimOfLead ('\x7b' :: behind) replacement =
      .ok { target := .text, pattern := ref.asPattern, replacement } := by
    have hstarts : Text.startsWith ['\x7b'] ('\x7b' :: behind) = true :=
      rfl
    rw [aimOfLead, hstarts, hdetect]
    rfl
  rw [aim, hcells]
  simp only [Refusal.ofNumber, hlead, htables, bind, Except.bind, if_true]
  rfl

theorem textHandler_eq_replaceImages_iff {e : Expression} {spec : Option TableSpec}
    {found : Option ImageRef} {ref : ImageRef} :
    e.textHandler spec found = .replaceImages ref ↔ spec = none ∧ found = some ref := by
  cases spec with
  | some spec => exact iff_of_false nofun nofun
  | none =>
    cases found with
    | some found => simp [textHandler]
    | none =>
      rw [textHandler]
      split
      · exact iff_of_false nofun nofun
      · exact iff_of_false nofun nofun

namespace InText

variable {e : Expression}

theorem kind [CharNames] (h : e.InText) : e.kind = e.textKind := by
  rw [Expression.kind, if_neg (not_not_intro h.command), h.target]
  dsimp only
  rw [h.place, if_neg Bool.false_ne_true]

/-- Images are looked for unless a table is written. -/
theorem kind_eq_image_iff [CharNames] (h : e.InText) :
    e.kind = .ok .image ↔ e.tableSpec? = .ok none ∧ ∃ ref, e.imageRef? = .ok (some ref) := by
  rw [h.kind]
  constructor
  · intro hkind
    obtain ⟨spec, hspec, hkind⟩ := exists_of_bind_eq_ok hkind
    cases spec with
    | some spec => cases hkind
    | none =>
      obtain ⟨ref, href, hkind⟩ := exists_of_bind_eq_ok hkind
      cases ref with
      | some ref => exact ⟨hspec, ref, href⟩
      | none =>
        cases hnative : e.isNative with
        | true => simp [hnative, pure, Except.pure] at hkind
        | false => simp [hnative, pure, Except.pure] at hkind
  · rintro ⟨hspec, ref, href⟩
    rw [textKind, hspec, href]
    rfl

theorem handlerAlone_eq_replaceImages_iff [CharNames] (h : e.InText) (ref : ImageRef) :
    e.handlerAlone = .ok (.replaceImages ref) ↔
      e.tableSpec? = .ok none ∧ e.imageRef? = .ok (some ref) := by
  rw [h.handlerAlone]
  constructor
  · intro hhandler
    obtain ⟨spec, hspec, hhandler⟩ := exists_of_bind_eq_ok hhandler
    cases spec with
    | some spec => cases hhandler
    | none =>
      obtain ⟨found, hfound, hhandler⟩ := exists_of_bind_eq_ok hhandler
      obtain ⟨-, rfl⟩ := textHandler_eq_replaceImages_iff.1 (Except.ok.inj hhandler)
      exact ⟨hspec, hfound⟩
  · rintro ⟨hspec, hfound⟩
    rw [hspec, hfound]
    rfl

theorem handlerAmongOthers_eq_replaceImages_iff [CharNames] (h : e.InText) (ref : ImageRef) :
    e.handlerAmongOthers = .ok (.replaceImages ref) ↔
      e.tableSpec? = .ok none ∧ e.imageRef? = .ok (some ref) := by
  rw [h.handlerAmongOthers]
  constructor
  · intro hhandler
    obtain ⟨found, hfound, hhandler⟩ := exists_of_bind_eq_ok hhandler
    split at hhandler
    · cases hhandler
    · obtain ⟨spec, hspec, hhandler⟩ := exists_of_bind_eq_ok hhandler
      obtain ⟨rfl, rfl⟩ := textHandler_eq_replaceImages_iff.1 (Except.ok.inj hhandler)
      exact ⟨hspec, hfound⟩
  · rintro ⟨hspec, hfound⟩
    rw [hspec, hfound]
    rfl

end InText

theorem inText_of_asPattern {e : Expression} {ref : ImageRef} (hcommand : e.command = .substitute)
    (htarget : e.target = .text) (hpattern : e.pattern = ref.asPattern) : e.InText := by
  refine ⟨hcommand, htarget, ?_⟩
  obtain ⟨inner, hinner⟩ := List.head?_eq_some_iff.1 (head_asPattern ref)
  rw [isPositional, hpattern, hinner, Bool.and_eq_false_iff]
  exact .inr rfl

/-- A reference to images that is read from a value comes back from its pattern exactly when the
value does not hold the mark of an address.  A substitution whose pattern opens with the value in
braces is carried out on the images of the reference, alone and among others, exactly under the same
condition, unless its replacement is the size of a table. -/
theorem images_of_braces [CharNames] {value : Text} {ref : ImageRef}
    (href : ImageRef.read value = .ok ref) :
    (ImageRef.readPattern? ref.asPattern = .ok (some ref) ↔ ¬ ImageRef.addressMark <:+: value) ∧
      (ImageRef.addressMark <:+: value → ImageRef.readPattern? ref.asPattern = .ok none) ∧
      ∀ raw pattern replacement flags, HasFields raw pattern replacement flags →
        ¬ Delimited.ConcernPattern flags → OpensWith ("img=".toList ++ value) pattern →
          aim (Delimited.withFlags pattern flags) (Template.convert replacement) =
              .ok ⟨.text, ref.asPattern, Template.convert replacement⟩ ∧
            ∀ e, read raw = .ok e →
              (e.kind = .ok .image ↔
                e.tableSpec? = .ok none ∧ ¬ ImageRef.addressMark <:+: value) ∧
              ∀ found,
                (e.handlerAlone = .ok (.replaceImages found) ↔
                  e.tableSpec? = .ok none ∧ ¬ ImageRef.addressMark <:+: value ∧ found = ref) ∧
                (e.handlerAmongOthers = .ok (.replaceImages found) ↔
                  e.tableSpec? = .ok none ∧ ¬ ImageRef.addressMark <:+: value ∧ found = ref) := by
  refine ⟨?_, ?_, ?_⟩
  · rw [ImageRef.readPattern?_asPattern_eq_some_iff href]
    exact and_iff_left rfl
  · intro hmark
    rw [ImageRef.readPattern?_asPattern href, if_pos (Text.occursIn_iff.2 hmark)]
  · intro raw pattern replacement flags hfields hflags hopens
    have haim := aim_of_opensWith hopens href (Template.convert replacement)
    rw [Delimited.withFlags_of_not_concernPattern hflags]
    refine ⟨haim, fun e he => ?_⟩
    obtain ⟨a, -, ha, -, hcommand, htarget, hpattern, -, -⟩ := exists_of_read hfields he
    rw [Delimited.withFlags_of_not_concernPattern hflags, haim] at ha
    cases ha
    have htext := inText_of_asPattern hcommand htarget hpattern
    have himage : e.imageRef? = ImageRef.readPattern? ref.asPattern :=
      congrArg ImageRef.readPattern? hpattern
    have hfound := ImageRef.readPattern?_asPattern_eq_some_iff href
    refine ⟨?_, fun found => ⟨?_, ?_⟩⟩
    · rw [htext.kind_eq_image_iff, himage]
      simp only [hfound, exists_and_left, exists_eq, and_true]
    · rw [htext.handlerAlone_eq_replaceImages_iff, himage, hfound]
    · rw [htext.handlerAmongOthers_eq_replaceImages_iff, himage, hfound]

/-- A substitution for images whose alternative text has brackets and parentheses apart. -/
def numberedImages : Expression where
  pattern := "![(b)[0-9]]".toList
  replacement := ['x']
  isGlobal := true
  raw := "s/\x7bimg= (b)[0-9] \x7d/x/g".toList

attribute [local instance] CharNames.none

theorem images_of_braces_numberedImages :
    ∃ p, ImageRef.read " (b)[0-9] ".toList = .ok (.alt "(b)[0-9]".toList p) ∧
      read numberedImages.raw = .ok numberedImages ∧ numberedImages.kind = .ok .image ∧
      numberedImages.handlerAlone = .ok (.replaceImages (.alt "(b)[0-9]".toList p)) := by
  have hpattern : ∃ p, Pattern.read "(b)[0-9]".toList = .ok p := by
    have hsteps : Pattern.steps 8 { rest := "(b)[0-9]".toList } = .ok _ := calc
      _ = Pattern.steps 8 _ := Pattern.steps_of_step (by decide) rfl (by decide)
      _ = Pattern.steps 8 _ := Pattern.steps_of_step (by decide) rfl (by decide)
      _ = Pattern.steps 8 _ := Pattern.steps_of_step (by decide) rfl (by decide)
      _ = Pattern.steps 8 _ := Pattern.steps_of_step (by decide) rfl (by decide)
      _ = .ok _ := Pattern.steps_of_nil rfl
    exact ⟨_, Pattern.read_of_steps "(b)[0-9]".toList rfl hsteps rfl⟩
  obtain ⟨p, hp⟩ := hpattern
  have href : ImageRef.read " (b)[0-9] ".toList = .ok (.alt "(b)[0-9]".toList p) :=
    @ImageRef.read_of_pattern _ " (b)[0-9] ".toList p rfl rfl rfl hp
  have hfields : HasFields numberedImages.raw "\x7bimg= (b)[0-9] \x7d".toList ['x'] ['g'] :=
    ⟨'/', "\x7bimg= (b)[0-9] \x7d/x/g".toList, [['g']], rfl, by decide, rfl, rfl⟩
  have hflags : ¬ Delimited.ConcernPattern ['g'] := by
    unfold Delimited.ConcernPattern
    decide
  have hopens : OpensWith ("img=".toList ++ " (b)[0-9] ".toList) "\x7bimg= (b)[0-9] \x7d".toList :=
    ⟨rfl, [], by decide +kernel⟩
  have hmark : ¬ ImageRef.addressMark <:+: " (b)[0-9] ".toList := by
    rw [← Text.occursIn_iff]
    decide
  obtain ⟨haim, hroute⟩ := (images_of_braces href).2.2 _ _ _ _ hfields hflags hopens
  have hread : read numberedImages.raw = .ok numberedImages :=
    (read_of_aim hfields haim).trans rfl
  have htable : numberedImages.tableSpec? = .ok none :=
    rfl
  obtain ⟨hkind, hhandler⟩ := hroute numberedImages hread
  exact ⟨p, href, hread, hkind.2 ⟨htable, hmark⟩, (hhandler _).1.2 ⟨htable, hmark, rfl⟩⟩

/-- A substitution for images whose alternative text looks like a link. -/
def linkedImages : Expression where
  pattern := "![[a](b)]".toList
  replacement := ['x']
  raw := "s/\x7bimg=[a](b)\x7d/x/".toList

/-- The reference to images is lost. -/
theorem images_of_braces_lost :
    ∃ p, ImageRef.read "[a](b)".toList = .ok (.alt "[a](b)".toList p) ∧
      ImageRef.readPattern? (ImageRef.asPattern (.alt "[a](b)".toList p)) = .ok none ∧
      read linkedImages.raw = .ok linkedImages ∧ linkedImages.kind = .ok .manual := by
  have hpattern : ∃ p, Pattern.read "[a](b)".toList = .ok p := by
    have hsteps : Pattern.steps 6 { rest := "[a](b)".toList } = .ok _ := calc
      _ = Pattern.steps 6 _ := Pattern.steps_of_step (by decide) rfl (by decide)
      _ = Pattern.steps 6 _ := Pattern.steps_of_step (by decide) rfl (by decide)
      _ = Pattern.steps 6 _ := Pattern.steps_of_step (by decide) rfl (by decide)
      _ = Pattern.steps 6 _ := Pattern.steps_of_step (by decide) rfl (by decide)
      _ = .ok _ := Pattern.steps_of_nil rfl
    exact ⟨_, Pattern.read_of_steps "[a](b)".toList rfl hsteps rfl⟩
  obtain ⟨p, hp⟩ := hpattern
  have href : ImageRef.read "[a](b)".toList = .ok (.alt "[a](b)".toList p) :=
    @ImageRef.read_of_pattern _ "[a](b)".toList p rfl rfl rfl hp
  have hfields : HasFields linkedImages.raw "\x7bimg=[a](b)\x7d".toList ['x'] [] :=
    ⟨'/', "\x7bimg=[a](b)\x7d/x/".toList, [[]], rfl, by decide, rfl, rfl⟩
  have hopens : OpensWith ("img=".toList ++ "[a](b)".toList) "\x7bimg=[a](b)\x7d".toList :=
    ⟨rfl, [], by decide +kernel⟩
  have haim := aim_of_opensWith hopens href (Template.convert ['x'])
  exact ⟨p, href, rfl, (read_of_aim hfields haim).trans rfl, rfl⟩

end Expression

end Redline
