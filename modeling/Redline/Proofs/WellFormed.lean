import Redline.Proofs.PlainReplacement

/-!
# Expressions as they are read

Whatever text is read as an expression, the parts of the expression fit together.  A table is named
in two forms and in several places, and each of them refuses the position zero.  The pattern that is
left beside a reference to cells is the pattern for the text inside the cells.  Only a substitution
has a reference, formatting, or flags.

## Main definitions

* `Redline.Target.table?`: the tables that an expression is about, as a whole or by their cells.
* `Redline.Expression.WellFormed`: what holds of every expression that is read from a text.
-/

namespace Redline

/-! ## Tables of a reference -/

/-- The tables that a target is about, as a whole or by their cells. -/
def Target.table? : Target → Option TableSelector
  | .text => none
  | .tables selector => some selector
  | .cells ref => some ref.table

theorem eq_ok_of_refuseAs_eq_ok
    {ε δ α : Type} {f : ε → δ} {x : Except (Refusal ε) α} {a : α} (h : refuseAs f x = .ok a) :
    x = .ok a := by
  cases x with
  | error r => cases h
  | ok b =>
    cases h
    rfl

theorem eq_ok_of_ofNumber_eq_ok
    {ε α : Type} {x : Except TooManyDigits α} {a : α}
    (h : (Refusal.ofNumber x : Except (Refusal ε) α) = .ok a) :
    x = .ok a := by
  cases x with
  | error r => cases h
  | ok b =>
    cases h
    rfl

/-- Whatever the computation finds has the property. -/
def Finds {ε α : Type} (P : α → Prop) (x : OptionT (Except ε) α) : Prop :=
  ∀ a, x.run = .ok (some a) → P a

namespace Finds

variable {ε α β : Type} {P : β → Prop}

theorem pure {b : β} (h : P b) : Finds P (Pure.pure b : OptionT (Except ε) β) := by
  intro a ha
  cases ha
  exact h

theorem failure : Finds P (failure : OptionT (Except ε) β) := by
  intro a ha
  cases ha

theorem bind
    {x : OptionT (Except ε) α} {f : α → OptionT (Except ε) β} (h : ∀ a, Finds P (f a)) :
    Finds P (x >>= f) := by
  intro b hb
  obtain ⟨found, -, hrest⟩ := exists_of_bind_eq_ok (x := x.run) hb
  cases found with
  | none => cases hrest
  | some a => exact h a b hrest

end Finds

namespace CellRef

variable {table : TableSelector}

theorem finds_readRectangle (first last inner : Text) :
    Finds (fun ref => ref.table = table) (readRectangle table first last inner) := by
  apply Finds.bind
  rintro ⟨row, column⟩
  apply Finds.bind
  rintro ⟨lastRow, lastColumn⟩
  apply Finds.bind
  intro numbers
  split
  · exact .pure rfl
  · exact .failure

theorem finds_readPair (row column inner : Text) :
    Finds (fun ref => ref.table = table) (readPair table row column inner) := by
  unfold readPair
  split
  · dsimp only
    split
    · exact .bind fun _ => .bind fun _ => .pure rfl
    · exact .bind fun _ => .bind fun _ => .pure rfl
  · dsimp only
    split
    all_goals
      refine .bind fun row => ?_
      split
      · exact .bind fun _ => .pure rfl
      · split
        · exact .bind fun _ => .pure rfl
        · exact .bind fun _ => .pure rfl

theorem finds_readCell (cell inner : Text) :
    Finds (fun ref => ref.table = table) (readCell table cell inner) := by
  unfold readCell
  split
  · exact .bind fun _ => .pure rfl
  · exact .bind fun _ => .pure rfl
  · split
    · exact finds_readRectangle _ _ _
    · exact finds_readPair _ _ _
    · exact .bind fun _ => .pure rfl

/-- A piped reference to cells names its table by a position other than zero. -/
theorem table_of_readPiped? {t : Text} {ref : CellRef} (h : readPiped? t = .ok (some ref)) :
    ref.table ≠ .position 0 := by
  have hfinds : Finds (fun ref => ref.table ≠ .position 0) (OptionT.mk (readPiped? t)) := by
    unfold readPiped?
    split
    · apply Finds.bind
      rintro ⟨position, rest⟩
      dsimp only
      split
      · apply Finds.bind
        rintro ⟨cell, after⟩
        refine .bind fun index => ?_
        dsimp only
        split
        · exact fun _ h => nomatch h
        · next hindex =>
          intro ref href htable
          rw [finds_readCell _ _ ref href] at htable
          cases htable
          exact hindex rfl
      · exact .failure
    · exact .failure
  exact hfinds ref h

end CellRef

/-- A piped reference to whole tables names them by a position other than zero, or by a star. -/
theorem TableSelector.ne_of_readPiped?
    {t : Text} {selector : TableSelector} (h : readPiped? t = .ok (some selector)) :
    selector ≠ .position 0 := by
  unfold readPiped? at h
  split at h
  · split at h
    · cases h
    · dsimp only at h
      split at h
      · cases h
      · split at h
        · cases h
          exact TableSelector.noConfusion
        · obtain ⟨number, -, h⟩ := exists_of_bind_eq_ok h
          obtain ⟨i, -, hi⟩ := Option.bind_eq_some_iff.1 (Except.ok.inj h)
          split at hi
          · cases hi
          · next hzero =>
            cases hi
            rintro ⟨⟩
            exact hzero rfl
  · cases h

namespace TableRef

/-- A reference in braces names existing tables by a position other than zero, or by a star. -/
theorem selector_ne_of_read
    {value : Text} {selector : TableSelector} {cells : CellSpec}
    (h : read value = .ok (.existing selector cells)) : selector ≠ .position 0 := by
  unfold read at h
  dsimp only at h
  split at h
  · cases h
  · split at h
    · obtain ⟨size, -, h⟩ := exists_of_bind_eq_ok h
      cases h
    · split at h
      · obtain ⟨selector, hstar, h⟩ := exists_of_bind_eq_ok h
        obtain ⟨cells, -, h⟩ := exists_of_bind_eq_ok h
        cases hstar
        cases h
        exact nofun
      · obtain ⟨i, -, h⟩ := exists_of_bind_eq_ok h
        split at h
        · obtain ⟨selector, hrefuse, -⟩ := exists_of_bind_eq_ok h
          cases hrefuse
        · next hzero =>
          obtain ⟨selector, hposition, h⟩ := exists_of_bind_eq_ok h
          obtain ⟨cells, -, h⟩ := exists_of_bind_eq_ok h
          cases hposition
          cases h
          rintro ⟨⟩
          exact hzero rfl

/-- The target of a reference is about the tables of the reference, and leaves the text inside the
cells open. -/
theorem target_of_existing
    {table : TableSelector} {cells : CellSpec} {target : Target}
    (h : (existing table cells).target = .ok target) :
    target = .tables table ∨ ∃ ref, target = .cells ref ∧ ref.table = table ∧ ref.inner = [] := by
  unfold TableRef.target at h
  dsimp only at h
  split at h
  · cases h
    exact .inl rfl
  · split at h
    · obtain ⟨change, -, h⟩ := exists_of_bind_eq_ok h
      split at h
      · cases h
        exact .inr ⟨_, rfl, rfl, rfl⟩
      · cases h
    · cases h
      exact .inr ⟨_, rfl, rfl, rfl⟩
    · cases h
      exact .inr ⟨_, rfl, rfl, rfl⟩

end TableRef

/-- A table reference in front of a pattern is read from its value in the braces. -/
theorem LeadingRef.exists_read_of_detect [CharNames]
    {pattern rest : Text} {ref : TableRef}
    (h : detect pattern = .ok (rest, some (.table ref))) :
    ∃ value, TableRef.read value = .ok ref := by
  unfold detect at h
  dsimp only at h
  split at h
  · cases h
  · split at h
    · obtain ⟨found, hfound, h⟩ := exists_of_bind_eq_ok h
      cases h
      exact ⟨_, eq_ok_of_refuseAs_eq_ok hfound⟩
    · obtain ⟨found, -, h⟩ := exists_of_bind_eq_ok h
      cases h
    · cases h

namespace Expression

/-- What is read off a pattern fits together: a table is not named by the position zero, and beside
a reference to cells the pattern is the one for the text inside them. -/
structure Aim.Sound (a : Aim) : Prop where
  table : a.target.table? ≠ some (.position 0)
  inner : ∀ ref, a.target = .cells ref → a.pattern = ref.inner

theorem Aim.sound_of_text {a : Aim} (h : a.target = .text) : a.Sound := by
  constructor
  · rw [h]
    exact nofun
  · intro ref href
    rw [h] at href
    cases href

/-- Whole tables have no text inside them to match. -/
theorem Aim.sound_of_tables {a : Aim} {selector : TableSelector}
    (h : a.target = .tables selector) (hselector : selector ≠ .position 0) : a.Sound := by
  constructor
  · rw [h]
    exact fun htable => hselector (Option.some.inj htable)
  · intro ref href
    rw [h] at href
    cases href

theorem sound_of_aimOfTable
    {ref : TableRef} {rest replacement : Text} {a : Aim} {value : Text}
    (hvalue : TableRef.read value = .ok ref) (h : aimOfTable ref rest replacement = .ok a) :
    a.Sound := by
  obtain ⟨target, htarget, h⟩ := exists_of_bind_eq_ok h
  have htarget := eq_ok_of_refuseAs_eq_ok htarget
  cases h
  cases ref with
  | create size =>
    cases htarget
    exact Aim.sound_of_text rfl
  | existing table cells =>
    have htable := TableRef.selector_ne_of_read hvalue
    rcases TableRef.target_of_existing htarget with rfl | ⟨ref, rfl, rfl, hinner⟩
    · exact Aim.sound_of_tables rfl htable
    · by_cases hrest : rest.isEmpty = true
      · simp only [hrest, if_true]
        refine ⟨fun h => htable (Option.some.inj h), ?_⟩
        rintro ref' ⟨⟩
        rw [hinner, List.isEmpty_iff.1 hrest]
      · simp only [hrest]
        refine ⟨fun h => htable (Option.some.inj h), ?_⟩
        rintro ref' ⟨⟩
        rfl

theorem sound_of_aimOfLead [CharNames]
    {pattern replacement : Text} {a : Aim} (h : aimOfLead pattern replacement = .ok a) :
    a.Sound := by
  unfold aimOfLead at h
  split at h
  · cases h
    exact Aim.sound_of_text rfl
  · obtain ⟨lead, hlead, h⟩ := exists_of_bind_eq_ok h
    have hlead := eq_ok_of_refuseAs_eq_ok hlead
    split at h
    · next rest ref =>
      obtain ⟨value, hvalue⟩ := LeadingRef.exists_read_of_detect hlead
      exact sound_of_aimOfTable hvalue h
    · cases h
      exact Aim.sound_of_text rfl
    · cases h
      exact Aim.sound_of_text rfl

/-- Whatever form a reference has, the aim of a pattern is sound. -/
theorem sound_of_aim [CharNames]
    {pattern replacement : Text} {a : Aim} (h : aim pattern replacement = .ok a) : a.Sound := by
  obtain ⟨cells, hcells, h⟩ := exists_of_bind_eq_ok h
  have hcells := eq_ok_of_ofNumber_eq_ok hcells
  split at h
  · cases h
    refine ⟨fun h => CellRef.table_of_readPiped? hcells (Option.some.inj h), ?_⟩
    rintro ref ⟨⟩
    rfl
  · obtain ⟨lead, hlead, h⟩ := exists_of_bind_eq_ok h
    have hsound := sound_of_aimOfLead hlead
    split at h
    · obtain ⟨selector, hselector, h⟩ := exists_of_bind_eq_ok h
      have hselector := eq_ok_of_ofNumber_eq_ok hselector
      split at h
      · cases h
        exact Aim.sound_of_tables rfl (TableSelector.ne_of_readPiped? hselector)
      · cases h
        exact hsound
    · cases h
      exact hsound

/-! ## Fields of an expression -/

/-- The number of a match is never negative; zero stands for none. -/
theorem nth_nonneg (e : Expression) : 0 ≤ (e.nth : Int) :=
  Int.natCast_nonneg e.nth

/-- There is a directive exactly when there are blocks. -/
theorem directive?_eq_none_iff {e : Expression} : e.directive? = none ↔ e.blocks = [] := by
  unfold directive?
  constructor
  · intro h
    split at h
    · assumption
    · split at h <;> cases h
    · cases h
  · intro h
    rw [h]

theorem target_of_cells? {e : Expression} {ref : CellRef} (h : e.cells? = some ref) :
    e.target = .cells ref := by
  unfold cells? at h
  split at h
  · next htarget => rw [htarget, Option.some.inj h]
  · cases h

/-- Only the replacement and its blocks are added to an expression.  When there are no blocks, the
replacement is the text without the backslashes of its braces, or the size of a table. -/
theorem exists_of_addReplacement
    {e e' : Expression} {replacement : Text} (h : addReplacement e replacement = .ok e') :
    ∃ text blocks, e' = { e with replacement := text, blocks } ∧
      (e'.blocks = [] →
        text = plainBraces replacement ∨ ∃ size : TableSize, text = size.piped) := by
  unfold addReplacement at h
  dsimp only at h
  split at h
  · cases h
    exact ⟨_, _, rfl, fun _ => .inl rfl⟩
  · split at h
    · cases h
      exact ⟨_, _, rfl, fun _ => .inl rfl⟩
    · next d hdirective =>
      obtain ⟨size?, -, h⟩ := exists_of_bind_eq_ok h
      split at h
      · next size =>
        cases h
        exact ⟨_, _, rfl, fun _ => .inr ⟨size, rfl⟩⟩
      · cases h
        refine ⟨_, _, rfl, fun hblocks => ?_⟩
        rw [directive?_eq_none_iff.2 hblocks] at hdirective
        cases hdirective

theorem withFlags_ne_nil {pattern : Text} (h : pattern ≠ []) (flags : Text) :
    Delimited.withFlags pattern flags ≠ [] := by
  unfold Delimited.withFlags
  dsimp only
  split
  · exact h
  · simp

/-- What reading an expression from a text guarantees. -/
structure WellFormed (raw : Text) (e : Expression) : Prop where
  /-- Of a command other than substitution, cells, and whole tables there is at most one. -/
  single : [e.command != .substitute, e.cells?.isSome, e.tables?.isSome].count true ≤ 1
  /-- No table is named by the position zero. -/
  table : e.target.table? ≠ some (.position 0)
  /-- The number and the flag of a substitution are those of its last field. -/
  flags : e.command = .substitute → ∃ pattern replacement flags,
    HasFields raw pattern replacement flags ∧ Delimited.nth flags = .ok e.nth ∧
      e.isGlobal = flags.contains 'g'
  /-- Beside a reference to cells the pattern is the one for the text inside them. -/
  inner : ∀ ref, e.cells? = some ref → e.pattern = ref.inner
  /-- Only a substitution has a reference, formatting, flags, or a number. -/
  plain : e.command ≠ .substitute →
    e.cells? = none ∧ e.tables? = none ∧ e.directive? = none ∧ e.isGlobal = false ∧ e.nth = 0
  transliterate : e.command = .transliterate →
    e.pattern.length = e.replacement.length ∧ e.pattern ≠ []
  delete : e.command = .delete → e.pattern ≠ []
  written : e.raw = raw

/-- An expression of a command other than substitution, with nothing but its two texts. -/
theorem wellFormed_of_command
    {command : Command} {pattern replacement raw : Text} (hcommand : command ≠ .substitute)
    (htransliterate : command = .transliterate →
      pattern.length = replacement.length ∧ pattern ≠ [])
    (hdelete : command = .delete → pattern ≠ []) :
    WellFormed raw { command, pattern, replacement, raw } where
  single := by
    show [command != .substitute, false, false].count true ≤ 1
    cases command <;> decide
  table h := by cases h
  flags h := absurd h hcommand
  inner ref href := by cases href
  plain _ := ⟨rfl, rfl, rfl, rfl, rfl⟩
  transliterate := htransliterate
  delete := hdelete
  written := rfl

/-- A substitution, whose target is one of three things by its type. -/
theorem wellFormed_of_substitute
    {raw : Text} {e : Expression} (hcommand : e.command = .substitute)
    (htable : e.target.table? ≠ some (.position 0))
    (hflags : ∃ pattern replacement flags, HasFields raw pattern replacement flags ∧
      Delimited.nth flags = .ok e.nth ∧ e.isGlobal = flags.contains 'g')
    (hinner : ∀ ref, e.target = .cells ref → e.pattern = ref.inner) (hraw : e.raw = raw) :
    WellFormed raw e where
  single := by
    rw [hcommand]
    unfold cells? tables?
    cases e.target <;> simp
  table := htable
  flags _ := hflags
  inner ref href := hinner ref (target_of_cells? href)
  plain h := absurd hcommand h
  transliterate h := nomatch hcommand.symm.trans h
  delete h := nomatch hcommand.symm.trans h
  written := hraw

theorem wellFormed_readDelete
    {fields : List Text} {raw : Text} {e : Expression} (h : readDelete fields raw = .ok e) :
    WellFormed raw e := by
  unfold readDelete at h
  dsimp only at h
  split at h
  · cases h
  · next hpattern =>
    cases h
    exact wellFormed_of_command nofun nofun
      fun _ => withFlags_ne_nil (fun h => hpattern (List.isEmpty_iff.2 h)) _

theorem wellFormed_readLines
    {command : Command} {fields : List Text} {raw : Text} {e : Expression}
    (hcommand : command ≠ .substitute) (htransliterate : command ≠ .transliterate)
    (hdelete : command ≠ .delete) (h : readLines command fields raw = .ok e) :
    WellFormed raw e := by
  unfold readLines at h
  split at h
  · cases h
    exact wellFormed_of_command hcommand (fun h => absurd h htransliterate)
      fun h => absurd h hdelete
  · cases h

theorem wellFormed_readTransliterate
    {fields : List Text} {raw : Text} {e : Expression}
    (h : readTransliterate fields raw = .ok e) : WellFormed raw e := by
  unfold readTransliterate at h
  split at h
  · split at h
    · cases h
    · next hlength =>
      split at h
      · cases h
      · next hsource =>
        cases h
        exact wellFormed_of_command nofun
          (fun _ => ⟨not_not.1 hlength, fun h => hsource (List.isEmpty_iff.2 h)⟩) nofun
  · cases h

theorem wellFormed_readSubstitute [CharNames]
    {delimiter : Char} {rest : Text} {e : Expression} (hlength : 2 ≤ rest.length)
    (h : readSubstitute (Delimited.split delimiter rest) ('s' :: delimiter :: rest) = .ok e) :
    WellFormed ('s' :: delimiter :: rest) e := by
  unfold readSubstitute at h
  split at h
  · next pattern replacement more hfields =>
    obtain ⟨a, ha, h⟩ := exists_of_bind_eq_ok h
    obtain ⟨e', he', h⟩ := exists_of_bind_eq_ok h
    obtain ⟨nth, hnth, h⟩ := exists_of_bind_eq_ok h
    obtain ⟨text, blocks, rfl, -⟩ := exists_of_addReplacement he'
    have hsound := sound_of_aim ha
    cases h
    exact wellFormed_of_substitute rfl hsound.table
      ⟨pattern, replacement, fieldAt more 0, ⟨delimiter, rest, more, rfl, hlength, hfields, rfl⟩,
        eq_ok_of_ofNumber_eq_ok hnth, rfl⟩
      hsound.inner rfl
  · cases h

theorem ofLetter?_ne_substitute {c : Char} {command : Command}
    (h : Command.ofLetter? c = some command) : command ≠ .substitute := by
  have hmem : command ∈ [Command.delete, .append, .insert, .transliterate] :=
    List.mem_of_find?_eq_some h
  rintro rfl
  exact absurd hmem (by decide)

theorem wellFormed_read [CharNames] {raw : Text} {e : Expression} (h : read raw = .ok e) :
    WellFormed raw e := by
  unfold read at h
  split at h
  · cases h
  · cases h
  · next letter delimiter rest =>
    dsimp only at h
    split at h
    · exact wellFormed_readDelete h
    · exact wellFormed_readTransliterate h
    · next command hdelete htransliterate hcommand =>
      have hletter : Command.ofLetter? letter = some command := by
        split at hcommand
        · cases hcommand
        · exact hcommand
      exact wellFormed_readLines (ofLetter?_ne_substitute hletter)
        (fun h => htransliterate (h ▸ rfl)) (fun h => hdelete (h ▸ rfl)) h
    · split at h
      · cases h
      · next hshape =>
        rw [not_or, not_not, Nat.not_lt] at hshape
        obtain ⟨rfl, hlength⟩ := hshape
        exact wellFormed_readSubstitute hlength h

/-- Every expression that is read is well formed.  As in every expression, its number is not
negative, and it has formatting exactly when it has a block. -/
theorem wellFormed_of_read [CharNames] {raw : Text} {e : Expression} (h : read raw = .ok e) :
    WellFormed raw e ∧ 0 ≤ (e.nth : Int) ∧ (e.directive? = none ↔ e.blocks = []) :=
  ⟨wellFormed_read h, e.nth_nonneg, directive?_eq_none_iff⟩

/-- The second match inside a cell of the second table. -/
def innerEdit : Expression where
  pattern := "old".toList
  replacement := "new".toList
  isGlobal := true
  nth := 2
  target := .cells { table := .position 2, row := 1, column := 1, inner := "old".toList }
  raw := "s/|2|[A1]:old/new/2g".toList

attribute [local instance] CharNames.none

theorem wellFormed_of_read_innerEdit :
    read "s/|2|[A1]:old/new/2g".toList = .ok innerEdit ∧
      WellFormed "s/|2|[A1]:old/new/2g".toList innerEdit ∧ 0 ≤ (innerEdit.nth : Int) ∧
      (innerEdit.directive? = none ↔ innerEdit.blocks = []) := by
  have hread : read "s/|2|[A1]:old/new/2g".toList = .ok innerEdit := rfl
  exact ⟨hread, wellFormed_of_read hread⟩

end Expression

end Redline
