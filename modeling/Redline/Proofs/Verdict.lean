import Redline.Proofs.Refusal
import Redline.Proofs.Run

/-!
# The verdict of a dry run

A dry run lists every expression with a verdict on its pattern, and a run refuses a pattern that
cannot be read.  This module compares the two.  The verdict reads the pattern of every expression,
places of the document apart.  The run reads it only where it searches with it: a transliteration
takes its pattern for a list of characters, and a replacement of images takes it for a reference.
So the verdict foretells the refusal but for these two.
-/

namespace Redline

namespace Expression

/-- The pattern of the expression cannot be read. -/
def IsFlawed [CharNames] (e : Expression) : Prop :=
  ∃ flaw position, e.compile = .error (.flawed flaw position)

/-- The verdict on the expression is an error. -/
def IsRejected [CharNames] (e : Expression) : Prop :=
  ∃ verdict, e.validity = .ok verdict ∧ Text.startsWith "ERROR: ".toList verdict = true

variable {e : Expression} {k : Kind}

/-! ## The verdict -/

/-- A place of the document can also be read as a pattern. -/
theorem exists_compile_of_unread [CharNames]
    (h : (e.pattern.isEmpty || namesPosition e.pattern) = true) :
    ∃ p, e.compile = .ok p := by
  simp only [namesPosition, Bool.or_eq_true, beq_iff_eq, List.isEmpty_iff] at h
  rcases h with hempty | (hstart | hstop) | hwhole
  · exact ⟨_, (congrArg Pattern.read hempty).trans
      (Pattern.read_of_steps [] rfl (Pattern.steps_of_nil rfl) rfl)⟩
  · have hsteps : Pattern.steps 1 { rest := ['^'] } = .ok _ :=
      (Pattern.steps_of_step (by decide) rfl (by decide)).trans (Pattern.steps_of_nil rfl)
    exact ⟨_, (congrArg Pattern.read hstart).trans (Pattern.read_of_steps ['^'] rfl hsteps rfl)⟩
  · have hsteps : Pattern.steps 1 { rest := ['$'] } = .ok _ :=
      (Pattern.steps_of_step (by decide) rfl (by decide)).trans (Pattern.steps_of_nil rfl)
    exact ⟨_, (congrArg Pattern.read hstop).trans (Pattern.read_of_steps ['$'] rfl hsteps rfl)⟩
  · have hsteps : Pattern.steps 2 { rest := ['^', '$'] } = .ok _ :=
      ((Pattern.steps_of_step (by decide) rfl (by decide)).trans
        (Pattern.steps_of_step (by decide) rfl (by decide))).trans (Pattern.steps_of_nil rfl)
    exact ⟨_, (congrArg Pattern.read hwhole).trans
      (Pattern.read_of_steps ['^', '$'] rfl hsteps rfl)⟩

/-- The verdict on a pattern that cannot be read is the message of the fault. -/
theorem validity_of_compile [CharNames]
    {flaw : Pattern.Flaw} {position : Option Nat}
    (h : e.compile = .error (.flawed flaw position)) :
    e.validity = .ok ("ERROR: ".toList ++ (Fault.pattern e.pattern flaw position).message) := by
  have hread : ¬ (e.pattern.isEmpty || namesPosition e.pattern) = true := by
    intro hunread
    obtain ⟨p, hp⟩ := exists_compile_of_unread hunread
    rw [hp] at h
    cases h
  rw [validity, if_neg hread, h]
  exact congrArg Except.ok String.toList_append

theorem isRejected_iff [CharNames] : e.IsRejected ↔ e.IsFlawed := by
  constructor
  · rintro ⟨verdict, hverdict, herror⟩
    have hok : ¬ Text.startsWith "ERROR: ".toList "ok".toList = true := by decide
    rw [validity] at hverdict
    split at hverdict
    · cases hverdict
      exact absurd herror hok
    · split at hverdict
      · cases hverdict
        exact absurd herror hok
      · next flaw position hcompile => exact ⟨flaw, position, hcompile⟩
      · cases hverdict
  · rintro ⟨flaw, position, hcompile⟩
    exact ⟨_, validity_of_compile hcompile, List.isPrefixOf_iff_prefix.2 (List.prefix_append _ _)⟩

/-! ## Kinds -/

/-- A substitution in text is no command, and a table that it creates can be read off the
replacement. -/
theorem of_textKind [CharNames] (h : e.textKind = .ok k) :
    k ≠ .command ∧ (k = .tableCreate → ∃ spec, e.tableSpec? = .ok (some spec)) := by
  obtain ⟨spec?, hspec, h⟩ := exists_of_bind_eq_ok h
  cases spec? with
  | some spec =>
    cases h
    exact ⟨by decide, fun _ => ⟨spec, hspec⟩⟩
  | none =>
    obtain ⟨ref?, -, h⟩ := exists_of_bind_eq_ok h
    cases ref? with
    | some ref =>
      cases h
      exact ⟨by decide, fun h => absurd h (by decide)⟩
    | none =>
      have hkind : (if e.isNative = true then Kind.native else .manual) = k := Except.ok.inj h
      split at hkind
      · subst hkind
        exact ⟨by decide, fun h => absurd h (by decide)⟩
      · subst hkind
        exact ⟨by decide, fun h => absurd h (by decide)⟩

/-- What the kind of an expression tells: a command is no substitution, and a new table can be
read off the replacement. -/
theorem of_kind [CharNames] (h : e.kind = .ok k) :
    (k = .command → e.command ≠ .substitute) ∧
      (k = .tableCreate → ∃ spec, e.tableSpec? = .ok (some spec)) := by
  rw [kind] at h
  split at h
  · next hcommand =>
    cases h
    exact ⟨fun _ => hcommand, fun hk => absurd hk (by decide)⟩
  · split at h
    · cases h
      exact ⟨fun hk => absurd hk (by decide), fun hk => absurd hk (by decide)⟩
    · cases h
      exact ⟨fun hk => absurd hk (by decide), fun hk => absurd hk (by decide)⟩
    · split at h
      · cases h
        exact ⟨fun hk => absurd hk (by decide), fun hk => absurd hk (by decide)⟩
      · exact ⟨fun hk => absurd hk (of_textKind h).1, (of_textKind h).2⟩

end Expression

/-! ## Refusing a pattern -/

namespace Run

variable {σ α : Type} {s : Session σ} {e : Expression} {x : Run σ α} {w : World σ}

/-- The computation ends with the fault of a pattern that cannot be read. -/
def RefusesPattern (s : Session σ) (x : Run σ α) (w : World σ) : Prop :=
  ∃ source flaw position w', x.execute s w = (.error (.pattern source flaw position), w')

theorem NeverRefuses.not_refusesPattern (h : NeverRefuses s x) : ¬ RefusesPattern s x w := by
  rintro ⟨source, flaw, position, w', hrun⟩
  have hcode := h w _ w' hrun
  cases hcode

/-- What reads a pattern first refuses it with the flaw that reading it has found. -/
theorem CompilesFirst.compile_of_refused [CharNames]
    (h : CompilesFirst s e x) {source : Text} {flaw : Pattern.Flaw} {position : Option Nat}
    {w' : World σ} (hrun : x.execute s w = (.error (.pattern source flaw position), w')) :
    source = e.pattern ∧ e.compile = .error (.flawed flaw position) := by
  obtain ⟨rest, rfl, hrest⟩ := h
  rcases cases_of_execute_bind_eq_error hrun with hrun | ⟨p, w₁, -, hrun⟩
  · unfold Run.compile at hrun
    split at hrun
    · cases hrun
    · next hcompile =>
      cases hrun
      exact ⟨rfl, hcompile⟩
    · cases hrun
  · exact absurd ⟨_, _, _, _, hrun⟩ (hrest p).not_refusesPattern

theorem CompilesFirst.refusesPattern_iff [CharNames] (h : CompilesFirst s e x) :
    RefusesPattern s x w ↔ e.IsFlawed := by
  constructor
  · rintro ⟨source, flaw, position, w', hrun⟩
    exact ⟨flaw, position, (h.compile_of_refused hrun).2⟩
  · rintro ⟨flaw, position, hcompile⟩
    obtain ⟨rest, rfl, -⟩ := h
    refine ⟨e.pattern, flaw, position, w, ?_⟩
    rw [execute_bind, Run.compile, hcompile]
    rfl

end Run

namespace Session

open Run (NeverRefuses CompilesFirst RefusesPattern)

variable {σ : Type} {s : Session σ} {e : Expression} {k : Kind}

theorem runOne_of_kind [CharNames] (h : e.kind = .ok .command) :
    (runOne e : Run σ Outcome) = runCommand e := by
  rw [runOne, h]
  rfl

theorem neverRefuses_runOne_of_transliterate [CharNames] (h : e.command = .transliterate) :
    NeverRefuses s (runOne e) := by
  have hkind : e.kind = .ok .command := by
    rw [Expression.kind, if_pos (by rw [h]; decide)]
    rfl
  rw [runOne_of_kind hkind, runCommand, h]
  exact neverRefuses_transliterate e

theorem neverRefuses_runOne_of_image [CharNames] (h : e.kind = .ok .image) :
    NeverRefuses s (runOne e) := by
  rw [runOne, h]
  change NeverRefuses s (Run.ofLimited e.imageRef? >>= _)
  refine (NeverRefuses.ofLimited _).bind fun ref? => ?_
  split
  · exact neverRefuses_replaceImages _ _ _
  · exact NeverRefuses.pure _

/-- Every other command, new table and substitution reads its pattern before anything else. -/
theorem compilesFirst_runOne [CharNames]
    (hkind : e.kind = .ok k)
    (hk : k = .command ∨ k = .image ∨ k = .tableCreate ∨ k = .manual)
    (hsearch : ¬ (e.command = .transliterate ∨ k = .image)) : CompilesFirst s e (runOne e) := by
  obtain ⟨hcommand, himage⟩ := not_or.1 hsearch
  rcases hk with rfl | rfl | rfl | rfl
  · have hsubstitute := (Expression.of_kind hkind).1 rfl
    rw [runOne_of_kind hkind, runCommand]
    split
    · exact compilesFirst_deleteLines e
    · exact compilesFirst_insertLines e true
    · exact compilesFirst_insertLines e false
    · next h => exact absurd h hcommand
    · next h => exact absurd h hsubstitute
  · exact absurd rfl himage
  · obtain ⟨spec, hspec⟩ := (Expression.of_kind hkind).2 rfl
    have hrun : (runOne e : Run σ Outcome) = createTable e spec := by
      rw [runOne, hkind, hspec]
      rfl
    rw [hrun]
    exact compilesFirst_createTable e spec
  · have hrun : (runOne e : Run σ Outcome) =
        runManual e >>= fun count => pure [("replaced", .count count)] := by
      rw [runOne, hkind]
      rfl
    rw [hrun]
    exact (compilesFirst_runManual e).bind fun _ => NeverRefuses.pure _

/-- The run of a command, a new table, a replacement of images or a substitution refuses a flawed
pattern, unless the pattern is a list of characters or a reference to images. -/
theorem refusesPattern_runOne_iff [CharNames]
    (hkind : e.kind = .ok k)
    (hk : k = .command ∨ k = .image ∨ k = .tableCreate ∨ k = .manual) (w : World σ) :
    RefusesPattern s (runOne e) w ↔
      e.IsFlawed ∧ ¬ (e.command = .transliterate ∨ k = .image) := by
  by_cases hsearch : e.command = .transliterate ∨ k = .image
  · have hnever : NeverRefuses s (runOne e) := by
      rcases hsearch with htransliterate | rfl
      · exact neverRefuses_runOne_of_transliterate htransliterate
      · exact neverRefuses_runOne_of_image hkind
    exact iff_of_false hnever.not_refusesPattern fun h => h.2 hsearch
  · rw [(compilesFirst_runOne hkind hk hsearch).refusesPattern_iff, and_iff_left hsearch]

/-- Every refusal of a pattern is foretold in its own words.  What is foretold comes true unless the
pattern is a list of characters or a reference to images, so verdict and run agree exactly when no
such pattern is rejected. -/
theorem verdict_foretells_refusal_iff [CharNames]
    (hkind : e.kind = .ok k)
    (hk : k = .command ∨ k = .image ∨ k = .tableCreate ∨ k = .manual) (s : Session σ)
    (w : World σ) :
    (∀ source flaw position w',
        (runOne e).execute s w = (.error (.pattern source flaw position), w') →
          e.validity =
            .ok ("ERROR: ".toList ++ (Fault.pattern source flaw position).message)) ∧
      (RefusesPattern s (runOne e) w ↔
        e.IsRejected ∧ ¬ (e.command = .transliterate ∨ k = .image)) ∧
      ((e.IsRejected ↔ RefusesPattern s (runOne e) w) ↔
        ¬ (e.IsRejected ∧ (e.command = .transliterate ∨ k = .image))) := by
  have hrefuses : RefusesPattern s (runOne e) w ↔
      e.IsRejected ∧ ¬ (e.command = .transliterate ∨ k = .image) := by
    rw [Expression.isRejected_iff]
    exact refusesPattern_runOne_iff hkind hk w
  refine ⟨?_, hrefuses, ?_⟩
  · intro source flaw position w' hrun
    have hsearch := (hrefuses.1 ⟨_, _, _, _, hrun⟩).2
    obtain ⟨rfl, hcompile⟩ := (compilesFirst_runOne hkind hk hsearch).compile_of_refused hrun
    exact Expression.validity_of_compile hcompile
  · rw [hrefuses]
    constructor
    · rintro hsame ⟨hrejected, hunread⟩
      exact (hsame.1 hrejected).2 hunread
    · intro hread
      exact ⟨fun hrejected => ⟨hrejected, fun hunread => hread ⟨hrejected, hunread⟩⟩, And.left⟩

/-- Delete the lines with a group that is not closed. -/
def openGroup : Expression where
  command := .delete
  pattern := ['(']
  raw := "d/(/".toList

attribute [local instance] CharNames.none

/-- The verdict and the run agree on a group that is not closed. -/
theorem verdict_foretells_refusal_openGroup :
    openGroup.kind = .ok .command ∧ openGroup.IsRejected ∧
      RefusesPattern oneCellSession (runOne openGroup) ⟨(), [], 0⟩ := by
  have hsteps : Pattern.steps 1 { rest := ['('] } = .ok _ :=
    (Pattern.steps_of_step (by decide) rfl (by decide)).trans (Pattern.steps_of_nil rfl)
  have hcompile : openGroup.compile = .error (.flawed .unterminatedGroup (some 0)) := by
    show Except.bind (Pattern.steps 1 { rest := ['('] }) _ = _
    rw [hsteps]
    rfl
  have hrejected : openGroup.IsRejected := Expression.isRejected_iff.2 ⟨_, _, hcompile⟩
  obtain ⟨-, hrefuses, -⟩ := verdict_foretells_refusal_iff (e := openGroup) rfl (.inl rfl)
    oneCellSession ⟨(), [], 0⟩
  exact ⟨rfl, hrejected, hrefuses.2 ⟨hrejected, by decide⟩⟩

/-- Replace every image. -/
def everyImage : Expression where
  pattern := "!(*)".toList
  replacement := ['x']
  raw := "s/!(*)/x/".toList

/-- Replace an opening bracket. -/
def bracketLetter : Expression where
  command := .transliterate
  pattern := ['[']
  replacement := ['x']
  raw := "y/[/x/".toList

/-- A reference to all images and a list of characters are rejected, though no run refuses them. -/
theorem rejected_of_no_refusal :
    (Expression.read "s/!(*)/x/".toList = .ok everyImage ∧ everyImage.kind = .ok .image ∧
        everyImage.IsRejected ∧
        ∀ w, ¬ RefusesPattern oneCellSession (runOne everyImage) w) ∧
      Expression.read "y/[/x/".toList = .ok bracketLetter ∧ bracketLetter.kind = .ok .command ∧
        bracketLetter.IsRejected ∧
        ∀ w, ¬ RefusesPattern oneCellSession (runOne bracketLetter) w := by
  have himageSteps : Pattern.steps 4 { rest := "!(*)".toList } =
      .error (.flawed .nothingToRepeat (some 2)) := by
    rw [Pattern.steps_of_step (by decide) rfl (by decide),
      Pattern.steps_of_step (by decide) rfl (by decide), Pattern.steps]
    rfl
  have himage : everyImage.compile = .error (.flawed .nothingToRepeat (some 2)) := by
    show Except.bind (Pattern.steps 4 { rest := "!(*)".toList }) _ = _
    rw [himageSteps]
    rfl
  have hletterSteps : Pattern.steps 1 { rest := ['['] } =
      .error (.flawed .unterminatedSet (some 0)) := by
    rw [Pattern.steps]
    rfl
  have hletter : bracketLetter.compile = .error (.flawed .unterminatedSet (some 0)) := by
    show Except.bind (Pattern.steps 1 { rest := ['['] }) _ = _
    rw [hletterSteps]
    rfl
  have hkind : everyImage.kind = .ok .image := rfl
  refine ⟨⟨rfl, hkind, Expression.isRejected_iff.2 ⟨_, _, himage⟩, fun w => ?_⟩, rfl, rfl,
    Expression.isRejected_iff.2 ⟨_, _, hletter⟩, fun w => ?_⟩
  · exact (neverRefuses_runOne_of_image hkind).not_refusesPattern
  · exact (neverRefuses_runOne_of_transliterate rfl).not_refusesPattern

end Session

end Redline
