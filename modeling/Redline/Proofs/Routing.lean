import Redline.Proofs.PlainReplacement
import Redline.Proofs.Queues

/-!
# Routing alone and in company

An expression that runs alone is carried out by the handler for its kind.  Among others it is sorted
into a queue by another reading of its kind, and the queue has a way of its own to carry it out.
This module names the handlers, finds the handler for each of the two readings, and proves that the
runs are carried out by them.  The two handlers are one, except where the readings look for an image
at different times.

## Main definitions

* `Redline.Run.deed`: what a run does, whatever it counts and however it words its fault.
* `Redline.Handler`: the ways to carry out an expression.
* `Redline.Expression.RoutesApart`: the expressions whose handler depends on company.
* `Redline.Session.stage`: the part of a run that works off one queue.

## Main results

* `Redline.Session.discard_runOne`: an expression alone is carried out by its handler.
* `Redline.Session.deed_stage`: so is an expression that is the only one in its queue.
* `Redline.Expression.handlers_eq_iff`: when the two handlers are the same.
-/

namespace Redline

/-! ## What a run does -/

/-- The fault without the origins that it is reported with. -/
def Fault.cause : Fault → Fault
  | .within _ cause => cause.cause
  | fault => fault

namespace Run

variable {σ α β : Type}

/-- How a computation ends, whatever its value: with no fault, or with a fault of some cause. -/
def ending : Except Fault α → Option Fault
  | .ok _ => none
  | .error fault => some fault.cause

/-- What a computation does: how it ends, and the world that it leaves. -/
def deed (x : Run σ α) (s : Session σ) (w : World σ) : Option Fault × World σ :=
  (ending (x.execute s w).1, (x.execute s w).2)

theorem discard_eq (x : Run σ α) : discard x = x >>= fun _ => pure () :=
  rfl

theorem discard_bind_pure (x : Run σ α) (f : α → β) :
    discard (x >>= fun a => pure (f a)) = discard x := by
  rw [discard_eq, discard_eq, bind_assoc]
  simp only [pure_bind]

/-- The value that a computation ends with is no part of what it does. -/
theorem deed_bind_pure (x : Run σ α) (f : α → β) (s : Session σ) (w : World σ) :
    (x >>= fun a => pure (f a)).deed s w = x.deed s w := by
  unfold deed
  rw [execute_bind]
  rcases x.execute s w with ⟨_ | a, w'⟩
  · rfl
  · rfl

theorem deed_discard (x : Run σ α) (s : Session σ) (w : World σ) :
    (discard x).deed s w = x.deed s w :=
  deed_bind_pure x _ s w

/-- Nor is the origin that a fault is reported with. -/
theorem deed_within_bind (origin : Origin) (x : Run σ α) (next : α → Run σ β) (s : Session σ)
    (w : World σ) : (within origin x >>= next).deed s w = (x >>= next).deed s w := by
  unfold deed
  rw [execute_bind, execute_bind, within, execute_tryCatch]
  rcases x.execute s w with ⟨fault | a, w'⟩
  · by_cases hfault : fault.isReportable = true
    · simp only [hfault, if_true]
      rfl
    · simp only [hfault]
      rfl
  · rfl

theorem deed_within (origin : Origin) (x : Run σ α) (s : Session σ) (w : World σ) :
    (within origin x).deed s w = x.deed s w := by
  have h := deed_within_bind origin x pure s w
  rwa [bind_pure, bind_pure] at h

/-- A computation that is tried again does the same whatever its value. -/
theorem deed_tryCatch_discard {x : Run σ α} {again : Fault → Run σ α} {again' : Fault → Run σ Unit}
    {s : Session σ} (h : ∀ fault w, (again fault).deed s w = (again' fault).deed s w)
    (w : World σ) : (tryCatch x again).deed s w = (tryCatch (discard x) again').deed s w := by
  unfold deed
  rw [execute_tryCatch, execute_tryCatch, discard_eq, execute_bind]
  rcases x.execute s w with ⟨fault | a, w'⟩
  · exact h fault w'
  · rfl

end Run

/-! ## A block behind a text -/

namespace Block

/-- A block that puts no text in its place, at the end of a text without backslashes and braces,
applies to all of the text. -/
theorem extractFrom_append_block {d : Directive} {inner t : Text}
    (hclosing : closing 0 (inner ++ ['\x7d']) = some (inner, []))
    (hread : Directive.read inner = .ok d) (hinline : d.inline = []) (htext : d.text = [])
    (ht : ∀ c ∈ t, c ≠ '\x7b' ∧ c ≠ '\\') (before : Bool) (position : Nat) :
    extractFrom before position (t ++ '\x7b' :: (inner ++ ['\x7d'])) =
      (t, [⟨d, position + t.length, .everything, '\x7b' :: inner ++ ['\x7d']⟩]) := by
  induction t generalizing before position with
  | nil =>
    rw [List.nil_append, extractFrom]
    split
    next hnone =>
      rw [hclosing] at hnone
      cases hnone
    next inner' tail hsome =>
      rw [hclosing] at hsome
      obtain ⟨rfl, rfl⟩ := Prod.mk.inj (Option.some.inj hsome)
      rw [hread]
      simp [place, hinline, htext, hasContent, extractFrom]
  | cons c t ih =>
    obtain ⟨hopen, hescape⟩ := ht c (List.mem_cons_self ..)
    obtain ⟨before', hcons⟩ := Template.Woven.exists_extractFrom_cons hopen
      (fun h => absurd h hescape) before position
    rw [List.cons_append, hcons, ih fun c hc => ht c (List.mem_cons_of_mem _ hc), List.length_cons,
      Nat.add_assoc, Nat.add_comm 1]

end Block

/-! ## Handlers -/

/-- The ways to carry out an expression, with what each is about. -/
inductive Handler where
  | command
  | deleteTables (selector : TableSelector)
  | positional
  | mergeCells (ref : CellRef)
  | replaceCells (ref : CellRef)
  | createTable (spec : TableSpec)
  | replaceImages (ref : ImageRef)
  | native
  | manual

/-- Carry out an expression. -/
def Handler.run [CharNames] {σ : Type} (e : Expression) : Handler → Run σ Unit
  | .command => discard <| Session.runCommand e
  | .deleteTables selector => discard <| Session.deleteTables selector e.replacement
  | .positional => discard <| Session.runPositional e
  | .mergeCells ref => discard <| Session.mergeCells ref e.replacement
  | .replaceCells ref => discard <| Session.replaceCells ref e
  | .createTable spec => discard <| Session.createTable e spec
  | .replaceImages ref => discard <| Session.replaceImages ref e.replacement e.isGlobal
  | .native => discard <| Session.runNative [e]
  | .manual => discard <| Session.runManual e

namespace Expression

/-- The handler for cells, by the replacement. -/
def cellHandler (e : Expression) (ref : CellRef) : Handler :=
  if isMergeWord e.replacement then .mergeCells ref else .replaceCells ref

/-- The handler of a substitution in text, by the table that it writes and the images that its
pattern names. -/
def textHandler (e : Expression) : Option TableSpec → Option ImageRef → Handler
  | some spec, _ => .createTable spec
  | none, some ref => .replaceImages ref
  | none, none => if e.isNative then .native else .manual

/-- The handler of an expression that runs alone. -/
def handlerAlone [CharNames] (e : Expression) : Except Limit Handler :=
  if e.command ≠ .substitute then .ok .command
  else match e.target with
    | .tables selector => .ok (.deleteTables selector)
    | .cells ref => .ok (e.cellHandler ref)
    | .text =>
      if e.isPositional then .ok .positional
      else do
        -- The images are not looked for when there is a table to create.
        match ← e.tableSpec? with
        | some spec => return .createTable spec
        | none => return e.textHandler none (← e.imageRef?)

/-- The handler of an expression that stands alone in its queue. -/
def handlerAmongOthers [CharNames] (e : Expression) : Except Limit Handler :=
  if e.command ≠ .substitute then do
    discard e.imageRef?
    return .command
  else match e.target with
    | .tables selector => .ok (.deleteTables selector)
    | .cells ref => .ok (e.cellHandler ref)
    | .text =>
      if e.isPositional then .ok .positional
      else do
        let ref ← e.imageRef?
        if ref.isNone && e.insertsImage then return .manual
        return e.textHandler (← e.tableSpec?) ref

/-- The handler of an expression in the queue of single steps. -/
def stepHandler [CharNames] (e : Expression) : Except Limit Handler := do
  let ref ← e.imageRef?
  if e.command ≠ .substitute then return .command
  match ref with
  | some ref => return .replaceImages ref
  | none => return .manual

/-- Which queue an expression stands in, and how it is carried out there. -/
inductive Routes [CharNames] (e : Expression) : Queues.Name → Prop where
  | positional (h : e.handlerAmongOthers = .ok .positional) : Routes e .positional
  | native (h : e.handlerAmongOthers = .ok .native) : Routes e .native
  | command (hcommand : e.command ≠ .substitute) (h : e.handlerAmongOthers = e.stepHandler) :
    Routes e .manual
  | manual (handler : Handler) (h : e.handlerAmongOthers = .ok handler)
    (hstep : e.stepHandler = .ok handler) : Routes e .manual
  | tableCreate (spec : TableSpec) (hspec : e.tableSpec? = .ok (some spec))
    (h : e.handlerAmongOthers = .ok (.createTable spec)) : Routes e .tableCreate
  | tables (selector : TableSelector) (htarget : e.target = .tables selector)
    (h : e.handlerAmongOthers = .ok (.deleteTables selector)) : Routes e .cell
  | cells (ref : CellRef) (htarget : e.target = .cells ref)
    (h : e.handlerAmongOthers = .ok (e.cellHandler ref)) : Routes e .cell
  | images (h : e.handlerAmongOthers = .ok .manual) : Routes e .images

/-- A substitution in the text of the document, other than at a place of it. -/
structure InText (e : Expression) : Prop where
  command : e.command = .substitute
  target : e.target = .text
  place : e.isPositional = false

namespace InText

variable {e : Expression}

theorem namesPosition (h : e.InText) : Expression.namesPosition e.pattern = false := by
  have hplace := h.place
  rw [isPositional, h.command, h.target] at hplace
  exact hplace

theorem handlerAlone [CharNames] (h : e.InText) :
    e.handlerAlone = (do
      match ← e.tableSpec? with
      | some spec => return .createTable spec
      | none => return e.textHandler none (← e.imageRef?)) := by
  rw [Expression.handlerAlone, if_neg (not_not_intro h.command), h.target]
  dsimp only
  rw [h.place, if_neg Bool.false_ne_true]

theorem handlerAmongOthers [CharNames] (h : e.InText) :
    e.handlerAmongOthers = (do
      let ref ← e.imageRef?
      if ref.isNone && e.insertsImage then return .manual
      return e.textHandler (← e.tableSpec?) ref) := by
  rw [Expression.handlerAmongOthers, if_neg (not_not_intro h.command), h.target]
  dsimp only
  rw [h.place, if_neg Bool.false_ne_true]

theorem stepHandler [CharNames] (h : e.InText) :
    e.stepHandler = (do
      match ← e.imageRef? with
      | some ref => return .replaceImages ref
      | none => return .manual) := by
  unfold Expression.stepHandler
  simp only [h.command, ne_eq, not_true_eq_false, if_false]

end InText

/-- A replacement that writes an image is not left to the service. -/
theorem isNative_of_insertsImage {e : Expression} (h : e.insertsImage = true) :
    e.isNative = false := by
  rw [insertsImage, Bool.or_eq_true] at h
  rcases h with h | h
  · have hplain : Markdown.isPlain e.replacement = false := by
      rw [Markdown.isPlain, h]
      simp only [Bool.or_true, Bool.true_or, Bool.not_true]
    rw [isNative, hplain, Bool.and_false]
  · have hblocks : e.blocks ≠ [] := by
      intro hnil
      rw [directive?, hnil] at h
      cases h
    rw [isNative, List.isEmpty_eq_false_iff.2 hblocks, Bool.and_false, Bool.false_and]

/-- The handler of the expression depends on whether it runs alone. -/
inductive RoutesApart [CharNames] (e : Expression) : Prop where
  /-- Among others the pattern of a command is read as a reference to images, and refused. -/
  | command (hcommand : e.command ≠ .substitute) (l : Limit) (himage : e.imageRef? = .error l)
  /-- Alone a table is created before the pattern is read, which is refused among others. -/
  | limit (h : e.InText) (spec : TableSpec) (htable : e.tableSpec? = .ok (some spec)) (l : Limit)
    (himage : e.imageRef? = .error l)
  /-- Among others an image is written where alone a table is created or refused. -/
  | image (h : e.InText) (himage : e.imageRef? = .ok none) (hinsert : e.insertsImage = true)
    (htable : e.tableSpec? ≠ .ok none)

theorem InText.routesApart_iff [CharNames] {e : Expression} (h : e.InText) :
    e.RoutesApart ↔
      ((∃ l, e.imageRef? = .error l) ∧ ∃ spec, e.tableSpec? = .ok (some spec)) ∨
        (e.imageRef? = .ok none ∧ e.insertsImage = true ∧ e.tableSpec? ≠ .ok none) := by
  constructor
  · intro hapart
    cases hapart with
    | command hcommand => exact absurd h.command hcommand
    | limit _ spec htable l himage => exact .inl ⟨⟨l, himage⟩, spec, htable⟩
    | image _ himage hinsert htable => exact .inr ⟨himage, hinsert, htable⟩
  · rintro (⟨⟨l, himage⟩, spec, htable⟩ | ⟨himage, hinsert, htable⟩)
    · exact .limit h spec htable l himage
    · exact .image h himage hinsert htable

theorem InText.handlers_eq_iff [CharNames] {e : Expression} (h : e.InText) :
    e.handlerAmongOthers.toOption = e.handlerAlone.toOption ↔ ¬ e.RoutesApart := by
  rw [h.routesApart_iff, h.handlerAlone, h.handlerAmongOthers]
  cases e.imageRef? with
  | error l =>
    cases e.tableSpec? with
    | error l' => exact iff_of_true rfl (by simp)
    | ok spec =>
      cases spec with
      | none => exact iff_of_true rfl (by simp)
      | some spec =>
        refine iff_of_false (fun heq => ?_) (by simp)
        cases heq
  | ok ref =>
    cases ref with
    | some ref =>
      refine iff_of_true ?_ (by simp)
      cases e.tableSpec? with
      | error l => rfl
      | ok spec => cases spec <;> rfl
    | none =>
      by_cases hinsert : e.insertsImage = true
      · have hnative := isNative_of_insertsImage hinsert
        simp only [hinsert]
        cases e.tableSpec? with
        | error l =>
          refine iff_of_false (fun heq => ?_) (by simp)
          cases heq
        | ok spec =>
          cases spec with
          | some spec =>
            refine iff_of_false (fun heq => ?_) (by simp)
            cases heq
          | none =>
            refine iff_of_true ?_ (by simp)
            show some Handler.manual = some (if e.isNative = true then .native else .manual)
            rw [hnative]
            rfl
      · simp only [hinsert]
        refine iff_of_true ?_ (by simp)
        cases e.tableSpec? with
        | error l => rfl
        | ok spec => cases spec <;> rfl

/-- Company does not matter exactly when the two ways to route do not part. -/
theorem handlers_eq_iff [CharNames] (e : Expression) :
    e.handlerAmongOthers.toOption = e.handlerAlone.toOption ↔ ¬ e.RoutesApart := by
  by_cases htext : e.InText
  · exact htext.handlers_eq_iff
  · by_cases hcommand : e.command = .substitute
    · have hnone : ¬ e.RoutesApart := by
        intro hapart
        cases hapart with
        | command hother => exact hother hcommand
        | limit h => exact htext h
        | image h => exact htext h
      refine iff_of_true ?_ hnone
      rw [handlerAmongOthers, handlerAlone, if_neg (not_not_intro hcommand),
        if_neg (not_not_intro hcommand)]
      cases htarget : e.target with
      | tables selector => rfl
      | cells ref => rfl
      | text =>
        have hplace : e.isPositional = true := by
          by_contra hplace
          exact htext ⟨hcommand, htarget, Bool.not_eq_true _ |>.mp hplace⟩
        dsimp only
        rw [if_pos hplace, if_pos hplace]
    · rw [handlerAmongOthers, handlerAlone, if_pos hcommand, if_pos hcommand]
      cases himage : e.imageRef? with
      | error l =>
        refine iff_of_false (fun heq => ?_) (not_not_intro (.command hcommand l himage))
        cases heq
      | ok ref =>
        refine iff_of_true rfl fun hapart => ?_
        cases hapart with
        | command _ l hlimit => cases himage.symm.trans hlimit
        | limit h => exact htext h
        | image h => exact htext h

/-- The kind of a substitution in text decides its queue. -/
theorem InText.routes [CharNames] {e : Expression} {kind : Kind} (htext : e.InText)
    (h : e.kindAmongOthers = .ok kind) : e.Routes (.ofKind kind) := by
  have hhandler := htext.handlerAmongOthers
  have hstep := htext.stepHandler
  rw [kindAmongOthers_of_text htext.command htext.target htext.namesPosition] at h
  cases himage : e.imageRef? with
  | error l =>
    rw [himage] at h
    cases h
  | ok ref =>
    rw [himage] at h hhandler hstep
    change (if (ref.isNone && e.insertsImage) = true then .ok .imageInsert else e.textKind) =
      .ok kind at h
    change e.handlerAmongOthers = (if (ref.isNone && e.insertsImage) = true then .ok .manual
      else do return e.textHandler (← e.tableSpec?) ref) at hhandler
    by_cases hinsert : (ref.isNone && e.insertsImage) = true
    · rw [if_pos hinsert] at h hhandler
      cases h
      exact .images hhandler
    · rw [if_neg hinsert] at h hhandler
      rw [textKind, himage] at h
      cases htable : e.tableSpec? with
      | error l =>
        rw [htable] at h
        cases h
      | ok spec =>
        rw [htable] at h hhandler
        cases spec with
        | some spec =>
          cases h
          exact .tableCreate spec htable hhandler
        | none =>
          cases ref with
          | some ref =>
            cases h
            exact .manual _ hhandler hstep
          | none =>
            change Except.ok (if e.isNative = true then Kind.native else .manual) = .ok kind at h
            change e.handlerAmongOthers =
              .ok (if e.isNative = true then Handler.native else .manual) at hhandler
            by_cases hnative : e.isNative = true
            · rw [if_pos hnative] at h hhandler
              cases h
              exact .native hhandler
            · rw [if_neg hnative] at h hhandler
              cases h
              exact .manual _ hhandler hstep

theorem routes_of_kindAmongOthers [CharNames] {e : Expression} {kind : Kind}
    (h : e.kindAmongOthers = .ok kind) : e.Routes (.ofKind kind) := by
  by_cases hcommand : e.command = .substitute
  · cases htarget : e.target with
    | tables selector =>
      rw [kindAmongOthers, if_neg (not_not_intro hcommand), htarget] at h
      cases h
      refine .tables selector htarget ?_
      rw [handlerAmongOthers, if_neg (not_not_intro hcommand), htarget]
    | cells ref =>
      rw [kindAmongOthers, if_neg (not_not_intro hcommand), htarget] at h
      cases h
      refine .cells ref htarget ?_
      rw [handlerAmongOthers, if_neg (not_not_intro hcommand), htarget]
    | text =>
      by_cases hplace : e.isPositional = true
      · rw [kindAmongOthers, if_neg (not_not_intro hcommand), htarget] at h
        dsimp only at h
        rw [if_pos hplace] at h
        cases h
        refine .positional ?_
        rw [handlerAmongOthers, if_neg (not_not_intro hcommand), htarget]
        dsimp only
        rw [if_pos hplace]
      · exact InText.routes ⟨hcommand, htarget, Bool.not_eq_true _ |>.mp hplace⟩ h
  · rw [kindAmongOthers, if_pos hcommand] at h
    cases h
    refine .command hcommand ?_
    rw [handlerAmongOthers, if_pos hcommand, stepHandler]
    cases e.imageRef? with
    | error l => rfl
    | ok ref => exact (if_pos hcommand).symm

/-- An expression that waits in a queue has a handler there, unless it is a command whose pattern is
refused as a reference to images. -/
theorem exists_handler_of_kind [CharNames] {e : Expression} {kind : Kind}
    (h : e.kindAmongOthers = .ok kind)
    (hapart : ¬ e.RoutesApart) : ∃ handler, e.handlerAmongOthers = .ok handler := by
  have hroutes := routes_of_kindAmongOthers h
  generalize Queues.Name.ofKind kind = name at hroutes
  cases hroutes with
  | positional h => exact ⟨_, h⟩
  | native h => exact ⟨_, h⟩
  | manual _ h => exact ⟨_, h⟩
  | tableCreate _ _ h => exact ⟨_, h⟩
  | tables _ _ h => exact ⟨_, h⟩
  | cells _ _ h => exact ⟨_, h⟩
  | images h => exact ⟨_, h⟩
  | command hcommand _ =>
    rw [handlerAmongOthers, if_pos hcommand]
    cases himage : e.imageRef? with
    | error l => exact absurd (.command hcommand l himage) hapart
    | ok ref => exact ⟨.command, rfl⟩

theorem handlers_eq_of_kind [CharNames] {e : Expression} {kind : Kind}
    (h : e.kindAmongOthers = .ok kind)
    (hapart : ¬ e.RoutesApart) : e.handlerAmongOthers = e.handlerAlone := by
  obtain ⟨handler, hhandler⟩ := exists_handler_of_kind h hapart
  have hsame := e.handlers_eq_iff.2 hapart
  rw [hhandler] at hsame ⊢
  cases halone : e.handlerAlone with
  | error l =>
    rw [halone] at hsame
    cases hsame
  | ok other =>
    rw [halone] at hsame
    cases hsame
    rfl

end Expression

/-! ## Runs -/

namespace Session

variable {σ : Type}

/-- Run an expression by its handler, if it has one. -/
def runHandler [CharNames] (handler : Except Limit Handler) (e : Expression) : Run σ Unit := do
  (← Run.ofLimited handler).run e

theorem discard_runTarget [CharNames] {e : Expression} {ref : CellRef}
    (h : e.target = .cells ref) :
    discard (runTarget e : Run σ Outcome) = (e.cellHandler ref).run e := by
  rw [runTarget, h, Expression.cellHandler]
  show discard (runCells ref e) = _
  rw [runCells]
  split
  · rfl
  · rfl

/-- An expression that runs alone is carried out by its handler. -/
theorem discard_runOne [CharNames] (e : Expression) :
    discard (runOne e : Run σ Outcome) = runHandler e.handlerAlone e := by
  rw [runOne, Expression.kind, Expression.handlerAlone]
  by_cases hcommand : e.command ≠ .substitute
  · rw [if_pos hcommand, if_pos hcommand]
    rfl
  · rw [if_neg hcommand, if_neg hcommand]
    cases htarget : e.target with
    | tables selector =>
      show discard (runTarget e) = _
      rw [runTarget, htarget]
      rfl
    | cells ref =>
      show discard (runTarget e) = (e.cellHandler ref).run e
      exact discard_runTarget htarget
    | text =>
      dsimp only
      by_cases hplace : e.isPositional = true
      · rw [if_pos hplace, if_pos hplace]
        rfl
      · rw [if_neg hplace, if_neg hplace, Expression.textKind]
        cases htable : e.tableSpec? with
        | error l => rfl
        | ok spec? =>
          cases spec? with
          | some spec => rfl
          | none =>
            cases himage : e.imageRef? with
            | error l => rfl
            | ok ref? =>
              cases ref? with
              | some ref => rfl
              | none =>
                unfold Expression.textHandler
                cases e.isNative with
                | true => exact Run.discard_bind_pure (runNative [e]) _
                | false => exact Run.discard_bind_pure (runManual e) _

/-- The part of a run that works off one queue. -/
def stage [CharNames] (q : Queues) : Queues.Name → Run σ Unit
  | .positional => discard <| runEach q.positional runPositional
  | .native => discard <| runNatives q.native
  | .manual => discard <| runSteps q.manual
  | .tableCreate => discard <| runEach q.tableCreate runTableCreate
  | .cell => discard <| (Queues.units q.cell).mapM runUnit
  | .images => discard <| q.images.mapM runImage

/-- A run of several expressions is its stages one after another. -/
theorem discard_runMany [CharNames] {es : List Expression} {q : Queues}
    (h : Queues.ofExpressions es = .ok q) :
    discard (runMany es : Run σ Outcome) = (do
      stage q .positional
      stage q .native
      stage q .manual
      stage q .tableCreate
      stage q .cell
      stage q .images) := by
  have hqueues : (Run.ofLimited (.ok q) : Run σ Queues) = pure q := rfl
  rw [runMany, h, hqueues]
  simp only [stage, Run.discard_eq, bind_assoc, pure_bind]

theorem deed_runEach_singleton (item : Numbered) (run : Expression → Run σ Outcome) (s : Session σ)
    (w : World σ) : (runEach [item] run).deed s w = (run item.expression).deed s w := by
  have hrun : runEach [item] run =
      Run.within (.expression (item.position + 1)) (run item.expression) >>= fun _ => pure 1 := by
    simp [runEach, Run.discard_eq]
  rw [hrun, Run.deed_bind_pure, Run.deed_within]

/-- What a step leaves to be done when it is the last one. -/
def finishStep (step : Step) : Run σ Nat := do
  if step.deferred then
    discard <| recreateBullets none
  return step.count

theorem runStep_finish_of_command [CharNames] {e : Expression} {ref : Option ImageRef}
    (himage : e.imageRef? = .ok ref) (hcommand : e.command ≠ .substitute) :
    (runStep e >>= finishStep : Run σ Nat) = discard (runCommand e) >>= fun _ => pure 1 := by
  have hstep : (runStep e : Run σ Step) = discard (runCommand e) >>= fun _ => pure ⟨1, false⟩ := by
    rw [runStep, himage]
    exact if_pos hcommand
  rw [hstep, bind_assoc]
  rfl

theorem runStep_finish_of_some [CharNames] {e : Expression} {ref : ImageRef}
    (himage : e.imageRef? = .ok (some ref)) (hcommand : e.command = .substitute) :
    (runStep e >>= finishStep : Run σ Nat) =
      discard (replaceImages ref e.replacement e.isGlobal) >>= fun _ => pure 1 := by
  have hstep : (runStep e : Run σ Step) =
      discard (replaceImages ref e.replacement e.isGlobal) >>= fun _ => pure ⟨1, false⟩ := by
    rw [runStep, himage]
    exact if_neg (not_not_intro hcommand)
  rw [hstep, bind_assoc]
  rfl

theorem runStep_finish_of_none [CharNames] {e : Expression} (himage : e.imageRef? = .ok none)
    (hcommand : e.command = .substitute) :
    (runStep e >>= finishStep : Run σ Nat) = runManual e := by
  have hstep : (runStep e : Run σ Step) =
      substitute e >>= fun result => pure ⟨result.replaced, !result.deferred.isEmpty⟩ := by
    rw [runStep, himage]
    exact if_neg (not_not_intro hcommand)
  rw [hstep, bind_assoc]
  rfl

theorem deed_runSteps_singleton [CharNames] (item : Numbered) (s : Session σ) (w : World σ) :
    (runSteps [item]).deed s w =
      (runHandler item.expression.stepHandler item.expression).deed s w := by
  have hrun : (runSteps [item] : Run σ Nat) =
      Run.within (stepOrigin item) (runStep item.expression) >>= finishStep := by
    unfold finishStep
    simp [runSteps]
  rw [hrun, Run.deed_within_bind]
  cases himage : item.expression.imageRef? with
  | error l =>
    rw [runStep, Expression.stepHandler, himage]
    rfl
  | ok ref =>
    by_cases hcommand : item.expression.command = .substitute
    · cases ref with
      | some ref =>
        have hhandler : item.expression.stepHandler = .ok (.replaceImages ref) := by
          rw [Expression.stepHandler, himage]
          exact if_neg (not_not_intro hcommand)
        rw [runStep_finish_of_some himage hcommand, hhandler, Run.deed_bind_pure]
        rfl
      | none =>
        have hhandler : item.expression.stepHandler = .ok .manual := by
          rw [Expression.stepHandler, himage]
          exact if_neg (not_not_intro hcommand)
        rw [runStep_finish_of_none himage hcommand, hhandler, ← Run.deed_discard]
        rfl
    · have hhandler : item.expression.stepHandler = .ok .command := by
        rw [Expression.stepHandler, himage]
        exact if_pos hcommand
      rw [runStep_finish_of_command himage hcommand, hhandler, Run.deed_bind_pure]
      rfl

/-- Carry out an expression after a pause, and once more after another pause if there is a fault
that can be reported. -/
def paced (x : Run σ Unit) : Run σ Unit := do
  let settings := (← read).settings
  Run.wait settings.imagePause
  tryCatch x fun fault => do
    if !fault.isReportable then throw fault
    Run.wait settings.imageRetryPause
    x

/-- What works off a queue does it at once, except that images are inserted at a pace. -/
def atItsPace (name : Queues.Name) (x : Run σ Unit) : Run σ Unit :=
  if name = .images then paced x else x

theorem deed_runImage [CharNames] (item : Numbered) (s : Session σ) (w : World σ) :
    (runImage item).deed s w = (paced (Handler.manual.run item.expression)).deed s w := by
  refine Run.deed_tryCatch_discard (x := runManual item.expression) ?_
    (Run.note (.pause s.settings.imagePause) w)
  intro fault w'
  by_cases hfault : fault.isReportable = true
  · simp only [hfault]
    show (Run.within _ (runManual item.expression)).deed s
      (Run.note (.pause s.settings.imageRetryPause) w') = _
    rw [Run.deed_within, ← Run.deed_discard]
    rfl
  · simp only [hfault]
    rfl

theorem deed_runUnit_singleton [CharNames] (item : Numbered) (s : Session σ) (w : World σ) :
    (discard <| (Queues.units [item]).mapM runUnit : Run σ Unit).deed s w =
      (runTarget item.expression).deed s w := by
  have hunits : (Queues.units [item]).mapM (runUnit (σ := σ)) =
      runEach [item] runTarget >>= fun n => pure [n] := by
    show [[item]].mapM runUnit = _
    rw [List.mapM_cons]
    rfl
  rw [hunits, Run.deed_discard, Run.deed_bind_pure, deed_runEach_singleton]

theorem exists_kind_of_queue [CharNames] {es : List Expression} {q : Queues}
    {name : Queues.Name}
    {item : Numbered} (hq : Queues.ofExpressions es = .ok q) (hitem : item ∈ q.queue name) :
    ∃ kind, item.expression.kindAmongOthers = .ok kind ∧ name = .ofKind kind := by
  rw [Queues.queue_of_ofExpressions hq, List.mem_filter] at hitem
  have hbelongs := hitem.2
  cases hkind : item.expression.kindAmongOthers with
  | error l =>
    rw [Queues.belongs, hkind] at hbelongs
    cases hbelongs
  | ok kind => exact ⟨kind, rfl, (Queues.belongs_iff hkind).1 hbelongs⟩

/-- An expression that stands alone in its queue is carried out by its handler, at its own pace when
it inserts an image. -/
theorem deed_stage [CharNames] {es : List Expression} {q : Queues} {name : Queues.Name}
    {item : Numbered}
    (hq : Queues.ofExpressions es = .ok q) (hqueue : q.queue name = [item]) (s : Session σ)
    (w : World σ) :
    (stage q name).deed s w =
      (atItsPace name
        (runHandler item.expression.handlerAmongOthers item.expression)).deed s w := by
  obtain ⟨kind, hkind, rfl⟩ := exists_kind_of_queue hq (hqueue ▸ List.mem_singleton_self item)
  have hroutes := Expression.routes_of_kindAmongOthers hkind
  generalize Queues.Name.ofKind kind = name at hqueue hroutes ⊢
  cases hroutes with
  | positional h =>
    have hlist : q.positional = [item] := hqueue
    rw [atItsPace, if_neg (by decide), stage, hlist, h, Run.deed_discard, deed_runEach_singleton,
      ← Run.deed_discard]
    rfl
  | native h =>
    have hlist : q.native = [item] := hqueue
    rw [atItsPace, if_neg (by decide), stage, hlist, h, Run.deed_discard]
    show (Run.within _ (runNative [item.expression])).deed s w = _
    rw [Run.deed_within, ← Run.deed_discard]
    rfl
  | command _ h =>
    have hlist : q.manual = [item] := hqueue
    rw [atItsPace, if_neg (by decide), stage, hlist, h, Run.deed_discard, deed_runSteps_singleton]
  | manual handler h hstep =>
    have hlist : q.manual = [item] := hqueue
    rw [atItsPace, if_neg (by decide), stage, hlist, h, Run.deed_discard, deed_runSteps_singleton,
      hstep]
  | tableCreate spec hspec h =>
    have hlist : q.tableCreate = [item] := hqueue
    rw [atItsPace, if_neg (by decide), stage, hlist, h, Run.deed_discard, deed_runEach_singleton,
      runTableCreate, hspec, ← Run.deed_discard]
    rfl
  | tables selector htarget h =>
    have hlist : q.cell = [item] := hqueue
    rw [atItsPace, if_neg (by decide), stage, hlist, h, deed_runUnit_singleton, runTarget, htarget,
      ← Run.deed_discard]
    rfl
  | cells ref htarget h =>
    have hlist : q.cell = [item] := hqueue
    rw [atItsPace, if_neg (by decide), stage, hlist, h, deed_runUnit_singleton, ← Run.deed_discard,
      discard_runTarget htarget]
    rfl
  | images h =>
    have hlist : q.images = [item] := hqueue
    have hrun : (q.images.mapM runImage : Run σ (List Nat)) =
        runImage item >>= fun n => pure [n] := by
      rw [hlist, List.mapM_cons]
      rfl
    rw [atItsPace, if_pos rfl, stage, hrun, h, Run.deed_discard, Run.deed_bind_pure, deed_runImage]
    rfl

/-- An expression is carried out alone by one handler, and by one handler when it stands alone in
its queue. The handlers are the same, or missing for the same expressions, exactly when the
expression does not route apart. -/
theorem routing_in_company [CharNames] (e : Expression) :
    discard (runOne e : Run σ Outcome) = runHandler e.handlerAlone e ∧
    (∀ es q, Queues.ofExpressions es = .ok q →
      discard (runMany es : Run σ Outcome) = (do
        stage q .positional
        stage q .native
        stage q .manual
        stage q .tableCreate
        stage q .cell
        stage q .images) ∧
      ∀ name i, q.queue name = [⟨i, e⟩] → ∀ (s : Session σ) w,
        (stage q name).deed s w = (atItsPace name (runHandler e.handlerAmongOthers e)).deed s w ∧
          (¬ e.RoutesApart →
            (stage q name).deed s w = (atItsPace name (discard (runOne e))).deed s w)) ∧
    (e.handlerAmongOthers.toOption = e.handlerAlone.toOption ↔ ¬ e.RoutesApart) := by
  refine ⟨discard_runOne e, ?_, e.handlers_eq_iff⟩
  intro es q hq
  refine ⟨discard_runMany hq, ?_⟩
  intro name i hqueue s w
  have hstage := deed_stage hq hqueue s w
  refine ⟨hstage, fun hapart => ?_⟩
  obtain ⟨kind, hkind, -⟩ := exists_kind_of_queue hq (hqueue ▸ List.mem_singleton_self _)
  rw [hstage, discard_runOne, Expression.handlers_eq_of_kind hkind hapart]

/-- An image for one letter. -/
def letterImage : Expression where
  pattern := ['x']
  replacement := "![a](u)".toList
  raw := "s/x/![a](u)/".toList

/-- A deletion of lines. -/
def lineDeletion : Expression where
  command := .delete
  pattern := ['b']
  raw := "d/b/".toList

attribute [local instance] CharNames.none

/-- An image is written at a pace next to a deletion of lines, as it is written alone. -/
theorem routing_in_company_letterImage :
    Queues.ofExpressions [letterImage, lineDeletion] =
        .ok { images := [⟨0, letterImage⟩], manual := [⟨1, lineDeletion⟩] } ∧
      ¬ letterImage.RoutesApart ∧
      ∀ (s : Session Unit) w,
        (stage { images := [⟨0, letterImage⟩], manual := [⟨1, lineDeletion⟩] } .images).deed s w =
          (paced (discard (runOne letterImage))).deed s w := by
  have hqueues : Queues.ofExpressions [letterImage, lineDeletion] =
      .ok { images := [⟨0, letterImage⟩], manual := [⟨1, lineDeletion⟩] } := rfl
  have himage : letterImage.imageRef? = .ok none := rfl
  have hapart : ¬ letterImage.RoutesApart := by
    intro hapart
    cases hapart with
    | command hcommand => exact hcommand rfl
    | limit _ _ _ _ hlimit => cases himage.symm.trans hlimit
    | image _ _ _ htable => exact htable rfl
  refine ⟨hqueues, hapart, fun s w => ?_⟩
  exact (((routing_in_company letterImage).2.1 _ _ hqueues).2 .images 0 rfl s w).2 hapart

/-- A table for one letter, with an image. -/
def tableWithImage : Expression where
  pattern := ['x']
  replacement := "|2x2|".toList
  blocks := [⟨{ image := ['u'] }, 5, .everything, "\x7bimg=u\x7d".toList⟩]
  raw := "s/x/|2x2|\x7bimg=u\x7d/".toList

/-- An expression that creates a table when it runs alone writes an image in its place among
others. -/
theorem routing_of_tableWithImage :
    Expression.read "s/x/|2x2|\x7bimg=u\x7d/".toList = .ok tableWithImage ∧
      tableWithImage.handlerAlone = .ok (.createTable { size := ⟨2, 2, false⟩ }) ∧
      tableWithImage.handlerAmongOthers = .ok .manual := by
  have hextract : Block.extract "|2x2|\x7bimg=u\x7d".toList =
      (tableWithImage.replacement, tableWithImage.blocks) := by
    rw [Block.extract, if_pos (by decide)]
    exact @Block.extractFrom_append_block { image := ['u'] } "img=u".toList "|2x2|".toList
      rfl rfl rfl rfl (List.all_iff_forall_prop.1 (by decide)) false 0
  have hadd : Expression.addReplacement { pattern := ['x'], raw := tableWithImage.raw }
      "|2x2|\x7bimg=u\x7d".toList = .ok tableWithImage := by
    rw [Expression.addReplacement, hextract]
    rfl
  have hfields : Expression.HasFields tableWithImage.raw ['x'] "|2x2|\x7bimg=u\x7d".toList [] :=
    ⟨'/', "x/|2x2|\x7bimg=u\x7d/".toList, [[]], rfl, by decide, rfl, rfl⟩
  obtain ⟨more, hmore, hread⟩ := Expression.read_of_hasFields hfields
  have hreference : Expression.NoReference
      (Delimited.withFlags ['x'] (Expression.fieldAt more 0)) := by
    rw [← hmore]
    exact ⟨rfl, rfl, fun hlead => absurd hlead (by decide)⟩
  refine ⟨?_, rfl, rfl⟩
  refine hread.trans ((Expression.readSubstitute_of_noReference hreference
    (e := tableWithImage) ?_).trans ?_)
  · rw [← hmore]
    exact hadd
  · rw [← hmore]
    rfl

end Session

end Redline
