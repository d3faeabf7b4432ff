import Redline.Proofs.Log
import Redline.Session.Schedule

/-!
# Refusals come before changes

A session refuses an expression by a fault of its own: its pattern cannot be read, or a table or a
cell cannot be addressed.  Faults of its own carry a code; failures of the service and limits carry
none.  This module shows that an expression that runs alone is refused before any batch is sent.
Every operation checks first and changes the document afterwards: what comes before the first batch
only fetches, and what comes after it has nothing left to refuse.
-/

namespace Redline

/-- The event is a batch that is sent. -/
def Event.isUpdate : Event → Bool
  | .update _ => true
  | _ => false

namespace Run

variable {σ α β γ : Type} {s : Session σ}

/-- Whatever the service answers, the computation sends no batch. -/
def OnlyReads (s : Session σ) (x : Run σ α) : Prop :=
  Logs s (fun event => event.isUpdate = false) x fun _ => True

/-- Whatever the service answers, the computation does not end with a fault of its own. -/
def NeverRefuses (s : Session σ) (x : Run σ α) : Prop :=
  ∀ w fault w', x.execute s w = (.error fault, w') → fault.code? = none

/-- When the computation ends with a fault of its own, it has sent no batch. -/
def RefusesFirst (s : Session σ) (x : Run σ α) : Prop :=
  ∀ w fault w', x.execute s w = (.error fault, w') → fault.code?.isSome = true →
    World.Adds (fun event => event.isUpdate = false) w w'

/-- A computation of two parts ends with a fault in the first part or in the second one. -/
theorem cases_of_execute_bind_eq_error
    {x : Run σ α} {f : α → Run σ β} {w w' : World σ} {fault : Fault}
    (h : (x >>= f).execute s w = (.error fault, w')) :
    x.execute s w = (.error fault, w') ∨
      ∃ a w₁, x.execute s w = (.ok a, w₁) ∧ (f a).execute s w₁ = (.error fault, w') := by
  rw [execute_bind] at h
  rcases hrun : x.execute s w with ⟨fault' | a, w₁⟩
  · rw [hrun] at h
    cases h
    exact .inl rfl
  · rw [hrun] at h
    exact .inr ⟨a, w₁, rfl, h⟩

/-! ## Computations that only read -/

namespace OnlyReads

theorem fetch : OnlyReads s (Run.fetch : Run σ Document) :=
  Logs.fetch rfl (fun _ => rfl) fun _ _ _ _ => trivial

theorem compile [CharNames] (e : Expression) : OnlyReads s (Run.compile e) :=
  Logs.compile e

theorem ofLimited (x : Except Limit α) : OnlyReads s (Run.ofLimited x) :=
  Logs.ofLimited fun _ _ => trivial

theorem ofTable (x : Except TableError α) : OnlyReads s (Run.ofTable x) :=
  Logs.ofTable fun _ _ => trivial

end OnlyReads

/-! ## Computations that refuse nothing -/

namespace NeverRefuses

theorem pure (a : α) : NeverRefuses s (Pure.pure a) := by
  intro w fault w' h
  cases h

theorem bind
    {x : Run σ α} {f : α → Run σ β} (hx : NeverRefuses s x) (hf : ∀ a, NeverRefuses s (f a)) :
    NeverRefuses s (x >>= f) := by
  intro w fault w' h
  rcases cases_of_execute_bind_eq_error h with h | ⟨a, w₁, -, h⟩
  · exact hx w fault w' h
  · exact hf a w₁ fault w' h

theorem discard {x : Run σ α} (hx : NeverRefuses s x) : NeverRefuses s (Functor.discard x) := by
  have heq : Functor.discard x = x >>= fun _ => Pure.pure () := rfl
  rw [heq]
  exact hx.bind fun _ => pure ()

theorem ofLimited (x : Except Limit α) : NeverRefuses s (Run.ofLimited x) := by
  intro w fault w' h
  cases x with
  | error limit =>
    cases h
    rfl
  | ok a => cases h

/-- A call ends with a failure of the service, if it does not end with an answer. -/
theorem request (event : Event) (f : Service σ → σ → Except Failure α × σ) :
    NeverRefuses s (Run.request event f) := by
  intro w fault w' h
  have hends := ends_request event f s w
  rw [h] at hends
  generalize hresult : (Except.error fault : Except Fault α) = result at hends
  cases hends with
  | @settled again _ _ _ _ =>
    cases hanswer : answer (f s.service) w.state again with
    | ok a =>
      rw [hanswer] at hresult
      cases hresult
    | error failure =>
      rw [hanswer] at hresult
      cases hresult
      rfl
  | exhausted =>
    cases hresult
    rfl
  | limit =>
    cases hresult
    rfl

theorem fetch : NeverRefuses s (Run.fetch : Run σ Document) :=
  request _ _

theorem update (requests : List Request) : NeverRefuses s (Run.update requests) := by
  unfold Run.update
  split
  · exact pure _
  · have hcount : NeverRefuses s
        (modify fun w : World σ => { w with batches := w.batches + 1 }) := by
      intro w fault w' h
      cases h
    exact hcount.bind fun _ => request _ _

theorem mapM
    {f : γ → Run σ α} (hf : ∀ item, NeverRefuses s (f item)) (items : List γ) :
    NeverRefuses s (items.mapM f) := by
  induction items with
  | nil => exact pure _
  | cons item rest ih =>
    rw [List.mapM_cons]
    exact (hf item).bind fun _ => ih.bind fun _ => pure _

theorem foldlM
    {step : β → γ → Run σ β} (hstep : ∀ b item, NeverRefuses s (step b item)) (items : List γ)
    (b : β) : NeverRefuses s (items.foldlM step b) := by
  induction items generalizing b with
  | nil => exact pure _
  | cons item rest ih =>
    rw [List.foldlM_cons]
    exact (hstep b item).bind ih

end NeverRefuses

/-! ## Computations that refuse first -/

theorem NeverRefuses.refusesFirst {x : Run σ α} (h : NeverRefuses s x) : RefusesFirst s x := by
  intro w fault w' hrun hcode
  rw [h w fault w' hrun] at hcode
  cases hcode

/-- What is refused after nothing was sent is refused first. -/
theorem OnlyReads.bind_refusesFirst
    {x : Run σ α} {f : α → Run σ β} (hx : OnlyReads s x) (hf : ∀ a, RefusesFirst s (f a)) :
    RefusesFirst s (x >>= f) := by
  intro w fault w' h hcode
  have hlog := (hx w).1
  rcases cases_of_execute_bind_eq_error h with h | ⟨a, w₁, hfirst, h⟩
  · rwa [h] at hlog
  · rw [hfirst] at hlog
    exact hlog.trans (hf a w₁ fault w' h hcode)

theorem RefusesFirst.throw (fault : Fault) :
    RefusesFirst s (MonadExcept.throw fault : Run σ α) := by
  intro w fault' w' h _
  cases h
  exact World.Adds.refl w

/-! ## Computations that read a pattern first -/

/-- The computation reads the pattern of the expression before anything else, and once the pattern
is read it refuses nothing. -/
def CompilesFirst [CharNames] (s : Session σ) (e : Expression) (x : Run σ α) : Prop :=
  ∃ rest : Pattern → Run σ α,
    x = Run.compile e >>= rest ∧ ∀ pattern, NeverRefuses s (rest pattern)

namespace CompilesFirst

variable {e : Expression} {x : Run σ α}

theorem refusesFirst [CharNames] (h : CompilesFirst s e x) : RefusesFirst s x := by
  obtain ⟨rest, rfl, hrest⟩ := h
  exact (OnlyReads.compile e).bind_refusesFirst fun pattern => (hrest pattern).refusesFirst

theorem bind [CharNames]
    {f : α → Run σ β} (h : CompilesFirst s e x) (hf : ∀ a, NeverRefuses s (f a)) :
    CompilesFirst s e (x >>= f) := by
  obtain ⟨rest, rfl, hrest⟩ := h
  exact ⟨fun pattern => rest pattern >>= f, bind_assoc _ _ _, fun pattern => (hrest pattern).bind hf⟩

end CompilesFirst

end Run

namespace Session

open Run (OnlyReads NeverRefuses RefusesFirst CompilesFirst)

variable {σ : Type} {s : Session σ}

theorem neverRefuses_send {α : Type} (requests : List Request) (a : α) :
    NeverRefuses s (do discard <| Run.update requests; return a) :=
  (NeverRefuses.update requests).discard.bind fun _ => NeverRefuses.pure a

/-! ## Line commands -/

theorem compilesFirst_deleteLines [CharNames] (e : Expression) :
    CompilesFirst s e (deleteLines e) := by
  refine ⟨_, rfl, fun pattern => NeverRefuses.fetch.bind fun doc => ?_⟩
  split
  · exact NeverRefuses.pure _
  · simp only []
    split
    · exact NeverRefuses.pure _
    · exact neverRefuses_send _ _

theorem compilesFirst_insertLines [CharNames] (e : Expression) (after : Bool) :
    CompilesFirst s e (insertLines e after) := by
  refine ⟨_, rfl, fun pattern => NeverRefuses.fetch.bind fun doc => ?_⟩
  simp only []
  split
  · exact NeverRefuses.pure _
  · exact neverRefuses_send _ _

theorem neverRefuses_transliterate (e : Expression) : NeverRefuses s (transliterate e) :=
  (NeverRefuses.update _).bind fun _ => NeverRefuses.pure _

theorem refusesFirst_runCommand [CharNames] (e : Expression) :
    RefusesFirst s (runCommand e) := by
  unfold runCommand
  split
  · exact (compilesFirst_deleteLines e).refusesFirst
  · exact (compilesFirst_insertLines e true).refusesFirst
  · exact (compilesFirst_insertLines e false).refusesFirst
  · exact (neverRefuses_transliterate e).refusesFirst
  · exact RefusesFirst.throw _

/-! ## Tables and cells -/

theorem refusesFirst_deleteTables (selector : TableSelector) (replacement : Text) :
    RefusesFirst s (deleteTables selector replacement) := by
  unfold deleteTables
  refine OnlyReads.fetch.bind_refusesFirst fun doc => ?_
  refine (OnlyReads.ofTable _).bind_refusesFirst fun places => ?_
  simp only []
  split
  · exact RefusesFirst.throw _
  · exact (neverRefuses_send _ _).refusesFirst

theorem refusesFirst_changeLines (ref : CellRef) : RefusesFirst s (changeLines ref) := by
  unfold changeLines
  refine OnlyReads.fetch.bind_refusesFirst fun doc => ?_
  refine (OnlyReads.ofTable _).bind_refusesFirst fun table => ?_
  split
  · exact RefusesFirst.throw _
  · refine (OnlyReads.ofTable _).bind_refusesFirst fun change => ?_
    exact (neverRefuses_send _ _).refusesFirst

theorem onlyReads_editsOf [CharNames] (e : Expression) (cells : List Cell) :
    OnlyReads s (editsOf e cells) := by
  unfold editsOf
  split
  · exact Run.Logs.pure trivial
  · refine (OnlyReads.compile e).bind fun pattern _ => ?_
    exact (OnlyReads.ofLimited _).bind fun groups _ => Run.Logs.pure trivial

theorem refusesFirst_replaceCells [CharNames] (ref : CellRef) (e : Expression) :
    RefusesFirst s (replaceCells ref e) := by
  unfold replaceCells
  split
  · exact refusesFirst_changeLines ref
  · refine OnlyReads.fetch.bind_refusesFirst fun doc => ?_
    refine (OnlyReads.ofTable _).bind_refusesFirst fun table => ?_
    refine (OnlyReads.ofTable _).bind_refusesFirst fun cells => ?_
    refine (onlyReads_editsOf e cells).bind_refusesFirst fun groups => ?_
    simp only []
    split
    · exact (NeverRefuses.pure _).refusesFirst
    · exact (neverRefuses_send _ _).refusesFirst

theorem refusesFirst_mergeCells (ref : CellRef) (replacement : Text) :
    RefusesFirst s (mergeCells ref replacement) := by
  unfold mergeCells
  refine OnlyReads.fetch.bind_refusesFirst fun doc => ?_
  refine (OnlyReads.ofTable _).bind_refusesFirst fun table => ?_
  refine (OnlyReads.ofTable _).bind_refusesFirst fun merge => ?_
  exact (neverRefuses_send _ _).refusesFirst

theorem refusesFirst_runTarget [CharNames] (e : Expression) :
    RefusesFirst s (runTarget e) := by
  unfold runTarget
  split
  · exact refusesFirst_deleteTables _ _
  · unfold runCells
    split
    · exact refusesFirst_mergeCells _ _
    · exact refusesFirst_replaceCells _ e
  · exact (NeverRefuses.pure _).refusesFirst

theorem neverRefuses_finishTable (index : Int) (spec : TableSpec) :
    NeverRefuses s (finishTable index spec) := by
  unfold finishTable
  split
  · exact NeverRefuses.pure _
  · refine NeverRefuses.fetch.bind fun doc => ?_
    split
    · exact NeverRefuses.pure _
    · exact (NeverRefuses.update _).discard

theorem compilesFirst_createTable [CharNames] (e : Expression) (spec : TableSpec) :
    CompilesFirst s e (createTable e spec) := by
  refine ⟨_, rfl, fun pattern => NeverRefuses.fetch.bind fun doc => ?_⟩
  split
  · exact NeverRefuses.pure _
  · refine (NeverRefuses.update _).discard.bind fun _ => ?_
    exact (neverRefuses_finishTable _ spec).bind fun _ => NeverRefuses.pure _

/-! ## Places and images -/

theorem neverRefuses_insertAt (index : Int) (replacement : Text) :
    NeverRefuses s (insertAt index replacement) := by
  unfold insertAt
  refine (NeverRefuses.ofLimited _).bind fun spec? => ?_
  split
  · unfold insertTable
    refine NeverRefuses.bind ?_ fun _ => NeverRefuses.pure _
    exact (NeverRefuses.update _).discard.bind fun _ => neverRefuses_finishTable _ _
  · split
    · exact neverRefuses_send _ _
    · simp only []
      split
      · exact NeverRefuses.pure _
      · exact neverRefuses_send _ _

theorem neverRefuses_runPositional (e : Expression) : NeverRefuses s (runPositional e) := by
  unfold runPositional clear
  refine NeverRefuses.fetch.bind fun doc => ?_
  simp only []
  split
  · split
    · exact NeverRefuses.pure _
    · exact neverRefuses_send _ _
  · split
    · exact NeverRefuses.pure _
    · exact (neverRefuses_insertAt _ _).bind fun _ => NeverRefuses.pure _

theorem neverRefuses_replaceImages (ref : ImageRef) (replacement : Text) (isGlobal : Bool) :
    NeverRefuses s (replaceImages ref replacement isGlobal) := by
  unfold replaceImages
  refine NeverRefuses.fetch.bind fun doc => ?_
  simp only []
  split
  · exact NeverRefuses.pure _
  · split
    · exact NeverRefuses.pure _
    · exact neverRefuses_send _ _

/-! ## Substitutions -/

theorem neverRefuses_insertImages (found : List DocMatch) :
    NeverRefuses s (insertImages found) := by
  refine NeverRefuses.foldlM (fun shift m => ?_) _ _
  split
  · unfold insertImage
    split
    · exact (NeverRefuses.update _).discard.bind fun _ => neverRefuses_send _ _
    · exact neverRefuses_send _ _
  · exact NeverRefuses.pure _

theorem neverRefuses_insertFootnotes (shifts : List ShiftMap) (found : List DocMatch) :
    NeverRefuses s (insertFootnotes shifts found) := by
  refine NeverRefuses.foldlM (fun shift m => ?_) _ _
  unfold insertFootnote
  refine (NeverRefuses.update _).bind fun response => ?_
  simp only []
  split
  · exact neverRefuses_send _ _
  · exact NeverRefuses.pure _

theorem neverRefuses_insertBreak (d : Directive) (ranges : List FormatRange) :
    NeverRefuses s (insertBreak d ranges) := by
  unfold insertBreak
  split
  · exact NeverRefuses.pure _
  · split
    · exact NeverRefuses.pure _
    · exact NeverRefuses.fetch.bind fun doc => (NeverRefuses.update _).discard

theorem neverRefuses_insertExtras (d : Directive) (ranges : List FormatRange) :
    NeverRefuses s (insertExtras d ranges) := by
  unfold insertExtras
  split
  · exact NeverRefuses.pure _
  · refine NeverRefuses.fetch.bind fun doc => ?_
    refine NeverRefuses.bind (NeverRefuses.mapM (fun r => ?_) ranges) fun extras =>
      (NeverRefuses.update _).discard
    unfold extrasOf
    split
    · exact NeverRefuses.pure _
    · exact (NeverRefuses.ofLimited _).bind fun section_ => NeverRefuses.pure _

theorem neverRefuses_replaceMatches (e : Expression) (found : List DocMatch) :
    NeverRefuses s (replaceMatches e found styleParagraphs) := by
  refine (neverRefuses_insertImages _).bind fun imageShift => ?_
  refine (NeverRefuses.ofLimited _).bind fun edits => ?_
  refine (NeverRefuses.update _).discard.bind fun _ => ?_
  have hstyle : NeverRefuses s (styleParagraphs edits) := by
    refine (NeverRefuses.ofLimited _).bind fun plan => ?_
    exact (NeverRefuses.update _).discard.bind fun _ => NeverRefuses.pure _
  refine hstyle.bind fun deferred => ?_
  exact (neverRefuses_insertFootnotes _ _).bind fun footnoteShift => NeverRefuses.pure _

theorem compilesFirst_substitute [CharNames] (e : Expression) :
    CompilesFirst s e (substitute e) := by
  refine ⟨_, rfl, fun pattern => NeverRefuses.fetch.bind fun doc => ?_⟩
  refine (NeverRefuses.ofLimited _).bind fun found => ?_
  split
  · exact NeverRefuses.pure _
  · refine (neverRefuses_replaceMatches e found).bind fun placed => ?_
    simp only []
    split
    · refine (neverRefuses_insertBreak _ _).bind fun _ => ?_
      exact (neverRefuses_insertExtras _ _).bind fun _ => NeverRefuses.pure _
    · exact NeverRefuses.pure _

/-! ## Bullets -/

theorem neverRefuses_createFirst (runs : List BulletRun) :
    NeverRefuses s (createFirst runs) := by
  unfold createFirst
  split
  · exact NeverRefuses.pure _
  · exact neverRefuses_send _ _

theorem neverRefuses_recreateUpTo (budget : Nat) : NeverRefuses s (recreateUpTo budget) := by
  induction budget with
  | zero => exact NeverRefuses.pure _
  | succ budget ih =>
    unfold recreateUpTo
    refine NeverRefuses.fetch.bind fun doc => (neverRefuses_createFirst _).bind fun created => ?_
    split
    · exact ih.bind fun _ => NeverRefuses.pure _
    · exact NeverRefuses.pure _

theorem neverRefuses_recreateBullets (bound : Option Nat) :
    NeverRefuses s (recreateBullets bound) := by
  unfold recreateBullets
  split
  · exact neverRefuses_recreateUpTo _
  · refine NeverRefuses.fetch.bind fun doc => (neverRefuses_createFirst _).bind fun created => ?_
    split
    · exact (neverRefuses_recreateUpTo _).bind fun _ => NeverRefuses.pure _
    · exact NeverRefuses.pure _

/-! ## Expressions -/

theorem compilesFirst_runManual [CharNames] (e : Expression) :
    CompilesFirst s e (runManual e) := by
  unfold runManual
  refine (compilesFirst_substitute e).bind fun result => ?_
  split
  · exact (neverRefuses_recreateBullets none).discard.bind fun _ => NeverRefuses.pure _
  · exact NeverRefuses.pure _

/-- Whatever the kind of an expression, its checks come before its changes. -/
theorem refusesFirst_runOne [CharNames] (e : Expression) : RefusesFirst s (runOne e) := by
  unfold runOne
  refine (OnlyReads.ofLimited _).bind_refusesFirst fun kind => ?_
  split
  · exact refusesFirst_runCommand e
  · exact refusesFirst_runTarget e
  · exact refusesFirst_runTarget e
  · exact (neverRefuses_runPositional e).refusesFirst
  · refine (OnlyReads.ofLimited _).bind_refusesFirst fun spec? => ?_
    split
    · exact (compilesFirst_createTable e _).refusesFirst
    · exact (NeverRefuses.pure _).refusesFirst
  · refine (OnlyReads.ofLimited _).bind_refusesFirst fun ref? => ?_
    split
    · exact (neverRefuses_replaceImages _ _ _).refusesFirst
    · exact (NeverRefuses.pure _).refusesFirst
  · unfold runNative
    refine NeverRefuses.refusesFirst (NeverRefuses.bind ?_ fun _ => NeverRefuses.pure _)
    exact (NeverRefuses.update _).bind fun _ => NeverRefuses.pure _
  · exact ((compilesFirst_runManual e).bind fun _ => NeverRefuses.pure _).refusesFirst
  · exact ((compilesFirst_runManual e).bind fun _ => NeverRefuses.pure _).refusesFirst

/-- When an expression that runs alone ends with a fault of the session's own, no batch was sent,
whatever the document is and whatever the service answers. -/
theorem no_update_of_own_fault [CharNames]
    {e : Expression} {w w' : World σ} {fault : Fault} {code : Code}
    (h : (runOne e).execute s w = (.error fault, w')) (hcode : fault.code? = some code) :
    ∃ events, w'.log = w.log ++ events ∧ ∀ requests, .update requests ∉ events := by
  obtain ⟨events, hlog, hevents⟩ := refusesFirst_runOne e w fault w' h (by rw [hcode]; rfl)
  refine ⟨events, hlog, ?_⟩
  intro requests hmem
  have hread := hevents _ hmem
  cases hread

/-- A table with one cell, between two empty lines. -/
def oneCellTable : Document where
  body := [
    .paragraph ⟨some 1, some 2⟩ ⟨[⟨⟨some 1, some 2⟩, .run ['\n']⟩], none⟩,
    .table ⟨some 2, some 7⟩ [[
      [.paragraph ⟨some 5, some 6⟩ ⟨[⟨⟨some 5, some 6⟩, .run ['\n']⟩], none⟩]]],
    .paragraph ⟨some 7, some 8⟩ ⟨[⟨⟨some 7, some 8⟩, .run ['\n']⟩], none⟩]

/-- A session on a service that hands out the table and accepts every batch. -/
def oneCellSession : Session Unit where
  service := { fetch := fun _ => (.ok oneCellTable, ()), update := fun _ _ => (.ok {}, ()) }
  settings := {}

/-- Write to a cell in the second row of the first table. -/
def secondRowWrite : Expression where
  pattern := []
  replacement := ['x']
  raw := []
  target := .cells { table := .position 1, row := 2, column := 1 }

attribute [local instance] CharNames.none

/-- The cell is missed once the document is there, and nothing was sent by then. -/
theorem no_update_of_missing_cell :
    (runOne secondRowWrite).execute oneCellSession ⟨(), [], 0⟩ =
        (.error (.table (.rowOutOfRange 2 1)), ⟨(), [.fetch], 0⟩) ∧
      ∃ events, [Event.fetch] = [] ++ events ∧ ∀ requests, .update requests ∉ events := by
  have hrun : (runOne secondRowWrite).execute oneCellSession ⟨(), [], 0⟩ =
      (.error (.table (.rowOutOfRange 2 1)), ⟨(), [.fetch], 0⟩) := by
    have hone : (runOne secondRowWrite : Run Unit Outcome) =
        runCells { table := .position 1, row := 2, column := 1 } secondRowWrite := rfl
    have hword : Expression.isMergeWord secondRowWrite.replacement = false := rfl
    rw [hone, runCells, if_neg (ne_true_of_eq_false hword), replaceCells]
    refine (Run.execute_bind_of_ok (Run.execute_fetch rfl) _).trans ?_
    rfl
  exact ⟨hrun, no_update_of_own_fault hrun rfl⟩

end Session

end Redline
