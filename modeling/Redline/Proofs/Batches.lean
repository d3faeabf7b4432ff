import Redline.Proofs.Log
import Redline.Proofs.MatchOrder
import Redline.Proofs.Queues
import Redline.Session.Schedule

/-!
# The batches of a run

A session sends batches of a few forms, whatever expressions it runs and whatever the service
answers.  This module lists the forms, each with what is known of it when it is sent, and shows that
a run sends no other batch.  A property of all batches is then a matter of going through the list.
-/

namespace Redline

/-- The service hands out the document at some time. -/
def Service.Serves {σ : Type} (service : Service σ) (doc : Document) : Prop :=
  ∃ state state', service.fetch state = (.ok doc, state')

/-- The requests that turn a match into a footnote, where it is found after several batches. -/
def Session.footnoteRequests (shifts : List ShiftMap) (m : DocMatch) : List Request :=
  [Request.delete (ShiftMap.moveThrough shifts m.start) (ShiftMap.moveThrough shifts m.stop),
    .createFootnote (ShiftMap.moveThrough shifts m.start)]

/-- The batches that a run of the given expressions sends when it is served such documents. -/
inductive Batch [CharNames] (served : Document → Prop) (given : Expression → Prop) :
    List Request → Prop where
  | lineDeletions {doc : Document} (hdoc : served doc) (pattern : Pattern) :
    Batch served given ((Session.deletions doc pattern).map .deleteRange)
  | lineInsertions {doc : Document} (hdoc : served doc) (pattern : Pattern) (after : Bool)
    (text : Text) :
    Batch served given ((doc.lines.reverse.filter fun l => pattern.occursIn l.text).map
      (Session.insertion after doc.bodyEnd text))
  | replacements {requests : List Request}
    (h : ∀ r ∈ requests, ∃ find text matchCase byPattern,
      r = .replaceAllText find text matchCase byPattern) :
    Batch served given requests
  | tableDeletions {doc : Document} {selector : TableSelector} {places : List Nat}
    (hdoc : served doc) (hplaces : selector.resolve doc.topTables.length = .ok places) :
    Batch served given ((places.filterMap (doc.topTables[·]?)).reverse.map fun t =>
      Request.delete t.bounds.start t.bounds.stop)
  | lineChange {t : Table} {axis : Axis} {change : LineChange} {sent : Request × Text}
    (h : t.change axis change = .ok sent) : Batch served given [sent.1]
  | merging {t : Table} {ref : CellRef} {word : Text} {sent : Request × Text}
    (h : t.merge ref word = .ok sent) : Batch served given [sent.1]
  | cells {groups : List (EditGroup Request)}
    (h : ∀ g ∈ groups, ∃ start stop text formats,
      g = ⟨start, CellText.overwrite start stop text formats⟩) :
    Batch served given (EditGroup.order groups)
  | newTable (index : Int) (rows columns : Nat) :
    Batch served given [.insertTable index rows columns]
  | tableForMatch (span : Span) (rows columns : Nat) :
    Batch served given ((if span.start < span.stop then [.deleteRange span] else []) ++
      [.insertTable span.start rows columns])
  | filling {doc : Document} {t : Table} (hdoc : served doc) (ht : t ∈ doc.tables)
    (contents : List (List Text)) (header : Bool) :
    Batch served given
      (t.fill contents ++ if header then [.pinHeader t.bounds.start 1] else [])
  | image (index : Int) (spec : ImageSpec) :
    Batch served given [.insertImage index spec.url spec.width spec.height]
  | text (index : Int) (text : Text) (formats : List Format) (span : Span) :
    Batch served given (Request.insert index text :: Request.styleByFormats formats span ++
      Request.resetParagraphs span ++ Request.styleParagraphsByFormats formats span)
  | removal {start stop : Int} (h : start < stop) : Batch served given [Request.delete start stop]
  | imageReplacements (images : List DocImage) (replacement : Text) :
    Batch served given (DocImage.replaceAll images replacement)
  | edits {e : Expression} {previous : ShiftMap} {found : List DocMatch} {edits : List Edit}
    (h : Edit.compile e previous found = .ok edits) : Batch served given (Edit.requests edits)
  | paragraphStyles {shift : ShiftMap} {ranges : List FormatRange} {plan : ParagraphPlan}
    (h : ParagraphPlan.ofRanges shift ranges = .ok plan) : Batch served given plan.now
  | footnote {e : Expression} {doc : Document} {pattern : Pattern} {found : List DocMatch}
    {edits : List Edit} {m : DocMatch} (he : given e) (hdoc : served doc)
    (hpattern : e.compile = .ok pattern) (hfound : DocMatch.find doc pattern e = .ok found)
    (hedits : Edit.compile e (Session.imageShift (found.filter (·.isImage)))
      (found.filter (·.isRegular)) = .ok edits)
    (hm : m ∈ found.filter (·.isFootnote)) :
    Batch served given (Session.footnoteRequests
      [Session.imageShift (found.filter (·.isImage)), Edit.shift edits] m)
  | footnoteText (text id : Text) : Batch served given [.insertText 1 text id]
  | pageBreak (d : Directive) (index : Int) : Batch served given (Request.breakAt d index)
  | extras {extras : List Extras}
    (h : ∀ x ∈ extras, x = {} ∨ ∃ d text section_, x = Extras.ofDirective d text section_) :
    Batch served given (extras.flatMap (fun x => x.columns ++ x.bullets ++ x.anchors) ++
      Session.sortFalling (extras.flatMap (·.chips)))
  | bullets (r : BulletRun) : Batch served given r.requests

/-- An event of a run of the given expressions: a batch of one of the forms, or no batch. -/
def Session.Sends [CharNames] {σ : Type} (s : Session σ) (given : Expression → Prop) :
    Event → Prop
  | .update requests => Batch s.service.Serves given requests
  | _ => True

namespace Session

open Run (Logs)

/-- The edit of a cell is found only when there is the cell. -/
theorem exists_of_cellEdit
    {tables : List Table} {item : Nat × CellRef × Text} {g : EditGroup Request}
    (h : cellEdit tables item = .ok g) :
    ∃ table cell, tableFor item.2.1.table tables = .ok table ∧
      table.cell ⟨item.2.1.row, item.2.1.column⟩ = .ok cell ∧
      g = CellText.replaceWhole cell item.2.2 := by
  obtain ⟨position, ref, replacement⟩ := item
  simp only [cellEdit] at h
  cases hfound : (do (← tableFor ref.table tables).cell ⟨ref.row, ref.column⟩) with
  | error e =>
    rw [hfound] at h
    cases h
  | ok cell =>
    rw [hfound] at h
    cases h
    obtain ⟨table, htable, hcell⟩ := exists_of_bind_eq_ok hfound
    exact ⟨table, cell, htable, hcell, rfl⟩

variable [CharNames] {σ : Type} {s : Session σ} {given : Expression → Prop}

theorem sends_fetch : Logs s (s.Sends given) Run.fetch s.service.Serves :=
  Logs.fetch trivial (fun _ => trivial) fun state _ state' h => ⟨state, state', h⟩

theorem sends_update {requests : List Request} (h : Batch s.service.Serves given requests) :
    Logs s (s.Sends given) (Run.update requests) fun _ => True :=
  Logs.update (fun _ => h) fun _ => trivial

theorem sends_discard {requests : List Request} (h : Batch s.service.Serves given requests) :
    Logs s (s.Sends given) (discard (Run.update requests)) fun _ => True :=
  (sends_update h).discard

/-- A batch, and what is reported when it is sent. -/
theorem sends_batch
    {α : Type} {requests : List Request} (h : Batch s.service.Serves given requests) (a : α) :
    Logs s (s.Sends given) (do discard <| Run.update requests; return a) fun _ => True :=
  (sends_discard h).bind fun _ _ => Logs.pure trivial

theorem sends_return {α : Type} (a : α) : Logs s (s.Sends given) (pure a) fun _ => True :=
  Logs.pure trivial

/-! ## Line commands -/

theorem sends_deleteLines (e : Expression) :
    Logs s (s.Sends given) (deleteLines e) fun _ => True := by
  unfold deleteLines
  refine (Logs.compile e).bind fun pattern _ => sends_fetch.bind fun doc hdoc => ?_
  simp only []
  split
  · exact sends_return _
  · split
    · exact sends_return _
    · exact sends_batch (.lineDeletions hdoc pattern) _

theorem sends_insertLines (e : Expression) (after : Bool) :
    Logs s (s.Sends given) (insertLines e after) fun _ => True := by
  unfold insertLines
  refine (Logs.compile e).bind fun pattern _ => sends_fetch.bind fun doc hdoc => ?_
  simp only []
  split
  · exact sends_return _
  · exact sends_batch (.lineInsertions hdoc pattern after _) _

theorem sends_transliterate (e : Expression) :
    Logs s (s.Sends given) (transliterate e) fun _ => True := by
  unfold transliterate
  refine (sends_update (.replacements ?_)).bind fun _ _ => sends_return _
  intro r hr
  obtain ⟨pair, -, rfl⟩ := List.mem_map.1 hr
  exact ⟨_, _, _, _, rfl⟩

theorem sends_runCommand (e : Expression) :
    Logs s (s.Sends given) (runCommand e) fun _ => True := by
  unfold runCommand
  split
  · exact sends_deleteLines e
  · exact sends_insertLines e true
  · exact sends_insertLines e false
  · exact sends_transliterate e
  · exact Logs.throw _

/-! ## Tables and cells -/

theorem sends_deleteTables (selector : TableSelector) (replacement : Text) :
    Logs s (s.Sends given) (deleteTables selector replacement) fun _ => True := by
  unfold deleteTables
  refine sends_fetch.bind fun doc hdoc => ?_
  simp only []
  have hresolve : Logs s (s.Sends given)
      (Run.ofTable ((selector.resolve doc.topTables.length).mapError .miss))
      fun places => selector.resolve doc.topTables.length = .ok places :=
    Logs.ofTable fun places hplaces => eq_ok_of_mapError_eq_ok hplaces
  refine hresolve.bind fun places hplaces => ?_
  split
  · exact Logs.throw _
  · exact sends_batch (.tableDeletions hdoc hplaces) _

theorem sends_changeLines (ref : CellRef) :
    Logs s (s.Sends given) (changeLines ref) fun _ => True := by
  unfold changeLines
  refine sends_fetch.bind fun doc _ => (Logs.ofTable fun _ _ => trivial).bind fun table _ => ?_
  split
  · exact Logs.throw _
  · exact (Logs.ofTable fun _ h => h).bind fun sent hsent => sends_batch (.lineChange hsent) _

theorem sends_editsOf (e : Expression) (cells : List Cell) :
    Logs s (s.Sends given) (editsOf e cells) fun groups =>
      ∀ g ∈ groups, ∃ start stop text formats,
        g = ⟨start, CellText.overwrite start stop text formats⟩ := by
  unfold editsOf
  split
  · refine Logs.pure fun g hg => ?_
    obtain ⟨cell, -, rfl⟩ := List.mem_map.1 hg
    exact ⟨_, _, _, _, rfl⟩
  · refine (Logs.compile e).bind fun pattern _ => ?_
    refine (Logs.ofLimited fun _ h => h).bind fun groups hgroups => Logs.pure fun g hg => ?_
    obtain ⟨part, hpart, hg⟩ := List.mem_flatten.1 hg
    obtain ⟨cell, -, hcell⟩ := exists_of_mem_forall₂
      (forall₂_of_mapM_eq_ok (eq_ok_of_mapError_eq_ok hgroups)) hpart
    obtain ⟨m, -, hm⟩ := exists_of_mem_forall₂ (forall₂_of_mapM_eq_ok hcell) hg
    obtain ⟨expanded, -, hm⟩ := exists_of_bind_eq_ok hm
    cases hm
    exact ⟨_, _, _, _, rfl⟩

theorem sends_replaceCells (ref : CellRef) (e : Expression) :
    Logs s (s.Sends given) (replaceCells ref e) fun _ => True := by
  unfold replaceCells
  split
  · exact sends_changeLines ref
  · refine sends_fetch.bind fun doc _ => (Logs.ofTable fun _ _ => trivial).bind fun table _ => ?_
    refine (Logs.ofTable fun _ _ => trivial).bind fun cells _ => ?_
    refine (sends_editsOf e cells).bind fun groups hgroups => ?_
    simp only []
    split
    · exact sends_return _
    · exact sends_batch (.cells hgroups) _

theorem sends_replaceCellBatch (items : List (Nat × CellRef × Text)) :
    Logs s (s.Sends given) (replaceCellBatch items) fun _ => True := by
  unfold replaceCellBatch
  refine sends_fetch.bind fun doc _ => (Logs.ofTable fun _ h => h).bind fun groups hgroups => ?_
  refine sends_batch (.cells ?_) _
  intro g hg
  obtain ⟨item, -, hitem⟩ := exists_of_mem_forall₂ (forall₂_of_mapM_eq_ok hgroups) hg
  obtain ⟨table, cell, -, -, rfl⟩ := exists_of_cellEdit hitem
  exact ⟨_, _, _, _, rfl⟩

theorem sends_mergeCells (ref : CellRef) (replacement : Text) :
    Logs s (s.Sends given) (mergeCells ref replacement) fun _ => True := by
  unfold mergeCells
  refine sends_fetch.bind fun doc _ => (Logs.ofTable fun _ _ => trivial).bind fun table _ => ?_
  exact (Logs.ofTable fun _ h => h).bind fun sent hsent => sends_batch (.merging hsent) _

theorem sends_finishTable (index : Int) (spec : TableSpec) :
    Logs s (s.Sends given) (finishTable index spec) fun _ => True := by
  unfold finishTable
  split
  · exact sends_return _
  · refine sends_fetch.bind fun doc hdoc => ?_
    split
    · exact sends_return _
    · next table htable =>
      exact sends_discard (.filling hdoc (List.mem_of_find?_eq_some htable) _ _)

theorem sends_insertTable (index : Int) (spec : TableSpec) :
    Logs s (s.Sends given) (insertTable index spec) fun _ => True := by
  unfold insertTable
  exact (sends_discard (.newTable _ _ _)).bind fun _ _ => sends_finishTable index spec

theorem sends_createTable (e : Expression) (spec : TableSpec) :
    Logs s (s.Sends given) (createTable e spec) fun _ => True := by
  unfold createTable
  refine (Logs.compile e).bind fun pattern _ => sends_fetch.bind fun doc _ => ?_
  split
  · exact sends_return _
  · refine (sends_discard (.tableForMatch _ _ _)).bind fun _ _ => ?_
    exact (sends_finishTable _ spec).bind fun _ _ => sends_return _

/-! ## Places and images -/

theorem sends_insertAt (index : Int) (replacement : Text) :
    Logs s (s.Sends given) (insertAt index replacement) fun _ => True := by
  unfold insertAt
  refine (Logs.ofLimited fun _ _ => trivial).bind fun spec? _ => ?_
  split
  · exact (sends_insertTable index _).bind fun _ _ => sends_return _
  · split
    · exact sends_batch (.image _ _) _
    · simp only []
      split
      · exact sends_return _
      · exact sends_batch (.text _ _ _ _) _

theorem sends_clear (bodyEnd : Int) (isEmpty : Bool) :
    Logs s (s.Sends given) (clear bodyEnd isEmpty) fun _ => True := by
  unfold clear
  simp only []
  split
  · exact sends_return _
  · next hroom =>
    refine sends_batch (.removal ?_) _
    simp only [Bool.or_eq_true, decide_eq_true_eq, not_or] at hroom
    omega

theorem sends_runPositional (e : Expression) :
    Logs s (s.Sends given) (runPositional e) fun _ => True := by
  unfold runPositional
  refine sends_fetch.bind fun doc _ => ?_
  simp only []
  split
  · exact sends_clear _ _
  · split
    · exact sends_return _
    · exact (sends_insertAt _ _).bind fun _ _ => sends_return _

theorem sends_replaceImages (ref : ImageRef) (replacement : Text) (isGlobal : Bool) :
    Logs s (s.Sends given) (replaceImages ref replacement isGlobal) fun _ => True := by
  unfold replaceImages
  refine sends_fetch.bind fun doc _ => ?_
  simp only []
  split
  · exact sends_return _
  · split
    · exact sends_return _
    · exact sends_batch (.imageReplacements _ _) _

/-! ## Substitutions -/

theorem sends_insertImages {images : List DocMatch} (h : ∀ m ∈ images, m.isImage = true) :
    Logs s (s.Sends given) (insertImages images) (· = imageShift images) := by
  have hsends : Logs s (s.Sends given) (insertImages images) fun _ => True := by
    refine Logs.foldlM trivial fun m _ shift _ => ?_
    split
    · next spec _ =>
      unfold insertImage
      split
      · next hlt =>
        exact (sends_discard (.removal hlt)).bind fun _ _ => sends_batch (.image _ spec) _
      · exact sends_batch (.image _ spec) _
    · exact sends_return _
  exact hsends.of_execute fun w shift w' hrun => eq_imageShift_of_insertImages h hrun

theorem sends_insertFootnotes
    {shifts : List ShiftMap} {footnotes : List DocMatch}
    (h : ∀ m ∈ footnotes, Batch s.service.Serves given (footnoteRequests shifts m)) :
    Logs s (s.Sends given) (insertFootnotes shifts footnotes) fun _ => True := by
  refine Logs.foldlM trivial fun m hm shift _ => ?_
  unfold insertFootnote
  refine (sends_update (h m (List.mem_reverse.1 hm))).bind fun response _ => ?_
  simp only []
  split
  · exact sends_batch (.footnoteText _ _) _
  · exact sends_return _

theorem sends_insertBreak (d : Directive) (ranges : List FormatRange) :
    Logs s (s.Sends given) (insertBreak d ranges) fun _ => True := by
  unfold insertBreak
  split
  · exact sends_return _
  · split
    · exact sends_return _
    · exact sends_fetch.bind fun doc _ => sends_discard (.pageBreak d _)

theorem sends_extrasOf (doc : Document) (r : FormatRange) :
    Logs s (s.Sends given) (extrasOf doc r) fun x =>
      x = {} ∨ ∃ d text section_, x = Extras.ofDirective d text section_ := by
  unfold extrasOf
  split
  · exact Logs.pure (.inl rfl)
  · exact (Logs.ofLimited fun _ _ => trivial).bind fun section_ _ =>
      Logs.pure (.inr ⟨_, _, _, rfl⟩)

theorem sends_insertExtras (d : Directive) (ranges : List FormatRange) :
    Logs s (s.Sends given) (insertExtras d ranges) fun _ => True := by
  unfold insertExtras
  split
  · exact sends_return _
  · refine sends_fetch.bind fun doc _ => ?_
    refine (Logs.mapM fun r _ => sends_extrasOf doc r).bind fun extras hextras => ?_
    exact sends_discard (.extras hextras)

theorem sends_styleParagraphs (edits : List Edit) :
    Logs s (s.Sends given) (styleParagraphs edits) fun _ => True := by
  unfold styleParagraphs
  refine (Logs.ofLimited fun _ h => h).bind fun plan hplan => ?_
  exact sends_batch (.paragraphStyles hplan) _

theorem sends_replaceMatches
    {e : Expression} {doc : Document} {pattern : Pattern} {found : List DocMatch} (he : given e)
    (hdoc : s.service.Serves doc) (hpattern : e.compile = .ok pattern)
    (hfound : DocMatch.find doc pattern e = .ok found) :
    Logs s (s.Sends given) (replaceMatches e found styleParagraphs) fun _ => True := by
  unfold replaceMatches
  refine (sends_insertImages fun m hm => (List.mem_filter.1 hm).2).bind fun shift hshift => ?_
  subst hshift
  refine (Logs.ofLimited fun _ h => h).bind fun edits hedits => ?_
  refine (sends_discard (.edits hedits)).bind fun _ _ => ?_
  refine (sends_styleParagraphs edits).bind fun deferred _ => ?_
  exact (sends_insertFootnotes fun m hm =>
    .footnote he hdoc hpattern hfound hedits hm).bind fun footnoteShift _ => sends_return _

theorem sends_substitute {e : Expression} (he : given e) :
    Logs s (s.Sends given) (substitute e) fun _ => True := by
  have hcompile : Logs s (s.Sends given) (Run.compile e) fun pattern => e.compile = .ok pattern :=
    (Logs.compile e).of_execute fun w pattern w' hrun => by
      unfold Run.compile at hrun
      split at hrun
      · next hpattern =>
        cases hrun
        exact hpattern
      · cases hrun
      · cases hrun
  unfold substitute
  refine hcompile.bind fun pattern hpattern => sends_fetch.bind fun doc hdoc => ?_
  refine (Logs.ofLimited fun _ h => h).bind fun found hfound => ?_
  split
  · exact sends_return _
  · refine (sends_replaceMatches he hdoc hpattern hfound).bind fun placed _ => ?_
    simp only []
    split
    · refine (sends_insertBreak _ _).bind fun _ _ => ?_
      exact (sends_insertExtras _ _).bind fun _ _ => sends_return _
    · exact sends_return _

/-! ## Bullets -/

theorem sends_createFirst (runs : List BulletRun) :
    Logs s (s.Sends given) (createFirst runs) fun _ => True := by
  unfold createFirst
  split
  · exact sends_return _
  · exact sends_batch (.bullets _) _

theorem sends_recreateUpTo (budget : Nat) :
    Logs s (s.Sends given) (recreateUpTo budget) fun _ => True := by
  induction budget with
  | zero => exact sends_return _
  | succ budget ih =>
    unfold recreateUpTo
    refine sends_fetch.bind fun doc _ => (sends_createFirst _).bind fun created _ => ?_
    split
    · exact ih.bind fun _ _ => sends_return _
    · exact sends_return _

theorem sends_recreateBullets (bound : Option Nat) :
    Logs s (s.Sends given) (recreateBullets bound) fun _ => True := by
  unfold recreateBullets
  split
  · exact sends_recreateUpTo _
  · refine sends_fetch.bind fun doc _ => (sends_createFirst _).bind fun created _ => ?_
    split
    · exact (sends_recreateUpTo _).bind fun _ _ => sends_return _
    · exact sends_return _

/-! ## Expressions -/

theorem sends_runNative (es : List Expression) :
    Logs s (s.Sends given) (runNative es) fun _ => True := by
  unfold runNative
  refine (sends_update (.replacements ?_)).bind fun _ _ => sends_return _
  intro r hr
  obtain ⟨e, -, rfl⟩ := List.mem_map.1 hr
  exact ⟨_, _, _, _, rfl⟩

theorem sends_runManual {e : Expression} (he : given e) :
    Logs s (s.Sends given) (runManual e) fun _ => True := by
  unfold runManual
  refine (sends_substitute he).bind fun result _ => ?_
  split
  · exact (sends_recreateBullets none).discard.bind fun _ _ => sends_return _
  · exact sends_return _

theorem sends_runTarget (e : Expression) :
    Logs s (s.Sends given) (runTarget e) fun _ => True := by
  unfold runTarget
  split
  · exact sends_deleteTables _ _
  · unfold runCells
    split
    · exact sends_mergeCells _ _
    · exact sends_replaceCells _ e
  · exact sends_return _

theorem sends_runTableCreate (e : Expression) :
    Logs s (s.Sends given) (runTableCreate e) fun _ => True := by
  unfold runTableCreate
  refine (Logs.ofLimited fun _ _ => trivial).bind fun spec? _ => ?_
  split
  · exact sends_createTable e _
  · exact sends_return _

theorem sends_runOne {e : Expression} (he : given e) :
    Logs s (s.Sends given) (runOne e) fun _ => True := by
  unfold runOne
  refine (Logs.ofLimited fun _ _ => trivial).bind fun kind _ => ?_
  split
  · exact sends_runCommand e
  · exact sends_runTarget e
  · exact sends_runTarget e
  · exact sends_runPositional e
  · exact sends_runTableCreate e
  · refine (Logs.ofLimited fun _ _ => trivial).bind fun ref? _ => ?_
    split
    · exact sends_replaceImages _ _ _
    · exact sends_return _
  · exact (sends_runNative [e]).bind fun _ _ => sends_return _
  · exact (sends_runManual he).bind fun _ _ => sends_return _
  · exact (sends_runManual he).bind fun _ _ => sends_return _

theorem sends_runStep {e : Expression} (he : given e) :
    Logs s (s.Sends given) (runStep e) fun _ => True := by
  unfold runStep
  refine (Logs.ofLimited fun _ _ => trivial).bind fun ref? _ => ?_
  split
  · exact (sends_runCommand e).discard.bind fun _ _ => sends_return _
  · split
    · exact (sends_replaceImages _ _ _).discard.bind fun _ _ => sends_return _
    · exact (sends_substitute he).bind fun _ _ => sends_return _

theorem sends_runSteps {items : List Numbered} (h : ∀ item ∈ items, given item.expression) :
    Logs s (s.Sends given) (runSteps items) fun _ => True := by
  unfold runSteps
  refine (Logs.mapM fun item hitem => (sends_runStep (h item hitem)).within _).bind
    fun steps _ => ?_
  split
  · exact (sends_recreateBullets none).discard.bind fun _ _ => sends_return _
  · exact sends_return _

theorem sends_runNatives (items : List Numbered) :
    Logs s (s.Sends given) (runNatives items) fun _ => True := by
  unfold runNatives
  split
  · exact sends_return _
  · exact (sends_runNative _).within _

theorem sends_runEach
    {run : Expression → Run σ Outcome}
    (hrun : ∀ e, Logs s (s.Sends given) (run e) fun _ => True) (items : List Numbered) :
    Logs s (s.Sends given) (runEach items run) fun _ => True := by
  unfold runEach
  refine (Logs.forIn fun item _ => ?_).bind fun _ _ => sends_return _
  exact ((hrun item.expression).within _).discard

theorem sends_runUnit (unit : List Numbered) :
    Logs s (s.Sends given) (runUnit unit) fun _ => True := by
  unfold runUnit
  split
  · exact ((sends_replaceCellBatch _).within _).discard.bind fun _ _ => sends_return _
  · exact sends_runEach sends_runTarget _

theorem sends_runImage {item : Numbered} (h : given item.expression) :
    Logs s (s.Sends given) (runImage item) fun _ => True := by
  have hwait : ∀ seconds, Logs s (s.Sends given) (Run.wait seconds) fun _ => True :=
    Logs.wait fun _ => trivial
  unfold runImage
  refine Logs.read.bind fun session _ => (hwait _).bind fun _ _ => ?_
  refine (sends_runManual h).tryCatch fun fault => ?_
  have hagain : Logs s (s.Sends given) (do
      Run.wait session.settings.imageRetryPause
      Run.within (.image (item.position + 1)) (runManual item.expression)) fun _ => True :=
    (hwait _).bind fun _ _ => (sends_runManual h).within _
  simp only []
  have hthrow : Logs s (s.Sends given) (throw fault : Run σ PUnit) fun _ => True :=
    Logs.throw fault
  split
  · exact hthrow.bind fun _ _ => hagain
  · exact hagain

theorem sends_runMany (es : List Expression) :
    Logs s (s.Sends (· ∈ es)) (runMany es) fun _ => True := by
  unfold runMany
  refine (Logs.ofLimited fun _ h => h).bind fun q hq => ?_
  have hgiven : ∀ name, ∀ item ∈ q.queue name, item.expression ∈ es := by
    intro name item hitem
    rw [Queues.queue_of_ofExpressions hq] at hitem
    exact List.mem_of_getElem? (Queues.mem_numbered.1 (List.mem_filter.1 hitem).1)
  refine (sends_runEach sends_runPositional _).bind fun positional _ => ?_
  refine (sends_runNatives _).bind fun everywhere _ => ?_
  refine (sends_runSteps (hgiven .manual)).bind fun manual _ => ?_
  refine (sends_runEach sends_runTableCreate _).bind fun created _ => ?_
  refine (Logs.mapM fun unit _ => sends_runUnit unit).bind fun cells _ => ?_
  refine (Logs.mapM fun item hitem => sends_runImage (hgiven .images item hitem)).bind
    fun images _ => ?_
  exact sends_return _

/-- Whatever the service answers, a run of expressions sends no batch but those of the list. -/
theorem sends_runAll (es : List Expression) :
    Logs s (s.Sends (· ∈ es)) (runAll es) fun _ => True := by
  unfold runAll
  split
  · exact Logs.throw _
  · exact sends_runOne List.mem_cons_self
  · exact sends_runMany _

end Session

end Redline
