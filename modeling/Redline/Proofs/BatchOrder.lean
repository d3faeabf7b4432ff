import Redline.Proofs.Batches
import Redline.Proofs.Falling

/-!
# Every batch of a run is in a safe order

Whatever expressions are run and whatever the service answers, a session sends its batches from the
end of the document to its start, as long as the documents that it fetches are well placed.  This is
shown for each form of a batch.
-/

namespace Redline

/-- Every document that the service hands out is well placed. -/
def Service.WellPlaced {σ : Type} (service : Service σ) : Prop :=
  ∀ state doc state', service.fetch state = (.ok doc, state') → doc.WellPlaced

/-- A batch is in a safe order. -/
def Event.Ordered : Event → Prop
  | .update requests => Request.Falling requests
  | _ => True

/-- Every form of a batch is in a safe order when the documents are well placed. -/
theorem Batch.falling [CharNames]
    {served : Document → Prop} {given : Expression → Prop} {requests : List Request}
    (hserved : ∀ doc, served doc → doc.WellPlaced) (h : Batch served given requests) :
    Request.Falling requests := by
  cases h with
  | lineDeletions hdoc pattern => exact Session.falling_deletions (hserved _ hdoc).body pattern
  | lineInsertions hdoc pattern after text =>
    exact Session.falling_insertions (hserved _ hdoc).body _ _ _
  | replacements h => exact ((Request.keepLength_of_replaceAllText h).stayAt 0).falling
  | tableDeletions hdoc hplaces =>
    exact Session.falling_tableDeletions (hserved _ hdoc).body hplaces
  | lineChange | merging | newTable | image | removal | footnoteText =>
    exact Request.falling_singleton _
  | cells h =>
    refine EditGroup.falling_order fun g hg => ?_
    obtain ⟨start, stop, text, formats, rfl⟩ := h g hg
    exact CellText.stayAt_overwrite start stop text formats
  | tableForMatch span rows columns =>
    have hstay : Request.StayAt span.start ((if span.start < span.stop then [.deleteRange span]
        else []) ++ [.insertTable span.start rows columns]) :=
      (Request.stayAt_removal span.start span.stop).append fun _ hp => List.mem_singleton.1 hp
    exact hstay.falling
  | filling hdoc ht contents header =>
    refine (Table.falling_fill ((hserved _ hdoc).cells _ ht) contents).append_right ?_
    intro r hr
    split at hr
    · rw [List.mem_singleton.1 hr]
      rfl
    · cases hr
  | text index text formats span => exact (Request.stayAt_insert_styles _ _ _ _).falling
  | imageReplacements images replacement => exact DocImage.falling_replaceAll images replacement
  | edits h => exact Edit.falling_requests h
  | paragraphStyles h => exact ((ParagraphPlan.keepLength_ofRanges h).stayAt 0).falling
  | footnote =>
    have hstay : ∀ start stop,
        Request.StayAt start [Request.delete start stop, .createFootnote start] := by
      intro start stop p hp
      rcases List.mem_pair.1 hp with rfl | rfl
      · rfl
      · rfl
    exact (hstay _ _).falling
  | pageBreak d index => exact (Request.stayAt_breakAt d index).falling
  | extras h =>
    refine Request.Falling.append_left ?_ (Session.falling_sortFalling _)
    intro r hr
    obtain ⟨x, hx, hr⟩ := List.mem_flatMap.1 hr
    rcases h x hx with rfl | ⟨d, text, section_, rfl⟩
    · cases hr
    · exact Extras.keepLength d text section_ r hr
  | bullets run => exact ((Request.keepLength_bullets run).stayAt 0).falling

namespace Session

open Run (Logs)

variable {σ : Type} {s : Session σ}

theorem logs_runAll [CharNames] (h : s.service.WellPlaced) (es : List Expression) :
    Logs s Event.Ordered (runAll es) fun _ => True := by
  refine (sends_runAll es).mono fun event hevent => ?_
  cases event with
  | update requests =>
    refine hevent.falling ?_
    rintro doc ⟨state, state', hdoc⟩
    exact h state doc state' hdoc
  | fetch | pause => trivial

/-- Every batch that a run sends is in a safe order, as it is sent: of the requests that change the
length, none stands behind one before it. -/
theorem isSafe_of_mem_log_runAll [CharNames] (h : s.service.WellPlaced) (es : List Expression)
    (w : World σ) :
    ∃ events, ((runAll es).execute s w).2.log = w.log ++ events ∧
      ∀ requests, .update requests ∈ events →
        Placement.isSafe (requests.map fun r => .ofJson r.toJson) = true := by
  obtain ⟨⟨events, hlog, hevents⟩, -⟩ := logs_runAll h es w
  refine ⟨events, hlog, ?_⟩
  intro requests hrequests
  rw [Placement.isSafe_iff]
  exact hevents _ hrequests

/-- A paragraph, a table with a paragraph in each of two cells, and a last paragraph. -/
def placedDocument : Document where
  body := [
    .paragraph ⟨some 1, some 4⟩ ⟨[⟨⟨some 1, some 4⟩, .run ['a', 'b', '\n']⟩], none⟩,
    .table ⟨some 4, some 12⟩ [[
      [.paragraph ⟨some 7, some 9⟩ ⟨[⟨⟨some 7, some 9⟩, .run ['c', '\n']⟩], none⟩],
      [.paragraph ⟨some 10, some 11⟩ ⟨[⟨⟨some 10, some 11⟩, .run ['\n']⟩], none⟩]]],
    .paragraph ⟨some 12, some 13⟩ ⟨[⟨⟨some 12, some 13⟩, .run ['\n']⟩], none⟩]

/-- A service that hands out one document and accepts every batch. -/
def placedSession : Session Unit where
  service := { fetch := fun _ => (.ok placedDocument, ()), update := fun _ _ => (.ok {}, ()) }
  settings := {}

/-- Delete the lines with a character, and write over the first cell. -/
def placedExpressions : List Expression :=
  [{ command := .delete, pattern := ['.'], raw := [] },
    { pattern := [], replacement := ['x'], raw := [],
      target := .cells { table := .position 1, row := 1, column := 1 } }]

attribute [local instance] CharNames.none

theorem isSafe_of_mem_log_placedSession :
    placedSession.service.WellPlaced ∧
      ∃ events, ((runAll placedExpressions).execute placedSession ⟨(), [], 0⟩).2.log =
        [] ++ events ∧
      ∀ requests, .update requests ∈ events →
        Placement.isSafe (requests.map fun r => .ofJson r.toJson) = true := by
  have hplaced : placedSession.service.WellPlaced := by
    intro state doc state' h
    cases h
    decide
  exact ⟨hplaced, isSafe_of_mem_log_runAll hplaced _ _⟩

end Session

end Redline
