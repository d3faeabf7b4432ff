import Redline.Proofs.CapturedText
import Redline.Proofs.CellBlocks

/-!
# Deletions that take nothing away

The service refuses a batch with a deletion that starts where it ends.  A match may be empty, and so
may a cell or a line, so whoever deletes has to look first.  This module goes through the forms of a
batch.  All of them look first but one: a match that becomes a footnote is deleted unseen.  A match
that takes up space still does so where the images and the text before it have moved it, so the
deletion is empty exactly when the match is.
-/

namespace Redline

/-! ## Deletions as they are sent -/

/-- The part of the document that a request in JSON deletes. -/
def Span.deleted? (request : Json) : Option Span := do
  let range ← (← request.get? "deleteContentRange").get? "range"
  let start ← (range.get? "startIndex").bind Json.asInt?
  let stop ← (range.get? "endIndex").bind Json.asInt?
  return ⟨start, stop⟩

theorem Span.deleted?_toJson_eq_some_iff {r : Request} {span : Span} :
    deleted? r.toJson = some span ↔ r = .deleteRange span := by
  simp only [deleted?, Request.toJson, Json.get?_ofFields_cons, Json.get?_ofFields_nil]
  cases r with
  | deleteRange removed => simp [Request.kind, Request.body, toJson, Json.asInt?]
  | _ =>
    simp only [Request.kind, String.reduceEq, reduceIte, Option.bind_eq_bind, Option.bind_none,
      reduceCtorEq]

namespace Request

/-- Every deletion among the requests takes something away. -/
def Solid (requests : List Request) : Prop :=
  ∀ span, .deleteRange span ∈ requests → span.start < span.stop

variable {requests xs ys : List Request}

theorem solid_nil : Solid [] :=
  fun _ hspan => (List.not_mem_nil hspan).elim

theorem Solid.append (hx : Solid xs) (hy : Solid ys) : Solid (xs ++ ys) := by
  intro span hspan
  rcases List.mem_append.1 hspan with hspan | hspan
  · exact hx span hspan
  · exact hy span hspan

theorem Solid.flatMap {α : Type} {f : α → List Request} {items : List α}
    (h : ∀ item ∈ items, Solid (f item)) : Solid (items.flatMap f) := by
  intro span hspan
  obtain ⟨item, hitem, hspan⟩ := List.mem_flatMap.1 hspan
  exact h item hitem span hspan

/-- Requests that keep the length delete nothing. -/
theorem KeepLength.solid (h : KeepLength requests) : Solid requests := by
  intro span hspan
  have hlength := h _ hspan
  cases hlength

theorem solid_delete {start stop : Int} (h : start < stop) : Solid [delete start stop] := by
  intro span hspan
  cases List.mem_singleton.1 hspan
  exact h

theorem solid_removal (start stop : Int) :
    Solid (if start < stop then [delete start stop] else []) := by
  split
  · next hlt => exact solid_delete hlt
  · exact solid_nil

theorem solid_singleton {r : Request} (h : ∀ span, r ≠ .deleteRange span) : Solid [r] := by
  intro span hspan
  exact absurd (List.mem_singleton.1 hspan).symm (h span)

/-- A request that names cells deletes no text. -/
theorem solid_of_block? {r : Request} {b : CellBlock} (h : r.block? = some b) : Solid [r] := by
  apply solid_singleton
  rintro span rfl
  cases h

end Request

/-! ## Footnotes where they have moved -/

namespace DocMatch

variable {found : List DocMatch}

/-- Matches stand one behind the other, and each starts no later than it ends. -/
structure Apart (found : List DocMatch) : Prop where
  bounds : ∀ m ∈ found, 0 ≤ m.start ∧ m.start ≤ m.stop
  order : found.Pairwise fun a b => a.stop ≤ b.start

theorem Apart.disjoint (h : Apart found) {a b : DocMatch} (ha : a ∈ found) (hb : b ∈ found)
    (hne : a ≠ b) : a.stop ≤ b.start ∨ b.stop ≤ a.start := by
  have hsymm : Std.Symm fun a b : DocMatch => a.stop ≤ b.start ∨ b.stop ≤ a.start :=
    ⟨fun _ _ => Or.symm⟩
  have hpairs : found.Pairwise fun a b => a.stop ≤ b.start ∨ b.stop ≤ a.start :=
    h.order.imp .inl
  exact hpairs.forall ha hb hne

theorem Apart.tracks (h : Apart found) :
    (Session.imageShift (found.filter (·.isImage))).Tracks
      ((found.filter (·.isImage)).map splice) := by
  refine Session.tracks_imageShift fun m hm => ?_
  obtain ⟨hm, himage⟩ := List.mem_filter.1 hm
  exact ⟨himage, h.bounds m hm⟩

/-- No image reaches across the place. -/
def Clear (found : List DocMatch) (x : Int) : Prop :=
  ∀ i ∈ found.filter (·.isImage), i.stop ≤ x ∨ x ≤ i.start

theorem Apart.image_disjoint
    (h : Apart found) {m : DocMatch} (hm : m ∈ found) (himage : m.isImage = false) {i : DocMatch}
    (hi : i ∈ found.filter (·.isImage)) : i.stop ≤ m.start ∨ m.stop ≤ i.start := by
  obtain ⟨hi, hisImage⟩ := List.mem_filter.1 hi
  refine h.disjoint hi hm ?_
  rintro rfl
  rw [himage] at hisImage
  cases hisImage

theorem Apart.clear (h : Apart found) {m : DocMatch} (hm : m ∈ found) (himage : m.isImage = false) :
    Clear found m.start ∧ Clear found m.stop := by
  have hbounds := (h.bounds m hm).2
  constructor
  · intro i hi
    have := h.image_disjoint hm himage hi
    omega
  · intro i hi
    have := h.image_disjoint hm himage hi
    omega

/-- Images keep the order of places that none of them reaches across. -/
theorem Apart.move_le_move (h : Apart found) {x y : Int} (hxy : x ≤ y) (hx : Clear found x)
    (hy : Clear found y) :
    (Session.imageShift (found.filter (·.isImage))).move x ≤
      (Session.imageShift (found.filter (·.isImage))).move y := by
  have htracks := h.tracks
  rw [htracks x, htracks y]
  refine Splice.add_shiftAt_le_add_shiftAt hxy ?_ ?_
  · rw [List.pairwise_map]
    refine (h.order.sublist List.filter_sublist).imp_of_mem fun {a b} ha hb hab => ?_
    simp only [splice]
    omega
  · intro s hs
    obtain ⟨i, hi, rfl⟩ := List.mem_map.1 hs
    have hbounds := h.bounds i (List.mem_filter.1 hi).1
    have hclear := hx i hi
    have hclear' := hy i hi
    simp only [splice]
    omega

theorem Apart.move_nonneg (h : Apart found) {x : Int} (hnonneg : 0 ≤ x) (hx : Clear found x) :
    0 ≤ (Session.imageShift (found.filter (·.isImage))).move x := by
  have hstart : ∀ i ∈ found.filter (·.isImage), 0 ≤ i.start := fun i hi =>
    (h.bounds i (List.mem_filter.1 hi).1).1
  have hzero : (Session.imageShift (found.filter (·.isImage))).move 0 = 0 := by
    rw [h.tracks 0, Splice.shiftAt_eq_zero fun s _ => Int.natCast_nonneg s.start, Int.add_zero]
  rw [← hzero]
  exact h.move_le_move hnonneg (fun i hi => .inr (hstart i hi)) hx

/-- Where a match that becomes no image is found after the images. -/
theorem Apart.move_eq (h : Apart found) {m : DocMatch} (hm : m ∈ found) (himage : m.isImage = false) :
    (Session.imageShift (found.filter (·.isImage))).move m.start = (afterImages found m).start ∧
      (Session.imageShift (found.filter (·.isImage))).move m.stop = (afterImages found m).stop := by
  obtain ⟨hstart, hstop⟩ := h.clear hm himage
  have hbounds := h.bounds m hm
  have hpos := h.move_nonneg hbounds.1 hstart
  have hpos' := h.move_nonneg (hbounds.1.trans hbounds.2) hstop
  have hcoe : ((m.start.toNat : Nat) : Int) = m.start := Int.toNat_of_nonneg hbounds.1
  have hcoe' : ((m.stop.toNat : Nat) : Int) = m.stop :=
    Int.toNat_of_nonneg (hbounds.1.trans hbounds.2)
  rw [h.tracks] at hpos hpos' ⊢
  rw [h.tracks]
  simp only [afterImages, Splice.moved, splice, hcoe, hcoe']
  exact ⟨(Int.toNat_of_nonneg hpos).symm, (Int.toNat_of_nonneg hpos').symm⟩

/-- The text is written where the images have moved it. -/
theorem Apart.tracks_text
    (h : Apart found) {e : Expression} {edits : List Edit}
    (hedits : Edit.compile e (Session.imageShift (found.filter (·.isImage)))
      (found.filter (·.isRegular)) = .ok edits) :
    (Edit.shift edits).Tracks ((found.filter (·.isRegular)).map (afterImages found)) := by
  refine Edit.shift_tracks (Edit.forall₂_carriesOut hedits fun a ha => ?_)
  obtain ⟨ha, hregular⟩ := List.mem_filter.1 ha
  obtain ⟨hstart, hstop⟩ := h.move_eq ha (isImage_eq_false_of_isRegular hregular)
  exact ⟨hregular, hstart, hstop, rfl⟩

/-- The images keep the ends of a match apart. -/
theorem Apart.move_lt_move
    (h : Apart found) {m : DocMatch} (hm : m ∈ found) (himage : m.isImage = false)
    (hlt : m.start < m.stop) :
    (Session.imageShift (found.filter (·.isImage))).move m.start <
      (Session.imageShift (found.filter (·.isImage))).move m.stop := by
  have hgrow : Splice.shiftAt ((found.filter (·.isImage)).map splice) m.start ≤
      Splice.shiftAt ((found.filter (·.isImage)).map splice) m.stop := by
    refine Splice.shiftAt_le_shiftAt hlt.le fun s hs => ?_
    obtain ⟨i, hi, rfl⟩ := List.mem_map.1 hs
    have hbounds := h.bounds i (List.mem_filter.1 hi).1
    have hapart := h.image_disjoint hm himage hi
    simp only [splice]
    omega
  rw [h.tracks m.start, h.tracks m.stop]
  omega

/-- A match that becomes a footnote still takes up space after the images and the text. -/
theorem Apart.moveThrough_lt
    (h : Apart found) {e : Expression} {edits : List Edit}
    (hedits : Edit.compile e (Session.imageShift (found.filter (·.isImage)))
      (found.filter (·.isRegular)) = .ok edits)
    {m : DocMatch} (hm : m ∈ found) (hfootnote : m.isFootnote = true) (hlt : m.start < m.stop) :
    ShiftMap.moveThrough [Session.imageShift (found.filter (·.isImage)), Edit.shift edits] m.start <
      ShiftMap.moveThrough [Session.imageShift (found.filter (·.isImage)), Edit.shift edits]
        m.stop := by
  have himage := isImage_eq_false_of_isFootnote hfootnote
  have htext := h.tracks_text hedits
  have hfirst := h.move_lt_move hm himage hlt
  have hgrow : Splice.shiftAt ((found.filter (·.isRegular)).map (afterImages found))
        ((Session.imageShift (found.filter (·.isImage))).move m.start) ≤
      Splice.shiftAt ((found.filter (·.isRegular)).map (afterImages found))
        ((Session.imageShift (found.filter (·.isImage))).move m.stop) := by
    refine Splice.shiftAt_le_shiftAt hfirst.le fun s hs => ?_
    obtain ⟨a, ha, rfl⟩ := List.mem_map.1 hs
    obtain ⟨ha, hregular⟩ := List.mem_filter.1 ha
    have hne : a ≠ m := by
      rintro rfl
      simp [isRegular, hfootnote] at hregular
    have hplain := isImage_eq_false_of_isRegular hregular
    obtain ⟨hclear, hclear'⟩ := h.clear hm himage
    obtain ⟨hstart, hstop⟩ := h.clear ha hplain
    obtain ⟨heq, heq'⟩ := h.move_eq ha hplain
    have hle := h.move_le_move (h.bounds a ha).2 hstart hstop
    have hapart := (h.disjoint ha hm hne).imp (fun hbefore => h.move_le_move hbefore hstop hclear)
      fun hbehind => h.move_le_move hbehind hclear' hstart
    omega
  show (Edit.shift edits).move (ShiftMap.move _ m.start) <
    (Edit.shift edits).move (ShiftMap.move _ m.stop)
  rw [htext (ShiftMap.move _ m.start), htext (ShiftMap.move _ m.stop)]
  omega

end DocMatch

/-! ## The forms of a batch -/

namespace Request

theorem solid_insert (index : Int) (text : Text) : Solid [insert index text] := by
  apply solid_singleton
  rintro span h
  cases h

theorem solid_write (index : Int) (text : Text) (formats : List Format) :
    Solid (CellText.write index text formats) := by
  unfold CellText.write
  split
  · exact solid_nil
  · exact (solid_insert index text).append (keepLength_styleByFormats formats _).solid

theorem solid_overwrite (start stop : Int) (text : Text) (formats : List Format) :
    Solid (CellText.overwrite start stop text formats) :=
  (solid_removal start stop).append (solid_write start text formats)

theorem solid_order {groups : List (EditGroup Request)} (h : ∀ g ∈ groups, Solid g.requests) :
    Solid (EditGroup.order groups) :=
  Solid.flatMap fun g hg => h g (EditGroup.mem_sort.1 hg)

theorem solid_fillCell (cell : Cell) (content : Text) : Solid (Table.fillCell cell content) := by
  unfold Table.fillCell
  split
  · split
    · exact solid_nil
    · exact solid_write _ _ _
  · exact solid_nil

theorem solid_fill (t : Table) (contents : List (List Text)) : Solid (t.fill contents) :=
  Solid.flatMap fun _ _ => Solid.flatMap fun item _ => solid_fillCell item.1 item.2

/-- An edit of the text looks whether there is anything to delete. -/
theorem solid_ofMatch
    {e : Expression} {previous : ShiftMap} {m : DocMatch} {edit : Edit}
    (h : Edit.ofMatch e previous m = .ok edit) : Solid edit.group.requests := by
  obtain ⟨written, hgroup, hwritten⟩ := Edit.group_of_ofMatch h
  rw [hgroup]
  refine (solid_removal _ _).append ?_
  rcases hwritten with rfl | ⟨text, styles, rfl, hkeep⟩
  · exact solid_nil
  · exact (solid_insert _ text).append hkeep.solid

theorem solid_replaceAll (images : List DocImage) (replacement : Text) :
    Solid (DocImage.replaceAll images replacement) := by
  refine Solid.append (Solid.flatMap fun image _ => ?_) ?_
  · unfold DocImage.replaceInline
    split
    · apply solid_singleton
      rintro span h
      cases h
    · have hone := solid_delete (Int.lt_succ image.index)
      have htext : ∀ text : Text,
          Solid (if text.isEmpty then [] else [insert image.index text]) := by
        intro text
        split
        · exact solid_nil
        · exact solid_insert _ _
      exact hone.append (htext _)
  · refine KeepLength.solid fun r hr => ?_
    obtain ⟨image, -, rfl⟩ := List.mem_map.1 hr
    rfl

end Request

/-- Every element of the body takes up space, and the runs of text stand one behind the other. -/
structure Document.Spaced (d : Document) : Prop where
  nonempty : ∀ e ∈ d.body, e.bounds.start < e.bounds.stop
  runs : d.RunsInOrder

theorem Document.Spaced.topTables
    {d : Document} (h : d.Spaced) {t : Table} (ht : t ∈ d.topTables) :
    t.bounds.start < t.bounds.stop := by
  obtain ⟨e, he, ht⟩ := List.mem_filterMap.1 ht
  rw [← bounds_of_table? ht]
  exact h.nonempty e he

theorem Document.Spaced.apart
    {d : Document} (h : d.Spaced) {pattern : Pattern} {e : Expression} {found : List DocMatch}
    (hfound : DocMatch.find d pattern e = .ok found) : DocMatch.Apart found where
  bounds _ hm := DocMatch.bounds_of_mem_find h.runs hfound hm
  order := DocMatch.pairwise_find h.runs hfound

/-- The batch turns an empty match of one of the expressions into a footnote. -/
def EmptyFootnote [CharNames]
    (served : Document → Prop) (given : Expression → Prop) (requests : List Request) : Prop :=
  ∃ e doc pattern found m shifts, given e ∧ served doc ∧ e.compile = .ok pattern ∧
    DocMatch.find doc pattern e = .ok found ∧ m ∈ found ∧ m.isFootnote = true ∧
    m.start = m.stop ∧ requests = Session.footnoteRequests shifts m

/-- Such a batch starts with a deletion that takes nothing away. -/
theorem EmptyFootnote.not_lt [CharNames]
    {served : Document → Prop} {given : Expression → Prop} {requests : List Request} {span : Span}
    (h : EmptyFootnote served given requests) (hspan : .deleteRange span ∈ requests) :
    ¬ span.start < span.stop := by
  obtain ⟨e, doc, pattern, found, m, shifts, -, -, -, -, -, -, hempty, rfl⟩ := h
  rcases List.mem_pair.1 hspan with hspan | hspan
  · cases hspan
    rw [hempty]
    exact Int.lt_irrefl _
  · cases hspan

namespace Batch

open Request (Solid)

theorem solid_deletions (doc : Document) (pattern : Pattern) :
    Solid ((Session.deletions doc pattern).map .deleteRange) := by
  intro span hspan
  obtain ⟨found, hfound, hspan⟩ := List.mem_map.1 hspan
  cases hspan
  obtain ⟨line, -, hline⟩ := List.mem_filterMap.1 hfound
  simp only [Session.deletion?, Option.ite_none_right_eq_some, Option.some.injEq] at hline
  obtain ⟨hlt, rfl⟩ := hline
  exact hlt

theorem solid_insertions (after : Bool) (limit : Int) (text : Text) (lines : List Document.Line) :
    Solid (lines.map (Session.insertion after limit text)) := by
  intro span hspan
  obtain ⟨line, -, hspan⟩ := List.mem_map.1 hspan
  unfold Session.insertion at hspan
  split at hspan
  · cases hspan
  · split at hspan
    · cases hspan
    · cases hspan

theorem solid_extras
    {extras : List Extras}
    (h : ∀ x ∈ extras, x = {} ∨ ∃ d text section_, x = Extras.ofDirective d text section_) :
    Solid (extras.flatMap (fun x => x.columns ++ x.bullets ++ x.anchors) ++
      Session.sortFalling (extras.flatMap (·.chips))) := by
  refine Solid.append (Solid.flatMap fun x hx => ?_) ?_
  · rcases h x hx with rfl | ⟨d, text, section_, rfl⟩
    · exact Request.solid_nil
    · exact (Extras.keepLength d text section_).solid
  · intro span hspan
    obtain ⟨x, hx, hspan⟩ := List.mem_flatMap.1 (Session.mem_of_mem_sortFalling hspan)
    rcases h x hx with rfl | ⟨d, text, section_, rfl⟩
    · cases hspan
    · exact absurd rfl (Extras.ne_deleteRange_of_mem_chips hspan span)

variable {served : Document → Prop} {given : Expression → Prop} {requests : List Request}

/-- Whatever form a batch has, its deletions take something away, or it is for a footnote in the
place of an empty match. -/
theorem solid_or_emptyFootnote [CharNames]
    (hserved : ∀ doc, served doc → doc.Spaced) (h : Batch served given requests) :
    Solid requests ∨ EmptyFootnote served given requests := by
  cases h with
  | footnote he hdoc hpattern hfound hedits hm =>
    rename_i e doc pattern found edits m
    obtain ⟨hm, hfootnote⟩ := List.mem_filter.1 hm
    have hapart := (hserved doc hdoc).apart hfound
    rcases (hapart.bounds m hm).2.lt_or_eq with hlt | hempty
    · left
      have hmoved := hapart.moveThrough_lt hedits hm hfootnote hlt
      intro span hspan
      rcases List.mem_pair.1 hspan with hspan | hspan
      · cases hspan
        exact hmoved
      · cases hspan
    · right
      exact ⟨e, doc, pattern, found, m, _, he, hdoc, hpattern, hfound, hm, hfootnote, hempty, rfl⟩
  | lineDeletions hdoc pattern => exact .inl (solid_deletions _ pattern)
  | lineInsertions hdoc pattern after text =>
    exact .inl (solid_insertions after _ text _)
  | replacements hreplace => exact .inl (Request.keepLength_of_replaceAllText hreplace).solid
  | tableDeletions hdoc hplaces =>
    left
    intro span hspan
    obtain ⟨t, ht, hspan⟩ := List.mem_map.1 hspan
    obtain ⟨place, -, ht⟩ := List.mem_filterMap.1 (List.mem_reverse.1 ht)
    cases hspan
    exact (hserved _ hdoc).topTables (List.mem_of_getElem? ht)
  | lineChange hsent => exact .inl (Request.solid_of_block? (Table.of_change hsent).1)
  | merging hsent =>
    obtain ⟨b, hb⟩ := Table.exists_block?_of_merge hsent
    exact .inl (Request.solid_of_block? hb)
  | cells hgroups =>
    refine .inl (Request.solid_order fun g hg => ?_)
    obtain ⟨start, stop, text, formats, rfl⟩ := hgroups g hg
    exact Request.solid_overwrite start stop text formats
  | newTable index rows columns => exact .inl (Request.solid_singleton nofun)
  | tableForMatch span rows columns =>
    exact .inl ((Request.solid_removal _ _).append (Request.solid_singleton nofun))
  | filling hdoc ht contents header =>
    refine .inl ((Request.solid_fill _ contents).append ?_)
    split
    · exact Request.solid_singleton nofun
    · exact Request.solid_nil
  | image index spec => exact .inl (Request.solid_singleton nofun)
  | text index text formats span =>
    have htext := (Request.keepLength_styleByFormats formats span).solid
    have hreset := (Request.keepLength_resetParagraphs span).solid
    have hparagraphs := (Request.keepLength_styleParagraphsByFormats formats span).solid
    exact .inl ((((Request.solid_insert index text).append htext).append hreset).append hparagraphs)
  | removal hlt => exact .inl (Request.solid_delete hlt)
  | imageReplacements images replacement =>
    exact .inl (Request.solid_replaceAll images replacement)
  | edits hedits =>
    refine .inl (Request.solid_order fun g hg => ?_)
    obtain ⟨edit, hedit, rfl⟩ := List.mem_map.1 hg
    obtain ⟨m, -, hm⟩ := exists_of_mem_forall₂ (forall₂_of_mapM_eq_ok hedits) hedit
    exact Request.solid_ofMatch hm
  | paragraphStyles hplan => exact .inl (ParagraphPlan.keepLength_ofRanges hplan).solid
  | footnoteText text id => exact .inl (Request.solid_singleton nofun)
  | pageBreak d index =>
    left
    intro span hspan
    exact absurd rfl (Request.ne_deleteRange_of_mem_breakAt hspan span)
  | extras hextras => exact .inl (solid_extras hextras)
  | bullets run => exact .inl (Request.keepLength_bullets run).solid

end Batch

namespace Session

variable {σ : Type} {s : Session σ}

/-- Of the deletions that a run sends, those that take nothing away are those for a footnote in the
place of an empty match. -/
theorem deletion_empty_iff [CharNames]
    (h : ∀ doc, s.service.Serves doc → doc.Spaced) (es : List Expression) (w : World σ) :
    ∃ events, ((runAll es).execute s w).2.log = w.log ++ events ∧
      ∀ requests, .update requests ∈ events → ∀ r ∈ requests, ∀ span,
        Span.deleted? r.toJson = some span →
          (¬ span.start < span.stop ↔ EmptyFootnote s.service.Serves (· ∈ es) requests) := by
  obtain ⟨events, hlog, hevents⟩ := (sends_runAll (s := s) es).adds w
  refine ⟨events, hlog, ?_⟩
  intro requests hrequests r hr span hspan
  rw [Span.deleted?_toJson_eq_some_iff] at hspan
  subst hspan
  have hbatch : Batch s.service.Serves (· ∈ es) requests := hevents _ hrequests
  constructor
  · intro hempty
    rcases hbatch.solid_or_emptyFootnote h with hsolid | hfootnote
    · exact absurd (hsolid span hr) hempty
    · exact hfootnote
  · intro hfootnote
    exact hfootnote.not_lt hr

/-- The line `a`. -/
def letterLine : Document where
  body := [.paragraph ⟨some 1, some 3⟩ ⟨[⟨⟨some 1, some 3⟩, .run ['a', '\n']⟩], none⟩]

theorem runs_letterLine : letterLine.runs = [⟨['a', '\n'], 1⟩] :=
  rfl

theorem spaced_letterLine : letterLine.Spaced where
  nonempty := by
    intro e he
    rw [List.mem_singleton.1 he]
    decide
  runs := by
    refine ⟨?_, ?_⟩
    · intro run hrun
      rw [runs_letterLine] at hrun
      rw [List.mem_singleton.1 hrun]
      decide
    · rw [runs_letterLine]
      exact List.IsChain.singleton _

def letterSession : Session Unit where
  service := { fetch := fun _ => (.ok letterLine, ()), update := fun _ _ => (.ok {}, ()) }
  settings := {}

/-- Put a footnote in the place of the first letters `x`, of which there may be none. -/
def optionalNote : Expression where
  pattern := "x*".toList
  replacement := "[^note]".toList
  raw := "s/x*/[^note]/".toList

def letters : Pattern :=
  ⟨.loop 0 none .greedy (.one { items := [.code 120] }), 0⟩

theorem compile_optionalNote [CharNames] : optionalNote.compile = .ok letters := by
  have hsteps : Pattern.steps 2 { rest := ['x', '*'] } = .ok _ := calc
    _ = Pattern.steps 2 _ := Pattern.steps_of_step (by decide) rfl (by decide)
    _ = Pattern.steps 2 _ := Pattern.steps_of_step (by decide) rfl (by decide)
    _ = .ok _ := Pattern.steps_of_nil rfl
  exact Pattern.read_of_steps ['x', '*'] rfl hsteps rfl

theorem findAll_letters :
    letters.findAll ['a', '\n'] =
      [⟨['a', '\n'], 0, 0, [], 0⟩, ⟨['a', '\n'], 1, 1, [], 0⟩, ⟨['a', '\n'], 2, 2, [], 0⟩] := by
  cbv

/-- The match before the letter. -/
def noLetter : DocMatch where
  start := 1
  stop := 1
  found := ⟨['a', '\n'], 0, 0, [], 0⟩
  written := .text "note".toList [.footnote] none

theorem find_optionalNote : DocMatch.find letterLine letters optionalNote = .ok [noLetter] := by
  have hlocated : (DocMatch.located letterLine letters).take 1 =
      [(⟨['a', '\n'], 1⟩, noLetter.found)] := by
    simp only [DocMatch.located, runs_letterLine, List.flatMap_cons, List.flatMap_nil,
      findAll_letters]
    rfl
  have hwritten : Written.ofMatch optionalNote noLetter.found = .ok noLetter.written :=
    Written.ofMatch_of_directive_eq_none rfl (Template.expand_eq_literal rfl (some noLetter.found))
  have hplace : DocMatch.place optionalNote ⟨['a', '\n'], 1⟩ noLetter.found = .ok noLetter := by
    rw [DocMatch.place, hwritten]
    rfl
  show ((DocMatch.located letterLine letters).take 1).mapM _ >>= _ = _
  rw [hlocated, List.mapM_cons]
  show (DocMatch.place optionalNote _ _ >>= _) >>= _ = _
  rw [hplace]
  rfl

/-- What the service is asked for: the document, then a footnote before the letter. -/
def notedWorld : World Unit where
  state := ()
  log := [.fetch, .update [Request.delete 1 1, .createFootnote 1]]
  batches := 1

theorem execute_insertFootnotes_noLetter :
    (insertFootnotes [[], []] [noLetter]).execute letterSession ⟨(), [.fetch], 0⟩ =
      (.ok (ShiftMap.record [] 1 0 1), notedWorld) := by
  have hupdate : (Run.update [Request.delete 1 1, .createFootnote 1]).execute letterSession
      ⟨(), [.fetch], 0⟩ = (.ok {}, notedWorld) :=
    Run.execute_update_of_ok (List.cons_ne_nil _ _) rfl
  have hone : (insertFootnote [[], []] [] noLetter).execute letterSession ⟨(), [.fetch], 0⟩ =
      (.ok (ShiftMap.record [] 1 0 1), notedWorld) :=
    (Run.execute_bind_of_ok hupdate _).trans rfl
  exact (Run.execute_bind_of_ok hone _).trans rfl

theorem execute_runAll_optionalNote [CharNames] :
    ((runAll [optionalNote]).execute letterSession ⟨(), [], 0⟩).2 = notedWorld := by
  have hcompile := Run.execute_compile compile_optionalNote letterSession ⟨(), [], 0⟩
  have hfetch : Run.fetch.execute letterSession ⟨(), [], 0⟩ =
      (.ok letterLine, ⟨(), [.fetch], 0⟩) := Run.execute_fetch rfl
  have hfind := Run.execute_ofLimited find_optionalNote letterSession ⟨(), [.fetch], 0⟩
  have hrounds : (replaceMatches optionalNote [noLetter] styleParagraphs).execute letterSession
      ⟨(), [.fetch], 0⟩ = (.ok ([], []), notedWorld) :=
    (Run.execute_bind_of_ok execute_insertFootnotes_noLetter _).trans rfl
  have hsubstitute : (substitute optionalNote).execute letterSession ⟨(), [], 0⟩ =
      (.ok { replaced := 1 }, notedWorld) := by
    unfold substitute
    rw [Run.execute_bind_of_ok hcompile, Run.execute_bind_of_ok hfetch,
      Run.execute_bind_of_ok hfind]
    exact (Run.execute_bind_of_ok hrounds _).trans rfl
  have hmanual : (runManual optionalNote).execute letterSession ⟨(), [], 0⟩ =
      (.ok 1, notedWorld) :=
    (Run.execute_bind_of_ok hsubstitute _).trans rfl
  have hone : (runOne optionalNote).execute letterSession ⟨(), [], 0⟩ = (.ok _, notedWorld) :=
    (Run.execute_bind_of_ok hmanual _).trans rfl
  exact congrArg Prod.snd hone

attribute [local instance] CharNames.none

theorem deletion_empty_iff_letterLine :
    (∀ doc, letterSession.service.Serves doc → doc.Spaced) ∧
      ∃ events, ((runAll [optionalNote]).execute letterSession ⟨(), [], 0⟩).2.log = [] ++ events ∧
        ∀ requests, .update requests ∈ events → ∀ r ∈ requests, ∀ span,
          Span.deleted? r.toJson = some span →
            (¬ span.start < span.stop ↔
              EmptyFootnote letterSession.service.Serves (· ∈ [optionalNote]) requests) := by
  have hspaced : ∀ doc, letterSession.service.Serves doc → doc.Spaced := by
    rintro doc ⟨state, state', hdoc⟩
    cases hdoc
    exact spaced_letterLine
  exact ⟨hspaced, deletion_empty_iff hspaced [optionalNote] ⟨(), [], 0⟩⟩

/-- A footnote in the place of no letters at all starts with a deletion from 1 to 1. -/
theorem empty_deletion_sent_letterLine :
    Expression.read "s/x*/[^note]/".toList = .ok optionalNote ∧ letterLine.Spaced ∧
      ∃ requests, .update requests ∈
          ((runAll [optionalNote]).execute letterSession ⟨(), [], 0⟩).2.log ∧
        ∃ r ∈ requests, Span.deleted? r.toJson = some ⟨1, 1⟩ := by
  refine ⟨rfl, spaced_letterLine, [Request.delete 1 1, .createFootnote 1], ?_, Request.delete 1 1,
    List.mem_cons_self, Span.deleted?_toJson_eq_some_iff.2 rfl⟩
  rw [execute_runAll_optionalNote]
  exact List.mem_cons_of_mem _ List.mem_cons_self

end Session

end Redline
