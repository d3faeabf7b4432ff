import Redline.Proofs.Rounds
import Redline.Request.Order
import Redline.Request.Writer
import Redline.Session.Schedule

/-!
# Batches from the end to the start

A request that changes the length of the body moves everything behind it.  Requests that were
computed on one copy of the document are right as long as those that change the length come from the
end of the document to its start.  This module says so about lists of requests, relates it to the
test that judges requests as they are sent, and proves it of every list of requests that is put
together for a batch.
-/

namespace Redline

namespace Request

/-- The place where a request changes the length, if it has one. -/
def place? (r : Request) : Option Int :=
  if r.changesLength then r.start? else none

/-- The places where requests change the length, in order. -/
def places (requests : List Request) : List Int :=
  requests.filterMap place?

/-- No change of length is behind one that comes before it. -/
def Falling (requests : List Request) : Prop :=
  (places requests).Pairwise fun a b => b ≤ a

/-- Every change of length is at one place. -/
def StayAt (index : Int) (requests : List Request) : Prop :=
  ∀ p ∈ places requests, p = index

/-- No request changes the length. -/
def KeepLength (requests : List Request) : Prop :=
  ∀ r ∈ requests, r.changesLength = false

@[simp]
theorem places_append (xs ys : List Request) : places (xs ++ ys) = places xs ++ places ys :=
  List.filterMap_append

theorem places_flatMap {α : Type} (f : α → List Request) (items : List α) :
    places (items.flatMap f) = items.flatMap fun a => places (f a) :=
  List.filterMap_flatMap

theorem KeepLength.places_eq_nil {requests : List Request} (h : KeepLength requests) :
    places requests = [] := by
  rw [places, List.filterMap_eq_nil_iff]
  intro r hr
  rw [place?, h r hr]
  rfl

/-! ## Lists that fall -/

theorem StayAt.falling {index : Int} {requests : List Request} (h : StayAt index requests) :
    Falling requests := by
  refine List.Pairwise.imp_of_mem ?_ (List.pairwise_of_forall (fun _ _ => trivial))
  intro a b ha hb _
  rw [h a ha, h b hb]

theorem StayAt.append
    {index : Int} {xs ys : List Request} (hx : StayAt index xs) (hy : StayAt index ys) :
    StayAt index (xs ++ ys) := by
  intro p hp
  rw [places_append] at hp
  rcases List.mem_append.1 hp with hp | hp
  · exact hx p hp
  · exact hy p hp

theorem KeepLength.stayAt {requests : List Request} (h : KeepLength requests) (index : Int) :
    StayAt index requests := by
  intro p hp
  rw [h.places_eq_nil] at hp
  cases hp

theorem Falling.append_left
    {xs ys : List Request} (hx : KeepLength xs) (hy : Falling ys) : Falling (xs ++ ys) := by
  rw [Falling, places_append, hx.places_eq_nil]
  exact hy

theorem Falling.append_right
    {xs ys : List Request} (hx : Falling xs) (hy : KeepLength ys) : Falling (xs ++ ys) := by
  rw [Falling, places_append, hy.places_eq_nil, List.append_nil]
  exact hx

theorem falling_singleton (r : Request) : Falling [r] := by
  have hlength : (places [r]).length ≤ 1 := List.length_filterMap_le _ _
  rw [Falling]
  match places [r], hlength with
  | [], _ => exact .nil
  | [p], _ => exact List.pairwise_singleton _ _

/-- Parts that fall make up a list that falls, when no part reaches behind one before it. -/
theorem falling_flatMap
    {α : Type} {f : α → List Request} {items : List α} (hf : ∀ a ∈ items, Falling (f a))
    (h : items.Pairwise fun a b => ∀ p ∈ places (f a), ∀ q ∈ places (f b), q ≤ p) :
    Falling (items.flatMap f) := by
  rw [Falling, places_flatMap, List.pairwise_flatMap]
  exact ⟨hf, h⟩

/-- The same for parts with one place each. -/
theorem falling_flatMap_of_stayAt
    {α : Type} {f : α → List Request} {anchor : α → Int} {items : List α}
    (hf : ∀ a ∈ items, StayAt (anchor a) (f a))
    (h : items.Pairwise fun a b => anchor b ≤ anchor a) :
    Falling (items.flatMap f) := by
  refine falling_flatMap (fun a ha => (hf a ha).falling) (h.imp_of_mem ?_)
  intro a b ha hb hab p hp q hq
  rw [hf a ha p hp, hf b hb q hq]
  exact hab

end Request

/-! ## The test on requests as they are sent -/

namespace Json

@[simp]
theorem get?_ofFields_nil (key : String) : (ofFields []).get? key = none :=
  rfl

@[simp]
theorem get?_ofFields_cons (key name : String) (value : Json) (rest : List (String × Json)) :
    (ofFields ((name, value) :: rest)).get? key =
      if name = key then some value else (ofFields rest).get? key := by
  simp only [ofFields, get?, List.map_cons, List.find?_cons]
  by_cases h : name = key
  · simp [h]
  · have hname : (name.toList == key.toList) = false :=
      beq_false_of_ne (mt String.toList_inj.1 h)
    rw [hname, if_neg h]

@[simp]
theorem members_ofFields_cons (name : String) (value : Json) (rest : List (String × Json)) :
    (ofFields ((name, value) :: rest)).members = (name.toList, value) :: (ofFields rest).members :=
  rfl

end Json

namespace Placement

theorem isFalling_iff (positions : List Int) :
    isFalling positions = true ↔ positions.Pairwise fun a b => b ≤ a := by
  induction positions with
  | nil => simp [isFalling]
  | cons a rest ih =>
    cases rest with
    | nil => simp [isFalling]
    | cons b rest =>
      rw [isFalling, Bool.and_eq_true, ih, decide_eq_true_eq]
      constructor
      · rintro ⟨hab, hrest⟩
        refine List.pairwise_cons.2 ⟨?_, hrest⟩
        intro c hc
        rcases List.mem_cons.1 hc with rfl | hc
        · exact hab
        · exact le_trans ((List.pairwise_cons.1 hrest).1 c hc) hab
      · intro h
        obtain ⟨ha, hrest⟩ := List.pairwise_cons.1 h
        exact ⟨ha b List.mem_cons_self, hrest⟩

/-- What is read off a request as it is sent is what the request says. -/
theorem ofJson_toJson (r : Request) : ofJson r.toJson = ofRequest r := by
  simp only [ofJson, startOf, lengthKinds, Request.toJson, ofRequest]
  cases r <;>
    simp [Request.kind, Request.body, Request.changesLength, Request.start?, Request.location,
      Request.cell, Request.cellBlock, Span.toJson, Json.asInt?]

theorem moving_ofRequest (requests : List Request) :
    moving (requests.map ofRequest) = Request.places requests := by
  induction requests with
  | nil => rfl
  | cons r rest ih =>
    rw [moving] at ih ⊢
    rw [Request.places] at ih ⊢
    rw [List.filterMap_cons, Request.place?, List.map_cons, List.filter_cons]
    cases hlength : r.changesLength with
    | false => simpa [ofRequest, hlength] using ih
    | true =>
      cases hstart : r.start? with
      | none => simpa [ofRequest, hlength, hstart] using ih
      | some p => simpa [ofRequest, hlength, hstart] using ih

theorem isSafe_iff (requests : List Request) :
    isSafe (requests.map fun r => ofJson r.toJson) = true ↔ Request.Falling requests := by
  have hmap : (requests.map fun r => ofJson r.toJson) = requests.map ofRequest :=
    List.map_congr_left fun r _ => ofJson_toJson r
  rw [isSafe, hmap, moving_ofRequest, isFalling_iff]
  rfl

end Placement

/-! ## Styles keep the length -/

namespace Request

theorem keepLength_of_stylesText
    {requests : List Request} (h : ∀ r ∈ requests, r.StylesText) :
    KeepLength requests := by
  intro r hr
  obtain ⟨span, settings, mask, rfl⟩ := h r hr
  rfl

theorem keepLength_styleByFormats (formats : List Format) (span : Span) :
    KeepLength (styleByFormats formats span) :=
  keepLength_of_stylesText fun _ hr => stylesText_of_mem_ofStyle hr

theorem keepLength_styleParagraphsByFormats (formats : List Format) (span : Span) :
    KeepLength (styleParagraphsByFormats formats span) := by
  intro r hr
  simp only [styleParagraphsByFormats, List.mem_append, Option.mem_toList, Option.map_eq_some_iff]
    at hr
  rcases hr with (⟨level, -, rfl⟩ | ⟨preset, -, rfl⟩) | hr
  · rfl
  · rfl
  · split at hr
    · rw [List.mem_singleton.1 hr]
      rfl
    · cases hr

theorem keepLength_of_replaceAllText
    {requests : List Request}
    (h : ∀ r ∈ requests, ∃ find text matchCase byPattern,
      r = .replaceAllText find text matchCase byPattern) :
    KeepLength requests := by
  intro r hr
  obtain ⟨find, text, matchCase, byPattern, rfl⟩ := h r hr
  rfl

theorem keepLength_bullets (run : BulletRun) : KeepLength run.requests := by
  intro r hr
  rcases List.mem_pair.1 hr with rfl | rfl
  · rfl
  · rfl

theorem keepLength_resetParagraphs (span : Span) : KeepLength (resetParagraphs span) := by
  intro r hr
  rcases List.mem_pair.1 hr with rfl | rfl
  · rfl
  · rfl

theorem keepLength_styleParagraphsByDirective
    {d : Directive} {span : Span} {requests : List Request}
    (h : styleParagraphsByDirective d span = .ok requests) :
    KeepLength requests := by
  obtain ⟨settings, -, h⟩ := exists_of_bind_eq_ok h
  intro r hr
  split at h
  · cases h
    cases hr
  · cases h
    rw [List.mem_singleton.1 hr]
    rfl

end Request

open Request (Falling StayAt KeepLength)

namespace ParagraphPlan

theorem keepLength_ofFormats (r : FormatRange) (span : Span) :
    KeepLength (ofFormats r span).now := by
  intro request hrequest
  unfold ofFormats at hrequest
  split at hrequest
  · cases hrequest
  · rcases List.mem_append.1 hrequest with hrequest | hrequest
    · exact Request.keepLength_resetParagraphs span request hrequest
    · have hstyle := (List.mem_filter.1 hrequest).1
      exact Request.keepLength_styleParagraphsByFormats _ span request hstyle

theorem keepLength_ofRange
    {shift : ShiftMap} {r : FormatRange} {plan : ParagraphPlan} (h : ofRange shift r = .ok plan) :
    KeepLength plan.now := by
  unfold ofRange at h
  split at h
  · split at h
    · obtain ⟨requests, hrequests, h⟩ := exists_of_bind_eq_ok h
      cases h
      exact Request.keepLength_styleParagraphsByDirective hrequests
    · cases h
      exact keepLength_ofFormats _ _
  · cases h
    exact keepLength_ofFormats _ _

theorem keepLength_ofRanges
    {shift : ShiftMap} {ranges : List FormatRange} {plan : ParagraphPlan}
    (h : ofRanges shift ranges = .ok plan) :
    KeepLength plan.now := by
  obtain ⟨plans, hplans, h⟩ := exists_of_bind_eq_ok h
  cases h
  intro request hrequest
  obtain ⟨part, hpart, hrequest⟩ := List.mem_flatMap.1 hrequest
  obtain ⟨r, -, hr⟩ := exists_of_mem_forall₂ (forall₂_of_mapM_eq_ok hplans) hpart
  exact keepLength_ofRange hr request hrequest

end ParagraphPlan

/-! ## Groups of requests -/

namespace EditGroup

variable {α : Type}

theorem mem_place {g k : EditGroup α} {groups : List (EditGroup α)} :
    k ∈ place g groups ↔ k = g ∨ k ∈ groups := by
  induction groups with
  | nil => simp [place]
  | cons h rest ih =>
    rw [place]
    split
    · simp
    · rw [List.mem_cons, ih, List.mem_cons]
      tauto

theorem mem_sort {g : EditGroup α} {groups : List (EditGroup α)} :
    g ∈ sort groups ↔ g ∈ groups := by
  induction groups with
  | nil => rfl
  | cons h rest ih =>
    have hsort : sort (h :: rest) = place h (sort rest) := rfl
    rw [hsort, mem_place, ih, List.mem_cons]

theorem pairwise_place
    {g : EditGroup α} {groups : List (EditGroup α)}
    (h : groups.Pairwise fun a b => b.anchor ≤ a.anchor) :
    (place g groups).Pairwise fun a b => b.anchor ≤ a.anchor := by
  induction groups with
  | nil => exact List.pairwise_singleton _ _
  | cons k rest ih =>
    obtain ⟨hk, hrest⟩ := List.pairwise_cons.1 h
    rw [place]
    split
    next hle =>
      refine List.pairwise_cons.2 ⟨?_, h⟩
      intro b hb
      rcases List.mem_cons.1 hb with rfl | hb
      · exact hle
      · exact le_trans (hk b hb) hle
    next hlt =>
      refine List.pairwise_cons.2 ⟨?_, ih hrest⟩
      intro b hb
      rcases mem_place.1 hb with rfl | hb
      · exact le_of_lt (not_le.1 hlt)
      · exact hk b hb

/-- Groups are sent by falling anchors. -/
theorem pairwise_sort (groups : List (EditGroup α)) :
    (sort groups).Pairwise fun a b => b.anchor ≤ a.anchor := by
  induction groups with
  | nil => exact .nil
  | cons g rest ih => exact pairwise_place ih

theorem falling_order
    {groups : List (EditGroup Request)} (h : ∀ g ∈ groups, StayAt g.anchor g.requests) :
    Falling (order groups) :=
  Request.falling_flatMap_of_stayAt (fun g hg => h g (mem_sort.1 hg)) (pairwise_sort groups)

end EditGroup

/-! ## Edits of text -/

theorem Request.stayAt_removal (start stop : Int) :
    StayAt start (if start < stop then [Request.delete start stop] else []) := by
  intro p hp
  split at hp
  · exact List.mem_singleton.1 hp
  · cases hp

theorem Request.stayAt_insert (index : Int) (text : Text) :
    StayAt index [Request.insert index text] :=
  fun _ hp => List.mem_singleton.1 hp

theorem Request.stayAt_insert_styles
    (index : Int) (text : Text) (formats : List Format) (span : Span) :
    StayAt index (insert index text :: styleByFormats formats span ++ resetParagraphs span ++
      styleParagraphsByFormats formats span) := by
  have htext := (keepLength_styleByFormats formats span).stayAt index
  have hreset := (keepLength_resetParagraphs span).stayAt index
  have hparagraphs := (keepLength_styleParagraphsByFormats formats span).stayAt index
  exact (((stayAt_insert index text).append htext).append hreset).append hparagraphs

namespace Edit

/-- What the edit of a match asks for: the old text is taken out if there is any, and the new one is
put in, with styles, if there is any. -/
theorem group_of_ofMatch
    {e : Expression} {previous : ShiftMap} {m : DocMatch} {edit : Edit}
    (h : ofMatch e previous m = .ok edit) :
    ∃ written, edit.group = ⟨previous.move m.start,
        (if previous.move m.start < previous.move m.stop then
          [Request.delete (previous.move m.start) (previous.move m.stop)] else []) ++ written⟩ ∧
      (written = [] ∨ ∃ text styles,
        written = Request.insert (previous.move m.start) text :: styles ∧ KeepLength styles) := by
  simp only [ofMatch] at h
  split at h
  · cases h
    have hrule : KeepLength [Request.rule ⟨previous.move m.start, previous.move m.start + 1⟩] := by
      intro r hr
      rw [List.mem_singleton.1 hr]
      rfl
    exact ⟨_, rfl, .inr ⟨_, _, rfl, hrule⟩⟩
  · split at h
    · cases h
      exact ⟨[], by rw [List.append_nil], .inl rfl⟩
    · split at h
      · cases h
        exact ⟨_, rfl, .inr ⟨_, [], rfl, fun r hr => (List.not_mem_nil hr).elim⟩⟩
      · obtain ⟨styles, hstyles, h⟩ := exists_of_bind_eq_ok h
        cases h
        have hkeep : KeepLength styles :=
          Request.keepLength_of_stylesText fun r hr => stylesText_of_mem_style hstyles hr
        refine ⟨_, ?_, .inr ⟨m.written.newText, styles, rfl, hkeep⟩⟩
        rw [List.append_assoc]
        rfl

theorem stayAt_ofMatch
    {e : Expression} {previous : ShiftMap} {m : DocMatch} {edit : Edit}
    (h : ofMatch e previous m = .ok edit) :
    StayAt edit.group.anchor edit.group.requests := by
  obtain ⟨written, hgroup, hwritten⟩ := group_of_ofMatch h
  rw [hgroup]
  refine (Request.stayAt_removal _ _).append ?_
  rcases hwritten with rfl | ⟨text, styles, rfl, hkeep⟩
  · exact fun p hp => (List.not_mem_nil hp).elim
  · exact (Request.stayAt_insert _ text).append (hkeep.stayAt _)

theorem falling_requests
    {e : Expression} {previous : ShiftMap} {found : List DocMatch} {edits : List Edit}
    (h : compile e previous found = .ok edits) :
    Falling (requests edits) := by
  refine EditGroup.falling_order ?_
  intro g hg
  obtain ⟨edit, hedit, rfl⟩ := List.mem_map.1 hg
  obtain ⟨m, -, hm⟩ := exists_of_mem_forall₂ (forall₂_of_mapM_eq_ok h) hedit
  exact stayAt_ofMatch hm

end Edit

theorem Request.stayAt_breakAt (d : Directive) (index : Int) : StayAt index (breakAt d index) := by
  intro p hp
  unfold breakAt at hp
  split at hp
  · cases hp
  all_goals exact List.mem_singleton.1 hp

theorem Request.ne_deleteRange_of_mem_breakAt
    {d : Directive} {index : Int} {r : Request} (hr : r ∈ breakAt d index) (span : Span) :
    r ≠ .deleteRange span := by
  rintro rfl
  unfold breakAt at hr
  split at hr
  all_goals simp [insert, rule] at hr

namespace Session

theorem mem_of_mem_sortFalling {requests : List Request} {r : Request} (h : r ∈ sortFalling requests) :
    r ∈ requests := by
  obtain ⟨g, hg, hr⟩ := List.mem_flatMap.1 h
  obtain ⟨r', hr', rfl⟩ := List.mem_map.1 (EditGroup.mem_sort.1 hg)
  rwa [List.mem_singleton.1 hr]

theorem falling_sortFalling (requests : List Request) : Falling (sortFalling requests) := by
  refine EditGroup.falling_order ?_
  intro g hg
  obtain ⟨r, -, rfl⟩ := List.mem_map.1 hg
  intro p hp
  obtain ⟨r', hr', hp⟩ := List.mem_filterMap.1 hp
  rw [List.mem_singleton.1 hr', Request.place?] at hp
  split at hp
  · simp [hp]
  · cases hp

end Session

theorem Extras.keepLength (d : Directive) (text section_ : Span) :
    KeepLength ((ofDirective d text section_).columns ++ (ofDirective d text section_).bullets ++
      (ofDirective d text section_).anchors) := by
  intro r hr
  simp only [ofDirective, List.mem_append] at hr
  rcases hr with (hr | hr) | hr
  all_goals
    split at hr
    all_goals simp at hr
    all_goals (subst hr; rfl)

theorem Extras.ne_deleteRange_of_mem_chips
    {d : Directive} {text section_ : Span} {r : Request}
    (hr : r ∈ (ofDirective d text section_).chips) (span : Span) : r ≠ .deleteRange span := by
  rintro rfl
  simp only [ofDirective] at hr
  split at hr
  · cases hr
  · cases List.mem_singleton.1 hr

/-! ## Edits of cells and images -/

namespace CellText

theorem stayAt_write (index : Int) (text : Text) (formats : List Format) :
    StayAt index (write index text formats) := by
  unfold write
  split
  · intro p hp
    cases hp
  · have hstyles := Request.keepLength_styleByFormats formats ⟨index, index + text.units⟩
    exact (Request.stayAt_insert index text).append (hstyles.stayAt index)

theorem stayAt_overwrite (start stop : Int) (text : Text) (formats : List Format) :
    StayAt start (overwrite start stop text formats) :=
  (Request.stayAt_removal start stop).append (stayAt_write start text formats)

end CellText

namespace DocImage

theorem stayAt_replaceInline (source : Option ImageSpec) (text : Text) (image : DocImage) :
    StayAt image.index (replaceInline source text image) := by
  intro p hp
  unfold replaceInline at hp
  split at hp
  · cases hp
  · split at hp
    · exact List.mem_singleton.1 hp
    · rcases List.mem_pair.1 hp with rfl | rfl
      · rfl
      · rfl

theorem pairwise_sortFalling (images : List DocImage) :
    (sortFalling images).Pairwise fun a b => b.index ≤ a.index := by
  have hgroup : ∀ g ∈ images.map fun i => (⟨i.index, [i]⟩ : EditGroup DocImage),
      ∃ i, g = ⟨i.index, [i]⟩ := by
    intro g hg
    obtain ⟨i, -, rfl⟩ := List.mem_map.1 hg
    exact ⟨i, rfl⟩
  rw [sortFalling, EditGroup.order, List.pairwise_flatMap]
  constructor
  · intro g hg
    obtain ⟨i, rfl⟩ := hgroup g (EditGroup.mem_sort.1 hg)
    exact List.pairwise_singleton _ _
  · refine (EditGroup.pairwise_sort _).imp_of_mem ?_
    intro g k hg hk hle a ha b hb
    obtain ⟨i, rfl⟩ := hgroup g (EditGroup.mem_sort.1 hg)
    obtain ⟨j, rfl⟩ := hgroup k (EditGroup.mem_sort.1 hk)
    rw [List.mem_singleton.1 ha, List.mem_singleton.1 hb]
    exact hle

theorem falling_replaceAll (images : List DocImage) (replacement : Text) :
    Falling (replaceAll images replacement) := by
  refine Request.Falling.append_right ?_ ?_
  · exact Request.falling_flatMap_of_stayAt (fun image _ => stayAt_replaceInline _ _ image)
      (pairwise_sortFalling _)
  · intro r hr
    obtain ⟨image, -, rfl⟩ := List.mem_map.1 hr
    rfl

end DocImage

/-! ## Elements in order -/

/-- Elements stand one after another, and none is empty. -/
structure Element.InOrder (elements : List Element) : Prop where
  nonempty : ∀ e ∈ elements, e.bounds.start < e.bounds.stop
  ascending : elements.Pairwise fun e e' => e.bounds.stop ≤ e'.bounds.start

instance (elements : List Element) : Decidable (Element.InOrder elements) :=
  decidable_of_iff
    ((∀ e ∈ elements, e.bounds.start < e.bounds.stop) ∧
      elements.Pairwise fun e e' => e.bounds.stop ≤ e'.bounds.start)
    ⟨fun h => ⟨h.1, h.2⟩, fun h => ⟨h.nonempty, h.ascending⟩⟩

theorem Element.InOrder.sublist
    {elements part : List Element} (h : InOrder elements)
    (hsub : part.Sublist elements) : InOrder part where
  nonempty e he := h.nonempty e (hsub.subset he)
  ascending := h.ascending.sublist hsub

/-- The elements of the body stand in order, and so do those in the cells of every table. -/
structure Document.WellPlaced (d : Document) : Prop where
  body : Element.InOrder d.body
  cells : ∀ t ∈ d.tables, Element.InOrder t.rows.flatten.flatten

instance (d : Document) : Decidable d.WellPlaced :=
  decidable_of_iff
    (Element.InOrder d.body ∧ ∀ t ∈ d.tables, Element.InOrder t.rows.flatten.flatten)
    ⟨fun h => ⟨h.1, h.2⟩, fun h => ⟨h.body, h.cells⟩⟩

namespace Document

variable {d : Document}

theorem stop_le_bodyEnd (h : Element.InOrder d.body) {e : Element} (he : e ∈ d.body) :
    e.bounds.stop ≤ d.bodyEnd := by
  have hne : d.body ≠ [] := List.ne_nil_of_mem he
  have hend : d.bodyEnd = (d.body.getLast hne).bounds.stop := by
    rw [bodyEnd, List.getLast?_eq_some_getLast hne]
  have hsplit := List.dropLast_append_getLast hne
  rw [hend]
  rw [← hsplit] at he
  rcases List.mem_append.1 he with he | he
  · have hascending := h.ascending
    rw [← hsplit, List.pairwise_append] at hascending
    have hbefore := hascending.2.2 e he _ List.mem_cons_self
    have hlast := h.nonempty _ (List.getLast_mem hne)
    omega
  · rw [List.mem_singleton.1 he]

theorem bounds_of_mem_lines
    (h : Element.InOrder d.body) {line : Line} (hline : line ∈ d.lines) :
    line.start < line.stop ∧ line.stop ≤ d.bodyEnd := by
  obtain ⟨p, hp, rfl⟩ := List.mem_map.1 hline
  obtain ⟨e, he, hparagraph⟩ := List.mem_filterMap.1 hp
  cases e with
  | paragraph b q =>
    cases hparagraph
    exact ⟨h.nonempty _ he, stop_le_bodyEnd h he⟩
  | table => cases hparagraph
  | sectionBreak => cases hparagraph
  | other => cases hparagraph

theorem bounds_of_paragraph? {e : Element} {p : PlacedParagraph} (h : e.paragraph? = some p) :
    e.bounds = p.bounds := by
  cases e with
  | paragraph b q =>
    cases h
    rfl
  | table => cases h
  | sectionBreak => cases h
  | other => cases h

theorem pairwise_lines (h : Element.InOrder d.body) :
    d.lines.Pairwise fun a b => a.stop ≤ b.start := by
  rw [lines, List.pairwise_map, topParagraphs, List.pairwise_filterMap]
  refine h.ascending.imp ?_
  intro e e' hle p hp q hq
  rw [bounds_of_paragraph? hp, bounds_of_paragraph? hq] at hle
  exact hle

theorem bounds_of_table? {e : Element} {t : Table} (h : e.table? = some t) :
    e.bounds = t.bounds := by
  cases e with
  | table b rows =>
    cases h
    rfl
  | paragraph => cases h
  | sectionBreak => cases h
  | other => cases h

theorem pairwise_topTables (h : Element.InOrder d.body) :
    d.topTables.Pairwise fun a b => a.bounds.start ≤ b.bounds.start := by
  rw [topTables, List.pairwise_filterMap]
  refine h.ascending.imp_of_mem ?_
  intro e e' he _ hle t ht u hu
  have hstart := h.nonempty e he
  rw [bounds_of_table? ht] at hle hstart
  rw [bounds_of_table? hu] at hle
  omega

end Document

/-! ## Lines, tables and cells -/

namespace Session

variable {d : Document}

/-- The part to delete for a line starts with the line, or one unit before the last line. -/
theorem start_of_deletion?
    {limit : Int} {line : Document.Line} {span : Span} (h : deletion? limit line = some span) :
    span.start =
      if limit ≤ line.stop ∧ 1 < line.start then line.start - 1 else max line.start 1 := by
  simp only [deletion?, Option.ite_none_right_eq_some, Option.some.injEq] at h
  obtain ⟨-, rfl⟩ := h
  by_cases hlast : limit ≤ line.stop
  · by_cases hstart : 1 < line.start
    · have hmax : max line.start 1 = line.start := by omega
      simp [hlast, hstart, hmax]
    · have hmax : max line.start 1 = 1 := by omega
      simp [hlast, hstart, hmax]
  · simp [hlast]

theorem falling_deletions (h : Element.InOrder d.body) (pattern : Pattern) :
    Falling ((deletions d pattern).map .deleteRange) := by
  have hplaces : ∀ spans : List Span,
      Request.places (spans.map .deleteRange) = spans.map (·.start) := by
    intro spans
    have hplace : Request.place? ∘ Request.deleteRange = some ∘ Span.start := rfl
    rw [Request.places, List.filterMap_map, hplace, List.filterMap_eq_map]
  rw [Falling, hplaces, List.pairwise_map, deletions, List.pairwise_filterMap]
  refine List.Pairwise.filter _ (List.pairwise_reverse.2 ?_)
  refine (Document.pairwise_lines h).imp_of_mem ?_
  intro a b ha hb hab p hp q hq
  obtain ⟨ha, -⟩ := Document.bounds_of_mem_lines h ha
  obtain ⟨hb, hlimit⟩ := Document.bounds_of_mem_lines h hb
  -- The line before is not the last one, so only the later one can start a unit earlier.
  rw [start_of_deletion? hp, start_of_deletion? hq, if_neg (by omega)]
  split
  · omega
  · omega

theorem start_of_insertion (after : Bool) (limit : Int) (text : Text) (line : Document.Line) :
    (insertion after limit text line).place? =
      some (if after then min line.stop (limit - 1) else max line.start 1) := by
  cases after with
  | false => rfl
  | true =>
    by_cases hlast : limit ≤ line.stop
    · have hmin : min line.stop (limit - 1) = limit - 1 := by omega
      simp only [insertion, Bool.not_true, Bool.false_eq_true, if_false, hlast, if_true, hmin]
      rfl
    · have hmin : min line.stop (limit - 1) = line.stop := by omega
      simp only [insertion, Bool.not_true, Bool.false_eq_true, if_false, hlast, if_true, hmin]
      rfl

theorem falling_insertions
    (h : Element.InOrder d.body) (keep : Document.Line → Bool) (after : Bool) (text : Text) :
    Falling ((d.lines.reverse.filter keep).map (insertion after d.bodyEnd text)) := by
  rw [Falling, Request.places, List.filterMap_map, List.pairwise_filterMap]
  refine List.Pairwise.filter _ (List.pairwise_reverse.2 ?_)
  refine (Document.pairwise_lines h).imp_of_mem ?_
  intro a b ha hb hab p hp q hq
  obtain ⟨ha, -⟩ := Document.bounds_of_mem_lines h ha
  obtain ⟨hb, hlimit⟩ := Document.bounds_of_mem_lines h hb
  rw [Function.comp_apply, start_of_insertion, Option.some.injEq] at hp hq
  split at hp
  · rw [if_pos ‹_›] at hq
    omega
  · rw [if_neg ‹_›] at hq
    omega

theorem falling_tableDeletions
    (h : Element.InOrder d.body) {selector : TableSelector} {places : List Nat}
    (hplaces : selector.resolve d.topTables.length = .ok places) :
    Falling ((places.filterMap (d.topTables[·]?)).reverse.map fun t =>
      Request.delete t.bounds.start t.bounds.stop) := by
  have hascending : places.Pairwise (· < ·) := by
    unfold TableSelector.resolve at hplaces
    split at hplaces
    · cases hplaces
    · split at hplaces
      · cases hplaces
        exact List.pairwise_lt_range
      · obtain ⟨place, hplace⟩ : ∃ place, places = [place] := by
          simp only [] at hplaces
          grind
        rw [hplace]
        exact List.pairwise_singleton _ _
  rw [Falling, Request.places, List.filterMap_map, List.pairwise_filterMap, List.pairwise_reverse,
    List.pairwise_filterMap]
  refine hascending.imp ?_
  intro i j hij t ht u hu p hp q hq
  obtain ⟨hi, rfl⟩ := List.getElem?_eq_some_iff.1 ht
  obtain ⟨hj, rfl⟩ := List.getElem?_eq_some_iff.1 hu
  cases hp
  cases hq
  exact List.pairwise_iff_getElem.1 (Document.pairwise_topTables h) i j hi hj hij

end Session

namespace Table

theorem mem_of_mem_places_fillCell
    {cell : Cell} {content : Text} {p : Int} (hp : p ∈ Request.places (fillCell cell content)) :
    ∃ e ∈ cell, e.bounds.start = p := by
  unfold fillCell at hp
  split at hp
  next start hstart =>
    obtain ⟨e, he, hstart⟩ := Option.map_eq_some_iff.1 hstart
    split at hp
    · cases hp
    · rw [CellText.stayAt_write _ _ _ p hp, ← hstart]
      exact ⟨e, List.mem_of_mem_head? he, rfl⟩
  next => cases hp

theorem falling_fillCell (cell : Cell) (content : Text) : Falling (fillCell cell content) := by
  unfold fillCell
  split
  · split
    · exact .nil
    · exact (CellText.stayAt_write _ _ _).falling
  · exact .nil

theorem pairwise_zip
    {α β : Type} {R : α → α → Prop} {xs : List α} (h : xs.Pairwise R) (ys : List β) :
    (xs.zip ys).Pairwise fun a b => R a.1 b.1 := by
  induction h generalizing ys with
  | nil => exact .nil
  | cons hx _ ih =>
    cases ys with
    | nil => exact .nil
    | cons y ys =>
      refine List.pairwise_cons.2 ⟨?_, ih ys⟩
      intro b hb
      exact hx b.1 (List.of_mem_zip hb).1

/-- The cells of a table are filled from the last one to the first. -/
theorem falling_fill
    {t : Table} (h : Element.InOrder t.rows.flatten.flatten) (contents : List (List Text)) :
    Falling (t.fill contents) := by
  have hstarts : t.rows.flatten.flatten.Pairwise fun e e' => e.bounds.start ≤ e'.bounds.start := by
    refine h.ascending.imp_of_mem ?_
    intro e e' he _ hle
    exact le_trans (le_of_lt (h.nonempty e he)) hle
  obtain ⟨hrow, hrows⟩ := List.pairwise_flatten.1 (List.pairwise_flatten.1 hstarts).2
  refine Request.falling_flatMap ?_ (List.pairwise_reverse.2 ((pairwise_zip hrows contents).imp ?_))
  · rintro ⟨row, texts⟩ hmem
    have hcells := hrow row (List.of_mem_zip (List.mem_reverse.1 hmem)).1
    refine Request.falling_flatMap (fun a _ => falling_fillCell a.1 a.2)
      (List.pairwise_reverse.2 ((pairwise_zip hcells texts).imp ?_))
    intro a b hab p hp q hq
    obtain ⟨e, he, rfl⟩ := mem_of_mem_places_fillCell hp
    obtain ⟨e', he', rfl⟩ := mem_of_mem_places_fillCell hq
    exact hab e' he' e he
  · rintro ⟨row, texts⟩ ⟨row', texts'⟩ hab p hp q hq
    simp only [Request.places_flatMap, List.mem_flatMap, List.mem_reverse] at hp hq
    obtain ⟨a, ha, hp⟩ := hp
    obtain ⟨b, hb, hq⟩ := hq
    obtain ⟨e, he, rfl⟩ := mem_of_mem_places_fillCell hp
    obtain ⟨e', he', rfl⟩ := mem_of_mem_places_fillCell hq
    exact hab b.1 (List.of_mem_zip hb).1 a.1 (List.of_mem_zip ha).1 e' he' e he

end Table

end Redline
