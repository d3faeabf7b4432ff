import Mathlib.Data.List.Chain
import Redline.Proofs.Body
import Redline.Session.Substitute

/-!
# Rounds of batches

A substitution changes the body in three rounds: images and footnotes go one by one from the last
match to the first, and all text goes in one batch that is sorted the same way.  On a service that
carries requests out to the letter each round replaces its own matches in their places, and the
changes of length that it records move positions to where they are found after it.
-/

namespace Redline

/-! ## Matches as splices -/

namespace DocMatch

/-- What stands in the body in the place of a match. -/
def content (m : DocMatch) : Body :=
  if m.isFootnote then [.footnote]
  else match m.written with
    | .image spec => [.image spec.url spec.width spec.height]
    | .text t formats _ => if formats.contains .rule then .ofText ['\n'] else .ofText t

/-- A match as a splice of the body. -/
def splice (m : DocMatch) : Splice BodyUnit :=
  ⟨m.start.toNat, m.stop.toNat, m.content⟩

/-- The matches lie within a body of some length.  Their starts strictly increase, and each ends no
later than the next one starts. -/
structure InOrder (length : Nat) (found : List DocMatch) : Prop where
  inside : ∀ m ∈ found, 0 ≤ m.start ∧ m.start ≤ m.stop ∧ m.stop ≤ length
  apart : found.IsChain fun a b => a.start < b.start ∧ a.stop ≤ b.start

/-- The text of the match gets paragraph styles or extras once it is there. -/
def leavesRange (m : DocMatch) : Bool :=
  m.isRegular && !m.written.formats.contains .rule && !m.written.newText.isEmpty &&
    !(m.written.formats.isEmpty && m.written.directive?.isNone)

/-- An image takes one unit. -/
theorem exists_image
    {m : DocMatch} (h : m.isImage = true) :
    ∃ spec, m.written.image? = some spec ∧
      m.content = [.image spec.url spec.width spec.height] := by
  cases hw : m.written with
  | image spec =>
    refine ⟨spec, rfl, ?_⟩
    simp [content, isFootnote, hw, Written.formats]
  | text t formats d => simp [isImage, hw, Written.image?] at h

theorem InOrder.ordered
    {length : Nat} {found : List DocMatch} (h : InOrder length found) :
    Splice.Ordered length 0 (found.map splice) := by
  obtain ⟨hinside, hapart⟩ := h
  suffices hlo : ∀ lo : Nat, (∀ m ∈ found.head?, (lo : Int) ≤ m.start) →
      Splice.Ordered length lo (found.map splice) from
    hlo 0 fun m hm => (hinside m (List.mem_of_mem_head? hm)).1
  induction found with
  | nil => exact fun _ _ => trivial
  | cons m rest ih =>
    intro lo hlo
    obtain ⟨h₁, h₂, h₃⟩ := hinside m List.mem_cons_self
    have hstart := hlo m rfl
    refine ⟨?_, ?_, ?_, ?_⟩
    · simp only [splice]
      omega
    · simp only [splice]
      omega
    · simp only [splice]
      omega
    · apply ih (fun n hn => hinside n (List.mem_cons_of_mem m hn)) hapart.tail
      intro n hn
      obtain ⟨hlt, hle⟩ := hapart.rel_head? hn
      simp only [splice]
      omega

end DocMatch

/-! ## Changes of length -/

/-- The map moves positions by the growth of the splices that start before them. -/
def ShiftMap.Tracks {α : Type} (map : ShiftMap) (splices : List (Splice α)) : Prop :=
  ∀ offset, map.move offset = offset + Splice.shiftAt splices offset

namespace ShiftMap

variable {α : Type}

@[simp]
theorem move_nil (offset : Int) : move [] offset = offset :=
  Int.add_zero offset

theorem delta_append (xs ys : ShiftMap) : delta (xs ++ ys) = delta xs + delta ys := by
  induction xs with
  | nil => simp [delta]
  | cons e xs ih => rw [List.cons_append, delta, ih, delta, Int.add_assoc]

theorem move_record (map : ShiftMap) (start old new offset : Int) :
    (record map start old new).move offset =
      map.move offset + if start < offset then new - old else 0 := by
  unfold record
  split
  next heq =>
    subst heq
    simp
  next hne =>
    rw [move, List.filter_append, delta_append, move]
    by_cases hlt : start < offset
    · simp [hlt, delta]
      omega
    · simp [hlt, delta]

theorem move_record_splice (map : ShiftMap) (s : Splice α) (offset : Int) :
    (record map s.start (s.stop - s.start) s.content.length).move offset =
      map.move offset + Splice.shiftAt [s] offset := by
  rw [move_record, Splice.shiftAt_cons]
  simp [Splice.growth]

/-- Splices that are recorded one after the other are tracked. -/
theorem move_foldl_record
    {ι : Type} (f : ι → Splice α) (items : List ι) (map : ShiftMap) (offset : Int) :
    (items.foldl (fun map i =>
      record map (f i).start ((f i).stop - (f i).start) (f i).content.length) map).move offset =
      map.move offset + Splice.shiftAt (items.map f) offset := by
  induction items generalizing map with
  | nil => simp
  | cons i rest ih =>
    have happend := Splice.shiftAt_append [f i] (rest.map f) offset
    rw [List.singleton_append] at happend
    rw [List.foldl_cons, ih, move_record_splice, List.map_cons]
    omega

end ShiftMap

/-! ## A round of batches -/

section Round

variable {σ ι : Type} {s : Session σ} {view : σ → Body}

/-- What holds in the course of a round for the items that are still to be dealt with: they make
the final body out of the present one, and they move positions by what is not yet recorded. -/
structure UnderWay
    (f : ι → Splice BodyUnit) (items : List ι) (body : Body)
    (rest : List ι) (shift : ShiftMap) (now : Body) : Prop where
  mem : ∀ i ∈ rest, i ∈ items
  ordered : Splice.Ordered now.length 0 (rest.reverse.map f)
  replace : Splice.replace now (rest.reverse.map f) = Splice.replace body (items.map f)
  move : ∀ offset, shift.move offset + Splice.shiftAt (rest.reverse.map f) offset =
    offset + Splice.shiftAt (items.map f) offset

namespace UnderWay

variable {f : ι → Splice BodyUnit} {items rest : List ι} {body now : Body} {shift : ShiftMap}

theorem start
    (h : Splice.Ordered body.length 0 (items.map f)) :
    UnderWay f items body items.reverse [] body := by
  refine ⟨fun i hi => List.mem_reverse.1 hi, ?_, ?_, ?_⟩
  · rwa [List.reverse_reverse]
  · rw [List.reverse_reverse]
  · intro offset
    rw [List.reverse_reverse, ShiftMap.move_nil]

theorem bounds
    {i : ι} (h : UnderWay f items body (i :: rest) shift now) :
    (f i).start ≤ (f i).stop ∧ (f i).stop ≤ now.length := by
  have hordered := h.ordered
  rw [List.reverse_cons, List.map_append, List.map_singleton] at hordered
  exact ⟨hordered.concat.2.1, hordered.concat.2.2.1⟩

/-- The next item is the last one of those that are left, so it moves none of the others. -/
theorem step
    {i : ι} (h : UnderWay f items body (i :: rest) shift now) :
    UnderWay f items body rest
      (ShiftMap.record shift (f i).start ((f i).stop - (f i).start) (f i).content.length)
      ((f i).apply now) := by
  obtain ⟨hmem, hordered, hreplace, hmove⟩ := h
  rw [List.reverse_cons, List.map_append, List.map_singleton] at hordered hreplace
  obtain ⟨hrest, hle, hlen, -⟩ := hordered.concat
  refine ⟨fun j hj => hmem j (List.mem_cons_of_mem i hj), ?_, ?_, ?_⟩
  · apply hrest.mono le_rfl
    simp only [Splice.apply, List.length_append, List.length_take]
    omega
  · rw [← hreplace]
    exact (Splice.replaceFrom_concat now hordered (Nat.zero_le 0)).symm
  · intro offset
    have hoffset := hmove offset
    rw [List.reverse_cons, List.map_append, List.map_singleton, Splice.shiftAt_append] at hoffset
    rw [ShiftMap.move_record_splice]
    omega

theorem tracks (h : UnderWay f items body [] shift now) : shift.Tracks (items.map f) := by
  intro offset
  have hoffset := h.move offset
  simpa using hoffset

theorem eq_replace (h : UnderWay f items body [] shift now) :
    now = Splice.replace body (items.map f) := by
  simpa [Splice.replace, Splice.replaceFrom] using h.replace

end UnderWay

/-- Steps that each carry out one splice, the last one first, carry out all of them at once and
record their changes of length. -/
theorem Run.Ensures.splices
    {step : ShiftMap → ι → Run σ ShiftMap} {f : ι → Splice BodyUnit} {items : List ι} {body : Body}
    (h : Splice.Ordered body.length 0 (items.map f))
    (hstep : ∀ i ∈ items, ∀ shift now, (f i).start ≤ (f i).stop → (f i).stop ≤ now.length →
      Ensures s (fun w => view w.state = now) (step shift i) fun shift' w =>
        shift' = ShiftMap.record shift (f i).start ((f i).stop - (f i).start) (f i).content.length ∧
          view w.state = (f i).apply now) :
    Ensures s (fun w => view w.state = body) (items.reverse.foldlM step []) fun shift w =>
      shift.Tracks (items.map f) ∧ view w.state = Splice.replace body (items.map f) := by
  have hround : Ensures s (fun w => UnderWay f items body items.reverse [] (view w.state))
      (items.reverse.foldlM step [])
      (fun shift w => UnderWay f items body [] shift (view w.state)) := by
    apply Ensures.foldlM fun rest shift w => UnderWay f items body rest shift (view w.state)
    intro i rest shift w hw
    obtain ⟨hle, hlen⟩ := hw.bounds
    obtain ⟨shift', w', hrun, rfl, hview⟩ :=
      hstep i (hw.mem i List.mem_cons_self) shift (view w.state) hle hlen w rfl
    refine ⟨_, w', hrun, ?_⟩
    simp only [hview]
    exact hw.step
  intro w hw
  subst hw
  obtain ⟨shift, w', hrun, hdone⟩ := hround w (UnderWay.start h)
  exact ⟨shift, w', hrun, hdone.tracks, hdone.eq_replace⟩

end Round

/-! ## Images and footnotes -/

namespace Session

variable {σ : Type} {s : Session σ} {view : σ → Body}

/-- An image takes the place of a match. -/
theorem ensures_insertImage
    (hs : s.service.Literal view) {t : Splice BodyUnit} {m : DocMatch} {spec : ImageSpec}
    (hstart : m.start = t.start) (hstop : m.stop = t.stop)
    (hcontent : t.content = [.image spec.url spec.width spec.height])
    (shift : ShiftMap) (now : Body) (hle : t.start ≤ t.stop) (hlen : t.stop ≤ now.length) :
    Run.Ensures s (fun w => view w.state = now) (insertImage shift m spec) fun shift' w =>
      shift' = ShiftMap.record shift t.start (t.stop - t.start) t.content.length ∧
        view w.state = t.apply now := by
  have hinsert : Request.carryOutAll? [.insertImage m.start spec.url spec.width spec.height]
      (now.take t.start ++ now.drop t.stop) = some (t.apply now) := by
    rw [Request.carryOutAll?_cons, Request.carryOut?, ← hcontent,
      Request.insert?_removed hstart hle hlen]
    rfl
  have hrecord : ShiftMap.record shift m.start (m.stop - m.start) 1 =
      ShiftMap.record shift t.start (t.stop - t.start) t.content.length := by
    rw [hstart, hstop, hcontent]
    rfl
  have hlast : Run.Ensures s (fun w => view w.state = now.take t.start ++ now.drop t.stop)
      (do
        discard <| Run.update [.insertImage m.start spec.url spec.width spec.height]
        return ShiftMap.record shift m.start (m.stop - m.start) 1)
      fun shift' w =>
        shift' = ShiftMap.record shift t.start (t.stop - t.start) t.content.length ∧
          view w.state = t.apply now :=
    (Run.Ensures.update hs hinsert).discard.bind fun _ =>
      Run.Ensures.pure fun w hw => ⟨hrecord, hw⟩
  have hremoval := Request.carryOutAll?_removal hstart hstop hle hlen
  unfold insertImage
  by_cases hlt : m.start < m.stop
  · rw [if_pos hlt] at hremoval
    simp only [if_pos hlt]
    exact (Run.Ensures.update hs hremoval).discard.bind fun _ => hlast
  · rw [if_neg hlt, Request.carryOutAll?_nil] at hremoval
    simp only [if_neg hlt]
    rw [← Option.some.inj hremoval] at hlast
    exact hlast

/-- The images of a substitution take the places of their matches. -/
theorem ensures_insertImages
    (hs : s.service.Literal view) {images : List DocMatch} {body : Body}
    (h : Splice.Ordered body.length 0 (images.map DocMatch.splice))
    (himages : ∀ m ∈ images, m.isImage = true ∧ 0 ≤ m.start ∧ 0 ≤ m.stop) :
    Run.Ensures s (fun w => view w.state = body) (insertImages images) fun shift w =>
      shift.Tracks (images.map DocMatch.splice) ∧
        view w.state = Splice.replace body (images.map DocMatch.splice) := by
  apply Run.Ensures.splices h
  intro m hm shift now hle hlen
  obtain ⟨himage, hstart, hstop⟩ := himages m hm
  obtain ⟨spec, hspec, hcontent⟩ := DocMatch.exists_image himage
  rw [hspec]
  apply ensures_insertImage hs _ _ hcontent shift now hle hlen
  · simp only [DocMatch.splice]
    omega
  · simp only [DocMatch.splice]
    omega

/-- A footnote reference takes the place of a match.  The text of the footnote goes to a segment of
its own. -/
theorem ensures_insertFootnote
    (hs : s.service.Literal view) {t : Splice BodyUnit} {m : DocMatch} {shifts : List ShiftMap}
    (hstart : ShiftMap.moveThrough shifts m.start = t.start)
    (hstop : ShiftMap.moveThrough shifts m.stop = t.stop)
    (hcontent : t.content = [.footnote])
    (shift : ShiftMap) (now : Body) (hle : t.start ≤ t.stop) (hlen : t.stop ≤ now.length) :
    Run.Ensures s (fun w => view w.state = now) (insertFootnote shifts shift m) fun shift' w =>
      shift' = ShiftMap.record shift t.start (t.stop - t.start) t.content.length ∧
        view w.state = t.apply now := by
  have hcreate : Request.carryOutAll? [.delete t.start t.stop, .createFootnote t.start] now =
      some (t.apply now) := by
    rw [Request.carryOutAll?_cons, Request.delete, Request.carryOut?, Body.delete?,
      if_pos (by simp only []; omega), Option.bind_some, Request.carryOutAll?_cons,
      Request.carryOut?, ← hcontent]
    simp only [Int.toNat_natCast]
    rw [Request.insert?_removed rfl hle hlen]
    rfl
  have hrecord : ShiftMap.record shift t.start (t.stop - t.start) 1 =
      ShiftMap.record shift t.start (t.stop - t.start) t.content.length := by
    rw [hcontent]
    rfl
  have hlast : Run.Ensures s (fun w => view w.state = t.apply now)
      (pure (ShiftMap.record shift t.start (t.stop - t.start) 1)) fun shift' w =>
        shift' = ShiftMap.record shift t.start (t.stop - t.start) t.content.length ∧
          view w.state = t.apply now :=
    Run.Ensures.pure fun w hw => ⟨hrecord, hw⟩
  unfold insertFootnote
  simp only [hstart, hstop]
  refine (Run.Ensures.update hs hcreate).bind fun response => ?_
  by_cases hid : response.footnote.isEmpty = true
  · simp only [hid, Bool.not_true, Bool.false_eq_true, if_false]
    exact hlast
  · have hfill : Request.carryOutAll? [.insertText 1 m.written.newText response.footnote]
        (t.apply now) = some (t.apply now) := by
      rw [Request.carryOutAll?_cons, Request.carryOut?, if_neg hid]
      rfl
    simp only [hid, Bool.not_false, if_true]
    exact (Run.Ensures.update hs hfill).discard.bind fun _ => hlast

/-- The footnotes of a substitution take the places of their matches, which the earlier rounds have
moved. -/
theorem ensures_insertFootnotes
    (hs : s.service.Literal view) {footnotes : List DocMatch} {shifts : List ShiftMap}
    {f : DocMatch → Splice BodyUnit} {body : Body}
    (h : Splice.Ordered body.length 0 (footnotes.map f))
    (hf : ∀ m ∈ footnotes, ShiftMap.moveThrough shifts m.start = (f m).start ∧
      ShiftMap.moveThrough shifts m.stop = (f m).stop ∧ (f m).content = [.footnote]) :
    Run.Ensures s (fun w => view w.state = body) (insertFootnotes shifts footnotes) fun shift w =>
      shift.Tracks (footnotes.map f) ∧
        view w.state = Splice.replace body (footnotes.map f) := by
  apply Run.Ensures.splices h
  intro m hm shift now hle hlen
  obtain ⟨hstart, hstop, hcontent⟩ := hf m hm
  exact ensures_insertFootnote hs hstart hstop hcontent shift now hle hlen

end Session

/-! ## Text -/

namespace Request

theorem exists_of_mem_ofStyle
    {style : TextStyle} {span : Span} {r : Request} (h : r ∈ ofStyle style span) :
    ∃ settings mask, r = .styleText span settings mask := by
  unfold ofStyle at h
  split at h
  · simp at h
  · exact ⟨_, _, List.mem_singleton.1 h⟩

theorem stylesText_of_mem_ofStyle
    {style : TextStyle} {span : Span} {r : Request} (h : r ∈ ofStyle style span) : r.StylesText :=
  ⟨span, exists_of_mem_ofStyle h⟩

/-- A directive styles one part of the text. -/
theorem exists_of_mem_styleByDirective
    {d : Directive} {span : Span} {r : Request} (h : r ∈ styleByDirective d span) :
    ∃ settings mask, r = .styleText span settings mask := by
  unfold styleByDirective at h
  split at h
  · rcases List.mem_cons.1 h with rfl | h
    · exact ⟨_, _, rfl⟩
    · split at h
      · exact exists_of_mem_ofStyle h
      · cases h
  · exact exists_of_mem_ofStyle h

theorem stylesText_of_mem_styleBlocks
    {blocks : List Block} {base : Int} {template : Text} {m : Option Match}
    {requests : List Request} (h : styleBlocks blocks base template m = .ok requests)
    {r : Request} (hr : r ∈ requests) :
    r.StylesText := by
  obtain ⟨parts, hparts, h⟩ := exists_of_bind_eq_ok h
  cases h
  obtain ⟨part, hpart, hr⟩ := List.mem_flatten.1 hr
  obtain ⟨b, -, hb⟩ := exists_of_mem_forall₂ (forall₂_of_mapM_eq_ok hparts) hpart
  unfold styleInserted at hb
  split at hb
  · obtain ⟨start, -, hb⟩ := exists_of_bind_eq_ok hb
    obtain ⟨stop, -, hb⟩ := exists_of_bind_eq_ok hb
    cases hb
    split at hr
    · exact ⟨_, exists_of_mem_styleByDirective hr⟩
    · simp at hr
  · cases hb
    simp at hr

end Request

namespace Edit

theorem stylesText_of_mem_style
    {e : Expression} {m : DocMatch} {formats : List Format} {span : Span}
    {requests : List Request} (h : style e m formats span = .ok requests)
    {r : Request} (hr : r ∈ requests) :
    r.StylesText := by
  unfold style at h
  split at h
  · obtain ⟨blocks, hblocks, h⟩ := exists_of_bind_eq_ok h
    cases h
    rcases List.mem_append.1 hr with hr | hr
    · exact ⟨_, Request.exists_of_mem_styleByDirective hr⟩
    · exact Request.stylesText_of_mem_styleBlocks (eq_ok_of_mapError_eq_ok hblocks) hr
  · cases h
    exact Request.stylesText_of_mem_ofStyle hr

/-- The edit carries out a splice of the body and knows its changes of length. -/
structure CarriesOut (edit : Edit) (t : Splice BodyUnit) : Prop where
  anchor : edit.group.anchor = t.start
  old : edit.old = t.stop - t.start
  new : edit.new = t.content.length
  requests : ∀ body : Body, t.start ≤ t.stop → t.stop ≤ body.length →
    Request.carryOutAll? edit.group.requests body = some (t.apply body)

/-- Old text is taken out, new text is put in its place, and then only styles follow. -/
theorem carryOutAll?_group
    {t : Splice BodyUnit} {start stop : Int} {text : Text} {styles : List Request}
    (hstart : start = t.start) (hstop : stop = t.stop) (hcontent : t.content = Body.ofText text)
    (hstyles : ∀ body, Request.carryOutAll? styles body = some body)
    (body : Body) (hle : t.start ≤ t.stop) (hlen : t.stop ≤ body.length) :
    Request.carryOutAll? ((if start < stop then [.delete start stop] else []) ++
      .insert start text :: styles) body = some (t.apply body) := by
  rw [Request.carryOutAll?_append, Request.carryOutAll?_removal hstart hstop hle hlen,
    Option.bind_some, Request.carryOutAll?_cons, Request.insert, Request.carryOut?,
    if_pos List.isEmpty_nil, ← hcontent, Request.insert?_removed hstart hle hlen,
    Option.bind_some, hstyles]

/-- The edit for a match that becomes text. -/
theorem ofMatch_carriesOut
    {e : Expression} {previous : ShiftMap} {m : DocMatch} {edit : Edit} {t : Splice BodyUnit}
    (h : ofMatch e previous m = .ok edit) (hregular : m.isRegular = true)
    (hstart : previous.move m.start = t.start) (hstop : previous.move m.stop = t.stop)
    (hcontent : t.content = m.content) :
    edit.CarriesOut t := by
  obtain ⟨text, formats, d, hwritten⟩ : ∃ text formats d, m.written = .text text formats d := by
    cases hw : m.written with
    | image spec => simp [DocMatch.isRegular, DocMatch.isImage, hw, Written.image?] at hregular
    | text text formats d => exact ⟨text, formats, d, rfl⟩
  have hfootnote : m.isFootnote = false := by
    simpa [DocMatch.isRegular, DocMatch.isImage, hwritten, Written.image?] using hregular
  have hwhole : t.content =
      if formats.contains .rule then Body.ofText ['\n'] else Body.ofText text := by
    rw [hcontent, DocMatch.content, hfootnote, hwritten]
    rfl
  simp only [ofMatch, hwritten, Written.formats, Written.newText, hstart, hstop] at h
  split at h
  next hrule =>
    cases h
    rw [if_pos hrule] at hwhole
    refine ⟨rfl, rfl, ?_, ?_⟩
    · simp [hwhole, charUnits]
    · exact carryOutAll?_group rfl rfl hwhole fun body => rfl
  next hrule =>
    rw [if_neg hrule] at hwhole
    split at h
    next hempty =>
      cases h
      rw [List.isEmpty_iff.1 hempty] at hwhole
      refine ⟨rfl, rfl, ?_, ?_⟩
      · simp [hwhole]
      · intro body hle hlen
        rw [Request.carryOutAll?_removal rfl rfl hle hlen, Splice.apply, hwhole]
        simp [Body.ofText]
    next =>
      split at h
      · cases h
        refine ⟨rfl, rfl, ?_, ?_⟩
        · simp [hwhole]
        · exact carryOutAll?_group rfl rfl hwhole fun body => rfl
      · obtain ⟨styles, hstyles, h⟩ := exists_of_bind_eq_ok h
        cases h
        refine ⟨rfl, rfl, ?_, ?_⟩
        · simp [hwhole]
        · intro body hle hlen
          rw [List.append_assoc]
          exact carryOutAll?_group rfl rfl hwhole
            (Request.carryOutAll?_styles fun r hr => stylesText_of_mem_style hstyles hr)
            body hle hlen

/-- The text that an edit leaves for styles and extras stands at its anchor. -/
theorem ofMatch_range
    {e : Expression} {previous : ShiftMap} {m : DocMatch} {edit : Edit}
    (h : ofMatch e previous m = .ok edit) (hregular : m.isRegular = true) :
    if m.leavesRange then
      ∃ r, edit.range = some r ∧ r.start = previous.move m.start ∧
        r.length = m.written.newText.units
    else edit.range = none := by
  simp only [ofMatch] at h
  simp only [DocMatch.leavesRange, hregular, Bool.true_and]
  split at h
  next hrule =>
    cases h
    simp only [hrule, Bool.not_true, Bool.false_and, Bool.false_eq_true, if_false]
  next hrule =>
    split at h
    next hempty =>
      cases h
      simp [hempty]
    next hempty =>
      split at h
      next hplain =>
        cases h
        simp [hplain]
      next hplain =>
        obtain ⟨styles, -, h⟩ := exists_of_bind_eq_ok h
        cases h
        simp only [hrule, hempty, hplain, Bool.not_false, Bool.and_true, if_true]
        exact ⟨_, rfl, rfl, rfl⟩

end Edit

namespace EditGroup

variable {α : Type}

theorem place_of_forall_lt
    {g : EditGroup α} {groups : List (EditGroup α)} (h : ∀ k ∈ groups, g.anchor < k.anchor) :
    place g groups = groups ++ [g] := by
  induction groups with
  | nil => rfl
  | cons k rest ih =>
    have hk := h k List.mem_cons_self
    rw [place, if_neg (by omega), ih fun j hj => h j (List.mem_cons_of_mem k hj)]
    rfl

/-- Groups with increasing anchors are sent from the last one to the first. -/
theorem sort_eq_reverse
    {groups : List (EditGroup α)} (h : groups.Pairwise fun a b => a.anchor < b.anchor) :
    sort groups = groups.reverse := by
  induction groups with
  | nil => rfl
  | cons g rest ih =>
    obtain ⟨hg, hrest⟩ := List.pairwise_cons.1 h
    show place g (sort rest) = _
    rw [ih hrest, place_of_forall_lt fun k hk => hg k (List.mem_reverse.1 hk),
      List.reverse_cons]

end EditGroup

namespace Edit

section Batch

variable {splices : List (Splice BodyUnit)} {edits : List Edit}

theorem pairwise_anchor
    {hi lo : Nat} (h : List.Forall₂ (fun t edit => edit.CarriesOut t) splices edits)
    (hordered : Splice.Ordered hi lo splices) :
    (edits.map (·.group)).Pairwise fun a b => a.anchor < b.anchor := by
  induction h generalizing lo with
  | nil => exact .nil
  | @cons t edit splices edits hedit hrest ih =>
    obtain ⟨-, h₂, -, h₄⟩ := hordered
    refine .cons ?_ (ih h₄)
    intro g hg
    obtain ⟨other, hother, rfl⟩ := List.mem_map.1 hg
    obtain ⟨u, hu, hcarries⟩ := exists_of_mem_forall₂ hrest hother
    have hlo := h₄.le_start hu
    rw [hedit.anchor, hcarries.anchor]
    omega

/-- The requests of edits, sent from the last edit to the first, carry out all their splices. -/
theorem carryOutAll?_reverse
    {lo : Nat} {body : Body} (h : List.Forall₂ (fun t edit => edit.CarriesOut t) splices edits)
    (hordered : Splice.Ordered body.length lo splices) :
    Request.carryOutAll? ((edits.map (·.group)).reverse.flatMap (·.requests)) body =
      some (Splice.replace body splices) := by
  rw [Splice.replace, ← Splice.foldr_apply_eq_replaceFrom body hordered]
  induction h generalizing lo with
  | nil => rfl
  | @cons t edit splices edits hedit hrest ih =>
    obtain ⟨-, h₂, h₃, h₄⟩ := hordered
    have hroom : t.stop ≤ (splices.foldr Splice.apply body).length := by
      have hlen := Splice.length_replaceFrom body h₄ (Nat.zero_le _) (Nat.zero_le _)
      have hsum := h₄.sub_le_totalGrowth (le_max_left _ _) h₃
      rw [Splice.foldr_apply_eq_replaceFrom body h₄]
      omega
    rw [List.map_cons, List.reverse_cons, List.flatMap_append, Request.carryOutAll?_append, ih h₄,
      Option.bind_some, List.flatMap_singleton, hedit.requests _ h₂ hroom, List.foldr_cons]

theorem carryOutAll?_requests
    {body : Body} (h : List.Forall₂ (fun t edit => edit.CarriesOut t) splices edits)
    (hordered : Splice.Ordered body.length 0 splices) :
    Request.carryOutAll? (requests edits) body = some (Splice.replace body splices) := by
  rw [requests, EditGroup.order, EditGroup.sort_eq_reverse (pairwise_anchor h hordered)]
  exact carryOutAll?_reverse h hordered

theorem shift_tracks
    (h : List.Forall₂ (fun t edit => edit.CarriesOut t) splices edits) :
    (shift edits).Tracks splices := by
  have hfold : ∀ map : ShiftMap,
      edits.foldl (fun map edit =>
        ShiftMap.record map edit.group.anchor edit.old edit.new) map =
      splices.foldl (fun map t =>
        ShiftMap.record map t.start (t.stop - t.start) t.content.length) map := by
    induction h with
    | nil => exact fun _ => rfl
    | @cons t edit splices edits hedit hrest ih =>
      intro map
      rw [List.foldl_cons, List.foldl_cons, ih, hedit.anchor, hedit.old, hedit.new]
  intro offset
  rw [shift, hfold]
  exact (ShiftMap.move_foldl_record (fun t => t) splices [] offset).trans (by simp)

end Batch

end Edit

end Redline
