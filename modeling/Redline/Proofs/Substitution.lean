import Redline.Proofs.Rounds
import Redline.Proofs.Template

/-!
# Substitutions replace every match in its place

A substitution changes the body in three rounds of batches: images, text, and footnotes.  Each round
finds the positions of its matches by the changes of length of the rounds before it.  On a service
that carries requests out to the letter the three rounds together leave the body in which every
match is replaced by its own content, all at once, and the texts that are still to be styled stand
where the recorded changes of length move them.
-/

namespace Redline

/-! ## Edits for all matches -/

namespace Request

theorem exists_offsetOf
    {m : Match} {template text : Text} (h : Template.expand (some m) template = .ok text)
    (place : Nat) :
    ∃ n, offsetOf (some m) template place = .ok n := by
  obtain ⟨part, hpart⟩ := Template.exists_expand_take h place
  rw [offsetOf, Template.render, hpart]
  exact ⟨_, rfl⟩

theorem exists_styleBlocks
    {m : Match} {template text : Text} (h : Template.expand (some m) template = .ok text)
    (blocks : List Block) (base : Int) :
    ∃ requests, styleBlocks blocks base template (some m) = .ok requests := by
  have hblocks : ∀ b ∈ blocks, ∃ requests,
      styleInserted base template (some m) b = .ok requests := by
    intro b _
    unfold styleInserted
    split
    next stop _ =>
      obtain ⟨start', hstart⟩ := exists_offsetOf h b.start
      obtain ⟨stop', hstop⟩ := exists_offsetOf h stop
      rw [hstart, hstop]
      exact ⟨_, rfl⟩
    next => exact ⟨_, rfl⟩
  obtain ⟨parts, hparts⟩ := exists_mapM_eq_ok hblocks
  rw [styleBlocks, hparts]
  exact ⟨_, rfl⟩

/-- Whether there are styles for the texts of blocks does not depend on where the texts stand. -/
theorem exists_styleBlocks_of_ok
    {blocks : List Block} {base : Int} {template : Text} {m : Option Match}
    {requests : List Request} (h : styleBlocks blocks base template m = .ok requests)
    (base' : Int) :
    ∃ requests', styleBlocks blocks base' template m = .ok requests' := by
  obtain ⟨parts, hparts, -⟩ := exists_of_bind_eq_ok h
  have hblocks : ∀ b ∈ blocks, ∃ part, styleInserted base' template m b = .ok part := by
    intro b hb
    obtain ⟨part, -, hpart⟩ := exists_of_mem_forall₂ (forall₂_of_mapM_eq_ok hparts).flip hb
    unfold styleInserted at hpart ⊢
    split at hpart
    next stop hextent =>
      obtain ⟨start', hstart, hpart⟩ := exists_of_bind_eq_ok hpart
      obtain ⟨stop', hstop, -⟩ := exists_of_bind_eq_ok hpart
      rw [hstart, hstop]
      exact ⟨_, rfl⟩
    next => exact ⟨_, rfl⟩
  obtain ⟨parts', hparts'⟩ := exists_mapM_eq_ok hblocks
  rw [styleBlocks, hparts']
  exact ⟨_, rfl⟩

end Request

namespace Edit

variable {e : Expression} {m : DocMatch}

theorem exists_ofMatch_of_style
    (hstyle : ∀ formats span, ∃ requests, style e m formats span = .ok requests)
    (previous : ShiftMap) :
    ∃ edit, ofMatch e previous m = .ok edit := by
  simp only [ofMatch]
  split
  · exact ⟨_, rfl⟩
  · split
    · exact ⟨_, rfl⟩
    · split
      · exact ⟨_, rfl⟩
      · obtain ⟨requests, hrequests⟩ := hstyle _ _
        rw [hrequests]
        exact ⟨_, rfl⟩

/-- There is an edit for a match when the template expands against it. -/
theorem exists_ofMatch
    {text : Text} (h : Template.expand (some m.found) e.replacement = .ok text)
    (previous : ShiftMap) :
    ∃ edit, ofMatch e previous m = .ok edit := by
  refine exists_ofMatch_of_style (fun formats span => ?_) previous
  unfold style
  split
  · obtain ⟨requests, hrequests⟩ := Request.exists_styleBlocks h e.blocks span.start
    rw [hrequests]
    exact ⟨_, rfl⟩
  · exact ⟨_, rfl⟩

/-- Whether there is an edit for a match does not depend on what has moved it. -/
theorem exists_ofMatch_of_ok
    {previous : ShiftMap} {edit : Edit} (h : ofMatch e previous m = .ok edit)
    (previous' : ShiftMap) :
    ∃ edit', ofMatch e previous' m = .ok edit' := by
  simp only [ofMatch] at h
  split at h
  next hrule => exact ⟨_, by simp only [ofMatch, if_pos hrule]; rfl⟩
  next hrule =>
    split at h
    next hempty => exact ⟨_, by simp only [ofMatch, if_neg hrule, if_pos hempty]; rfl⟩
    next hempty =>
      split at h
      next hplain =>
        exact ⟨_, by simp only [ofMatch, if_neg hrule, if_neg hempty, if_pos hplain]; rfl⟩
      next =>
        obtain ⟨styles, hstyles, -⟩ := exists_of_bind_eq_ok h
        refine exists_ofMatch_of_style (fun formats span => ?_) previous'
        unfold style at hstyles ⊢
        split at hstyles
        · obtain ⟨blocks, hblocks, -⟩ := exists_of_bind_eq_ok hstyles
          obtain ⟨blocks', hblocks'⟩ := Request.exists_styleBlocks_of_ok
            (eq_ok_of_mapError_eq_ok hblocks) span.start
          rw [hblocks']
          exact ⟨_, rfl⟩
        · exact ⟨_, rfl⟩

theorem forall₂_carriesOut
    {e : Expression} {previous : ShiftMap} {found : List DocMatch} {edits : List Edit}
    {f : DocMatch → Splice BodyUnit} (h : compile e previous found = .ok edits)
    (hf : ∀ m ∈ found, m.isRegular = true ∧ previous.move m.start = (f m).start ∧
      previous.move m.stop = (f m).stop ∧ (f m).content = m.content) :
    List.Forall₂ (fun t edit => edit.CarriesOut t) (found.map f) edits := by
  rw [List.forall₂_map_left_iff]
  have hboth := (List.forall₂_and_left _ _).2 ⟨hf, forall₂_of_mapM_eq_ok h⟩
  refine hboth.imp ?_
  rintro m edit ⟨⟨hregular, hstart, hstop, hcontent⟩, hedit⟩
  exact ofMatch_carriesOut hedit hregular hstart hstop hcontent

/-- The texts that edits leave for styles and extras, one for each match that asks for them. -/
theorem forall₂_ranges
    {e : Expression} {previous : ShiftMap} {found : List DocMatch} {edits : List Edit}
    (h : compile e previous found = .ok edits) (hregular : ∀ m ∈ found, m.isRegular = true) :
    List.Forall₂
      (fun m r => r.start = previous.move m.start ∧ r.length = m.written.newText.units)
      (found.filter (·.leavesRange)) (ranges edits) := by
  have hedits := (List.forall₂_and_left _ _).2 ⟨hregular, forall₂_of_mapM_eq_ok h⟩
  clear h hregular
  induction hedits with
  | nil => exact .nil
  | @cons m edit found edits hm hrest ih =>
    have hrange := ofMatch_range hm.2 hm.1
    rw [ranges]
    split at hrange
    next hleaves =>
      obtain ⟨r, hr, hstart, hlength⟩ := hrange
      rw [List.filter_cons_of_pos hleaves, List.filterMap_cons_some hr]
      exact .cons ⟨hstart, hlength⟩ ih
    next hleaves =>
      rw [List.filter_cons_of_neg hleaves, List.filterMap_cons_none hrange]
      exact ih

end Edit

/-! ## The three rounds -/

namespace DocMatch

/-- The text is the one of the match, and it starts where the part of the body before the match ends
once all matches are replaced. -/
def WrittenAt (body : Body) (found : List DocMatch) (m : DocMatch) (r : FormatRange) : Prop :=
  ∃ before after rest, found = before ++ m :: after ∧
    Splice.replace body (found.map splice) =
      Splice.replace (body.take m.start.toNat) (before.map splice) ++
        Body.ofText m.written.newText ++ rest ∧
    r.start = (Splice.replace (body.take m.start.toNat) (before.map splice)).length ∧
    r.length = m.written.newText.units

/-- The body that the images have left. -/
def bodyWithImages (body : Body) (found : List DocMatch) : Body :=
  Splice.replace body ((found.filter (·.isImage)).map splice)

/-- A match as a splice of the body that the images have left. -/
def afterImages (found : List DocMatch) (m : DocMatch) : Splice BodyUnit :=
  Splice.moved ((found.filter (·.isImage)).map splice) m.splice

/-- The body that the images and the text have left. -/
def bodyWithText (body : Body) (found : List DocMatch) : Body :=
  Splice.replace (bodyWithImages body found)
    ((found.filter (·.isRegular)).map (afterImages found))

/-- A match as a splice of the body that the images and the text have left. -/
def afterText (found : List DocMatch) (m : DocMatch) : Splice BodyUnit :=
  Splice.moved ((found.filter (·.isRegular)).map (afterImages found)) (afterImages found m)

theorem isImage_eq_false_of_isFootnote {m : DocMatch} (h : m.isFootnote = true) :
    m.isImage = false := by
  unfold isFootnote at h
  unfold isImage
  cases hw : m.written with
  | image spec => simp [hw, Written.formats] at h
  | text t formats d => rfl

theorem isImage_eq_false_of_isRegular {m : DocMatch} (h : m.isRegular = true) :
    m.isImage = false := by
  simp only [isRegular, Bool.and_eq_true, Bool.not_eq_true'] at h
  exact h.1

theorem content_of_leavesRange {m : DocMatch} (h : m.leavesRange = true) :
    m.content = Body.ofText m.written.newText := by
  simp only [leavesRange, isRegular, Bool.and_eq_true, Bool.not_eq_true'] at h
  obtain ⟨⟨⟨⟨himage, hfootnote⟩, hrule⟩, -⟩, -⟩ := h
  rw [content, hfootnote]
  cases hw : m.written with
  | image spec => simp [isImage, hw, Written.image?] at himage
  | text t formats d =>
    rw [hw, Written.formats] at hrule
    simp only [hrule, Bool.false_eq_true, if_false, Written.newText]

/-- The text comes in the second round, which is the first one for all that is no image. -/
theorem filter_isRegular (found : List DocMatch) :
    found.filter (·.isRegular) = (found.filter (!·.isImage)).filter (·.isRegular) := by
  rw [List.filter_filter]
  congr 1
  funext m
  cases himage : m.isImage with
  | true => simp [isRegular, himage]
  | false => simp

theorem filter_isFootnote (found : List DocMatch) :
    found.filter (·.isFootnote) = (found.filter (!·.isImage)).filter (!·.isRegular) := by
  rw [List.filter_filter]
  congr 1
  funext m
  cases hfootnote : m.isFootnote with
  | true => simp [isRegular, hfootnote, isImage_eq_false_of_isFootnote hfootnote]
  | false => simp [isRegular, hfootnote]

theorem filter_leavesRange (found : List DocMatch) :
    found.filter (·.leavesRange) = (found.filter (·.isRegular)).filter (·.leavesRange) := by
  rw [List.filter_filter]
  congr 1
  funext m
  cases hregular : m.isRegular with
  | true => simp
  | false => simp [leavesRange, hregular]

namespace InOrder

variable {found : List DocMatch} {body : Body}

theorem ordered_images (h : InOrder body.length found) :
    Splice.Ordered body.length 0 ((found.filter (·.isImage)).map splice) :=
  h.ordered.map_filter splice (·.isImage)

theorem ordered_afterImages (h : InOrder body.length found) :
    Splice.Ordered (Splice.replace body ((found.filter (·.isImage)).map splice)).length 0
      ((found.filter (!·.isImage)).map (afterImages found)) :=
  Splice.ordered_second_round splice (·.isImage) body h.ordered

theorem replace_afterImages (h : InOrder body.length found) :
    Splice.replace (Splice.replace body ((found.filter (·.isImage)).map splice))
        ((found.filter (!·.isImage)).map (afterImages found)) =
      Splice.replace body (found.map splice) :=
  Splice.replace_moved splice (·.isImage) body h.ordered

theorem ordered_text (h : InOrder body.length found) :
    Splice.Ordered (Splice.replace body ((found.filter (·.isImage)).map splice)).length 0
      ((found.filter (·.isRegular)).map (afterImages found)) := by
  rw [filter_isRegular]
  exact h.ordered_afterImages.map_filter (afterImages found) (·.isRegular)

theorem ordered_footnotes (h : InOrder body.length found) :
    Splice.Ordered
      (Splice.replace (Splice.replace body ((found.filter (·.isImage)).map splice))
        ((found.filter (·.isRegular)).map (afterImages found))).length 0
      ((found.filter (·.isFootnote)).map (afterText found)) := by
  unfold afterText
  rw [filter_isRegular, filter_isFootnote]
  exact Splice.ordered_second_round (afterImages found) (·.isRegular) _ h.ordered_afterImages

theorem replace_three_rounds (h : InOrder body.length found) :
    Splice.replace
        (Splice.replace (Splice.replace body ((found.filter (·.isImage)).map splice))
          ((found.filter (·.isRegular)).map (afterImages found)))
        ((found.filter (·.isFootnote)).map (afterText found)) =
      Splice.replace body (found.map splice) := by
  unfold afterText
  rw [filter_isRegular, filter_isFootnote]
  exact (Splice.replace_moved (afterImages found) (·.isRegular) _ h.ordered_afterImages).trans
    h.replace_afterImages

section Positions

variable {imageShift textShift footnoteShift : ShiftMap} {m : DocMatch}

theorem coe_start (h : InOrder body.length found) (hm : m ∈ found) :
    (m.splice.start : Int) = m.start :=
  Int.toNat_of_nonneg (h.inside m hm).1

theorem coe_stop (h : InOrder body.length found) (hm : m ∈ found) :
    (m.splice.stop : Int) = m.stop := by
  obtain ⟨hstart, hstop, -⟩ := h.inside m hm
  exact Int.toNat_of_nonneg (Int.le_trans hstart hstop)

theorem move_start
    (h : InOrder body.length found)
    (himages : imageShift.Tracks ((found.filter (·.isImage)).map splice)) (hm : m ∈ found) :
    imageShift.move m.start = (afterImages found m).start := by
  rw [himages, ← h.coe_start hm]
  exact (Splice.moved_start splice (·.isImage) h.ordered hm).symm

theorem move_stop
    (h : InOrder body.length found)
    (himages : imageShift.Tracks ((found.filter (·.isImage)).map splice)) (hm : m ∈ found)
    (himage : m.isImage = false) :
    imageShift.move m.stop = (afterImages found m).stop := by
  rw [himages, ← h.coe_stop hm]
  exact (Splice.moved_stop splice (·.isImage) h.ordered hm himage).symm

theorem mem_filter_not_isImage (hm : m ∈ found) (himage : m.isImage = false) :
    m ∈ found.filter (!·.isImage) :=
  List.mem_filter.2 ⟨hm, by simp [himage]⟩

theorem moveThrough_start
    (h : InOrder body.length found)
    (himages : imageShift.Tracks ((found.filter (·.isImage)).map splice))
    (htext : textShift.Tracks ((found.filter (·.isRegular)).map (afterImages found)))
    (hm : m ∈ found) (himage : m.isImage = false) :
    ShiftMap.moveThrough [imageShift, textShift] m.start = (afterText found m).start := by
  have hmem := mem_filter_not_isImage hm himage
  show textShift.move (imageShift.move m.start) = _
  rw [h.move_start himages hm, htext, afterText, filter_isRegular]
  exact (Splice.moved_start (afterImages found) (·.isRegular) h.ordered_afterImages hmem).symm

theorem moveThrough_stop
    (h : InOrder body.length found)
    (himages : imageShift.Tracks ((found.filter (·.isImage)).map splice))
    (htext : textShift.Tracks ((found.filter (·.isRegular)).map (afterImages found)))
    (hm : m ∈ found) (hfootnote : m.isFootnote = true) :
    ShiftMap.moveThrough [imageShift, textShift] m.stop = (afterText found m).stop := by
  have himage := isImage_eq_false_of_isFootnote hfootnote
  have hregular : m.isRegular = false := by
    simp [isRegular, hfootnote]
  have hmem := mem_filter_not_isImage hm himage
  show textShift.move (imageShift.move m.stop) = _
  rw [h.move_stop himages hm himage, htext, afterText, filter_isRegular]
  exact (Splice.moved_stop (afterImages found) (·.isRegular) h.ordered_afterImages hmem
    hregular).symm

/-- The recorded changes of length, round by round, move the start of a match by the growth of all
matches before it. -/
theorem moveThrough_move_start
    (h : InOrder body.length found)
    (himages : imageShift.Tracks ((found.filter (·.isImage)).map splice))
    (htext : textShift.Tracks ((found.filter (·.isRegular)).map (afterImages found)))
    (hfootnotes : footnoteShift.Tracks ((found.filter (·.isFootnote)).map (afterText found)))
    (hm : m ∈ found) (himage : m.isImage = false) :
    ShiftMap.moveThrough [textShift, footnoteShift] (imageShift.move m.start) =
      m.splice.start + Splice.shiftAt (found.map splice) m.splice.start := by
  have hmem := mem_filter_not_isImage hm himage
  have hstart := Splice.moved_start splice (·.isImage) h.ordered hm
  have hlast := Splice.shiftAt_two_rounds (afterImages found) (·.isRegular)
    h.ordered_afterImages hmem
  have hfirst := Splice.shiftAt_two_rounds splice (·.isImage) h.ordered hm
  rw [← filter_isRegular, ← filter_isFootnote] at hlast
  show footnoteShift.move (textShift.move (imageShift.move m.start)) = _
  rw [h.move_start himages hm, hfootnotes, htext]
  have hone : ((afterImages found m).start : Int) = m.splice.start +
      Splice.shiftAt ((found.filter (·.isImage)).map splice) m.splice.start := hstart
  rw [← hone] at hfirst
  change _ + Splice.shiftAt ((found.filter (!·.isImage)).map (afterImages found)) _ = _ at hfirst
  change _ + Splice.shiftAt ((found.filter (·.isFootnote)).map (afterText found)) _ = _ at hlast
  omega

end Positions

theorem writtenAt
    {m : DocMatch} {r : FormatRange} (h : InOrder body.length found) (hm : m ∈ found)
    (hleaves : m.leavesRange = true)
    (hstart : r.start = m.splice.start + Splice.shiftAt (found.map splice) m.splice.start)
    (hlength : r.length = m.written.newText.units) :
    WrittenAt body found m r := by
  obtain ⟨before, after, rfl⟩ := List.append_of_mem hm
  have hordered := h.ordered
  rw [List.map_append, List.map_cons] at hordered hstart
  refine ⟨before, after, Splice.replaceFrom body m.splice.stop (after.map splice), rfl, ?_, ?_,
    hlength⟩
  · rw [← content_of_leavesRange hleaves, List.map_append, List.map_cons]
    exact Splice.replaceFrom_split body hordered
  · rw [hstart]
    exact (Splice.length_replaceFrom_before body hordered).symm

section Edits

variable {imageShift footnoteShift : ShiftMap} {e : Expression} {edits : List Edit}
  (h : InOrder body.length found)
  (himages : imageShift.Tracks ((found.filter (·.isImage)).map splice))
  (hedits : Edit.compile e imageShift (found.filter (·.isRegular)) = .ok edits)
include h himages hedits

/-- The edits of the second round take the places that the images have left to their matches. -/
theorem forall₂_carriesOut :
    List.Forall₂ (fun t edit => edit.CarriesOut t)
      ((found.filter (·.isRegular)).map (afterImages found)) edits := by
  refine Edit.forall₂_carriesOut hedits fun m hm => ?_
  obtain ⟨hm, hregular⟩ := List.mem_filter.1 hm
  have himage := isImage_eq_false_of_isRegular hregular
  exact ⟨hregular, h.move_start himages hm, h.move_stop himages hm himage, rfl⟩

/-- A range was recorded before the footnotes, so it has two more shifts to follow. -/
theorem forall₂_writtenAt
    (hfootnotes : footnoteShift.Tracks ((found.filter (·.isFootnote)).map (afterText found))) :
    List.Forall₂ (WrittenAt body found) (found.filter (·.leavesRange))
      ((Edit.ranges edits).map (·.moveThrough [Edit.shift edits, footnoteShift])) := by
  have htext := Edit.shift_tracks (h.forall₂_carriesOut himages hedits)
  rw [List.forall₂_map_right_iff, filter_leavesRange]
  have hranges := (List.forall₂_and_left _ _).2 ⟨fun m hm => List.mem_filter.1 hm,
    Edit.forall₂_ranges hedits fun m hm => (List.mem_filter.1 hm).2⟩
  refine hranges.imp ?_
  rintro m r ⟨⟨hm, hleaves⟩, hstart, hlength⟩
  obtain ⟨hm, hregular⟩ := List.mem_filter.1 hm
  have himage := isImage_eq_false_of_isRegular hregular
  refine h.writtenAt hm hleaves ?_ hlength
  rw [FormatRange.moveThrough, hstart]
  exact h.moveThrough_move_start himages htext hfootnotes hm himage

end Edits

end InOrder

end DocMatch

namespace Session

variable {σ : Type} {s : Session σ} {view : σ → Body}

section Rounds

variable (hs : s.service.Literal view) {e : Expression} {found : List DocMatch} {body : Body}
  (hfound : DocMatch.InOrder body.length found) {imageShift : ShiftMap} {edits : List Edit}
include hs hfound

/-- The first round leaves a shift that tracks the images, by which the others are placed. -/
theorem ensures_imageRound :
    Run.Ensures s (fun w => view w.state = body) (insertImages (found.filter (·.isImage)))
      fun shift w => shift.Tracks ((found.filter (·.isImage)).map DocMatch.splice) ∧
        view w.state = DocMatch.bodyWithImages body found := by
  refine ensures_insertImages hs hfound.ordered_images fun m hm => ?_
  obtain ⟨hm, himage⟩ := List.mem_filter.1 hm
  obtain ⟨hstart, hstop, -⟩ := hfound.inside m hm
  exact ⟨himage, hstart, Int.le_trans hstart hstop⟩

variable (himages : imageShift.Tracks ((found.filter (·.isImage)).map DocMatch.splice))
  (hedits : Edit.compile e imageShift (found.filter (·.isRegular)) = .ok edits)
include himages hedits

theorem ensures_textRound :
    Run.Ensures s (fun w => view w.state = DocMatch.bodyWithImages body found)
      (Run.update (Edit.requests edits))
      fun _ w => view w.state = DocMatch.bodyWithText body found :=
  Run.Ensures.update hs
    (Edit.carryOutAll?_requests (hfound.forall₂_carriesOut himages hedits) hfound.ordered_text)

theorem ensures_footnoteRound :
    Run.Ensures s (fun w => view w.state = DocMatch.bodyWithText body found)
      (insertFootnotes [imageShift, Edit.shift edits] (found.filter (·.isFootnote)))
      fun shift w =>
        shift.Tracks ((found.filter (·.isFootnote)).map (DocMatch.afterText found)) ∧
          view w.state = Splice.replace body (found.map DocMatch.splice) := by
  have htext := Edit.shift_tracks (hfound.forall₂_carriesOut himages hedits)
  have hmoved : ∀ m ∈ found.filter (·.isFootnote),
      ShiftMap.moveThrough [imageShift, Edit.shift edits] m.start =
          (DocMatch.afterText found m).start ∧
        ShiftMap.moveThrough [imageShift, Edit.shift edits] m.stop =
          (DocMatch.afterText found m).stop ∧
        (DocMatch.afterText found m).content = [.footnote] := by
    intro m hm
    obtain ⟨hm, hfootnote⟩ := List.mem_filter.1 hm
    have himage := DocMatch.isImage_eq_false_of_isFootnote hfootnote
    exact ⟨hfound.moveThrough_start himages htext hm himage,
      hfound.moveThrough_stop himages htext hm hfootnote, if_pos hfootnote⟩
  rw [← hfound.replace_three_rounds]
  exact ensures_insertFootnotes hs hfound.ordered_footnotes hmoved

end Rounds

section Replacement

variable {α : Type} {e : Expression} {found : List DocMatch} {style : List Edit → Run σ α}
  {w w' : World σ}

/-- There is an edit for each match when the matches are replaced. -/
theorem exists_ofMatch_of_replaceMatches {result : α × List FormatRange}
    (h : (replaceMatches e found style).execute s w = (.ok result, w')) :
    ∀ m ∈ found, m.isRegular = true → ∃ edit, Edit.ofMatch e [] m = .ok edit := by
  intro m hm hregular
  obtain ⟨imageShift, w₁, -, h⟩ := Run.exists_of_execute_bind h
  obtain ⟨edits, w₂, hedits, -⟩ := Run.exists_of_execute_bind h
  have hcompile : Edit.compile e imageShift (found.filter (·.isRegular)) = .ok edits := by
    cases hresult : Edit.compile e imageShift (found.filter (·.isRegular)) with
    | error limit =>
      rw [hresult] at hedits
      cases hedits
    | ok edits' =>
      rw [hresult] at hedits
      cases hedits
      rfl
  obtain ⟨edit, -, hedit⟩ := exists_of_mem_forall₂ (forall₂_of_mapM_eq_ok hcompile).flip
    (List.mem_filter.2 ⟨hm, hregular⟩)
  exact Edit.exists_ofMatch_of_ok hedit []

theorem ensures_replaceMatches
    (hs : s.service.Literal view) {body : Body} (hfound : DocMatch.InOrder body.length found)
    (hstyle : ∀ shift edits, Edit.compile e shift (found.filter (·.isRegular)) = .ok edits →
      Run.Ensures s (fun w => view w.state = DocMatch.bodyWithText body found) (style edits)
        fun _ w => view w.state = DocMatch.bodyWithText body found)
    (hmatches : ∀ m ∈ found, m.isRegular = true → ∃ edit, Edit.ofMatch e [] m = .ok edit) :
    Run.Ensures s (fun w => view w.state = body) (replaceMatches e found style) fun result w =>
      view w.state = Splice.replace body (found.map DocMatch.splice) ∧
        List.Forall₂ (DocMatch.WrittenAt body found) (found.filter (·.leavesRange)) result.2 := by
  refine (ensures_imageRound hs hfound).bind fun imageShift => ?_
  rintro w ⟨himages, hview⟩
  obtain ⟨edits, hedits⟩ : ∃ edits,
      Edit.compile e imageShift (found.filter (·.isRegular)) = .ok edits := by
    refine exists_mapM_eq_ok fun m hm => ?_
    obtain ⟨hm, hregular⟩ := List.mem_filter.1 hm
    obtain ⟨edit, hedit⟩ := hmatches m hm hregular
    exact Edit.exists_ofMatch_of_ok hedit imageShift
  rw [Run.execute_bind_of_ok (Run.execute_ofLimited hedits s w)]
  refine ((ensures_textRound hs hfound himages hedits).discard.bind fun _ =>
    (hstyle imageShift edits hedits).bind fun styled => ?_) w hview
  refine (ensures_footnoteRound hs hfound himages hedits).bind fun footnoteShift => ?_
  refine Run.Ensures.pure fun w hw => ⟨hw.2, ?_⟩
  exact hfound.forall₂_writtenAt himages hedits hw.1

/-- The rounds of a substitution, with anything in between that leaves the new text as it is,
replace every match by its own content at once.  They come to an end exactly when there is an edit
for each match that becomes text, as there is when the template expands against it.  The texts that
are still to be styled stand at their recorded places in the final body. -/
theorem rounds_replace_matches
    (hs : s.service.Literal view) (hfound : DocMatch.InOrder (view w.state).length found)
    (hstyle : ∀ shift edits, Edit.compile e shift (found.filter (·.isRegular)) = .ok edits →
      Run.Ensures s (fun w' => view w'.state = DocMatch.bodyWithText (view w.state) found)
        (style edits) fun _ w' => view w'.state = DocMatch.bodyWithText (view w.state) found) :
    ((∀ m ∈ found, m.isRegular = true →
        ∃ text, Template.expand (some m.found) e.replacement = .ok text) →
      ∃ result w', (replaceMatches e found style).execute s w = (.ok result, w')) ∧
    ((∃ result w', (replaceMatches e found style).execute s w = (.ok result, w')) ↔
      ∀ m ∈ found, m.isRegular = true → ∃ edit, Edit.ofMatch e [] m = .ok edit) ∧
    ∀ result w', (replaceMatches e found style).execute s w = (.ok result, w') →
      view w'.state = Splice.replace (view w.state) (found.map DocMatch.splice) ∧
        List.Forall₂ (DocMatch.WrittenAt (view w.state) found) (found.filter (·.leavesRange))
          result.2 := by
  have hruns : (∀ m ∈ found, m.isRegular = true → ∃ edit, Edit.ofMatch e [] m = .ok edit) →
      ∃ result w', (replaceMatches e found style).execute s w = (.ok result, w') := by
    intro hmatches
    obtain ⟨result, w', hrun, -⟩ := ensures_replaceMatches hs hfound hstyle hmatches w rfl
    exact ⟨result, w', hrun⟩
  refine ⟨fun hexpand => hruns fun m hm hregular => ?_, ⟨?_, hruns⟩, ?_⟩
  · obtain ⟨text, htext⟩ := hexpand m hm hregular
    exact Edit.exists_ofMatch htext []
  · rintro ⟨result, w', hrun⟩
    exact exists_ofMatch_of_replaceMatches hrun
  · intro result w' hrun
    obtain ⟨result', w'', hrun', hafter⟩ := ensures_replaceMatches hs hfound hstyle
      (exists_ofMatch_of_replaceMatches hrun) w rfl
    rw [hrun] at hrun'
    cases hrun'
    exact hafter

end Replacement

/-- Matches of every kind in a body of six units, some of them empty and some touching. -/
def mixedMatches : List DocMatch :=
  let place (start stop : Nat) (written : Written) : DocMatch :=
    ⟨start, stop, ⟨"abcdef".toList, start, stop, [], 0⟩, written⟩
  [place 0 1 (.text "XY".toList [.bold] none), place 1 1 (.image { url := "u".toList }),
    place 2 3 (.text "note".toList [.footnote] none), place 3 3 (.text [] [.rule] none),
    place 4 6 (.text "Z".toList [.italic] none)]

/-- A substitution by a letter. -/
def mixedEdit : Expression :=
  ⟨.substitute, [], ['x'], true, 0, .text, [], []⟩

theorem rounds_replace_mixedMatches :
    Service.ofBody.Literal id ∧ DocMatch.InOrder (Body.ofText "abcdef".toList).length mixedMatches ∧
    ∃ result w',
      (replaceMatches mixedEdit mixedMatches styleParagraphs).execute ⟨Service.ofBody, {}, 0⟩
        ⟨Body.ofText "abcdef".toList, [], 0⟩ = (.ok result, w') ∧
      w'.state = Body.ofText "XY".toList ++ [.image ['u'] 0 0] ++ Body.ofText "b".toList ++
        [.footnote] ++ Body.ofText "\ndZ".toList ∧
      List.Forall₂ (DocMatch.WrittenAt (Body.ofText "abcdef".toList) mixedMatches)
        (mixedMatches.filter (·.leavesRange)) result.2 := by
  have hfound : DocMatch.InOrder (Body.ofText "abcdef".toList).length mixedMatches := by
    constructor
    · simp [mixedMatches]
      decide
    · simp [mixedMatches]
  have hplan : ∀ shift edits,
      Edit.compile mixedEdit shift (mixedMatches.filter (·.isRegular)) = .ok edits →
        ParagraphPlan.ofRanges (Edit.shift edits) (Edit.ranges edits) = .ok {} := by
    intro shift edits h
    cases h
    rfl
  -- Bold and italic text has no paragraph style, so nothing is sent between text and footnotes.
  have hstyle : ∀ shift edits,
      Edit.compile mixedEdit shift (mixedMatches.filter (·.isRegular)) = .ok edits → ∀ text,
        Run.Ensures ⟨Service.ofBody, {}, 0⟩ (fun w => id w.state = text) (styleParagraphs edits)
          fun _ w => id w.state = text := by
    intro shift edits hedits text w hw
    refine ⟨[], w, ?_, hw⟩
    rw [styleParagraphs, Run.execute_bind_of_ok
      (Run.execute_ofLimited (hplan shift edits hedits) _ _)]
    rfl
  refine ⟨Service.literal_ofBody, hfound, ?_⟩
  obtain ⟨hexpands, -, hrounds⟩ :=
    @rounds_replace_matches Body ⟨Service.ofBody, {}, 0⟩ id (List Request) mixedEdit mixedMatches
      styleParagraphs ⟨Body.ofText "abcdef".toList, [], 0⟩ Service.literal_ofBody hfound
      fun shift edits hedits => hstyle shift edits hedits _
  have hexpand : ∀ m, Template.expand (some m) ['x'] = .ok ['x'] := by
    intro m
    rw [Template.expand, (Template.standsAlone_of_ne (by decide) []).pieces, Template.pieces_nil]
    rfl
  obtain ⟨result, w', hrun⟩ := hexpands fun m _ _ => ⟨['x'], hexpand m.found⟩
  obtain ⟨hbody, hranges⟩ := hrounds result w' hrun
  exact ⟨result, w', hrun, hbody.trans (by decide), hranges⟩

end Session

end Redline
