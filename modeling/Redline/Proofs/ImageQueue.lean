import Redline.Proofs.CapturedText
import Redline.Proofs.ClearedText

/-!
# The queue of images

An expression that writes images is run once more when its first attempt ends with a fault, on a
fresh copy of the document.  A fault may fall between the two calls for an image, when the text is
deleted and the image is not yet there, and the second attempt does not find that text again.  This
module goes over a queue of such expressions that was worked off without a fault, and says what
became of the text that was deleted: an image was put in its place, or it was lost, or other text
was written in the same batch.
-/

namespace Redline

/-! ## What is written in the place of a match -/

namespace Template

theorem exists_of_expand_cons
    {c : Char} (hc : c ≠ '$') {m : Option Match} {rest text : Text}
    (h : expand m (c :: rest) = .ok text) : ∃ tail, text = c :: tail := by
  rw [expand, (standsAlone_of_ne hc rest).pieces, List.mapM_cons] at h
  obtain ⟨values, hvalues, h⟩ := exists_of_bind_eq_ok h
  obtain ⟨first, hfirst, hvalues⟩ := exists_of_bind_eq_ok hvalues
  obtain ⟨others, -, hvalues⟩ := exists_of_bind_eq_ok hvalues
  cases hfirst
  cases hvalues
  cases h
  exact ⟨others.flatten, rfl⟩

end Template

namespace Markdown

/-- A text that opens with an exclamation mark has no form. -/
theorem not_form_exclamation (t : Text) : ¬ Form ('!' :: t) := by
  have hnone : ∀ (opening closing : String) (c : Char) (rest : Text), opening.toList = c :: rest →
      '!' ≠ c → ¬ Between opening closing ('!' :: t) := by
    rintro opening closing c rest hopening hne ⟨inner, -, heq⟩
    rw [hopening] at heq
    exact hne (List.cons.inj heq).1
  intro h
  generalize htext : '!' :: t = text at h
  cases h with
  | rule hrule =>
    subst htext
    have hmem := Text.mem_trim (by decide) (List.mem_cons_self : '!' ∈ '!' :: t)
    simp only [List.map_cons, List.map_nil, List.mem_cons, List.not_mem_nil, or_false] at hrule
    rcases hrule with hrule | hrule | hrule
    all_goals
      rw [hrule] at hmem
      exact absurd hmem (by decide)
  | quote rest => exact absurd (List.cons.inj htext).1 (by decide)
  | footnote hbetween => exact hnone _ _ '[' ['^'] rfl (by decide) (htext ▸ hbetween)
  | emphasis hbetween => exact hnone _ _ '*' [] rfl (by decide) (htext ▸ hbetween)
  | strike hbetween => exact hnone _ _ '~' ['~'] rfl (by decide) (htext ▸ hbetween)
  | code hbetween => exact hnone _ _ _ [] rfl (by decide) (htext ▸ hbetween)
  | link label htarget rest => exact absurd (List.cons.inj htext).1 (by decide)
  | item level hmark =>
    cases level with
    | succ level => exact absurd (List.cons.inj htext).1 (by decide)
    | zero =>
      cases hmark with
      | dash rest => exact absurd (List.cons.inj htext).1 (by decide)
      | plus rest => exact absurd (List.cons.inj htext).1 (by decide)
      | star hlast => exact absurd (List.cons.inj htext).1 (by decide)
      | number hd rest =>
        rw [← (List.cons.inj htext).1] at hd
        exact absurd hd (by decide)
  | heading rest => exact absurd (List.cons.inj htext).1 (by decide)

theorem read_exclamation (t : Text) : ∃ tail, read ('!' :: t) = ('!' :: tail, []) := by
  have hescape : escape ('!' :: t) = '!' :: escape t := Text.replaceBy_of_none rfl
  have hread := read_of_not_form_escape (t := '!' :: t) (hescape ▸ not_form_exclamation _)
  rw [hescape, unescape_cons_of_ne (by decide)] at hread
  exact ⟨_, hread⟩

end Markdown

/-- An expression whose replacement opens with the marks of an image writes some text, if it does
not write an image. -/
theorem Written.newText_ne_nil
    {e : Expression} (he : e.insertsImage = true) {m : Match} {written : Written}
    (h : ofMatch e m = .ok written) (himage : written.image? = none) : written.newText ≠ [] := by
  have hexpanded : ∃ text, Template.expand (some m) e.replacement = .ok text := by
    obtain ⟨text, htext, -⟩ := exists_of_bind_eq_ok h
    exact ⟨text, eq_ok_of_mapError_eq_ok htext⟩
  obtain ⟨text, hexpand⟩ := hexpanded
  have hopen : Text.startsWith "![".toList e.replacement = true → ∃ tail, text = '!' :: tail := by
    intro hstarts
    have hshape := Text.eq_append_of_startsWith hstarts
    rw [hshape] at hexpand
    exact Template.exists_of_expand_cons (by decide) hexpand
  unfold Expression.insertsImage at he
  cases hdirective : e.directive? with
  | none =>
    rw [hdirective, Bool.or_false] at he
    obtain ⟨tail, rfl⟩ := hopen he
    obtain ⟨rest, hrest⟩ := Markdown.read_exclamation tail
    rw [ofMatch_of_directive_eq_none hdirective hexpand] at h
    cases hread : ImageSpec.read? ('!' :: tail) with
    | some spec =>
      rw [hread] at h
      cases h
      cases himage
    | none =>
      rw [hread, hrest] at h
      cases h
      exact List.cons_ne_nil _ _
  | some d =>
    rw [hdirective] at he
    by_cases hplain : d.image = []
    · obtain ⟨tail, rfl⟩ := hopen (by simpa [hplain] using he)
      rw [ofMatch_of_directive_eq_some hdirective hplain hexpand] at h
      cases hread : ImageSpec.read? ('!' :: tail) with
      | some spec =>
        rw [hread] at h
        cases h
        cases himage
      | none =>
        rw [hread] at h
        cases hformats : d.formats with
        | error limit =>
          rw [hformats] at h
          cases h
        | ok formats =>
          rw [hformats] at h
          cases h
          rw [newText, Text.replaceAll_of_not_startsWith (by rfl)]
          exact List.cons_ne_nil _ _
    · have hsome : (imageOf? text e.directive?).isSome = true := by
        rw [imageOf?, hdirective, Option.bind_some, if_neg (by simpa using hplain)]
        cases ImageSpec.read? text with
        | some spec => rfl
        | none => rfl
      obtain ⟨spec, hspec⟩ := Option.isSome_iff_exists.1 hsome
      simp only [ofMatch, hexpand, Except.mapError, bind, Except.bind, hspec] at h
      cases h
      cases himage

/-- Every match of the expression gives way to an image. -/
def Expression.WritesImages (e : Expression) : Prop :=
  ∀ m written, Written.ofMatch e m = .ok written → written.image?.isSome = true

namespace Edit

theorem exists_insertText_mem
    {e : Expression} {previous : ShiftMap} {m : DocMatch} {edit : Edit}
    (h : ofMatch e previous m = .ok edit) (htext : m.written.newText ≠ []) :
    ∃ index text segment, .insertText index text segment ∈ edit.group.requests := by
  have hempty : m.written.newText.isEmpty = false := by simpa using htext
  simp only [ofMatch, hempty, Bool.false_eq_true, if_false] at h
  split at h
  · cases h
    exact ⟨_, _, _, List.mem_append_right _ List.mem_cons_self⟩
  · split at h
    · cases h
      exact ⟨_, _, _, List.mem_append_right _ List.mem_cons_self⟩
    · obtain ⟨styles, -, h⟩ := exists_of_bind_eq_ok h
      cases h
      exact ⟨_, _, _, List.mem_append_left _ (List.mem_append_right _ List.mem_cons_self)⟩

/-- When every match becomes some text, the batch is not a lone request to delete. -/
theorem requests_ne_delete
    {e : Expression} {previous : ShiftMap} {found : List DocMatch} {edits : List Edit}
    (h : compile e previous found = .ok edits) (htext : ∀ m ∈ found, m.written.newText ≠ [])
    (span : Span) : requests edits ≠ [.deleteRange span] := by
  intro hlone
  cases edits with
  | nil => cases hlone
  | cons edit rest =>
    obtain ⟨m, hm, hedit⟩ := exists_of_mem_forall₂ (forall₂_of_mapM_eq_ok h) List.mem_cons_self
    obtain ⟨index, text, segment, hinsert⟩ := exists_insertText_mem hedit (htext m hm)
    have hgroup : edit.group ∈ EditGroup.sort ((edit :: rest).map (·.group)) :=
      EditGroup.mem_sort.2 List.mem_cons_self
    have hmem : .insertText index text segment ∈ requests (edit :: rest) :=
      List.mem_flatMap.2 ⟨edit.group, hgroup, hinsert⟩
    rw [hlone] at hmem
    cases List.mem_singleton.1 hmem

end Edit

/-! ## The steps of a substitution -/

namespace Session

open Run (Traces Accounts FetchesFirst)
open Call (Whole Cut)

variable {σ : Type} {s : Session σ} {record : σ → List Call} {condition : Prop}

/-- The two calls for an image: the text is cleared and the image takes its place, or the image is
refused and the text is lost. -/
theorem accounts_insertImage
    (hs : s.service.Records record) (shift : ShiftMap) (m : DocMatch) (spec : ImageSpec) :
    Accounts s record condition (insertImage shift m spec) fun _ => True := by
  have hinsert : Traces s record (do
      discard <| Run.update [.insertImage m.start spec.url spec.width spec.height]
      return ShiftMap.record shift m.start (m.stop - m.start) 1)
      (fun _ calls => ∃ n, calls =
        List.replicate n (Call.image m.start spec false) ++ [Call.image m.start spec true])
      fun calls => ∃ n, calls =
        List.replicate n (Call.image m.start spec false) ++ [Call.image m.start spec false] := by
    refine (Traces.update hs (List.cons_ne_nil _ _)).discard.bind (fun _ h => h) ?_
    intro _ calls hcalls
    exact Traces.pure (by rwa [List.append_nil])
  unfold insertImage
  by_cases hspan : m.start < m.stop
  · rw [if_pos hspan]
    refine (Traces.update hs (List.cons_ne_nil _ _)).discard.bind ?_ ?_
    · rintro _ ⟨n, rfl⟩
      exact ((Call.whole_refused _ n).append (Call.whole_refused _ 1)).cut
    · rintro _ _ ⟨n, rfl⟩
      refine hinsert.mono ?_ ?_
      · rintro _ _ ⟨k, rfl⟩
        rw [List.append_assoc, List.singleton_append]
        refine ⟨trivial, (Call.whole_refused _ n).append ?_⟩
        refine Call.accounted_cleared .replaced hspan (fun _ => Call.deleted_of_mem_images) ?_
          trivial (by decide) (by decide)
        intro rest _
        rw [List.append_assoc]
        exact Call.fate_images_true m.start spec k rest
      · rintro _ ⟨k, rfl⟩
        rw [List.append_assoc, List.singleton_append]
        refine (Call.whole_refused _ n).append_cut ?_
        refine Call.accounted_cleared .lost hspan (fun _ => Call.deleted_of_mem_images) ?_
          (.inl rfl) (by decide) (by decide)
        intro rest hrest
        rw [List.append_assoc]
        exact Call.fate_images_false m.start spec k hrest
  · rw [if_neg hspan]
    refine hinsert.mono ?_ ?_
    · rintro _ _ ⟨n, rfl⟩
      exact ⟨trivial, Call.whole_of_deleted fun _ => Call.deleted_of_mem_images⟩
    · rintro _ ⟨n, rfl⟩
      exact (Call.whole_of_deleted fun _ => Call.deleted_of_mem_images).cut

theorem accounts_insertImages (hs : s.service.Records record) (found : List DocMatch) :
    Accounts s record condition (insertImages found) fun _ => True := by
  refine Accounts.foldlM (fun m _ shift => ?_) _
  split
  next spec _ => exact accounts_insertImage hs shift m spec
  next => exact Accounts.pure trivial

/-- A footnote is made by one batch, in which the text is not cleared by itself. -/
theorem accounts_insertFootnotes
    (hs : s.service.Records record) (shifts : List ShiftMap) {found : List DocMatch}
    (hfound : condition → found = []) :
    Accounts s record condition (insertFootnotes shifts found) fun _ => True := by
  refine Accounts.foldlM (fun m hm shift => ?_) _
  unfold insertFootnote
  simp only []
  have hreplace : ∀ start stop, Accounts s record condition
      (Run.update [Request.delete start stop, .createFootnote start]) fun _ => True := by
    intro start stop
    refine Accounts.update hs (fun span hlone => ?_) fun hcondition => ?_
    · cases hlone
    · rw [hfound hcondition] at hm
      cases hm
  refine (hreplace _ _).bind fun response _ => ?_
  split
  · refine (Accounts.update_of_deletes_none hs ?_).discard.bind fun _ _ => Accounts.pure trivial
    rintro r hr span rfl
    cases List.mem_singleton.1 hr
  · exact Accounts.pure trivial

theorem accounts_insertBreak
    (hs : s.service.Records record) (d : Directive) (ranges : List FormatRange) :
    Accounts s record condition (insertBreak d ranges) fun _ => True := by
  unfold insertBreak
  split
  · exact Accounts.pure trivial
  · split
    · exact Accounts.pure trivial
    · exact (FetchesFirst.fetch hs).accounts.bind fun doc _ =>
        (Accounts.update_of_deletes_none hs fun _ => Request.ne_deleteRange_of_mem_breakAt).discard

/-- The extras of a text delete nothing. -/
theorem accounts_extrasOf (doc : Document) (r : FormatRange) :
    Accounts s record condition (extrasOf doc r) fun x =>
      Request.KeepLength (x.columns ++ x.bullets ++ x.anchors) ∧
        ∀ request ∈ x.chips, ∀ span, request ≠ .deleteRange span := by
  unfold extrasOf
  split
  · exact Accounts.pure ⟨fun _ hr => (List.not_mem_nil hr).elim,
      fun _ hr => (List.not_mem_nil hr).elim⟩
  next d _ =>
    refine (Accounts.ofLimited fun _ _ => trivial).bind fun section_ _ => Accounts.pure ?_
    exact ⟨Extras.keepLength d r.span section_, fun _ => Extras.ne_deleteRange_of_mem_chips⟩

theorem accounts_insertExtras
    (hs : s.service.Records record) (d : Directive) (ranges : List FormatRange) :
    Accounts s record condition (insertExtras d ranges) fun _ => True := by
  unfold insertExtras
  split
  · exact Accounts.pure trivial
  · refine (FetchesFirst.fetch hs).accounts.bind fun doc _ => ?_
    refine (Accounts.mapM fun r _ => accounts_extrasOf doc r).bind fun extras hextras => ?_
    refine (Accounts.update_of_deletes_none hs ?_).discard
    rintro r hr span rfl
    rcases List.mem_append.1 hr with hr | hr
    · obtain ⟨x, hx, hr⟩ := List.mem_flatMap.1 hr
      have hkeep : true = false := (hextras x hx).1 _ hr
      cases hkeep
    · obtain ⟨x, hx, hr⟩ := List.mem_flatMap.1 (mem_of_mem_sortFalling hr)
      exact (hextras x hx).2 _ hr span rfl

/-! ## Attempts -/

/-- Matches that do not give way to images become some text, and there are none when every match
gives way to one. -/
theorem newText_of_mem_find
    {e : Expression} (he : e.insertsImage = true) {doc : Document} {pattern : Pattern}
    {found : List DocMatch} (h : DocMatch.find doc pattern e = .ok found) {m : DocMatch}
    (hm : m ∈ found) (himage : m.isImage = false) :
    m.written.newText ≠ [] ∧ ¬ e.WritesImages := by
  obtain ⟨a, -, hplace⟩ := DocMatch.exists_of_mem_find h hm
  obtain ⟨written, hwritten, hplace⟩ := exists_of_bind_eq_ok hplace
  cases hplace
  have himage : written.image?.isSome = false := himage
  have hnone : written.image? = none :=
    Option.not_isSome_iff_eq_none.1 (ne_true_of_eq_false himage)
  refine ⟨Written.newText_ne_nil he hwritten hnone, ?_⟩
  intro himages
  have hsome := himages a.2 written hwritten
  rw [hnone] at hsome
  cases hsome

theorem accounts_replaceMatches (hs : s.service.Records record) {e : Expression}
    {found : List DocMatch}
    (hregular : ∀ m ∈ found.filter (·.isRegular), m.written.newText ≠ [] ∧ ¬ condition)
    (hfootnotes : condition → found.filter (·.isFootnote) = []) :
    Accounts s record condition (replaceMatches e found styleParagraphs) fun _ => True := by
  refine (accounts_insertImages hs _).bind fun imageShift _ => ?_
  refine (Accounts.ofLimited fun _ h => h).bind fun edits hedits => ?_
  have hkept : condition → ∀ r ∈ Edit.requests edits, r.deletedSpan? = none := by
    intro h
    have hnone : found.filter (·.isRegular) = [] :=
      List.eq_nil_iff_forall_not_mem.2 fun m hm => (hregular m hm).2 h
    rw [hnone] at hedits
    cases hedits
    intro r hr
    cases hr
  have hclear := Edit.requests_ne_delete hedits fun m hm => (hregular m hm).1
  refine (Accounts.update hs hclear hkept).discard.bind fun _ _ => ?_
  have hstyle : Accounts s record condition (styleParagraphs edits) fun _ => True := by
    refine (Accounts.ofLimited fun _ h => h).bind fun plan hplan => ?_
    exact (Accounts.update_of_keepLength hs
      (ParagraphPlan.keepLength_ofRanges hplan)).discard.bind fun _ _ => Accounts.pure trivial
  refine hstyle.bind fun deferred _ => ?_
  exact (accounts_insertFootnotes hs _ hfootnotes).bind fun footnoteShift _ => Accounts.pure trivial

theorem fetchesFirst_substitute [CharNames]
    (hs : s.service.Records record) {e : Expression} (he : e.insertsImage = true)
    (hcondition : condition → e.WritesImages) :
    FetchesFirst s record condition (substitute e) := by
  unfold substitute
  refine FetchesFirst.compile_bind e fun pattern => (FetchesFirst.fetch hs).bind fun doc => ?_
  refine (Accounts.ofLimited fun _ h => h).bind fun found hfound => ?_
  have hregular : ∀ m ∈ found.filter (·.isRegular), m.written.newText ≠ [] ∧ ¬ condition := by
    intro m hm
    obtain ⟨hm, hkind⟩ := List.mem_filter.1 hm
    have himage := DocMatch.isImage_eq_false_of_isRegular hkind
    exact (newText_of_mem_find he hfound hm himage).imp_right (mt hcondition)
  have hfootnotes : condition → found.filter (·.isFootnote) = [] := by
    intro h
    rw [List.filter_eq_nil_iff]
    intro m hm hkind
    exact (newText_of_mem_find he hfound hm (DocMatch.isImage_eq_false_of_isFootnote hkind)).2
      (hcondition h)
  split
  · exact Accounts.pure trivial
  · refine (accounts_replaceMatches hs hregular hfootnotes).bind fun placed _ => ?_
    simp only []
    split
    · exact (accounts_insertBreak hs _ _).bind fun _ _ =>
        (accounts_insertExtras hs _ _).bind fun _ _ => Accounts.pure trivial
    · exact Accounts.pure trivial

theorem accounts_createFirst (hs : s.service.Records record) (runs : List BulletRun) :
    Accounts s record condition (createFirst runs) fun _ => True := by
  unfold createFirst
  split
  · exact Accounts.pure trivial
  next r _ =>
    refine (Accounts.update_of_deletes_none hs ?_).discard.bind fun _ _ => Accounts.pure trivial
    rintro request hrequest span rfl
    rcases List.mem_pair.1 hrequest with hrequest | hrequest
    · cases hrequest
    · cases hrequest

theorem accounts_recreateUpTo (hs : s.service.Records record) (budget : Nat) :
    Accounts s record condition (recreateUpTo budget) fun _ => True := by
  induction budget with
  | zero => exact Accounts.pure trivial
  | succ budget ih =>
    unfold recreateUpTo
    refine (FetchesFirst.fetch hs).accounts.bind fun doc _ => ?_
    refine (accounts_createFirst hs _).bind fun created _ => ?_
    split
    · exact ih.bind fun _ _ => Accounts.pure trivial
    · exact Accounts.pure trivial

theorem accounts_recreateBullets (hs : s.service.Records record) :
    Accounts s record condition (recreateBullets none) fun _ => True := by
  unfold recreateBullets
  refine (FetchesFirst.fetch hs).accounts.bind fun doc _ => ?_
  refine (accounts_createFirst hs _).bind fun created _ => ?_
  split
  · exact (accounts_recreateUpTo hs _).bind fun _ _ => Accounts.pure trivial
  · exact Accounts.pure trivial

theorem fetchesFirst_runManual [CharNames]
    (hs : s.service.Records record) {e : Expression} (he : e.insertsImage = true)
    (hcondition : condition → e.WritesImages) :
    FetchesFirst s record condition (runManual e) := by
  unfold runManual
  refine (fetchesFirst_substitute hs he hcondition).bind fun result => ?_
  split
  · exact (accounts_recreateBullets hs).discard.bind fun _ _ => Accounts.pure trivial
  · exact Accounts.pure trivial

/-! ## The queue -/

/-- An expression that is worked off has lost one text at most, in its first attempt: the second one
starts with a fresh copy of the document. -/
theorem traces_runImage [CharNames]
    (hs : s.service.Records record) {item : Numbered} (he : item.expression.insertsImage = true)
    (hcondition : condition → item.expression.WritesImages) :
    Traces s record (runImage item)
      (fun _ => Call.Accounted (fun _ => True) 1 condition) fun _ => True := by
  have hattempt := fetchesFirst_runManual hs he hcondition
  have hwait : ∀ seconds, Traces s record (Run.wait seconds) (fun _ calls => calls = [])
      fun calls => calls = [] := fun _ => Traces.of_state_eq fun _ => rfl
  have hread : Traces s record (read : Run σ (Session σ)) (fun _ calls => calls = [])
      fun calls => calls = [] := Traces.of_state_eq fun _ => rfl
  have hagain : ∀ seconds calls, Cut condition calls → Traces s record
      (do Run.wait seconds; Run.within (.image (item.position + 1)) (runManual item.expression))
      (fun _ more => Call.Accounted (fun _ => True) 1 condition (calls ++ more))
      fun _ => True := by
    intro seconds calls hcalls
    refine (hwait seconds).bind (fun _ _ => trivial) ?_
    rintro _ _ rfl
    refine (hattempt.within _).mono ?_ fun _ _ => trivial
    rintro _ more ⟨hhead, hmore⟩
    have hfresh : ∀ rest, Call.Fresh (more ++ rest) := by
      intro rest
      obtain ⟨tail, rfl⟩ := List.head?_eq_some_iff.1 hhead
      exact .inr ⟨tail ++ rest, rfl⟩
    exact hcalls.concat hmore (fun rest _ => hfresh rest) (List.append_nil more ▸ hfresh [])
  unfold runImage
  refine hread.bind (fun _ _ => trivial) ?_
  rintro session _ rfl
  refine (hwait _).bind (fun _ _ => trivial) ?_
  rintro _ _ rfl
  refine Traces.tryCatch (hattempt.mono ?_ fun _ h => h) fun fault calls hcalls => ?_
  · rintro _ calls ⟨-, hcalls⟩
    exact hcalls.mono (fun _ h => h) (Nat.zero_le 1)
  · have hthrow : Traces s record (throw fault : Run σ PUnit) (fun _ _ => False) fun _ => True :=
      Traces.throw trivial fault
    simp only []
    split
    · exact hthrow.bind (fun _ _ => trivial) fun _ _ h => h.elim
    · exact hagain _ calls hcalls

theorem traces_runImages [CharNames]
    (hs : s.service.Records record) {items : List Numbered}
    (hitems : ∀ item ∈ items, item.expression.insertsImage = true)
    (hcondition : condition → ∀ item ∈ items, item.expression.WritesImages) :
    Traces s record (items.mapM runImage)
      (fun _ => Call.Accounted (fun _ => True) items.length condition) fun _ => True := by
  induction items with
  | nil => exact Traces.pure .nil
  | cons item rest ih =>
    rw [List.mapM_cons]
    have hfirst := traces_runImage hs (hitems item List.mem_cons_self)
      fun h => hcondition h item List.mem_cons_self
    have hrest := ih (fun other hother => hitems other (List.mem_cons_of_mem _ hother))
      fun h other hother => hcondition h other (List.mem_cons_of_mem _ hother)
    refine hfirst.bind (fun _ _ => trivial) fun count calls hcalls => ?_
    refine hrest.bind (fun _ _ => trivial) fun counts more hmore => Traces.pure ?_
    have hboth := hcalls.concat hmore (fun _ _ => trivial) trivial
    rw [List.append_nil, List.length_cons, Nat.add_comm]
    exact hboth

/-- When a queue of images is worked off without a fault, every text that was deleted has an image in
its place, or all calls for its image were refused, or other text was written in the same batch.  At
most one text is lost for each expression, and nothing is written over when every match gives way to
an image. -/
theorem runImages_accounts_for_deletions [CharNames]
    (hs : s.service.Records record) {items : List Numbered}
    (hitems : ∀ item ∈ items, item.expression.insertsImage = true) {w w' : World σ}
    {counts : List Nat} (h : (items.mapM runImage).execute s w = (.ok counts, w')) :
    ∃ calls, record w'.state = record w.state ++ calls ∧
      (Call.deletedSpans calls).length = (Call.fates calls).count .replaced +
        (Call.fates calls).count .lost + (Call.rewrittenSpans calls).length ∧
      (Call.fates calls).count .lost ≤ items.length ∧
      ((∀ item ∈ items, item.expression.WritesImages) → Call.rewrittenSpans calls = []) := by
  obtain ⟨calls, hcalls, hdone, -⟩ := traces_runImages hs hitems (fun himages => himages) w
  rw [h] at hcalls hdone
  have haccounted := hdone counts rfl
  refine ⟨calls, hcalls, ?_, haccounted.lost, haccounted.kept⟩
  rw [Call.length_deletedSpans, Fate.length_eq_of_answered haccounted.answered]

end Session

/-! ## A line with room for one image -/

/-- The document of one line. -/
def Document.ofLine (line : Text) : Document where
  body := [.paragraph {} ⟨[⟨⟨some 1, none⟩, .run (line ++ ['\n'])⟩], none⟩]

/-- A service that keeps one line and takes so many images.  An image stands in the line as the
character for an object, and a batch that is not carried out leaves the line as it is. -/
def Service.ofLine : Service (Text × Nat) where
  fetch state := (.ok (.ofLine state.1), state)
  update requests state :=
    match requests, state.2 with
    | [.deleteRange span], images =>
      (.ok {}, state.1.take (span.start - 1).toNat ++ state.1.drop (span.stop - 1).toNat, images)
    | [.insertImage index _ _ _], images + 1 =>
      (.ok {}, state.1.take (index - 1).toNat ++ '\uFFFC' :: state.1.drop (index - 1).toNat, images)
    | _, _ => (.error (.http (some 400) []), state)

namespace Session

open Call (image)

/-- A line, the images that it has room for, and the calls so far. -/
abbrev LineState := (Text × Nat) × List Call

def lineSession : Session LineState where
  service := Service.ofLine.recording
  settings := {}

/-- The line `aa`, and room for one image. -/
def lineWorld : World LineState where
  state := (("aa".toList, 1), [])

/-- Put an image in the place of every `a`. -/
def letterImages : Expression where
  pattern := ['a']
  replacement := "![](u)".toList
  isGlobal := true
  raw := []

theorem compile_letterImages [CharNames] : letterImages.compile = .ok DocMatch.letter := by
  have hsteps : Pattern.steps 1 { rest := ['a'] } = .ok _ :=
    (Pattern.steps_of_step (by decide) rfl (by decide)).trans (Pattern.steps_of_nil rfl)
  exact Pattern.read_of_steps ['a'] rfl hsteps rfl

theorem find_letterImages (d : Document) :
    DocMatch.find d DocMatch.letter letterImages =
      .ok ((DocMatch.located d DocMatch.letter).map fun a =>
        ⟨a.1.position a.2.start, a.1.position a.2.stop, a.2, .image { url := ['u'] }⟩) := by
  refine DocMatch.find_of_ofMatch_eq_ok rfl rfl ?_ d _
  intro m
  exact Written.ofMatch_of_directive_eq_none rfl (Template.expand_eq_literal rfl (some m))

theorem located_line : DocMatch.located (.ofLine "aa".toList) DocMatch.letter =
    [(⟨"aa\n".toList, 1⟩, ⟨"aa\n".toList, 0, 1, [], 0⟩),
      (⟨"aa\n".toList, 1⟩, ⟨"aa\n".toList, 1, 2, [], 0⟩)] := by
  have hfound : DocMatch.letter.findAll "aa\n".toList =
      [⟨"aa\n".toList, 0, 1, [], 0⟩, ⟨"aa\n".toList, 1, 2, [], 0⟩] := by cbv
  have hruns : (Document.ofLine "aa".toList).runs = [⟨"aa\n".toList, 1⟩] := rfl
  simp only [DocMatch.located, hruns, List.flatMap_cons, List.flatMap_nil, hfound]
  rfl

theorem located_object : DocMatch.located (.ofLine ['\uFFFC']) DocMatch.letter = [] := by
  have hfound : DocMatch.letter.findAll ['\uFFFC', '\n'] = [] := by cbv
  have hruns : (Document.ofLine ['\uFFFC']).runs = [⟨['\uFFFC', '\n'], 1⟩] := rfl
  simp only [DocMatch.located, hruns, List.flatMap_cons, List.flatMap_nil, hfound]
  rfl

/-- Once the text is cleared, what is left of putting an image in its place is to insert it. -/
theorem exists_execute_insertImage
    {σ : Type} {s : Session σ} {w : World σ} {state : σ} {response : Response} (shift : ShiftMap)
    {m : DocMatch} (spec : ImageSpec) (hspan : m.start < m.stop)
    (h : s.service.update [Request.delete m.start m.stop] w.state = (.ok response, state)) :
    ∃ w₁, w₁.state = state ∧ (insertImage shift m spec).execute s w =
      (do
        discard <| Run.update [.insertImage m.start spec.url spec.width spec.height]
        return ShiftMap.record shift m.start (m.stop - m.start) 1 : Run σ ShiftMap).execute s w₁ := by
  obtain ⟨w₁, hrun, hstate⟩ := Run.execute_update (List.cons_ne_nil _ _) h
  have hdiscard : (discard (Run.update [Request.delete m.start m.stop]) : Run σ PUnit).execute s w =
      (.ok (), w₁) := by
    rw [show discard (Run.update [Request.delete m.start m.stop]) =
      (Run.update [Request.delete m.start m.stop] >>= fun _ => pure () : Run σ PUnit) from rfl,
      Run.execute_bind_of_ok hrun]
    rfl
  refine ⟨w₁, hstate, ?_⟩
  unfold insertImage
  rw [if_pos hspan, Run.execute_bind_of_ok hdiscard]

section InsertImage

variable {σ : Type} {s : Session σ} {w : World σ} {state state' : σ} {response : Response}
  {m : DocMatch} (shift : ShiftMap) (spec : ImageSpec)

/-- The text is cleared and its image is taken. -/
theorem execute_insertImage_of_ok
    {response' : Response} (hspan : m.start < m.stop)
    (hclear : s.service.update [Request.delete m.start m.stop] w.state = (.ok response, state))
    (himage : s.service.update [.insertImage m.start spec.url spec.width spec.height] state =
      (.ok response', state')) :
    ∃ w', (insertImage shift m spec).execute s w =
        (.ok (ShiftMap.record shift m.start (m.stop - m.start) 1), w') ∧ w'.state = state' := by
  obtain ⟨w₁, rfl, hrun⟩ := exists_execute_insertImage shift spec hspan hclear
  obtain ⟨w₂, hrun₂, hstate₂⟩ := Run.execute_update (List.cons_ne_nil _ _) himage
  refine ⟨w₂, ?_, hstate₂⟩
  rw [hrun, Run.execute_discard_pure, hrun₂]

/-- The text is cleared and its image is refused. -/
theorem execute_insertImage_of_error
    {failure : Failure} (hspan : m.start < m.stop)
    (hclear : s.service.update [Request.delete m.start m.stop] w.state = (.ok response, state))
    (himage : s.service.update [.insertImage m.start spec.url spec.width spec.height] state =
      (.error failure, state')) (hfailure : failure.isTransient = false) :
    ∃ w', (insertImage shift m spec).execute s w = (.error (.service failure), w') ∧
      w'.state = state' := by
  obtain ⟨w₁, rfl, hrun⟩ := exists_execute_insertImage shift spec hspan hclear
  obtain ⟨w₂, hrun₂, hstate₂⟩ :=
    Run.execute_update_of_error (List.cons_ne_nil _ _) himage hfailure
  refine ⟨w₂, ?_, hstate₂⟩
  rw [hrun, Run.execute_discard_pure, hrun₂]

end InsertImage

/-- The match of a letter of the line. -/
def letterMatch (i : Nat) : DocMatch :=
  ⟨i + 1, i + 2, ⟨"aa\n".toList, i, i + 1, [], 0⟩, .image { url := ['u'] }⟩

/-- The calls of the first attempt: by the time that the second image is refused, both letters are
gone. -/
def lineCalls : List Call :=
  [.fetch, .update [Request.delete 2 3] true, image 2 { url := ['u'] } true,
    .update [Request.delete 1 2] true, image 1 { url := ['u'] } false]

theorem execute_insertImages_line
    {w : World LineState} (hw : w.state = (("aa".toList, 1), [.fetch])) :
    ∃ w', (insertImages [letterMatch 0, letterMatch 1]).execute lineSession w =
        (.error (.service (.http (some 400) [])), w') ∧
      w'.state = ((['\uFFFC'], 0), lineCalls) := by
  have hsteps : (insertImages [letterMatch 0, letterMatch 1] : Run LineState ShiftMap) =
      insertImage [] (letterMatch 1) { url := ['u'] } >>= fun shift =>
        insertImage shift (letterMatch 0) { url := ['u'] } >>= pure := rfl
  have hclear : lineSession.service.update [Request.delete 2 3] w.state =
      (.ok {}, ((['a'], 1), lineCalls.take 2)) := by
    rw [hw]
    rfl
  obtain ⟨w₁, hrun₁, hstate₁⟩ :=
    execute_insertImage_of_ok (m := letterMatch 1) [] { url := ['u'] } (by decide) hclear rfl
  have hclear' : lineSession.service.update [Request.delete 1 2] w₁.state =
      (.ok {}, ((['\uFFFC'], 0), lineCalls.take 4)) := by
    rw [hstate₁]
    rfl
  obtain ⟨w₂, hrun₂, hstate₂⟩ :=
    execute_insertImage_of_error (m := letterMatch 0) _ { url := ['u'] } (by decide) hclear' rfl rfl
  refine ⟨w₂, ?_, hstate₂⟩
  rw [hsteps, Run.execute_bind_of_ok hrun₁, Run.execute_bind, hrun₂]

/-- The first attempt fails, and the second one finds nothing. -/
theorem execute_runManual_line [CharNames]
    {w : World LineState} (hw : w.state = lineWorld.state) :
    ∃ w', (runManual letterImages).execute lineSession w =
        (.error (.service (.http (some 400) [])), w') ∧
      w'.state = ((['\uFFFC'], 0), lineCalls) := by
  have hfetch : lineSession.service.fetch w.state =
      (.ok (.ofLine "aa".toList), (("aa".toList, 1), [.fetch])) := by
    rw [hw]
    rfl
  have hfind : DocMatch.find (.ofLine "aa".toList) DocMatch.letter letterImages =
      .ok [letterMatch 0, letterMatch 1] := by
    rw [find_letterImages, located_line]
    rfl
  obtain ⟨w', hrun, hstate⟩ := execute_insertImages_line
    (w := { w with state := (("aa".toList, 1), [.fetch]), log := w.log ++ [.fetch] }) rfl
  refine ⟨w', ?_, hstate⟩
  have hrounds :
      (replaceMatches letterImages [letterMatch 0, letterMatch 1] styleParagraphs).execute
        lineSession { w with state := (("aa".toList, 1), [.fetch]), log := w.log ++ [.fetch] } =
          (.error (.service (.http (some 400) [])), w') := by
    rw [replaceMatches, Run.execute_bind, show [letterMatch 0, letterMatch 1].filter (·.isImage) =
      [letterMatch 0, letterMatch 1] from rfl, hrun]
  have hsubstitute : (substitute letterImages).execute lineSession w =
      (.error (.service (.http (some 400) [])), w') := by
    unfold substitute
    rw [Run.execute_bind_of_ok (Run.execute_compile compile_letterImages _ _),
      Run.execute_bind_of_ok (Run.execute_fetch hfetch),
      Run.execute_bind_of_ok (Run.execute_ofLimited hfind _ _), if_neg (by decide),
      Run.execute_bind, hrounds]
  rw [runManual, Run.execute_bind, hsubstitute]

theorem execute_runManual_object [CharNames]
    {w : World LineState} (hw : w.state = ((['\uFFFC'], 0), lineCalls)) :
    ∃ w', (runManual letterImages).execute lineSession w = (.ok 0, w') ∧
      w'.state = ((['\uFFFC'], 0), lineCalls ++ [.fetch]) := by
  have hfetch : lineSession.service.fetch w.state =
      (.ok (.ofLine ['\uFFFC']), ((['\uFFFC'], 0), lineCalls ++ [.fetch])) := by
    rw [hw]
    rfl
  have hfind : DocMatch.find (.ofLine ['\uFFFC']) DocMatch.letter letterImages = .ok [] := by
    rw [find_letterImages, located_object]
    rfl
  refine ⟨{ w with state := ((['\uFFFC'], 0), lineCalls ++ [.fetch]), log := w.log ++ [.fetch] }, ?_,
    rfl⟩
  have hsubstitute : (substitute letterImages).execute lineSession w = (.ok {},
      { w with state := ((['\uFFFC'], 0), lineCalls ++ [.fetch]), log := w.log ++ [.fetch] }) := by
    unfold substitute
    rw [Run.execute_bind_of_ok (Run.execute_compile compile_letterImages _ _),
      Run.execute_bind_of_ok (Run.execute_fetch hfetch),
      Run.execute_bind_of_ok (Run.execute_ofLimited hfind _ _)]
    rfl
  rw [runManual, Run.execute_bind_of_ok hsubstitute]
  rfl

/-- The run ends well, and one of the letters is gone without an image. -/
theorem execute_runImages_line [CharNames] :
    ∃ w', ([⟨0, letterImages⟩].mapM runImage).execute lineSession lineWorld = (.ok [0], w') ∧
      w'.state = ((['\uFFFC'], 0), lineCalls ++ [.fetch]) := by
  obtain ⟨w₁, hrun₁, hstate₁⟩ := execute_runManual_line
    (w := Run.note (.pause lineSession.settings.imagePause) lineWorld) rfl
  obtain ⟨w₂, hrun₂, hstate₂⟩ := execute_runManual_object
    (w := Run.note (.pause lineSession.settings.imageRetryPause) w₁) hstate₁
  refine ⟨w₂, ?_, hstate₂⟩
  have hread : (read : Run LineState (Session LineState)).execute lineSession lineWorld =
      (.ok lineSession, lineWorld) := rfl
  have hwait : ∀ (seconds : Float) (w : World LineState),
      (Run.wait seconds).execute lineSession w = (.ok (), Run.note (.pause seconds) w) :=
    fun _ _ => rfl
  have hagain : (Run.within (.image 1) (runManual letterImages)).execute lineSession
      (Run.note (.pause lineSession.settings.imageRetryPause) w₁) = (.ok 0, w₂) := by
    rw [Run.within, Run.execute_tryCatch, hrun₂]
  have hitem : (runImage ⟨0, letterImages⟩).execute lineSession lineWorld = (.ok 0, w₂) := by
    unfold runImage
    rw [Run.execute_bind_of_ok hread, Run.execute_bind_of_ok (hwait _ _), Run.execute_tryCatch,
      hrun₁]
    refine Eq.trans ?_ hagain
    exact Run.execute_bind_of_ok (hwait _ _) _
  rw [List.mapM_cons, Run.execute_bind_of_ok hitem]
  rfl

attribute [local instance] CharNames.none

theorem runImages_accounts_for_letters :
    letterImages.insertsImage = true ∧
    ∃ w' calls, ([⟨0, letterImages⟩].mapM runImage).execute lineSession lineWorld = (.ok [0], w') ∧
      w'.state.2 = calls ∧
      (Call.deletedSpans calls).length = (Call.fates calls).count .replaced +
        (Call.fates calls).count .lost + (Call.rewrittenSpans calls).length ∧
      (Call.fates calls).count .lost ≤ 1 := by
  have hitems : ∀ item ∈ [(⟨0, letterImages⟩ : Numbered)],
      item.expression.insertsImage = true := by
    intro item hitem
    rw [List.mem_singleton.1 hitem]
    rfl
  obtain ⟨w', hrun, -⟩ := execute_runImages_line
  obtain ⟨calls, hcalls, hdeleted, hlost, -⟩ :=
    runImages_accounts_for_deletions (Service.records_recording Service.ofLine) hitems hrun
  exact ⟨rfl, w', calls, hrun, hcalls, hdeleted, hlost⟩

/-- The queue is worked off without a fault: two letters were deleted, and one image is there. -/
theorem runImages_loses_letter :
    ∃ w', ([⟨0, letterImages⟩].mapM runImage).execute lineSession lineWorld = (.ok [0], w') ∧
      (Call.deletedSpans w'.state.2).length = 2 ∧ (Call.fates w'.state.2).count .replaced = 1 ∧
      w'.state.1.1 = ['\uFFFC'] := by
  obtain ⟨w', hrun, hstate⟩ := execute_runImages_line
  refine ⟨w', hrun, ?_⟩
  rw [hstate]
  exact ⟨rfl, rfl, rfl⟩

end Session

end Redline
