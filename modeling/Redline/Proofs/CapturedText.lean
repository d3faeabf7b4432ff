import Redline.Proofs.Falling
import Redline.Proofs.MarkdownForm
import Redline.Proofs.Marks
import Redline.Proofs.MatchOrder
import Redline.Proofs.Substitution

/-!
# Captured text that is written back

A replacement that refers to a group writes the text that the group has captured.  The expanded
replacement is then read for images, markdown and escapes, whatever it comes from.  So captured text
is written back as it is exactly when it has none of these, and a substitution that puts every
match back in its place leaves the document alone when all matches are of this kind.
-/

namespace Redline

/-! ## A group around the whole pattern -/

namespace Pattern

variable {p : Pattern} {index : Nat} {body : Node}

theorem span?_of_matchAt
    (hroot : p.root = .group index body) {s : Subject} {i : Nat} {nonempty : Bool}
    {outcome : Outcome} (hi : i ≤ s.size) (h : p.matchAt s i nonempty = some outcome) :
    outcome.2.span? index = some (i, outcome.1) := by
  rw [matchAt, hroot, Node.run] at h
  obtain ⟨j, caps, -, -, hk⟩ := body.forward_run s i [] _ _ hi h
  split at hk
  · cases hk
  · cases hk
    simp [Captures.span?]

theorem span?_of_mem_matchesFrom
    (hroot : p.root = .group index body) {text : Text} {s : Subject} {budget i : Nat}
    {nonempty : Bool} {m : Match} (hm : m ∈ p.matchesFrom text s budget i nonempty) :
    m.subject = text ∧ m.groups = p.groups ∧ m.captures.span? index = some (m.start, m.stop) := by
  induction budget generalizing i nonempty with
  | zero => cases hm
  | succ budget ih =>
    rw [matchesFrom] at hm
    split at hm
    next => cases hm
    next start stop caps hsearch =>
      rcases List.mem_cons.1 hm with rfl | hm
      · obtain ⟨j, hj, hmatch⟩ := List.exists_of_findSome?_eq_some hsearch
        obtain ⟨outcome, hrun, hout⟩ := Option.map_eq_some_iff.1 hmatch
        cases hout
        rw [List.mem_range'_1] at hj
        exact ⟨rfl, rfl, span?_of_matchAt hroot (by omega) hrun⟩
      · exact ih hm

/-- A group around the whole pattern captures the whole match. -/
theorem group?_of_mem_findAll
    (hroot : p.root = .group index body) (hindex : index ≠ 0) {text : Text} {m : Match}
    (hm : m ∈ p.findAll text) :
    m.subject = text ∧ m.groups = p.groups ∧ m.group? index = some m.whole := by
  obtain ⟨hsubject, hgroups, hspan⟩ := span?_of_mem_matchesFrom hroot hm
  refine ⟨hsubject, hgroups, ?_⟩
  rw [Match.group?, if_neg (by simpa using hindex), hspan]
  rfl

end Pattern

/-! ## What is written -/

namespace Written

variable {e : Expression} {m : Match}

theorem expand_reference
    (hgroups : 1 ≤ m.groups) (hgroup : m.group? 1 = some m.whole) :
    Template.expand (some m) (Template.reference ['1']) = .ok m.whole := by
  have hsound : ∀ i ∈ [Template.Item.group '1'], i.IsSound := by
    intro i hi
    rw [List.mem_singleton.1 hi]
    show Template.isGroupDigit '1' = true
    decide
  have htext : [Template.Item.group '1'].flatMap (Template.Item.text m) = m.whole := by
    have hvalue : (digitValue? '1').getD 0 = 1 := by decide
    have hhas : ¬ m.groups < 1 := by omega
    rw [List.flatMap_singleton, Template.Item.text]
    simp only [hvalue, if_neg hhas, hgroup, Option.getD_some]
  have hexpand := Template.expand_flatMap_template hsound m
  rw [htext] at hexpand
  exact hexpand

/-- Without a directive, an expansion is an image or read as markdown. -/
theorem ofMatch_of_directive_eq_none
    (hdirective : e.directive? = none) {text : Text}
    (hexpand : Template.expand (some m) e.replacement = .ok text) :
    ofMatch e m = .ok (match ImageSpec.read? text with
      | some spec => .image spec
      | none => .text (Markdown.read text).1 (Markdown.read text).2 none) := by
  simp only [ofMatch, hexpand, hdirective, Except.mapError, bind, Except.bind, imageOf?]
  cases ImageSpec.read? text with
  | none => rfl
  | some spec => rfl

/-- With a directive that is no image, an expansion is an image or has its newlines decoded. -/
theorem ofMatch_of_directive_eq_some
    {d : Directive} (hdirective : e.directive? = some d) (hplain : d.image = []) {text : Text}
    (hexpand : Template.expand (some m) e.replacement = .ok text) :
    ofMatch e m = match ImageSpec.read? text with
      | some spec => .ok (.image spec)
      | none => d.formats.map fun formats =>
        .text (Text.replaceAll "\\n".toList ['\n'] text) formats (some d) := by
  simp only [ofMatch, hexpand, hdirective, Except.mapError, bind, Except.bind, imageOf?,
    Option.bind_some, hplain, Template.render]
  cases ImageSpec.read? text with
  | none =>
    cases d.formats with
    | error limit => rfl
    | ok formats => rfl
  | some spec => rfl

/-- Decoding newlines leaves a text alone exactly when no newline is escaped in it. -/
theorem replaceAll_newline_eq_self_iff {t : Text} :
    Text.replaceAll "\\n".toList ['\n'] t = t ↔ ¬ ['\\', 'n'] <:+: t := by
  have hpiece : "\\n".toList = ['\\', 'n'] := rfl
  rw [hpiece, Text.replaceAll, Text.replaceBy_eq_self_iff]
  · constructor
    · intro hnone hpart
      obtain ⟨s, ⟨rest, rfl⟩, hsuffix⟩ := List.infix_iff_prefix_suffix.1 hpart
      have hrule := hnone _ _ hsuffix
      rw [if_pos (by simp [Text.startsWith])] at hrule
      cases hrule
    · intro hnot c rest hsuffix
      refine if_neg fun hstarts => hnot ?_
      exact List.infix_iff_prefix_suffix.2 ⟨_, List.isPrefixOf_iff_prefix.1 hstarts, hsuffix⟩
  · intro c rest used new hrule
    split at hrule
    next hstarts =>
      cases hrule
      obtain ⟨tail, htail⟩ := List.isPrefixOf_iff_prefix.1 hstarts
      refine ⟨by decide, '\n', [], rfl, ?_⟩
      rw [← (List.cons.inj htail).1]
      decide
    next => cases hrule

theorem image_newText_ne {spec : ImageSpec} {t : Text} (h : ImageSpec.read? t = some spec) :
    (image spec).newText ≠ t := by
  intro heq
  have hform := ImageSpec.isSome_read?_iff.1 (Option.isSome_of_eq_some h)
  obtain ⟨alt, address, stop, rest, -, rfl⟩ := hform
  cases heq

/-- Without a directive, captured text is written back as it is exactly when it is verbatim. -/
theorem exists_ofMatch_iff_verbatim
    (hdirective : e.directive? = none)
    (hexpand : Template.expand (some m) e.replacement = .ok m.whole) :
    (∃ written, ofMatch e m = .ok written ∧ written.newText = m.whole ∧ written.formats = []) ↔
      Markdown.Verbatim m.whole := by
  rw [ofMatch_of_directive_eq_none hdirective hexpand, Markdown.verbatim_iff]
  cases himage : ImageSpec.read? m.whole with
  | some spec =>
    constructor
    · rintro ⟨written, heq, htext, -⟩
      cases heq
      exact absurd htext (image_newText_ne himage)
    · rintro ⟨hnone, -⟩
      cases hnone
  | none =>
    constructor
    · rintro ⟨written, heq, htext, hformats⟩
      cases heq
      exact ⟨rfl, Prod.ext htext hformats⟩
    · rintro ⟨-, hread⟩
      exact ⟨_, rfl, congrArg Prod.fst hread, congrArg Prod.snd hread⟩

/-- With a directive, only an image and an escaped newline stand in the way, and formats that
cannot be said. -/
theorem exists_ofMatch_iff_no_newline
    {d : Directive} (hdirective : e.directive? = some d) (hplain : d.image = [])
    (hexpand : Template.expand (some m) e.replacement = .ok m.whole) :
    (∃ written, ofMatch e m = .ok written ∧ written.newText = m.whole) ↔
      ¬ ImageSpec.Form m.whole ∧ ¬ ['\\', 'n'] <:+: m.whole ∧
        ∃ formats, d.formats = .ok formats := by
  rw [ofMatch_of_directive_eq_some hdirective hplain hexpand, ← ImageSpec.isSome_read?_iff,
    ← replaceAll_newline_eq_self_iff]
  cases himage : ImageSpec.read? m.whole with
  | some spec =>
    constructor
    · rintro ⟨written, heq, htext⟩
      cases heq
      exact absurd htext (image_newText_ne himage)
    · rintro ⟨hnone, -⟩
      exact absurd rfl hnone
  | none =>
    constructor
    · rintro ⟨written, heq, htext⟩
      cases hformats : d.formats with
      | error limit =>
        rw [hformats] at heq
        cases heq
      | ok formats =>
        rw [hformats] at heq
        cases heq
        exact ⟨by simp, htext, formats, rfl⟩
    · rintro ⟨-, htext, formats, hformats⟩
      rw [hformats]
      exact ⟨_, rfl, htext⟩

end Written

/-! ## Matches that are put back -/

/-- The text of each run stands in the body, at the place of the run. -/
def Document.Shows (d : Document) (body : Body) : Prop :=
  ∀ run ∈ d.runs, ∃ before behind : Body,
    body = before ++ Body.ofText run.text ++ behind ∧ run.start = before.length

namespace DocMatch

/-- The match stands in the body, and the text that was found is written in its place. -/
structure Restores (body : Body) (m : DocMatch) : Prop where
  written : m.written = .text m.found.whole [] none
  stands : ∃ before behind : Body, body = before ++ Body.ofText m.found.whole ++ behind ∧
    m.start = before.length ∧ m.stop = before.length + m.found.whole.units

namespace Restores

variable {body : Body} {m : DocMatch}

theorem isRegular (h : Restores body m) : m.isRegular = true := by
  simp [DocMatch.isRegular, isImage, isFootnote, h.written, Written.image?, Written.formats]

theorem leavesRange (h : Restores body m) : m.leavesRange = false := by
  simp [DocMatch.leavesRange, h.written, Written.formats, Written.directive?]

theorem content (h : Restores body m) : m.content = Body.ofText m.found.whole := by
  simp [DocMatch.content, isFootnote, h.written, Written.formats]

theorem isImage_eq_false (h : Restores body m) : m.isImage = false :=
  isImage_eq_false_of_isRegular h.isRegular

theorem isFootnote_eq_false (h : Restores body m) : m.isFootnote = false := by
  simp [isFootnote, h.written, Written.formats]

/-- Replacing the match by its own text changes nothing. -/
theorem apply_splice (h : Restores body m) :
    (m.splice.start : Int) = m.start ∧ (m.splice.stop : Int) = m.stop ∧
      m.splice.start ≤ m.splice.stop ∧ m.splice.stop ≤ body.length ∧
      m.splice.apply body = body := by
  obtain ⟨before, behind, hbody, hstart, hstop⟩ := h.stands
  have hsplice : m.splice = ⟨before.length, before.length + m.found.whole.units,
      Body.ofText m.found.whole⟩ := by
    rw [splice, h.content, hstart, hstop]
    rfl
  have hlength : body.length = before.length + m.found.whole.units + behind.length := by
    rw [hbody, List.length_append, List.length_append, Body.length_ofText]
  have hdrop : body.drop (before.length + m.found.whole.units) = behind := by
    rw [hbody]
    exact List.drop_left' (by rw [List.length_append, Body.length_ofText])
  have htake : body.take before.length = before := by
    rw [hbody, List.append_assoc]
    exact List.take_left' rfl
  rw [hsplice]
  refine ⟨by simp only [hstart], by simp only [hstop, Int.natCast_add], by simp, ?_, ?_⟩
  · simp only []
    omega
  · rw [Splice.apply]
    simp only [hdrop, htake]
    exact hbody.symm

end Restores

variable {d : Document} {p : Pattern} {e : Expression} {found : List DocMatch}

theorem exists_find_eq_ok (h : ∀ a ∈ located d p, ∃ m, place e a.1 a.2 = .ok m) :
    ∃ found, find d p e = .ok found := by
  have hplaced : ∃ placed,
      (if (!e.isGlobal && e.nth == 0) = true then (located d p).take 1 else located d p).mapM
        (fun a => place e a.1 a.2) = .ok placed := by
    apply exists_mapM_eq_ok
    intro a ha
    split at ha
    · exact h a (List.mem_of_mem_take ha)
    · exact h a ha
  obtain ⟨placed, hplaced⟩ := hplaced
  simp only [find, hplaced]
  exact ⟨_, rfl⟩

theorem exists_of_mem_find (h : find d p e = .ok found) {m : DocMatch} (hm : m ∈ found) :
    ∃ a ∈ located d p, place e a.1 a.2 = .ok m := by
  simp only [find] at h
  obtain ⟨placed, hplaced, h⟩ := exists_of_bind_eq_ok h
  cases h
  have hplace : m ∈ placed := by
    split at hm
    · exact List.mem_of_getElem? (Option.mem_toList.1 hm)
    · exact hm
  obtain ⟨a, ha, hok⟩ := exists_of_mem_forall₂ (forall₂_of_mapM_eq_ok hplaced) hplace
  refine ⟨a, ?_, hok⟩
  split at ha
  · exact List.mem_of_mem_take ha
  · exact ha

/-- A match of a run stands in a body that shows the document. -/
theorem stands_of_mem_located
    {body : Body} (hbody : d.Shows body) {a : Document.Run × Match} (ha : a ∈ located d p)
    (hsubject : a.2.subject = a.1.text) :
    ∃ before behind : Body, body = before ++ Body.ofText a.2.whole ++ behind ∧
      a.1.position a.2.start = before.length ∧
      a.1.position a.2.stop = before.length + a.2.whole.units := by
  obtain ⟨hle, hlen⟩ := inRun_of_mem_located ha
  obtain ⟨run, hrun, hm⟩ := List.mem_flatMap.1 ha
  obtain ⟨m, -, rfl⟩ := List.mem_map.1 hm
  obtain ⟨before, behind, hshow, hstart⟩ := hbody run hrun
  simp only [] at hle hlen hsubject
  have htext : run.text = run.text.take m.start ++ m.whole ++ run.text.drop m.stop := by
    have hfirst : run.text.take m.start = (run.text.take m.stop).take m.start := by
      rw [List.take_take, Nat.min_eq_left hle]
    rw [Match.whole, Text.slice, hsubject, hfirst, List.take_append_drop, List.take_append_drop]
  have hstop : run.text.take m.stop = run.text.take m.start ++ m.whole := by
    have hfirst : run.text.take m.start = (run.text.take m.stop).take m.start := by
      rw [List.take_take, Nat.min_eq_left hle]
    rw [Match.whole, Text.slice, hsubject, hfirst, List.take_append_drop]
  refine ⟨before ++ Body.ofText (run.text.take m.start),
    Body.ofText (run.text.drop m.stop) ++ behind, ?_, ?_, ?_⟩
  · rw [hshow, htext, Body.ofText_append, Body.ofText_append, ← htext]
    simp only [List.append_assoc]
  · simp only [Document.Run.position, hstart, List.length_append, Body.length_ofText]
    omega
  · simp only [Document.Run.position, hstart, hstop, List.length_append, Body.length_ofText,
      Text.units_append]
    omega

end DocMatch

namespace Edit

variable {e : Expression} {found : List DocMatch} {edits : List Edit} {body : Body}

/-- Edits that put every match back leave the body alone, in whatever order they are made. -/
theorem carryOutAll?_requests_of_restores
    (h : compile e [] found = .ok edits) (hfound : ∀ m ∈ found, m.Restores body) :
    Request.carryOutAll? (requests edits) body = some body ∧ ranges edits = [] := by
  have hedits : ∀ edit ∈ edits,
      Request.carryOutAll? edit.group.requests body = some body ∧ edit.range = none := by
    intro edit hedit
    obtain ⟨m, hm, hok⟩ := exists_of_mem_forall₂ (forall₂_of_mapM_eq_ok h) hedit
    have hrestores := hfound m hm
    obtain ⟨hstart, hstop, hle, hlen, happly⟩ := hrestores.apply_splice
    have hcarries := ofMatch_carriesOut (t := m.splice) hok hrestores.isRegular
      (by rw [ShiftMap.move_nil, hstart]) (by rw [ShiftMap.move_nil, hstop]) rfl
    have hrange := ofMatch_range hok hrestores.isRegular
    rw [hrestores.leavesRange] at hrange
    exact ⟨(hcarries.requests body hle hlen).trans (congrArg some happly), hrange⟩
  have hgroups : ∀ groups : List (EditGroup Request),
      (∀ g ∈ groups, Request.carryOutAll? g.requests body = some body) →
        Request.carryOutAll? (groups.flatMap (·.requests)) body = some body := by
    intro groups hgroups
    induction groups with
    | nil => rfl
    | cons g rest ih =>
      rw [List.flatMap_cons, Request.carryOutAll?_append, hgroups g List.mem_cons_self]
      exact ih fun k hk => hgroups k (List.mem_cons_of_mem _ hk)
  constructor
  · apply hgroups
    intro g hg
    obtain ⟨edit, hedit, rfl⟩ := List.mem_map.1 (EditGroup.mem_sort.1 hg)
    exact (hedits edit hedit).1
  · rw [ranges, List.filterMap_eq_nil_iff]
    exact fun edit hedit => (hedits edit hedit).2

end Edit

namespace Session

variable {σ : Type} {s : Session σ} {view : σ → Body} {e : Expression} {pattern : Pattern}
  {w : World σ} {d : Document} {state : σ} {found : List DocMatch}

/-- A substitution that puts every match back ends with nothing left to do and the body as it
was. -/
theorem exists_execute_substitute [CharNames]
    (hs : s.service.Literal view) (hcompile : e.compile = .ok pattern)
    (hfetch : s.service.fetch w.state = (.ok d, state))
    (hfind : DocMatch.find d pattern e = .ok found) (hdirective : e.directive? = none)
    (hexpand : ∀ m ∈ found, ∃ text, Template.expand (some m.found) e.replacement = .ok text)
    (hfound : ∀ m ∈ found, m.Restores (view state)) :
    ∃ w', (substitute e).execute s w = (.ok { replaced := found.length }, w') ∧
      view w'.state = view state := by
  have himages : found.filter (·.isImage) = [] :=
    List.filter_eq_nil_iff.2 fun m hm => by simp [(hfound m hm).isImage_eq_false]
  have hregular : found.filter (·.isRegular) = found :=
    List.filter_eq_self.2 fun m hm => (hfound m hm).isRegular
  have hfootnotes : found.filter (·.isFootnote) = [] :=
    List.filter_eq_nil_iff.2 fun m hm => by simp [(hfound m hm).isFootnote_eq_false]
  obtain ⟨edits, hedits⟩ : ∃ edits, Edit.compile e [] found = .ok edits := by
    apply exists_mapM_eq_ok
    intro m hm
    obtain ⟨text, htext⟩ := hexpand m hm
    exact Edit.exists_ofMatch htext []
  obtain ⟨hrequests, hranges⟩ := Edit.carryOutAll?_requests_of_restores hedits hfound
  unfold substitute
  rw [Run.execute_bind_of_ok (Run.execute_compile hcompile _ _)]
  rw [Run.execute_bind_of_ok (Run.execute_fetch hfetch)]
  rw [Run.execute_bind_of_ok (Run.execute_ofLimited hfind _ _)]
  simp only [hdirective]
  by_cases hempty : found.isEmpty = true
  · rw [if_pos hempty, List.isEmpty_iff.1 hempty]
    exact ⟨_, rfl, rfl⟩
  · obtain ⟨done, w₂, hrun, hview⟩ := (Run.Ensures.update hs hrequests).discard
      { w with state, log := w.log ++ [.fetch] } rfl
    have hrounds : (replaceMatches e found styleParagraphs).execute s
        { w with state, log := w.log ++ [.fetch] } = (.ok ([], []), w₂) := by
      have hnone : (insertImages [] : Run σ ShiftMap) = pure [] := rfl
      rw [replaceMatches, himages, hregular, hfootnotes, hnone, pure_bind,
        Run.execute_bind_of_ok (Run.execute_ofLimited hedits _ _), Run.execute_bind_of_ok hrun,
        styleParagraphs, hranges]
      rfl
    rw [if_neg hempty, Run.execute_bind_of_ok hrounds]
    exact ⟨w₂, rfl, hview⟩

/-- Text that a group around the whole match has captured is written back as it is exactly when it
is verbatim; under a directive, exactly when it is no image and has no escaped newline.  So a
substitution that refers to a group around its whole pattern leaves the body alone when the matches
that it is about are verbatim. -/
theorem captured_text_is_put_back [CharNames]
    (hreplacement : e.replacement = Template.reference ['1']) :
    (∀ m : Match, 1 ≤ m.groups → m.group? 1 = some m.whole →
      (e.directive? = none →
        ((∃ written, Written.ofMatch e m = .ok written ∧ written.newText = m.whole ∧
          written.formats = []) ↔ Markdown.Verbatim m.whole)) ∧
      ∀ d, e.directive? = some d → d.image = [] →
        ((∃ written, Written.ofMatch e m = .ok written ∧ written.newText = m.whole) ↔
          ¬ ImageSpec.Form m.whole ∧ ¬ ['\\', 'n'] <:+: m.whole ∧
            ∃ formats, d.formats = .ok formats)) ∧
    ∀ (σ : Type) (s : Session σ) (view : σ → Body) (w : World σ) (state : σ) (d : Document)
      (pattern : Pattern) (inside : Pattern.Node),
      s.service.Literal view → e.directive? = none → e.compile = .ok pattern →
      pattern.root = .group 1 inside → 1 ≤ pattern.groups →
      s.service.fetch w.state = (.ok d, state) → view state = view w.state →
      d.Shows (view w.state) →
      ∃ found, DocMatch.find d pattern e = .ok found ∧
        ((∀ m ∈ found, Markdown.Verbatim m.found.whole) →
          ∃ w', (substitute e).execute s w = (.ok { replaced := found.length }, w') ∧
            view w'.state = view w.state) := by
  have hexpand : ∀ m : Match, 1 ≤ m.groups → m.group? 1 = some m.whole →
      Template.expand (some m) e.replacement = .ok m.whole := by
    intro m hgroups hgroup
    rw [hreplacement]
    exact Written.expand_reference hgroups hgroup
  refine ⟨fun m hgroups hgroup => ?_, ?_⟩
  · have hwhole := hexpand m hgroups hgroup
    exact ⟨fun hnone => Written.exists_ofMatch_iff_verbatim hnone hwhole,
      fun d hsome hplain => Written.exists_ofMatch_iff_no_newline hsome hplain hwhole⟩
  · intro σ s view w state d pattern inside hs hnone hcompile hroot hgroups hfetch hview hshows
    have hmatch : ∀ a ∈ DocMatch.located d pattern, a.2.subject = a.1.text ∧
        Template.expand (some a.2) e.replacement = .ok a.2.whole := by
      intro a ha
      obtain ⟨run, -, ha⟩ := List.mem_flatMap.1 ha
      obtain ⟨m, hm, rfl⟩ := List.mem_map.1 ha
      obtain ⟨hsubject, hcount, hgroup⟩ := Pattern.group?_of_mem_findAll hroot (by decide) hm
      exact ⟨hsubject, hexpand m (hcount ▸ hgroups) hgroup⟩
    have hplace : ∀ a ∈ DocMatch.located d pattern, ∃ m, DocMatch.place e a.1 a.2 = .ok m := by
      intro a ha
      rw [DocMatch.place, Written.ofMatch_of_directive_eq_none hnone (hmatch a ha).2]
      exact ⟨_, rfl⟩
    obtain ⟨found, hfind⟩ := DocMatch.exists_find_eq_ok hplace
    refine ⟨found, hfind, fun hverbatim => ?_⟩
    have hplaced : ∀ m ∈ found, ∃ a ∈ DocMatch.located d pattern,
        m = ⟨a.1.position a.2.start, a.1.position a.2.stop, a.2, .text a.2.whole [] none⟩ := by
      intro m hm
      obtain ⟨a, ha, hok⟩ := DocMatch.exists_of_mem_find hfind hm
      obtain ⟨written, hwritten, hok⟩ := exists_of_bind_eq_ok hok
      cases hok
      obtain ⟨himage, hread⟩ := Markdown.verbatim_iff.1 (hverbatim _ hm)
      simp only [] at himage hread
      rw [Written.ofMatch_of_directive_eq_none hnone (hmatch a ha).2, himage] at hwritten
      simp only [hread] at hwritten
      cases hwritten
      exact ⟨a, ha, rfl⟩
    rw [← hview]
    apply exists_execute_substitute hs hcompile hfetch hfind hnone
    · intro m hm
      obtain ⟨a, ha, rfl⟩ := hplaced m hm
      exact ⟨_, (hmatch a ha).2⟩
    · intro m hm
      obtain ⟨a, ha, rfl⟩ := hplaced m hm
      rw [hview]
      exact ⟨rfl, DocMatch.stands_of_mem_located hshows ha (hmatch a ha).1⟩

/-- The line `2*3 [a]`, which has the characters of markdown but none of its forms. -/
def productLine : Document where
  body := [.paragraph ⟨some 1, some 9⟩
    ⟨[⟨⟨some 1, some 4⟩, .run "2*3".toList⟩, ⟨⟨some 4, some 9⟩, .run " [a]\n".toList⟩], none⟩]

def productSession : Session Body where
  service := { Service.ofBody with fetch := fun body => (.ok productLine, body) }
  settings := {}

def productWorld : World Body where
  state := .object [] :: Body.ofText "2*3 [a]\n".toList

/-- Write every match of a pattern back through a group around it. -/
def backReference : Expression where
  pattern := "(.+)".toList
  replacement := Template.reference ['1']
  isGlobal := true
  raw := []

/-- One or more characters of a line, in a group. -/
def lineGroup : Pattern :=
  ⟨.group 1 (.loop 1 none .greedy (.one { items := [.code 10], negated := true })), 1⟩

theorem compile_backReference [CharNames] : backReference.compile = .ok lineGroup := by
  have hsteps : Pattern.steps 4 { rest := ['(', '.', '+', ')'] } = .ok _ := calc
    _ = Pattern.steps 4 _ := Pattern.steps_of_step (by decide) rfl (by decide)
    _ = Pattern.steps 4 _ := Pattern.steps_of_step (by decide) rfl (by decide)
    _ = Pattern.steps 4 _ := Pattern.steps_of_step (by decide) rfl (by decide)
    _ = Pattern.steps 4 _ := Pattern.steps_of_step (by decide) rfl (by decide)
    _ = .ok _ := Pattern.steps_of_nil rfl
  exact Pattern.read_of_steps ['(', '.', '+', ')'] rfl hsteps rfl

theorem runs_productLine : productLine.runs = [⟨"2*3".toList, 1⟩, ⟨" [a]\n".toList, 4⟩] :=
  rfl

theorem shows_productLine : productLine.Shows productWorld.state := by
  intro run hrun
  rw [runs_productLine] at hrun
  rcases List.mem_cons.1 hrun with rfl | hrun
  · exact ⟨[.object []], Body.ofText " [a]\n".toList, rfl, rfl⟩
  · rw [List.mem_singleton.1 hrun]
    exact ⟨.object [] :: Body.ofText "2*3".toList, [], rfl, rfl⟩

theorem located_productLine :
    DocMatch.located productLine lineGroup =
      [(⟨"2*3".toList, 1⟩, ⟨"2*3".toList, 0, 3, [(1, 0, 3)], 1⟩),
        (⟨" [a]\n".toList, 4⟩, ⟨" [a]\n".toList, 0, 4, [(1, 0, 4)], 1⟩)] := by
  have hfirst : lineGroup.findAll "2*3".toList = [⟨"2*3".toList, 0, 3, [(1, 0, 3)], 1⟩] := by cbv
  have hsecond : lineGroup.findAll " [a]\n".toList =
      [⟨" [a]\n".toList, 0, 4, [(1, 0, 4)], 1⟩] := by cbv
  simp only [DocMatch.located, runs_productLine, List.flatMap_cons, List.flatMap_nil, hfirst,
    hsecond]
  rfl

attribute [local instance] CharNames.none

theorem captured_text_is_put_back_productLine :
    (∀ run ∈ productLine.runs, ∀ m ∈ lineGroup.findAll run.text, Markdown.Verbatim m.whole) ∧
    ∃ w', (substitute backReference).execute productSession productWorld =
        (.ok { replaced := 2 }, w') ∧
      w'.state = .object [] :: Body.ofText "2*3 [a]\n".toList := by
  have hliteral : productSession.service.Literal id := ⟨Service.literal_ofBody.update⟩
  have hlocated := located_productLine
  have hverbatim : ∀ a ∈ DocMatch.located productLine lineGroup, Markdown.Verbatim a.2.whole := by
    intro a ha
    rw [hlocated] at ha
    rcases List.mem_cons.1 ha with rfl | ha
    · exact Markdown.verbatim_iff.2 ⟨rfl, rfl⟩
    · rw [List.mem_singleton.1 ha]
      exact Markdown.verbatim_iff.2 ⟨rfl, rfl⟩
  obtain ⟨found, hfind, hrun⟩ := (captured_text_is_put_back (e := backReference) rfl).2 Body
    productSession id productWorld _ _ _ _ hliteral rfl compile_backReference rfl (by decide) rfl
    rfl shows_productLine
  obtain ⟨placed, hplaced, hfound⟩ := DocMatch.exists_of_find_eq_ok hfind rfl
  have hlength : found.length = 2 := by
    rw [hfound]
    exact (forall₂_of_mapM_eq_ok hplaced).length_eq.symm.trans (congrArg List.length hlocated)
  rw [hlength] at hrun
  refine ⟨fun run hr m hm => hverbatim (run, m) ?_, hrun fun m hm => ?_⟩
  · exact List.mem_flatMap.2 ⟨run, hr, List.mem_map.2 ⟨m, hm, rfl⟩⟩
  · obtain ⟨a, ha, hok⟩ := DocMatch.exists_of_mem_find hfind hm
    obtain ⟨written, -, hok⟩ := exists_of_bind_eq_ok hok
    cases hok
    exact hverbatim a ha

/-- The captured text `**x**` is read as a bold `x`. -/
theorem captured_text_is_read :
    ∃ m ∈ lineGroup.findAll "**x**".toList, m.group? 1 = some m.whole ∧ m.whole = "**x**".toList ∧
      Written.ofMatch backReference m = .ok (.text ['x'] [.bold] none) := by
  have hfound : lineGroup.findAll "**x**".toList = [⟨"**x**".toList, 0, 5, [(1, 0, 5)], 1⟩] := by
    cbv
  rw [hfound]
  refine ⟨_, List.mem_singleton_self _, rfl, rfl, ?_⟩
  have hexpand := Written.expand_reference
    (m := ⟨"**x**".toList, 0, 5, [(1, 0, 5)], 1⟩) (by decide) rfl
  exact Written.ofMatch_of_directive_eq_none (e := backReference) rfl hexpand

end Session

end Redline
