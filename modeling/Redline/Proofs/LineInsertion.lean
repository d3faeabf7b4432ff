import Redline.Proofs.LineDeletion
import Redline.Proofs.Page

/-!
# Inserting lines

A line command writes its text beside every line that matches, as lines of their own.  Nothing can
be inserted behind the newline at the end of the body, so lines after the last one go before that
newline, with the newline of the text moved to its front.  All places are found on one copy of the
document.  This module shows that the lines come out in their places all the same, and that no
insertion reaches behind the end of the body.
-/

namespace Redline

/-! ## The lines of a text -/

namespace Text

theorem not_mem_of_mem_fields {sep : Char} {t part : Text} (h : part ∈ fields sep t) :
    sep ∉ part := by
  induction t generalizing part with
  | nil =>
    rw [fields, List.mem_singleton] at h
    simp [h]
  | cons c rest ih =>
    rw [fields] at h
    by_cases hc : c = sep
    · rw [if_pos (beq_iff_eq.2 hc)] at h
      rcases List.mem_cons.1 h with rfl | h
      · simp
      · exact ih h
    · rw [if_neg (mt beq_iff_eq.1 hc)] at h
      split at h
      next first parts hrest =>
        rcases List.mem_cons.1 h with rfl | h
        · have hfirst : sep ∉ first := ih (hrest ▸ List.mem_cons_self)
          simp [hfirst, Ne.symm hc]
        · exact ih (hrest ▸ List.mem_cons_of_mem _ h)
      next =>
        rw [List.mem_singleton.1 h]
        simp [Ne.symm hc]

theorem fields_append {sep : Char} {line : Text} (h : sep ∉ line) (rest : Text) :
    fields sep (line ++ sep :: rest) = line :: fields sep rest := by
  induction line with
  | nil => simp [fields]
  | cons c line ih =>
    obtain ⟨hc, hline⟩ := not_or.1 (mt List.mem_cons.2 h)
    rw [List.cons_append, fields, ih hline, if_neg (by simpa using Ne.symm hc)]

theorem fields_flatMap {sep : Char} {lines : List Text} (h : ∀ line ∈ lines, sep ∉ line) :
    fields sep (lines.flatMap (· ++ [sep])) = lines ++ [[]] := by
  induction lines with
  | nil => rfl
  | cons line rest ih =>
    rw [List.flatMap_cons, List.append_assoc, List.singleton_append,
      fields_append (h line List.mem_cons_self),
      ih fun line hline => h line (List.mem_cons_of_mem _ hline)]
    rfl

end Text

namespace Body

theorem ofText_injective : Function.Injective ofText := by
  intro s t h
  have hchar : Function.Injective Atom.char := fun _ _ => Atom.char.inj
  refine List.map_injective_iff.2 hchar (Atom.unitsOf_injective ?_)
  rwa [Atom.unitsOf_map_char, Atom.unitsOf_map_char]

/-- Lines without newlines of their own are told by their units. -/
theorem ofLines_inj
    {xs ys : List Text} (hx : ∀ line ∈ xs, '\n' ∉ line) (hy : ∀ line ∈ ys, '\n' ∉ line)
    (h : ofLines xs = ofLines ys) : xs = ys := by
  have htext : ∀ lines, ofLines lines = ofText (lines.flatMap (· ++ ['\n'])) :=
    fun _ => List.flatMap_assoc.symm
  rw [htext, htext] at h
  have hsame := congrArg (Text.fields '\n') (ofText_injective h)
  rw [Text.fields_flatMap hx, Text.fields_flatMap hy] at hsame
  exact List.append_cancel_right hsame

/-- A text and the parts between its newlines are written by the same units, line by line. -/
theorem ofLines_fields (t : Text) : ofLines (Text.fields '\n' t) = ofLine t := by
  induction t with
  | nil => rfl
  | cons c rest ih =>
    have hcons : ∀ line, ofLine (c :: line) = ofChar c ++ ofLine line := fun _ => rfl
    rw [Text.fields]
    by_cases hc : c = '\n'
    · rw [if_pos (beq_iff_eq.2 hc), ofLines_cons, ih, hcons, hc]
      rfl
    · rw [if_neg (mt beq_iff_eq.1 hc)]
      split
      next part parts hparts =>
        rw [hparts, ofLines_cons] at ih
        rw [ofLines_cons, hcons, hcons, List.append_assoc, ih]
      next hparts =>
        rw [hparts] at ih
        exact absurd ih.symm (ofLine_ne_nil rest)

end Body

namespace Session

/-- The lines that a line command writes: its text with the escaped newlines decoded, line by line.
A newline at the end of the text ends its last line. -/
def linesOf (replacement : Text) : List Text :=
  let text := Text.replaceAll "\\n".toList ['\n'] replacement
  Text.fields '\n' (if text.getLast? == some '\n' then text.dropLast else text)

theorem lineText_eq_concat (replacement : Text) :
    lineText replacement = (lineText replacement).dropLast ++ ['\n'] := by
  unfold lineText
  generalize Text.replaceAll "\\n".toList ['\n'] replacement = text
  simp only []
  split
  next hlast => exact (List.dropLast_append_getLast? '\n' (beq_iff_eq.1 hlast)).symm
  next => rw [List.dropLast_concat]

/-- The text that is inserted consists of the lines of the command. -/
theorem ofText_lineText (replacement : Text) :
    Body.ofText (lineText replacement) = Body.ofLines (linesOf replacement) := by
  have hcut : (if (Text.replaceAll "\\n".toList ['\n'] replacement).getLast? == some '\n' then
      (Text.replaceAll "\\n".toList ['\n'] replacement).dropLast
      else Text.replaceAll "\\n".toList ['\n'] replacement) = (lineText replacement).dropLast := by
    unfold lineText
    simp only []
    split
    · rfl
    · rw [List.dropLast_concat]
  rw [linesOf, hcut, Body.ofLines_fields, Body.ofLine, ← lineText_eq_concat]

end Session

/-! ## Insertions inside the body -/

namespace Request

/-- The body after text is inserted behind its first unit and before its last one. -/
def insertInside? (body : Body) : Request → Option Body
  | .insertText index text segment =>
    if segment.isEmpty ∧ 0 < index ∧ index < body.length then body.insert? index (.ofText text)
    else none
  | _ => none

/-- The body after text is inserted at one place after another, each of them inside it. -/
def insertAllInside? (requests : List Request) (body : Body) : Option Body :=
  requests.foldlM insertInside? body

theorem insertAllInside?_append (xs ys : List Request) (body : Body) :
    insertAllInside? (xs ++ ys) body = (insertAllInside? xs body).bind (insertAllInside? ys) := by
  simp only [insertAllInside?, List.foldlM_append]
  rfl

theorem insertAllInside?_singleton (r : Request) (body : Body) :
    insertAllInside? [r] body = insertInside? body r := by
  simp only [insertAllInside?, List.foldlM_cons, List.foldlM_nil]
  exact bind_pure _

theorem insertInside?_between
    {before : Body} {index : Int} (text : Text) (hindex : index = before.length)
    (hbefore : before ≠ []) {behind : Body} (hbehind : behind ≠ []) :
    insertInside? (before ++ behind) (insert index text) =
      some (before ++ Body.ofText text ++ behind) := by
  have hpos := List.length_pos_of_ne_nil hbefore
  have hpos' := List.length_pos_of_ne_nil hbehind
  subst hindex
  simp only [insert, insertInside?, List.length_append]
  rw [if_pos ⟨rfl, by omega, by omega⟩, Body.insert?,
    if_pos ⟨by omega, by rw [List.length_append]; omega⟩, Int.toNat_natCast, List.take_left,
    List.drop_left]

/-- What can be inserted inside the body can be inserted. -/
theorem carryOutAll?_of_insertAllInside?
    {requests : List Request} {body body' : Body}
    (h : insertAllInside? requests body = some body') :
    carryOutAll? requests body = some body' := by
  induction requests generalizing body with
  | nil => exact h
  | cons r rest ih =>
    rw [← List.singleton_append, insertAllInside?_append, insertAllInside?_singleton,
      Option.bind_eq_some_iff] at h
    obtain ⟨between, hfirst, hrest⟩ := h
    have hr : carryOut? body r = some between := by
      cases r with
      | insertText index text segment =>
        rw [insertInside?] at hfirst
        split at hfirst
        next hinside => rwa [carryOut?, if_pos hinside.1]
        next => cases hfirst
      | _ => cases hfirst
    rw [carryOutAll?_cons, hr]
    exact ih hrest

end Request

namespace Session

open Document (placeLines)

variable (matching : Text → Bool)

/-- The lines with new lines after or before each one that matches. -/
def besideMatches (after : Bool) (new lines : List Text) : List Text :=
  lines.flatMap fun line =>
    if !matching line then [line] else if after then line :: new else new ++ [line]

theorem newline_not_mem_of_mem_besideMatches
    {after : Bool} {new lines : List Text} (hnew : ∀ line ∈ new, '\n' ∉ line)
    (hlines : ∀ line ∈ lines, '\n' ∉ line) :
    ∀ line ∈ besideMatches matching after new lines, '\n' ∉ line := by
  intro line hline
  obtain ⟨old, hold, hline⟩ := List.mem_flatMap.1 hline
  have hcases : line = old ∨ line ∈ new := by
    split at hline
    · exact .inl (List.mem_singleton.1 hline)
    · split at hline
      · exact List.mem_cons.1 hline
      · rcases List.mem_append.1 hline with hline | hline
        · exact .inr hline
        · exact .inl (List.mem_singleton.1 hline)
  rcases hcases with rfl | hmem
  · exact hlines _ hold
  · exact hnew line hmem

/-- The insertions of a text at the ends or at the starts of the lines that match, the last one
first. -/
def insertionsAt (after : Bool) (text : Text) (start : Int) (lines : List Text) : List Request :=
  ((placeLines start lines).reverse.filter fun l => matching l.text).map fun l =>
    Request.insert (if after then l.stop else l.start) text

theorem insertionsAt_cons
    (after : Bool) (text : Text) (start : Int) (line : Text) (rest : List Text) :
    insertionsAt matching after text start (line :: rest) =
      insertionsAt matching after text (start + line.units + 1) rest ++
        if matching line then
          [Request.insert (if after then start + line.units + 1 else start) text]
        else [] := by
  rw [insertionsAt, placeLines, List.reverse_cons, List.filter_append, List.map_append]
  by_cases hmatch : matching line = true
  · simp [insertionsAt, hmatch]
  · simp [insertionsAt, hmatch]

section Insertions

variable {text : Text} {new : List Text} (hnew : Body.ofText text = Body.ofLines new)

include hnew

/-- One line that matches gets its new lines, whatever stands around it. -/
theorem insertInside?_line
    (after : Bool) {before : Body} (hbefore : before ≠ []) (line : Text) {behind : Body}
    (hbehind : after = true → behind ≠ []) :
    Request.insertInside? (before ++ Body.ofLine line ++ behind)
        (Request.insert (if after then before.length + line.units + 1 else before.length) text) =
      some (before ++ Body.ofLines (if after then line :: new else new ++ [line]) ++ behind) := by
  cases after with
  | true =>
    have hplace : (before.length + line.units + 1 : Int) = (before ++ Body.ofLine line).length := by
      rw [List.length_append, Body.length_ofLine]
      omega
    have hinsert := Request.insertInside?_between text hplace (by simp [hbefore]) (hbehind rfl)
    simpa [Body.ofLines_cons, hnew] using hinsert
  | false =>
    have hline : Body.ofLine line ++ behind ≠ [] := by simp [Body.ofLine_ne_nil]
    have hinsert := Request.insertInside?_between text rfl hbefore hline
    simpa [hnew] using hinsert

/-- Going from the last line to the first, every line that matches gets its new lines, and nothing
else changes. -/
theorem insertAllInside?_insertionsAt
    (after : Bool) {before : Body} (hbefore : before ≠ []) (lines : List Text) {behind : Body}
    (hbehind : after = true → behind ≠ []) :
    Request.insertAllInside? (insertionsAt matching after text before.length lines)
        (before ++ Body.ofLines lines ++ behind) =
      some (before ++ Body.ofLines (besideMatches matching after new lines) ++ behind) := by
  induction lines generalizing before with
  | nil => rfl
  | cons line rest ih =>
    have hlength : ((before ++ Body.ofLine line).length : Int) =
        before.length + line.units + 1 := by
      rw [List.length_append, Body.length_ofLine]
      omega
    have hrest := ih (List.append_ne_nil_of_left_ne_nil hbefore (Body.ofLine line))
    rw [hlength] at hrest
    have hbody : before ++ Body.ofLines (line :: rest) ++ behind =
        before ++ Body.ofLine line ++ Body.ofLines rest ++ behind := by
      simp only [Body.ofLines_cons, List.append_assoc]
    rw [hbody, insertionsAt_cons, Request.insertAllInside?_append, hrest, Option.bind_some]
    by_cases hmatch : matching line = true
    · have hmore : after = true →
          Body.ofLines (besideMatches matching after new rest) ++ behind ≠ [] :=
        fun hafter => List.append_ne_nil_of_right_ne_nil _ (hbehind hafter)
      have hline := insertInside?_line hnew after hbefore line hmore
      rw [if_pos hmatch, Request.insertAllInside?_singleton, List.append_assoc _ _ behind, hline]
      simp [besideMatches, hmatch]
    · rw [if_neg hmatch]
      simp [besideMatches, hmatch, Body.ofLines_cons, Request.insertAllInside?]

end Insertions

/-! ## The requests of the command -/

/-- The requests that insert a text after or before the lines of a document that match, the last one
first. -/
def insertions (d : Document) (pattern : Pattern) (after : Bool) (text : Text) : List Request :=
  (d.lines.reverse.filter fun l => pattern.occursIn l.text).map (insertion after d.bodyEnd text)

section Requests

variable {d : Document} {pattern : Pattern} {text : Text} {lines : List Text}

theorem insertions_before (h : Element.AreLines 1 d.body lines) :
    insertions d pattern false text = insertionsAt pattern.occursIn false text 1 lines := by
  rw [insertions, insertionsAt, Document.lines_of_areLines h]
  refine List.map_congr_left fun l hl => ?_
  have hplace := Document.mem_placeLines (List.mem_reverse.1 (List.mem_filter.1 hl).1)
  have hmax : max l.start 1 = l.start := by omega
  simp [insertion, hmax]

/-- Only the last line has its insertion in another place. -/
theorem insertions_after {last : Text} (h : Element.AreLines 1 d.body (lines ++ [last])) :
    insertions d pattern true text =
      (if pattern.occursIn last then
          [Request.insert (1 + (Body.ofLines lines).length + last.units) ('\n' :: text.dropLast)]
        else []) ++ insertionsAt pattern.occursIn true text 1 lines := by
  have hend : d.bodyEnd = 1 + (Body.ofLines lines).length + last.units + 1 := by
    rw [Document.bodyEnd_of_areLines h (by simp), Body.ofLines_append, List.length_append,
      Body.ofLines_singleton, Body.length_ofLine]
    omega
  have hinner : ∀ l ∈ (placeLines 1 lines).reverse.filter fun l => pattern.occursIn l.text,
      insertion true d.bodyEnd text l = Request.insert l.stop text := by
    intro l hl
    have hplace := Document.mem_placeLines (List.mem_reverse.1 (List.mem_filter.1 hl).1)
    have hlimit : ¬ d.bodyEnd ≤ l.stop := by omega
    simp [insertion, hlimit]
  rw [insertions, Document.lines_of_areLines h, Document.placeLines_append, List.reverse_append,
    List.filter_append, List.map_append]
  congr 1
  · by_cases hmatch : pattern.occursIn last = true
    · simp [placeLines, hmatch, insertion, hend]
    · simp [placeLines, hmatch]
  · exact List.map_congr_left hinner

/-- The insertion after the last line leaves the line and the new lines behind it. -/
theorem insertInside?_after_last
    {new : List Text} (htext : text = text.dropLast ++ ['\n'])
    (hnew : Body.ofText text = Body.ofLines new) (before : Body) (hbefore : before ≠ [])
    (last : Text) :
    Request.insertInside? (before ++ Body.ofLine last)
        (Request.insert (before.length + last.units) ('\n' :: text.dropLast)) =
      some (before ++ Body.ofLines (last :: new)) := by
  have hline : before ++ Body.ofLine last = before ++ Body.ofText last ++ Body.ofText ['\n'] := by
    rw [Body.ofLine_eq_append, List.append_assoc]
  have hplace : (before.length + last.units : Int) = (before ++ Body.ofText last).length := by
    rw [List.length_append, Body.length_ofText]
    omega
  -- The newline that leads the text ends the last line, and the one at the end of the body the text.
  have hturned : Body.ofText ('\n' :: text.dropLast) ++ Body.ofText ['\n'] =
      Body.ofText ['\n'] ++ Body.ofLines new := by
    rw [← hnew, ← Body.ofText_append, ← Body.ofText_append, List.cons_append, ← htext]
    rfl
  rw [hline, Request.insertInside?_between _ hplace (by simp [hbefore]) (by decide),
    List.append_assoc, hturned, Body.ofLines_cons, Body.ofLine_eq_append]
  simp only [List.append_assoc]

end Requests

/-- The requests insert inside the body only, and each line that matches is then followed or
preceded by the lines of the command, also the last one. -/
theorem insertAllInside?_insertions
    {d : Document} {lines : List Text} (h : Element.AreLines 1 d.body lines) (hne : lines ≠ [])
    (pattern : Pattern) (after : Bool) (replacement : Text) (first : BodyUnit) :
    Request.insertAllInside? (insertions d pattern after (lineText replacement))
        (first :: Body.ofLines lines) =
      some (first ::
        Body.ofLines (besideMatches pattern.occursIn after (linesOf replacement) lines)) := by
  have hnew := ofText_lineText replacement
  cases after with
  | false =>
    have hnone : false = true → ([] : Body) ≠ [] := by simp
    have hall := insertAllInside?_insertionsAt pattern.occursIn hnew false
      (List.cons_ne_nil first []) lines hnone
    rw [insertions_before h]
    simpa using hall
  | true =>
    obtain ⟨before, last, rfl⟩ := (List.eq_nil_or_concat' lines).resolve_left hne
    have hinner : ∀ behind : Body, behind ≠ [] →
        Request.insertAllInside? (insertionsAt pattern.occursIn true (lineText replacement) 1 before)
            (first :: Body.ofLines before ++ behind) =
          some (first :: Body.ofLines
            (besideMatches pattern.occursIn true (linesOf replacement) before) ++ behind) :=
      fun behind hbehind => insertAllInside?_insertionsAt pattern.occursIn hnew true
        (List.cons_ne_nil first []) before fun _ => hbehind
    have hbeside : besideMatches pattern.occursIn true (linesOf replacement) (before ++ [last]) =
        besideMatches pattern.occursIn true (linesOf replacement) before ++
          if pattern.occursIn last then last :: linesOf replacement else [last] := by
      by_cases hmatch : pattern.occursIn last = true
      · simp [besideMatches, hmatch]
      · simp [besideMatches, hmatch]
    have hbody : (first :: Body.ofLines (before ++ [last]) : Body) =
        first :: Body.ofLines before ++ Body.ofLine last := by
      simp
    rw [insertions_after h, Request.insertAllInside?_append, hbeside, hbody]
    by_cases hmatch : pattern.occursIn last = true
    · have hlast := insertInside?_after_last (lineText_eq_concat replacement) hnew
        (first :: Body.ofLines before) (by simp) last
      have hplace : (1 + (Body.ofLines before).length + last.units : Int) =
          (first :: Body.ofLines before).length + last.units := by
        rw [List.length_cons]
        omega
      rw [if_pos hmatch, if_pos hmatch, hplace, Request.insertAllInside?_singleton, hlast,
        Option.bind_some, hinner _ (by simp [Body.ofLines_cons, Body.ofLine_ne_nil])]
      simp
    · rw [if_neg hmatch, if_neg hmatch]
      have hstays := hinner _ (Body.ofLine_ne_nil last)
      simpa [Request.insertAllInside?] using hstays

/-! ## The command -/

section Command

variable {σ : Type} {s : Session σ} {e : Expression} {pattern : Pattern} {w : World σ}
  {d : Document} {state : σ}

/-- Once the document is there, the command sends its insertions, if there are any. -/
theorem execute_insertLines [CharNames]
    (hpattern : e.compile = .ok pattern) (hfetch : s.service.fetch w.state = (.ok d, state))
    (after : Bool) :
    ∃ none some : Outcome, (insertLines e after).execute s w =
      (if insertions d pattern after (lineText e.replacement) = [] then pure none
        else do
          discard <| Run.update (insertions d pattern after (lineText e.replacement))
          return some : Run σ Outcome).execute s { w with state, log := w.log ++ [.fetch] } := by
  unfold insertLines
  simp only []
  rw [Run.execute_bind_of_ok (Run.execute_compile hpattern _ _)]
  rw [Run.execute_bind_of_ok (Run.execute_fetch hfetch)]
  simp only [insertions, List.isEmpty_iff, List.map_eq_nil_iff]
  exact ⟨_, _, rfl⟩

/-- What the command does to a document of lines.  It sends insertions that stay inside the body,
and leaves each line that matches followed or preceded by the lines of its text.  All other lines
are unchanged and in order, and the last line may be among those that match.  When the lines of the
document have no newlines of their own, the body that is left can be read in no other way. -/
theorem insertLines_writes_beside_matches [CharNames]
    {view : σ → Body} (hs : s.service.Literal view) (hpattern : e.compile = .ok pattern)
    (hfetch : s.service.fetch w.state = (.ok d, state)) {lines : List Text}
    (hlines : Element.AreLines 1 d.body lines) (hne : lines ≠ []) {first : BodyUnit}
    (hview : view state = first :: Body.ofLines lines) (after : Bool) :
    Request.insertAllInside? (insertions d pattern after (lineText e.replacement))
        (first :: Body.ofLines lines) =
      some (first ::
        Body.ofLines (besideMatches pattern.occursIn after (linesOf e.replacement) lines)) ∧
    (∃ outcome w', (insertLines e after).execute s w = (.ok outcome, w') ∧
      view w'.state = first ::
        Body.ofLines (besideMatches pattern.occursIn after (linesOf e.replacement) lines) ∧
      ∃ rest, w'.log = w.log ++ .fetch ::
        if insertions d pattern after (lineText e.replacement) = [] then []
        else .update (insertions d pattern after (lineText e.replacement)) :: rest) ∧
    ((∀ line ∈ lines, '\n' ∉ line) → ∀ lines' : List Text, (∀ line ∈ lines', '\n' ∉ line) →
      Body.ofLines lines' =
        Body.ofLines (besideMatches pattern.occursIn after (linesOf e.replacement) lines) →
      lines' = besideMatches pattern.occursIn after (linesOf e.replacement) lines) := by
  have hinside := insertAllInside?_insertions hlines hne pattern after e.replacement first
  obtain ⟨none, some, hrun⟩ := execute_insertLines hpattern hfetch after
  have hplain : ∀ line ∈ linesOf e.replacement, '\n' ∉ line :=
    fun _ => Text.not_mem_of_mem_fields
  refine ⟨hinside, ?_, fun hlines lines' hlines' h => Body.ofLines_inj hlines'
    (newline_not_mem_of_mem_besideMatches pattern.occursIn hplain hlines) h⟩
  by_cases hnone : insertions d pattern after (lineText e.replacement) = []
  · rw [if_pos hnone] at hrun
    rw [hnone] at hinside
    refine ⟨none, _, hrun, hview.trans (Option.some.inj hinside), [], ?_⟩
    rw [if_pos hnone]
  · rw [if_neg hnone, Run.execute_discard_pure] at hrun
    obtain ⟨response, w', hend, hbody⟩ := Run.Ensures.update hs
      (Request.carryOutAll?_of_insertAllInside? hinside)
      { w with state, log := w.log ++ [.fetch] } hview
    obtain ⟨rest, hlog⟩ := Run.exists_log_update hnone s
      { w with state, log := w.log ++ [.fetch] }
    rw [hend] at hrun hlog
    refine ⟨some, w', hrun, hbody, rest, ?_⟩
    rw [if_neg hnone, hlog, List.append_assoc]
    rfl

end Command

/-- Append two lines after the lines with `a` or `c` in them. -/
def outerAppend : Expression where
  command := .append
  pattern := ['[', 'a', 'c', ']']
  replacement := ['x', '\\', 'n', 'y']
  raw := []

attribute [local instance] CharNames.none

/-- The new lines stand after the first line and after the last one. -/
theorem insertLines_writes_beside_outer_lines :
    ∃ outcome w', (insertLines outerAppend true).execute threeLinesSession threeLinesWorld =
        (.ok outcome, w') ∧
      w'.state = .footnote ::
        Body.ofLines [['a'], ['x'], ['y'], ['b'], ['c'], ['x'], ['y']] := by
  have hsteps : Pattern.steps 4 { rest := ['[', 'a', 'c', ']'] } = .ok _ :=
    (Pattern.steps_of_step (by decide) rfl (by decide)).trans (Pattern.steps_of_nil rfl)
  have hpattern : outerAppend.compile = .ok outerPattern :=
    Pattern.read_of_steps ['[', 'a', 'c', ']'] rfl hsteps rfl
  have hliteral : threeLinesSession.service.Literal id := ⟨Service.literal_ofBody.update⟩
  have hfetch : threeLinesSession.service.fetch threeLinesWorld.state =
      (.ok threeLines, threeLinesWorld.state) := rfl
  have hbeside : besideMatches outerPattern.occursIn true (linesOf outerAppend.replacement)
      [['a'], ['b'], ['c']] = [['a'], ['x'], ['y'], ['b'], ['c'], ['x'], ['y']] := by cbv
  obtain ⟨-, ⟨outcome, w', hrun, hview, -⟩, -⟩ := insertLines_writes_beside_matches hliteral hpattern
    hfetch areLines_threeLines (by simp) rfl true
  rw [hbeside] at hview
  exact ⟨outcome, w', hrun, hview⟩

end Session

end Redline
