import Redline.Proofs.Body
import Redline.Proofs.Log
import Redline.Session.Commands

/-!
# Deleting lines

The body of a document that is made of lines ends with a newline that cannot be deleted.  To delete
the last line, the newline before it is deleted in its place.  The part for the line before was
found on the same copy of the document and still takes in that newline, so deleting both lines
reaches for the end of the body.  This module shows that this is the only way to go wrong:
otherwise exactly the lines that do not match are left.
-/

namespace Redline

namespace Body

/-- The units of a line with the newline at its end. -/
def ofLine (line : Text) : Body :=
  ofText (line ++ ['\n'])

/-- The units of lines. -/
def ofLines (lines : List Text) : Body :=
  lines.flatMap ofLine

/-- Delete a part of the body that ends before its last unit. -/
def deleteInside? (body : Body) (span : Span) : Option Body :=
  if span.stop < body.length then body.delete? span else none

/-- Delete parts of the body one after another, none of which may take in its last unit. -/
def deleteAllInside? (spans : List Span) (body : Body) : Option Body :=
  spans.foldlM deleteInside? body

@[simp]
theorem length_ofLine (line : Text) : (ofLine line).length = line.units + 1 := by
  rw [ofLine, length_ofText, Text.units_append]
  rfl

theorem ofLine_eq_append (line : Text) : ofLine line = ofText line ++ ofText ['\n'] :=
  List.flatMap_append

@[simp]
theorem ofLines_append (xs ys : List Text) : ofLines (xs ++ ys) = ofLines xs ++ ofLines ys :=
  List.flatMap_append

@[simp]
theorem ofLines_singleton (line : Text) : ofLines [line] = ofLine line :=
  List.flatMap_singleton _ _

theorem ofLines_cons (line : Text) (rest : List Text) :
    ofLines (line :: rest) = ofLine line ++ ofLines rest :=
  List.flatMap_cons

theorem length_ofLines_cons (line : Text) (rest : List Text) :
    (ofLines (line :: rest)).length = line.units + 1 + (ofLines rest).length := by
  rw [ofLines_cons, List.length_append, length_ofLine]

theorem ofLine_ne_nil (line : Text) : ofLine line ≠ [] :=
  List.ne_nil_of_length_pos (by rw [length_ofLine]; omega)

theorem deleteAllInside?_append (xs ys : List Span) (body : Body) :
    deleteAllInside? (xs ++ ys) body = (deleteAllInside? xs body).bind (deleteAllInside? ys) := by
  simp only [deleteAllInside?, List.foldlM_append]
  rfl

theorem deleteAllInside?_cons (span : Span) (rest : List Span) (body : Body) :
    deleteAllInside? (span :: rest) body =
      (deleteInside? body span).bind (deleteAllInside? rest) := by
  simp only [deleteAllInside?, List.foldlM_cons]
  rfl

theorem deleteInside?_middle
    {before middle behind : Body} {span : Span} (hstart : span.start = before.length)
    (hstop : span.stop = before.length + middle.length) (hbehind : behind ≠ []) :
    deleteInside? (before ++ middle ++ behind) span = some (before ++ behind) := by
  have hpos := List.length_pos_of_ne_nil hbehind
  have htake : (before ++ middle ++ behind).take span.start.toNat = before := by
    rw [hstart, Int.toNat_natCast, List.append_assoc, List.take_left]
  have hdrop : (before ++ middle ++ behind).drop span.stop.toNat = behind := by
    have hlength : span.stop.toNat = (before ++ middle).length := by
      rw [List.length_append]
      omega
    rw [hlength, List.drop_left]
  rw [deleteInside?, if_pos (by simp only [List.length_append]; omega), delete?,
    if_pos (by simp only [List.length_append]; omega), htake, hdrop]

/-- What can be deleted inside the body can be deleted. -/
theorem carryOutAll?_of_deleteAllInside?
    {spans : List Span} {body body' : Body} (h : deleteAllInside? spans body = some body') :
    Request.carryOutAll? (spans.map .deleteRange) body = some body' := by
  induction spans generalizing body with
  | nil => exact h
  | cons span rest ih =>
    rw [deleteAllInside?_cons, Option.bind_eq_some_iff] at h
    obtain ⟨between, hfirst, hrest⟩ := h
    have hdelete : body.delete? span = some between := by
      unfold deleteInside? at hfirst
      split at hfirst
      · exact hfirst
      · cases hfirst
    rw [List.map_cons, Request.carryOutAll?_cons, Request.carryOut?, hdelete]
    exact ih hrest

end Body

/-! ## Documents of lines -/

/-- Elements are lines of text: each is a paragraph with a newline at its end, and starts where the
one before it stops. -/
inductive Element.AreLines : Int → List Element → List Text → Prop where
  | nil (start : Int) : AreLines start [] []
  | cons {start : Int} {bounds : Bounds} {paragraph : Paragraph} {line : Text}
      {elements : List Element} {lines : List Text}
      (hstart : bounds.start = start) (hstop : bounds.stop = start + line.units + 1)
      (htext : paragraph.text = line ++ ['\n']) (hrest : AreLines bounds.stop elements lines) :
      AreLines start (.paragraph bounds paragraph :: elements) (line :: lines)

/-- Lines with their positions, from a start on. -/
def Document.placeLines : Int → List Text → List Document.Line
  | _, [] => []
  | start, line :: rest =>
    ⟨start, start + line.units + 1, line⟩ :: placeLines (start + line.units + 1) rest

namespace Document

theorem lines_of_areLines {d : Document} {start : Int} {lines : List Text}
    (h : Element.AreLines start d.body lines) :
    d.lines = placeLines start lines := by
  have hlines : d.lines = (d.body.filterMap Element.paragraph?).map fun p =>
      ⟨p.bounds.start, p.bounds.stop,
        if p.paragraph.text.getLast? == some '\n' then p.paragraph.text.dropLast
        else p.paragraph.text⟩ := rfl
  rw [hlines]
  generalize d.body = elements at h
  induction h with
  | nil => rfl
  | cons hstart hstop htext _ ih =>
    rw [hstop] at ih
    rw [List.filterMap_cons]
    simp only [Element.paragraph?, List.map_cons, ih, placeLines, hstart, hstop, htext]
    simp

theorem bodyEnd_of_areLines
    {d : Document} {start : Int} {lines : List Text} (h : Element.AreLines start d.body lines)
    (hne : lines ≠ []) :
    d.bodyEnd = start + (Body.ofLines lines).length := by
  have hlast : ∃ e, d.body.getLast? = some e ∧
      e.bounds.stop = start + (Body.ofLines lines).length := by
    generalize d.body = elements at h
    induction h with
    | nil => exact absurd rfl hne
    | @cons start bounds paragraph line elements lines hstart hstop htext hrest ih =>
      by_cases hend : lines = []
      · subst hend
        cases hrest
        refine ⟨.paragraph bounds paragraph, rfl, ?_⟩
        rw [Body.ofLines_singleton, Body.length_ofLine]
        simp only [Element.bounds, hstop]
        omega
      · obtain ⟨e, he, hstop'⟩ := ih hend
        refine ⟨e, by rw [List.getLast?_cons, he]; rfl, ?_⟩
        rw [Body.length_ofLines_cons]
        omega
  obtain ⟨e, he, hstop⟩ := hlast
  rw [bodyEnd, he, ← hstop]

theorem placeLines_append (start : Int) (xs ys : List Text) :
    placeLines start (xs ++ ys) =
      placeLines start xs ++ placeLines (start + (Body.ofLines xs).length) ys := by
  induction xs generalizing start with
  | nil => simp [placeLines, Body.ofLines]
  | cons line rest ih =>
    rw [List.cons_append, placeLines, ih, placeLines, Body.length_ofLines_cons, List.cons_append]
    congr 3
    omega

theorem mem_placeLines {start : Int} {lines : List Text} {line : Document.Line}
    (h : line ∈ placeLines start lines) :
    start ≤ line.start ∧ line.start < line.stop ∧
      line.stop ≤ start + (Body.ofLines lines).length := by
  induction lines generalizing start with
  | nil => cases h
  | cons text rest ih =>
    rw [Body.length_ofLines_cons]
    rcases List.mem_cons.1 h with rfl | h
    · simp only []
      omega
    · have hrest := ih h
      omega

end Document

namespace Session

open Document (placeLines)

/-- A line before the last one is deleted as a whole. -/
theorem deletion?_of_lt
    {limit : Int} {line : Document.Line} (hstart : 1 ≤ line.start) (hstop : line.start < line.stop)
    (hlimit : line.stop < limit) :
    deletion? limit line = some ⟨line.start, line.stop⟩ := by
  have hmax : max line.start 1 = line.start := by omega
  simp only [deletion?, hmax, if_neg (not_le.2 hlimit), if_pos hstop]

variable (matching : Text → Bool)

/-- The parts of the lines that match, the last one first. -/
def wholeLines (start : Int) (lines : List Text) : List Span :=
  ((placeLines start lines).reverse.filter fun l => matching l.text).map fun l => ⟨l.start, l.stop⟩

theorem wholeLines_cons (start : Int) (line : Text) (rest : List Text) :
    wholeLines matching start (line :: rest) =
      wholeLines matching (start + line.units + 1) rest ++
        if matching line then [⟨start, start + line.units + 1⟩] else [] := by
  rw [wholeLines, placeLines, List.reverse_cons, List.filter_append, List.map_append]
  by_cases hmatch : matching line = true
  · simp [wholeLines, hmatch]
  · simp [wholeLines, hmatch]

theorem wholeLines_concat (start : Int) (lines : List Text) (last : Text) :
    wholeLines matching start (lines ++ [last]) =
      (if matching last then
          [⟨start + (Body.ofLines lines).length,
            start + (Body.ofLines lines).length + last.units + 1⟩]
        else []) ++ wholeLines matching start lines := by
  rw [wholeLines, Document.placeLines_append, List.reverse_append, List.filter_append,
    List.map_append]
  by_cases hmatch : matching last = true
  · simp [wholeLines, placeLines, hmatch]
  · simp [wholeLines, placeLines, hmatch]

/-- Whole lines are deleted from the last one to the first, and nothing else is lost. -/
theorem deleteAllInside?_wholeLines
    (before : Body) (lines : List Text) {behind : Body} (hbehind : behind ≠ []) :
    Body.deleteAllInside? (wholeLines matching before.length lines)
        (before ++ Body.ofLines lines ++ behind) =
      some (before ++ Body.ofLines (lines.filter (!matching ·)) ++ behind) := by
  induction lines generalizing before with
  | nil => rfl
  | cons line rest ih =>
    have hrest := ih (before ++ Body.ofLine line)
    have hlength : ((before ++ Body.ofLine line).length : Int) =
        before.length + line.units + 1 := by
      rw [List.length_append, Body.length_ofLine]
      omega
    rw [hlength] at hrest
    have hbody : before ++ Body.ofLines (line :: rest) ++ behind =
        before ++ Body.ofLine line ++ Body.ofLines rest ++ behind := by
      simp only [Body.ofLines_cons, List.append_assoc]
    rw [hbody, wholeLines_cons, Body.deleteAllInside?_append, hrest, Option.bind_some]
    by_cases hmatch : matching line = true
    · have hline : Body.deleteInside?
          (before ++ Body.ofLine line ++ (Body.ofLines (rest.filter (!matching ·)) ++ behind))
          ⟨before.length, before.length + line.units + 1⟩ =
            some (before ++ (Body.ofLines (rest.filter (!matching ·)) ++ behind)) := by
        refine Body.deleteInside?_middle rfl ?_ (by simp [hbehind])
        simp only [Body.length_ofLine]
        omega
      rw [if_pos hmatch, List.filter_cons_of_neg (by simp [hmatch]), Body.deleteAllInside?_cons,
        List.append_assoc _ _ behind, hline, List.append_assoc]
      rfl
    · rw [if_neg hmatch, List.filter_cons_of_pos (by simp [hmatch]), Body.ofLines_cons,
        List.append_assoc before]
      rfl

theorem deletions_eq
    {d : Document} {pattern : Pattern} (lines : List Text) (last : Text)
    (h : Element.AreLines 1 d.body (lines ++ [last])) :
    deletions d pattern =
      (if pattern.occursIn last then
          (deletion? d.bodyEnd ⟨1 + (Body.ofLines lines).length, d.bodyEnd, last⟩).toList
        else []) ++ wholeLines pattern.occursIn 1 lines := by
  have hend : d.bodyEnd = 1 + (Body.ofLines lines).length + last.units + 1 := by
    rw [Document.bodyEnd_of_areLines h (by simp), Body.ofLines_append, List.length_append,
      Body.ofLines_singleton, Body.length_ofLine]
    omega
  have hwhole : ∀ l ∈ (placeLines 1 lines).reverse.filter fun l => pattern.occursIn l.text,
      deletion? d.bodyEnd l = some ⟨l.start, l.stop⟩ := by
    intro l hl
    have hl := Document.mem_placeLines (List.mem_reverse.1 (List.mem_filter.1 hl).1)
    exact deletion?_of_lt hl.1 hl.2.1 (by omega)
  rw [deletions, Document.lines_of_areLines h, Document.placeLines_append, List.reverse_append,
    List.filter_append, List.filterMap_append]
  congr 1
  · have hplace : placeLines (1 + (Body.ofLines lines).length) [last] =
        [⟨1 + (Body.ofLines lines).length, d.bodyEnd, last⟩] := by
      rw [placeLines, ← hend]
      rfl
    rw [hplace]
    by_cases hmatch : pattern.occursIn last = true
    · simp [hmatch, List.filterMap_eq_flatMap_toList]
    · simp [hmatch]
  · exact List.filterMap_eq_map_iff_forall_eq_some.2 hwhole

/-- The part to delete for the last line of several takes in the newline before it. -/
theorem deletion?_last
    {start limit : Int} {line : Text} (hstart : 1 < start) (hlimit : start < limit) :
    deletion? limit ⟨start, limit, line⟩ = some ⟨start - 1, limit - 1⟩ := by
  have hmax : max start 1 = start := by omega
  simp only [deletion?, hmax, if_pos (le_refl limit), if_pos hstart]
  rw [if_pos (by omega)]

/-- Two lines at the end match. -/
def lastTwoMatch (lines : List Text) : Bool :=
  match lines.reverse with
  | b :: a :: _ => matching a && matching b
  | _ => false

/-- The lines that do not match; when every line does, one empty line. -/
def remaining (lines : List Text) : List Text :=
  match lines.filter (!matching ·) with
  | [] => [[]]
  | rest => rest

theorem remaining_concat {last : Text} (hlast : matching last = false) (lines : List Text) :
    remaining matching (lines ++ [last]) = lines.filter (!matching ·) ++ [last] := by
  have hfilter : (lines ++ [last]).filter (!matching ·) = lines.filter (!matching ·) ++ [last] := by
    simp [hlast]
  rw [remaining, hfilter]
  split
  · simp_all
  · rfl

theorem remaining_concat_of_matching
    {last : Text} (hlast : matching last = true) (lines : List Text) :
    remaining matching (lines ++ [last]) = remaining matching lines := by
  have hfilter : (lines ++ [last]).filter (!matching ·) = lines.filter (!matching ·) := by
    simp [hlast]
  rw [remaining, hfilter, remaining]

section Deletions

variable {d : Document} {pattern : Pattern} {lines : List Text} {last : Text} (first : BodyUnit)

theorem deleteAllInside?_of_last_stays
    (h : Element.AreLines 1 d.body (lines ++ [last])) (hlast : pattern.occursIn last = false) :
    Body.deleteAllInside? (deletions d pattern) (first :: Body.ofLines (lines ++ [last])) =
      some (first :: Body.ofLines (remaining pattern.occursIn (lines ++ [last]))) := by
  have hwhole := deleteAllInside?_wholeLines pattern.occursIn [first] lines
    (Body.ofLine_ne_nil last)
  rw [deletions_eq lines last h, hlast, remaining_concat _ hlast, Body.ofLines_append,
    Body.ofLines_append, Body.ofLines_singleton]
  exact hwhole

theorem deleteAllInside?_of_only_line
    (h : Element.AreLines 1 d.body [last]) (hlast : pattern.occursIn last = true) :
    Body.deleteAllInside? (deletions d pattern) (first :: Body.ofLines [last]) =
      some (first :: Body.ofLines [[]]) := by
  have hend : d.bodyEnd = 1 + last.units + 1 := by
    rw [Document.bodyEnd_of_areLines h (by simp), Body.ofLines_singleton, Body.length_ofLine]
    omega
  have hbody : first :: Body.ofLines [last] =
      [first] ++ Body.ofText last ++ Body.ofText ['\n'] := by
    rw [Body.ofLines_singleton, Body.ofLine_eq_append]
    rfl
  have hdeletions : deletions d pattern =
      (deletion? d.bodyEnd ⟨1, d.bodyEnd, last⟩).toList := by
    rw [deletions_eq [] last h, if_pos hlast]
    exact List.append_nil _
  by_cases hempty : last.units = 0
  · have htext : Body.ofText last = [] :=
      List.eq_nil_of_length_eq_zero (by rw [Body.length_ofText, hempty])
    have hnone : deletion? d.bodyEnd ⟨1, d.bodyEnd, last⟩ = none := by
      simp [deletion?, hend, hempty]
    rw [hdeletions, hnone, hbody, htext]
    rfl
  · have hsome : deletion? d.bodyEnd ⟨1, d.bodyEnd, last⟩ = some ⟨1, 1 + last.units⟩ := by
      simp [deletion?, hend]
      omega
    have hdelete : Body.deleteInside? ([first] ++ Body.ofText last ++ Body.ofText ['\n'])
        ⟨1, 1 + last.units⟩ = some ([first] ++ Body.ofText ['\n']) :=
      Body.deleteInside?_middle rfl (by simp) (by decide)
    rw [hdeletions, hsome, hbody, Option.toList_some, Body.deleteAllInside?_cons, hdelete]
    rfl

/-- Deleting the last line of several leaves the lines before it. -/
theorem deleteInside?_last (previous : Text) :
    Body.deleteInside? (first :: Body.ofLines (lines ++ [previous] ++ [last]))
        ⟨(Body.ofLines (lines ++ [previous])).length,
          (Body.ofLines (lines ++ [previous])).length + last.units + 1⟩ =
      some (first :: Body.ofLines (lines ++ [previous])) := by
  have hbefore : (first :: Body.ofLines (lines ++ [previous]) : Body) =
      first :: Body.ofLines lines ++ Body.ofText previous ++ Body.ofText ['\n'] := by
    rw [Body.ofLines_append, Body.ofLines_singleton, Body.ofLine_eq_append]
    simp
  have hbody : (first :: Body.ofLines (lines ++ [previous] ++ [last]) : Body) =
      (first :: Body.ofLines lines ++ Body.ofText previous) ++
        (Body.ofText ['\n'] ++ Body.ofText last) ++ Body.ofText ['\n'] := by
    rw [Body.ofLines_append, ← List.cons_append, hbefore, Body.ofLines_singleton,
      Body.ofLine_eq_append]
    simp
  have hlength : (Body.ofLines (lines ++ [previous])).length =
      (first :: Body.ofLines lines ++ Body.ofText previous).length := by
    simp
    omega
  have hnewline : (Body.ofText ['\n']).length = 1 := rfl
  rw [hbody, hbefore]
  refine Body.deleteInside?_middle ?_ ?_ (by decide)
  · rw [hlength]
  · rw [hlength]
    simp only [List.length_append, hnewline, Body.length_ofText]
    omega

/-- When the last line goes, the lines before it are left for what is still to be deleted. -/
theorem deleteAllInside?_of_last_goes
    (previous : Text) (h : Element.AreLines 1 d.body (lines ++ [previous] ++ [last]))
    (hlast : pattern.occursIn last = true) :
    Body.deleteAllInside? (deletions d pattern)
        (first :: Body.ofLines (lines ++ [previous] ++ [last])) =
      Body.deleteAllInside? (wholeLines pattern.occursIn 1 (lines ++ [previous]))
        (first :: Body.ofLines (lines ++ [previous])) := by
  have hend : d.bodyEnd = 1 + (Body.ofLines (lines ++ [previous])).length + last.units + 1 := by
    rw [Document.bodyEnd_of_areLines h (by simp), Body.ofLines_append, List.length_append,
      Body.ofLines_singleton, Body.length_ofLine]
    omega
  have hpos : 0 < (Body.ofLines (lines ++ [previous])).length := by
    rw [Body.ofLines_append, List.length_append, Body.ofLines_singleton, Body.length_ofLine]
    omega
  have hdeletion : deletion? d.bodyEnd
      ⟨1 + (Body.ofLines (lines ++ [previous])).length, d.bodyEnd, last⟩ =
        some ⟨(Body.ofLines (lines ++ [previous])).length,
          (Body.ofLines (lines ++ [previous])).length + last.units + 1⟩ := by
    rw [deletion?_last (by omega) (by omega)]
    congr 2
    · omega
    · omega
  rw [deletions_eq (lines ++ [previous]) last h, if_pos hlast, hdeletion, Option.toList_some,
    List.singleton_append, Body.deleteAllInside?_cons, deleteInside?_last]
  rfl

theorem deleteAllInside?_of_previous_goes
    {previous : Text} (hprevious : pattern.occursIn previous = true) :
    Body.deleteAllInside? (wholeLines pattern.occursIn 1 (lines ++ [previous]))
      (first :: Body.ofLines (lines ++ [previous])) = none := by
  have hoverrun : Body.deleteInside? (first :: Body.ofLines (lines ++ [previous]))
      ⟨1 + (Body.ofLines lines).length,
        1 + (Body.ofLines lines).length + previous.units + 1⟩ = none := by
    rw [Body.deleteInside?, if_neg]
    simp only [Body.ofLines_append, Body.ofLines_singleton, List.length_cons, List.length_append,
      Body.length_ofLine]
    omega
  rw [wholeLines_concat, if_pos hprevious, List.singleton_append, Body.deleteAllInside?_cons,
    hoverrun]
  rfl

theorem deleteAllInside?_of_previous_stays
    {previous : Text} (hprevious : pattern.occursIn previous = false) :
    Body.deleteAllInside? (wholeLines pattern.occursIn 1 (lines ++ [previous]))
        (first :: Body.ofLines (lines ++ [previous])) =
      some (first :: Body.ofLines (lines.filter (!pattern.occursIn ·) ++ [previous])) := by
  have hwhole := deleteAllInside?_wholeLines pattern.occursIn [first] lines
    (Body.ofLine_ne_nil previous)
  rw [wholeLines_concat, hprevious, Body.ofLines_append, Body.ofLines_append,
    Body.ofLines_singleton]
  exact hwhole

end Deletions

/-- The parts to delete are deleted inside the body, and exactly the lines that do not match are
left, unless the two lines at the end both match: then the newline at the end would go. -/
theorem deleteAllInside?_deletions
    {d : Document} {lines : List Text} (h : Element.AreLines 1 d.body lines) (hne : lines ≠ [])
    (pattern : Pattern) (first : BodyUnit) :
    Body.deleteAllInside? (deletions d pattern) (first :: Body.ofLines lines) =
      if lastTwoMatch pattern.occursIn lines then none
      else some (first :: Body.ofLines (remaining pattern.occursIn lines)) := by
  obtain ⟨before, last, rfl⟩ := (List.eq_nil_or_concat' lines).resolve_left hne
  by_cases hlast : pattern.occursIn last = true
  · rcases List.eq_nil_or_concat' before with rfl | ⟨before, previous, rfl⟩
    · have hremaining : remaining pattern.occursIn [last] = [[]] := by
        simp [remaining, hlast]
      have hlines := deleteAllInside?_of_only_line first h hlast
      simpa [lastTwoMatch, hremaining] using hlines
    · have htwo : lastTwoMatch pattern.occursIn (before ++ [previous] ++ [last]) =
          pattern.occursIn previous := by
        simp [lastTwoMatch, hlast]
      rw [deleteAllInside?_of_last_goes first previous h hlast, htwo]
      by_cases hprevious : pattern.occursIn previous = true
      · rw [if_pos hprevious, deleteAllInside?_of_previous_goes first hprevious]
      · rw [Bool.not_eq_true] at hprevious
        rw [deleteAllInside?_of_previous_stays first hprevious, hprevious,
          remaining_concat_of_matching _ hlast, remaining_concat _ hprevious]
        rfl
  · rw [Bool.not_eq_true] at hlast
    have htwo : lastTwoMatch pattern.occursIn (before ++ [last]) = false := by
      rw [lastTwoMatch, List.reverse_concat]
      split
      · simp_all
      · rfl
    rw [htwo]
    exact deleteAllInside?_of_last_stays first h hlast

/-! ## The command -/

section Command

variable {σ : Type} {s : Session σ} {e : Expression} {pattern : Pattern} {w : World σ}
  {d : Document} {state : σ}

/-- Once the document is there, the command sends the parts to delete, if there are any. -/
theorem execute_deleteLines [CharNames]
    (hpattern : e.compile = .ok pattern) (hfetch : s.service.fetch w.state = (.ok d, state))
    (hlines : d.lines ≠ []) :
    (deleteLines e).execute s w =
      (if (deletions d pattern).isEmpty then
          pure [("deleted", .text "0 (no matches)".toList)]
        else do
          discard <| Run.update ((deletions d pattern).map .deleteRange)
          return [("deleted", .text
            (Text.ofNat (deletions d pattern).length ++ " lines".toList))] : Run σ Outcome).execute
        s { w with state, log := w.log ++ [.fetch] } := by
  have hempty : ¬ d.lines.isEmpty = true := by
    rwa [List.isEmpty_iff]
  unfold deleteLines
  rw [Run.execute_bind_of_ok (Run.execute_compile hpattern _ _)]
  rw [Run.execute_bind_of_ok (Run.execute_fetch hfetch)]
  simp only [if_neg hempty]

/-- What the command sends for a document of lines, and what is left of the body.  The parts are
deleted one after another without reaching for the newline at the end, and exactly the lines that do
not match are left, unless the last two lines both match. -/
theorem deleteLines_leaves_other_lines [CharNames]
    {view : σ → Body} (hs : s.service.Literal view) (hpattern : e.compile = .ok pattern)
    (hfetch : s.service.fetch w.state = (.ok d, state)) {lines : List Text}
    (hlines : Element.AreLines 1 d.body lines) (hne : lines ≠ []) {first : BodyUnit}
    (hview : view state = first :: Body.ofLines lines) :
    (∃ rest, ((deleteLines e).execute s w).2.log = w.log ++ .fetch ::
      if deletions d pattern = [] then []
      else .update ((deletions d pattern).map .deleteRange) :: rest) ∧
    Body.deleteAllInside? (deletions d pattern) (first :: Body.ofLines lines) =
      (if lastTwoMatch pattern.occursIn lines then none
      else some (first :: Body.ofLines (remaining pattern.occursIn lines))) ∧
    (lastTwoMatch pattern.occursIn lines = false →
      ∃ outcome w', (deleteLines e).execute s w = (.ok outcome, w') ∧
        view w'.state = first :: Body.ofLines (remaining pattern.occursIn lines)) := by
  have hinside := deleteAllInside?_deletions hlines hne pattern first
  have hplaced : d.lines ≠ [] := by
    rw [Document.lines_of_areLines hlines]
    obtain ⟨line, rest, rfl⟩ := List.exists_cons_of_ne_nil hne
    simp [placeLines]
  have hrun := execute_deleteLines hpattern hfetch hplaced
  by_cases hnone : deletions d pattern = []
  · rw [hnone] at hinside hrun ⊢
    refine ⟨⟨[], by rw [hrun]; rfl⟩, hinside, ?_⟩
    intro htwo
    rw [htwo] at hinside
    exact ⟨_, _, hrun, hview.trans (Option.some.inj hinside)⟩
  · have hsend : ¬ (deletions d pattern).isEmpty = true := by rwa [List.isEmpty_iff]
    have hrequests : (deletions d pattern).map Request.deleteRange ≠ [] :=
      mt List.map_eq_nil_iff.1 hnone
    rw [if_neg hsend] at hrun
    refine ⟨?_, hinside, ?_⟩
    · obtain ⟨rest, hlog⟩ := Run.exists_log_update hrequests s
        { w with state, log := w.log ++ [.fetch] }
      refine ⟨rest, ?_⟩
      rw [hrun, Run.world_discard_pure, hlog, if_neg hnone, List.append_assoc]
      rfl
    · intro htwo
      rw [htwo] at hinside
      obtain ⟨response, w', hend, hbody⟩ := Run.Ensures.update hs
        (Body.carryOutAll?_of_deleteAllInside? hinside)
        { w with state, log := w.log ++ [.fetch] } hview
      rw [Run.execute_discard_pure, hend] at hrun
      exact ⟨_, w', hrun, hbody⟩

end Command

/-- The lines `a`, `b` and `c`. -/
def threeLines : Document where
  body := [
    .paragraph ⟨some 1, some 3⟩ ⟨[⟨⟨some 1, some 3⟩, .run ['a', '\n']⟩], none⟩,
    .paragraph ⟨some 3, some 5⟩ ⟨[⟨⟨some 3, some 5⟩, .run ['b', '\n']⟩], none⟩,
    .paragraph ⟨some 5, some 7⟩ ⟨[⟨⟨some 5, some 7⟩, .run ['c', '\n']⟩], none⟩]

/-- A session on a service that keeps a body and hands out the three lines. -/
def threeLinesSession : Session Body where
  service := { Service.ofBody with fetch := fun body => (.ok threeLines, body) }
  settings := {}

def threeLinesWorld : World Body where
  state := .footnote :: Body.ofLines [['a'], ['b'], ['c']]

/-- Delete the lines with `a` or `c` in them. -/
def outerDeletion : Expression where
  command := .delete
  pattern := ['[', 'a', 'c', ']']
  raw := []

def outerPattern : Pattern := ⟨.one { items := [.code 97, .code 99] }, 0⟩

def lowerPattern : Pattern := ⟨.one { items := [.code 98, .code 99] }, 0⟩

theorem areLines_threeLines : Element.AreLines 1 threeLines.body [['a'], ['b'], ['c']] :=
  .cons rfl rfl rfl (.cons rfl rfl rfl (.cons rfl rfl rfl (.nil 7)))

attribute [local instance] CharNames.none

/-- With the first and the last line gone, the second one is left. -/
theorem deleteLines_leaves_middle_line :
    lastTwoMatch outerPattern.occursIn [['a'], ['b'], ['c']] = false ∧
      ∃ outcome w', (deleteLines outerDeletion).execute threeLinesSession threeLinesWorld =
          (.ok outcome, w') ∧
        w'.state = .footnote :: Body.ofLines [['b']] := by
  have htwo : lastTwoMatch outerPattern.occursIn [['a'], ['b'], ['c']] = false := by cbv
  have hrest : remaining outerPattern.occursIn [['a'], ['b'], ['c']] = [['b']] := by cbv
  have hsteps : Pattern.steps 4 { rest := ['[', 'a', 'c', ']'] } = .ok _ :=
    (Pattern.steps_of_step (by decide) rfl (by decide)).trans (Pattern.steps_of_nil rfl)
  have hpattern : outerDeletion.compile = .ok outerPattern :=
    Pattern.read_of_steps ['[', 'a', 'c', ']'] rfl hsteps rfl
  have hliteral : threeLinesSession.service.Literal id := ⟨Service.literal_ofBody.update⟩
  have hfetch : threeLinesSession.service.fetch threeLinesWorld.state =
      (.ok threeLines, threeLinesWorld.state) := rfl
  have h := deleteLines_leaves_other_lines hliteral hpattern hfetch areLines_threeLines
    (by simp) rfl
  rw [hrest] at h
  exact ⟨htwo, h.2.2 htwo⟩

/-- When the last two lines match, deleting the second one would take the newline at the end of the
body along. -/
theorem deletions_reach_end :
    deletions threeLines lowerPattern = [⟨4, 6⟩, ⟨3, 5⟩] ∧
      Body.deleteAllInside? (deletions threeLines lowerPattern)
        (.footnote :: Body.ofLines [['a'], ['b'], ['c']]) = none := by
  have hspans : deletions threeLines lowerPattern = [⟨4, 6⟩, ⟨3, 5⟩] := by cbv
  rw [hspans]
  exact ⟨rfl, rfl⟩

end Session

end Redline
