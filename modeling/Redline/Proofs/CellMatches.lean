import Mathlib.Data.List.TakeWhile
import Redline.Proofs.CellWrite
import Redline.Proofs.MatchOrder

/-!
# Matches in a cell

The text of a cell is put together from its runs, and a pattern is looked for in the whole of it.  A
place in that text is turned into a position by counting on from the start of the first run, as if
nothing stood between the runs.  Each object between the first run and the run of a match moves the
edit of that match one unit too far to the front.
-/

namespace Redline

/-! ## Runs and objects -/

namespace Piece

/-- The piece is an object that stands in the text. -/
def isObject (p : Piece) : Bool :=
  p.run?.isNone

/-- The index units that a piece takes up: those of its text, or one for an object. -/
def width (p : Piece) : Nat :=
  (p.run?.map Text.units).getD 1

/-- The pieces stand one behind the other from a place on. -/
def Consecutive : Nat → List Piece → Prop
  | _, [] => True
  | place, p :: rest => p.bounds = .cover place p.width ∧ Consecutive (place + p.width) rest

instance decidableConsecutive :
    ∀ (place : Nat) (pieces : List Piece), Decidable (Consecutive place pieces)
  | _, [] => .isTrue trivial
  | place, p :: rest =>
    have := decidableConsecutive (place + p.width) rest
    inferInstanceAs (Decidable (_ ∧ _))

/-- The index units that pieces take up. -/
def extent : List Piece → Nat
  | [] => 0
  | p :: rest => p.width + extent rest

/-- The text of the runs among the pieces. -/
def textOf (pieces : List Piece) : Text :=
  pieces.flatMap fun p => p.run?.getD []

/-- The number of objects that stand behind the first run. -/
def innerObjects (pieces : List Piece) : Nat :=
  (pieces.dropWhile isObject).countP isObject

variable {place : Nat} {p : Piece} {pieces before after : List Piece}

theorem Consecutive.of_append (h : Consecutive place (before ++ after)) :
    Consecutive (place + extent before) after := by
  induction before generalizing place with
  | nil => exact h
  | cons p before ih =>
    rw [extent, ← Nat.add_assoc]
    exact ih h.2

theorem extent_eq (pieces : List Piece) :
    extent pieces = (textOf pieces).units + pieces.countP isObject := by
  induction pieces with
  | nil => rfl
  | cons p rest ih =>
    have htext : textOf (p :: rest) = p.run?.getD [] ++ textOf rest := rfl
    rw [extent, ih, width, htext, Text.units_append, List.countP_cons]
    cases hp : p.run? with
    | none =>
      rw [if_pos (by simp [isObject, hp])]
      simp only [Option.map_none, Option.getD_none, Text.units_nil]
      omega
    | some text =>
      rw [if_neg (by simp [isObject, hp])]
      simp only [Option.map_some, Option.getD_some]
      omega

/-- An object stands before the first run or behind it. -/
theorem countP_eq (pieces : List Piece) :
    pieces.countP isObject =
      (pieces.takeWhile isObject).length + innerObjects pieces := by
  have hlead : (pieces.takeWhile isObject).countP isObject =
      (pieces.takeWhile isObject).length :=
    List.countP_eq_length.2 fun p hp => List.mem_takeWhile_imp hp
  have hsplit := congrArg (List.countP isObject)
    (List.takeWhile_append_dropWhile (p := isObject) (l := pieces))
  rw [List.countP_append, hlead] at hsplit
  exact hsplit.symm

/-- The first start that is given is that of the first run. -/
theorem Consecutive.find?_start (h : Consecutive place pieces) (hplace : 0 < place)
    (hrun : ∃ p ∈ pieces, p.run?.isSome = true) :
    ((pieces.filter (·.run?.isSome)).map (·.bounds.start)).find? (0 < ·) =
      some ((place + (pieces.takeWhile isObject).length : Nat) : Int) := by
  induction pieces generalizing place with
  | nil =>
    obtain ⟨p, hp, -⟩ := hrun
    cases hp
  | cons p rest ih =>
    obtain ⟨hbounds, hrest⟩ := h
    cases hp : p.run? with
    | none =>
      have hwidth : p.width = 1 := by rw [width, hp]; rfl
      have hlater : ∃ q ∈ rest, q.run?.isSome = true := by
        obtain ⟨q, hq, hsome⟩ := hrun
        rcases List.mem_cons.1 hq with rfl | hq
        · rw [hp] at hsome
          cases hsome
        · exact ⟨q, hq, hsome⟩
      rw [List.filter_cons_of_neg (by simp [hp]),
        List.takeWhile_cons_of_pos (by simp [isObject, hp]),
        ih hrest (by omega) hlater, hwidth, List.length_cons, Nat.add_assoc,
        Nat.add_comm 1]
    | some text =>
      have hpositive : 0 < p.bounds.start := by
        rw [hbounds]
        exact Int.natCast_pos.2 hplace
      rw [List.filter_cons_of_pos (by simp [hp]),
        List.takeWhile_cons_of_neg (by simp [isObject, hp]),
        List.map_cons, List.find?_cons_of_pos (by simpa using hpositive), hbounds]
      rfl

end Piece

/-! ## The ranges of edits -/

/-- The units that an edit takes out, by the request that it begins with.  An edit that takes out
nothing has an empty range at its place. -/
def EditGroup.range (g : EditGroup Request) : Span :=
  match g.requests with
  | .deleteRange span :: _ => span
  | _ => ⟨g.anchor, g.anchor⟩

namespace Span

/-- The unit lies in the span. -/
def Has (s : Span) (unit : Int) : Prop :=
  s.start ≤ unit ∧ unit < s.stop

/-- The span that lies some units further to the front. -/
def back (s : Span) (n : Nat) : Span :=
  ⟨s.start - n, s.stop - n⟩

/-- A span that is moved holds the same units only if it is empty or is moved by nothing. -/
theorem has_back_iff {s : Span} (h : s.start ≤ s.stop) (n : Nat) :
    (∀ unit, (s.back n).Has unit ↔ s.Has unit) ↔ s.start = s.stop ∨ n = 0 := by
  simp only [Has, back]
  constructor
  · intro hsame
    have hfirst := hsame (s.start - n)
    omega
  · intro hstays unit
    omega

end Span

/-- The positions of a part of a run. -/
def Document.Run.span (run : Document.Run) (i j : Nat) : Span :=
  ⟨run.position i, run.position j⟩

namespace CellText

theorem range_overwrite
    {start stop : Int} (h : start ≤ stop) (text : Text) (formats : List Format) :
    (⟨start, overwrite start stop text formats⟩ : EditGroup Request).range = ⟨start, stop⟩ := by
  unfold overwrite write
  split
  next => rfl
  next hempty =>
    obtain rfl : start = stop := by omega
    split
    next => rfl
    next => rfl

/-! ## Matches in one run -/

/-- The match lies in a run of the cell, from one place of its text to another. -/
structure LiesIn
    (cell : Cell) (m : Match) (before : List Piece) (run : Document.Run) (i j : Nat) : Prop where
  split : ∃ p after,
    pieces cell = before ++ p :: after ∧ p.run? = some run.text ∧ p.bounds.start = run.start
  start : m.start = (Piece.textOf before).length + i
  stop : m.stop = (Piece.textOf before).length + j
  inside : j ≤ run.text.length

variable {cell : Cell} {place : Nat} {m : Match} {before : List Piece} {run : Document.Run}
  {i j : Nat}

theorem text_ofCell (cell : Cell) : (ofCell cell).text = Piece.textOf (pieces cell) := by
  simp only [ofCell, Piece.textOf]
  induction pieces cell with
  | nil => rfl
  | cons p rest ih =>
    cases hp : p.run? with
    | none =>
      rw [List.filter_cons_of_neg (by simp [hp]), List.flatMap_cons, hp, ih]
      rfl
    | some text =>
      rw [List.filter_cons_of_pos (by simp [hp]), List.flatMap_cons, List.flatMap_cons, ih]

/-- Where a place in the text of a cell is looked for, and where it is. -/
theorem start_add_units {k : Nat}
    (hplace : 0 < place) (hcell : Piece.Consecutive place (pieces cell))
    (hm : LiesIn cell m before run i j) (hk : k ≤ run.text.length) :
    (ofCell cell).start + Text.units ((ofCell cell).text.take ((Piece.textOf before).length + k)) =
      run.position k - Piece.innerObjects before := by
  obtain ⟨p, after, hsplit, hrun, hstart⟩ := hm.split
  -- Counting begins at the first run, but the run of the match stands behind all pieces before it.
  have hfirst : (ofCell cell).start =
      ((place + (before.takeWhile Piece.isObject).length : Nat) : Int) := by
    rw [ofCell, hcell.find?_start hplace ⟨p, by simp [hsplit], by simp [hrun]⟩, hsplit,
      takeWhile_append_cons_of_neg before after (by simp [Piece.isObject, hrun])]
    rfl
  have hposition : run.start = ((place + Piece.extent before : Nat) : Int) := by
    rw [hsplit] at hcell
    rw [← hstart, hcell.of_append.1]
    rfl
  have htext : (ofCell cell).text.take ((Piece.textOf before).length + k) =
      Piece.textOf before ++ run.text.take k := by
    have hcons : Piece.textOf (before ++ p :: after) =
        Piece.textOf before ++ (run.text ++ Piece.textOf after) := by
      rw [Piece.textOf, List.flatMap_append, List.flatMap_cons, hrun]
      rfl
    rw [text_ofCell, hsplit, hcons, List.take_length_add_append,
      List.take_append_of_le_length hk]
  have hobjects := Piece.countP_eq before
  have hextent := Piece.extent_eq before
  rw [hfirst, htext, Text.units_append, Document.Run.position, hposition]
  omega

/-- The edit for a match is made at the position of the match, but for the objects that are not
counted. -/
theorem range_replaceMatch {template : Text} {g : EditGroup Request}
    (hplace : 0 < place) (hcell : Piece.Consecutive place (pieces cell))
    (hm : LiesIn cell m before run i j) (hle : i ≤ j)
    (hg : replaceMatch (ofCell cell) template m = .ok g) :
    g.anchor = g.range.start ∧ g.range = (run.span i j).back (Piece.innerObjects before) := by
  obtain ⟨expanded, -, hg⟩ := exists_of_bind_eq_ok hg
  have hinside := hm.inside
  have hposition := run.position_add_le hle hinside
  cases hg
  rw [hm.start, hm.stop, start_add_units hplace hcell hm (Nat.le_trans hle hinside),
    start_add_units hplace hcell hm hinside, range_overwrite (by omega)]
  exact ⟨rfl, rfl⟩

/-- The edits for the matches in a cell of runs and objects.  For a match that lies in one run, the
range of the edit is that of the matched text, moved to the front by the number of objects between
the first run of the cell and the run of the match.  It covers exactly the units of the matched text
if and only if there are no such objects, or the match is empty. -/
theorem replaceMatches_cover_iff
    {pattern : Pattern} {template : Text} {isGlobal : Bool} {groups : List (EditGroup Request)}
    (hplace : 0 < place) (hcell : Piece.Consecutive place (pieces cell))
    (h : replaceMatches cell pattern template isGlobal = .ok groups) :
    List.Forall₂
      (fun m g => ∀ before run i j, LiesIn cell m before run i j →
        g.anchor = g.range.start ∧
        g.range = (run.span i j).back (Piece.innerObjects before) ∧
        ((∀ unit, g.range.Has unit ↔ (run.span i j).Has unit) ↔
          m.start = m.stop ∨ Piece.innerObjects before = 0))
      (if isGlobal then pattern.findAll (ofCell cell).text
        else (pattern.findAll (ofCell cell).text).take 1)
      groups := by
  have hbounds : ∀ m ∈ (if isGlobal then pattern.findAll (ofCell cell).text
      else (pattern.findAll (ofCell cell).text).take 1), m.start ≤ m.stop := by
    intro m hm
    have hfound : m ∈ pattern.findAll (ofCell cell).text := by
      split at hm
      next => exact hm
      next => exact List.mem_of_mem_take hm
    exact (pattern.findAll_bounds hfound).1
  refine ((List.forall₂_and_left _ _).2 ⟨hbounds, forall₂_of_mapM_eq_ok h⟩).imp ?_
  rintro m g ⟨hle, hg⟩ before run i j hm
  have hij : i ≤ j := by
    rw [hm.start, hm.stop] at hle
    omega
  obtain ⟨hanchor, hrange⟩ := range_replaceMatch hplace hcell hm hij hg
  have hposition := run.position_add_le hij hm.inside
  have hempty : run.position i = run.position j ↔ m.start = m.stop := by
    rw [hm.start, hm.stop]
    refine ⟨fun heq => by omega, fun heq => ?_⟩
    rw [Nat.add_left_cancel heq]
  refine ⟨hanchor, hrange, ?_⟩
  rw [hrange, Span.has_back_iff (by simp only [Document.Run.span]; omega), ← hempty]
  rfl

/-- The edits that erase all matches. -/
theorem replaceMatches_erase (cell : Cell) (pattern : Pattern) :
    replaceMatches cell pattern [] true =
      .ok ((pattern.findAll (ofCell cell).text).map fun m =>
        let start := (ofCell cell).start + Text.units ((ofCell cell).text.take m.start)
        let stop := (ofCell cell).start + Text.units ((ofCell cell).text.take m.stop)
        ⟨start, overwrite start stop [] []⟩) := by
  have herase : replaceMatch (ofCell cell) [] = fun m =>
      let start := (ofCell cell).start + Text.units ((ofCell cell).text.take m.start)
      let stop := (ofCell cell).start + Text.units ((ofCell cell).text.take m.stop)
      pure ⟨start, overwrite start stop [] []⟩ := by
    funext m
    have hexpand : Template.expand (some m) [] = .ok [] := by
      rw [Template.expand, Template.pieces_nil]
      rfl
    rw [replaceMatch, hexpand]
    rfl
  rw [replaceMatches, if_pos rfl, herase, List.mapM_pure]
  rfl

/-- A line with an image before its first run and one between its runs. -/
def picturedCell : Cell :=
  [.paragraph ⟨some 5, some 12⟩
    ⟨[⟨⟨some 5, some 6⟩, .image "i".toList⟩, ⟨⟨some 6, some 9⟩, .run "a😀".toList⟩,
      ⟨⟨some 9, some 10⟩, .image "j".toList⟩, ⟨⟨some 10, some 12⟩, .run "a\n".toList⟩], none⟩]

theorem replaceMatches_cover_picturedCell :
    Piece.Consecutive 5 (pieces picturedCell) ∧
      ∃ groups, replaceMatches picturedCell DocMatch.letter [] true = .ok groups ∧
        ∃ m ∈ (DocMatch.letter.findAll (ofCell picturedCell).text).head?, ∃ g ∈ groups.head?,
          LiesIn picturedCell m ((pieces picturedCell).take 1) ⟨"a😀".toList, 6⟩ 0 1 ∧
          ∀ unit, g.range.Has unit ↔ (⟨6, 7⟩ : Span).Has unit := by
  have hcell : Piece.Consecutive 5 (pieces picturedCell) := by decide
  obtain ⟨m, rest, hfound, hstart, hstop⟩ : ∃ m rest,
      DocMatch.letter.findAll (ofCell picturedCell).text = m :: rest ∧ m.start = 0 ∧ m.stop = 1 :=
    ⟨_, _, rfl, rfl, rfl⟩
  have hm : LiesIn picturedCell m ((pieces picturedCell).take 1) ⟨"a😀".toList, 6⟩ 0 1 :=
    ⟨⟨_, _, rfl, rfl, rfl⟩, hstart, hstop, by decide⟩
  have herase := replaceMatches_erase picturedCell DocMatch.letter
  have hcover := replaceMatches_cover_iff (by decide) hcell herase
  rw [hfound, if_pos rfl, List.map_cons, List.forall₂_cons] at hcover
  rw [hfound, List.map_cons] at herase
  obtain ⟨-, -, hunits⟩ := hcover.1 _ _ _ _ hm
  exact ⟨hcell, _, herase, m, congrArg List.head? hfound, _, rfl, hm, hunits.2 (.inr rfl)⟩

/-- The edit for the match behind an image takes out the image. -/
theorem replaceMatches_misses_picturedCell :
    Piece.Consecutive 5 (pieces picturedCell) ∧
      ∃ groups, replaceMatches picturedCell DocMatch.letter [] true = .ok groups ∧
        groups.map (·.range) = [⟨6, 7⟩, ⟨9, 10⟩] ∧
        ∃ m ∈ (DocMatch.letter.findAll (ofCell picturedCell).text).getLast?,
          LiesIn picturedCell m ((pieces picturedCell).take 3) ⟨"a\n".toList, 10⟩ 0 1 :=
  ⟨by decide, _, replaceMatches_erase picturedCell DocMatch.letter, rfl, _, rfl,
    ⟨_, _, rfl, rfl, rfl⟩, rfl, rfl, by decide⟩

end CellText

end Redline
