import Redline.Proofs.Page
import Redline.Proofs.Replacing
import Redline.Proofs.Rounds
import Redline.Table.Cell

/-!
# Writing over a cell

The text of a cell is read off its runs, and a template is written over it by deleting from the
first run to the newline at its end and inserting the new text there.  For a cell that stands in its
place and ends with a newline, this leaves the objects and tables before its first character, the
new text, and the newline.
-/

namespace Redline

namespace Page

/-- The characters of a page that are not in a table. -/
def text (page : Page) : Text :=
  page.filterMap Atom.char?

/-- What stands before the first character. -/
def lead (page : Page) : Page :=
  page.takeWhile (·.char?.isNone)

/-- The page ends with a newline, as every cell does. -/
def EndsLine (page : Page) : Prop :=
  page.getLast? = some (.char '\n')

/-- A cell with a template written over it. -/
def overwrite (template : Text) (cell : Page) : Page :=
  lead cell ++ ((CellText.replacement template (text cell)).1.map .char ++ [.char '\n'])

theorem endsLine_overwrite (template : Text) (cell : Page) :
    EndsLine (overwrite template cell) := by
  rw [EndsLine, overwrite, ← List.append_assoc]
  exact List.getLast?_concat

/-- Behind the lead stands a part that the newline ends. -/
theorem EndsLine.exists_middle {cell : Page} (h : EndsLine cell) :
    ∃ middle, cell = lead cell ++ (middle ++ [.char '\n']) := by
  obtain ⟨before, hbefore⟩ := List.getLast?_eq_some_iff.1 h
  have hlead : lead cell = before.takeWhile (·.char?.isNone) := by
    rw [lead, hbefore]
    exact takeWhile_append_cons_of_neg before [] (by simp [Atom.char?])
  refine ⟨before.dropWhile (·.char?.isNone), ?_⟩
  rw [hlead, ← List.append_assoc, List.takeWhile_append_dropWhile]
  exact hbefore

theorem length_lead_le (page : Page) :
    (Atom.unitsOf page.lead).length ≤ (Atom.unitsOf page).length := by
  have hsplit := congrArg (fun page => (Atom.unitsOf page).length)
    (List.takeWhile_append_dropWhile (p := fun a : Atom => a.char?.isNone) (l := page))
  simp only [Atom.unitsOf_append, List.length_append] at hsplit
  rw [lead]
  omega

theorem EndsLine.text_getLast? {cell : Page} (h : EndsLine cell) :
    (text cell).getLast? = some '\n' := by
  obtain ⟨before, rfl⟩ := List.getLast?_eq_some_iff.1 h
  rw [text, List.filterMap_append]
  exact List.getLast?_concat

end Page

/-! ## Runs and their places -/

/-- The runs hold the characters of a page, in order and each at its place. -/
inductive RunsShow : Nat → Page → List Piece → Prop
  | nil (place : Nat) : RunsShow place [] []
  | skip {place : Nat} {a : Atom} {page : Page} {runs : List Piece} (h : a.char? = none)
      (rest : RunsShow (place + a.units.length) page runs) : RunsShow place (a :: page) runs
  | run {place : Nat} {text : Text} {page : Page} {runs : List Piece} (h : text ≠ [])
      (rest : RunsShow (place + text.units) page runs) :
      RunsShow place (text.map .char ++ page) (⟨.cover place text.units, .run text⟩ :: runs)

namespace RunsShow

variable {place : Nat} {page page' : Page} {runs runs' : List Piece}

theorem append
    (h : RunsShow place page runs)
    (h' : RunsShow (place + (Atom.unitsOf page).length) page' runs') :
    RunsShow place (page ++ page') (runs ++ runs') := by
  induction h with
  | nil => exact h'
  | @skip place a page runs ha rest ih =>
    refine .skip ha (ih ?_)
    rwa [Atom.unitsOf, List.length_append, ← Nat.add_assoc] at h'
  | @run place text page runs ht rest ih =>
    rw [List.append_assoc]
    refine .run ht (ih ?_)
    rwa [Atom.unitsOf_append, Atom.unitsOf_map_char, List.length_append, Body.length_ofText,
      ← Nat.add_assoc] at h'

theorem skips (h : ∀ a ∈ page, a.char? = none) : RunsShow place page [] := by
  induction page generalizing place with
  | nil => exact .nil place
  | cons a page ih =>
    exact .skip (h a List.mem_cons_self) (ih fun b hb => h b (List.mem_cons_of_mem a hb))

theorem of_pieces {pieces : List Piece} (h : Piece.Placed place pieces) :
    RunsShow place (pieces.flatMap Piece.atoms) (pieces.filter (·.run?.isSome)) := by
  induction pieces generalizing place with
  | nil => exact .nil place
  | cons p rest ih =>
    obtain ⟨hbounds, hne, hrest⟩ := h
    obtain ⟨bounds, content⟩ := p
    have hlast := ih hrest
    rw [List.flatMap_cons]
    cases content with
    | run text =>
      simp only [Piece.atoms, Atom.unitsOf_map_char, Body.length_ofText] at hbounds hlast
      rw [hbounds]
      exact .run (fun hnil => hne (congrArg Content.run hnil)) hlast
    | image id => exact .skip rfl hlast
    | other => exact .skip rfl hlast

/-- The runs of a cell hold the characters of its page. -/
theorem of_elements {cell : Cell} (h : Element.PlacedOf place cell) :
    RunsShow place (Element.atomsOf cell)
      ((CellText.pieces cell).filter (·.run?.isSome)) := by
  induction cell generalizing place with
  | nil => exact .nil place
  | cons e rest ih =>
    rw [Element.PlacedOf] at h
    have hlast := ih h.2
    have hobjects : ∀ n, RunsShow place (List.replicate n (.object [])) [] := by
      intro n
      refine skips fun a ha => ?_
      rw [List.eq_of_mem_replicate ha]
      rfl
    rw [Element.atomsOf]
    cases e with
    | paragraph b p =>
      have hp := h.1
      rw [Element.Placed] at hp
      have hpieces : CellText.pieces (.paragraph b p :: rest) =
          p.pieces ++ CellText.pieces rest := rfl
      rw [hpieces, List.filter_append]
      exact (of_pieces hp.2).append hlast
    | table b rows =>
      have htable : RunsShow place [.table (Element.atomsOfRows rows)] [] :=
        skips fun a ha => (by rw [List.mem_singleton.1 ha]; rfl)
      exact htable.append hlast
    | sectionBreak b => exact (hobjects _).append hlast
    | other b => exact (hobjects _).append hlast

theorem text_eq (h : RunsShow place page runs) :
    (runs.flatMap fun p => p.run?.getD []) = Page.text page := by
  induction h with
  | nil => rfl
  | @skip place a page runs ha rest ih =>
    rw [ih, Page.text, Page.text, List.filterMap_cons_none ha]
  | @run place text page runs ht rest ih =>
    have htext : (text.map Atom.char).filterMap Atom.char? = text := by
      rw [List.filterMap_map]
      exact List.filterMap_some
    rw [List.flatMap_cons, ih, Page.text, Page.text, List.filterMap_append, htext]
    rfl

theorem start_eq (h : RunsShow place page runs) (hplace : 0 < place) (hne : Page.text page ≠ []) :
    (runs.map (·.bounds.start)).find? (0 < ·) =
      some ((place + (Atom.unitsOf (Page.lead page)).length : Nat) : Int) := by
  induction h with
  | nil => exact absurd rfl hne
  | @skip place a page runs ha rest ih =>
    have hlead : Page.lead (a :: page) = a :: Page.lead page := by
      rw [Page.lead, List.takeWhile_cons_of_pos (by rw [ha]; rfl), Page.lead]
    rw [Page.text, List.filterMap_cons_none ha] at hne
    rw [ih (by omega) hne, hlead, Atom.unitsOf, List.length_append, Nat.add_assoc]
  | @run place text page runs ht rest ih =>
    obtain ⟨c, text, rfl⟩ := List.exists_cons_of_ne_nil ht
    have hlead : Page.lead ((c :: text).map Atom.char ++ page) = [] :=
      List.takeWhile_cons_of_neg (by simp [Atom.char?])
    have hpositive : 0 < (Bounds.cover place (Text.units (c :: text))).start := by
      simp only [Bounds.cover, Bounds.start, Option.getD_some]
      omega
    rw [hlead, List.map_cons]
    exact List.find?_cons_of_pos (p := fun x : Int => decide (0 < x)) (decide_eq_true hpositive)

theorem eq_nil_of_nil (h : RunsShow place [] runs) : runs = [] := by
  generalize hpage : ([] : Page) = page at h
  cases h with
  | nil => rfl
  | skip => cases hpage
  | run ht => simp_all

theorem stop_eq (h : RunsShow place page runs) {c : Char} (hlast : page.getLast? = some (.char c)) :
    runs.reverse.findSome? (·.bounds.stop?) =
      some ((place + (Atom.unitsOf page).length : Nat) : Int) := by
  induction h with
  | nil => cases hlast
  | @skip place a page runs ha rest ih =>
    cases page with
    | nil =>
      cases hlast
      cases ha
    | cons b page =>
      have hlength : (Atom.unitsOf (a :: b :: page)).length =
          a.units.length + (Atom.unitsOf (b :: page)).length := List.length_append
      rw [List.getLast?_cons_cons] at hlast
      rw [ih hlast, hlength, Nat.add_assoc]
  | @run place text page runs ht rest ih =>
    rw [Atom.unitsOf_append, Atom.unitsOf_map_char, List.length_append, Body.length_ofText,
      List.reverse_cons, List.findSome?_append]
    cases page with
    | nil =>
      rw [rest.eq_nil_of_nil]
      rfl
    | cons b page =>
      rw [List.getLast?_append_of_ne_nil _ (List.cons_ne_nil b page)] at hlast
      rw [ih hlast, Nat.add_assoc]
      rfl

end RunsShow

/-- The edit writes a template over the page of a cell, wherever the units of the cell stand at a
place. -/
structure EditGroup.Writes (g : EditGroup Request) (place : Nat) (page : Page) (template : Text) :
    Prop where
  anchor : g.anchor = (place + (Atom.unitsOf page.lead).length : Nat)
  requests : ∀ before behind : Body, before.length = place →
    Request.carryOutAll? g.requests (before ++ Atom.unitsOf page ++ behind) =
      some (before ++ Atom.unitsOf (page.overwrite template) ++ behind)

namespace CellText

variable {cell : Cell} {place : Nat} {page : Page}

theorem ofCell_of_runsShow
    (h : RunsShow place page ((pieces cell).filter (·.run?.isSome))) (hplace : 0 < place)
    (hends : page.EndsLine) :
    ofCell cell = ⟨page.text, (place + (Atom.unitsOf page.lead).length : Nat),
      (place + (Atom.unitsOf page).length : Nat)⟩ := by
  have hne : page.text ≠ [] := by
    intro hnil
    have hlast := hends.text_getLast?
    rw [hnil] at hlast
    cases hlast
  simp only [ofCell, h.text_eq, h.start_eq hplace hne, h.stop_eq hends, Option.getD_some]

/-- One text is put in the place of another, and then only styles follow. -/
theorem carryOutAll?_overwrite
    {t : Splice BodyUnit} {start stop : Int} {text : Text} (hstart : start = t.start)
    (hstop : stop = t.stop) (hcontent : t.content = Body.ofText text) (formats : List Format)
    {body : Body} (hle : t.start ≤ t.stop) (hlen : t.stop ≤ body.length) :
    Request.carryOutAll? (overwrite start stop text formats) body = some (t.apply body) := by
  unfold overwrite write
  by_cases hempty : text.isEmpty = true
  · rw [if_pos hempty, List.append_nil, Request.carryOutAll?_removal hstart hstop hle hlen,
      Splice.apply, hcontent, List.isEmpty_iff.1 hempty, Body.ofText_nil, List.append_nil]
  · rw [if_neg hempty]
    refine Edit.carryOutAll?_group hstart hstop hcontent ?_ body hle hlen
    exact Request.carryOutAll?_styles fun r hr => Request.stylesText_of_mem_ofStyle hr

/-- Writing over a cell replaces its units by those of the new page, and touches nothing else. -/
theorem replaceWhole_writes_of_runsShow
    (h : RunsShow place page ((pieces cell).filter (·.run?.isSome))) (hplace : 0 < place)
    (hends : page.EndsLine) (template : Text) :
    (replaceWhole cell template).Writes place page template := by
  have hcell := ofCell_of_runsShow h hplace hends
  obtain ⟨middle, hmiddle⟩ := hends.exists_middle
  refine ⟨by simp only [replaceWhole, hcell], ?_⟩
  intro before behind hbefore
  have hnewline : Atom.unitsOf [.char '\n'] = Body.ofText ['\n'] := rfl
  have hunits : Atom.unitsOf page =
      Atom.unitsOf page.lead ++ (Atom.unitsOf middle ++ Body.ofText ['\n']) := by
    rw [← hnewline, ← Atom.unitsOf_append, ← Atom.unitsOf_append, ← hmiddle]
  have hlength : (Atom.unitsOf page).length =
      (Atom.unitsOf page.lead).length + (Atom.unitsOf middle).length + 1 := by
    rw [hunits, List.length_append, List.length_append, Nat.add_assoc]
    rfl
  -- The splice takes out the middle, and the newline behind it stays.
  let t : Splice BodyUnit := ⟨place + (Atom.unitsOf page.lead).length,
    place + (Atom.unitsOf page.lead).length + (Atom.unitsOf middle).length,
    Body.ofText (replacement template page.text).1⟩
  have hend : deleteEnd ⟨page.text, (place + (Atom.unitsOf page.lead).length : Nat),
      (place + (Atom.unitsOf page).length : Nat)⟩ = t.stop := by
    rw [deleteEnd, hends.text_getLast?, if_pos (by rfl), hlength]
    simp only [t]
    omega
  simp only [replaceWhole, hcell]
  rw [carryOutAll?_overwrite (t := t) rfl hend rfl _ (by simp only [t]; omega)
    (by simp only [t, List.length_append, hlength, hbefore]; omega)]
  have hnew : Atom.unitsOf (page.overwrite template) = Atom.unitsOf page.lead ++
      (Body.ofText (replacement template page.text).1 ++ Body.ofText ['\n']) := by
    rw [Page.overwrite, Atom.unitsOf_append, Atom.unitsOf_append, Atom.unitsOf_map_char, hnewline]
  have hbody : before ++ Atom.unitsOf page ++ behind = (before ++ Atom.unitsOf page.lead) ++
      (Atom.unitsOf middle ++ (Body.ofText ['\n'] ++ behind)) := by
    rw [hunits]
    simp only [List.append_assoc]
  have htake : (before ++ Atom.unitsOf page ++ behind).take t.start =
      before ++ Atom.unitsOf page.lead := by
    rw [hbody]
    exact List.take_left' (by rw [List.length_append, hbefore])
  have hdrop : (before ++ Atom.unitsOf page ++ behind).drop t.stop =
      Body.ofText ['\n'] ++ behind := by
    rw [hbody, ← List.append_assoc]
    exact List.drop_left' (by rw [List.length_append, List.length_append, hbefore])
  rw [Splice.apply, htake, hdrop, hnew]
  simp only [t, List.append_assoc]

theorem replaceWhole_writes
    (h : Element.PlacedOf place cell) (hplace : 0 < place) (hpage : Element.atomsOf cell = page)
    (hends : page.EndsLine) (template : Text) :
    (replaceWhole cell template).Writes place page template := by
  have hruns := RunsShow.of_elements h
  rw [hpage] at hruns
  exact replaceWhole_writes_of_runsShow hruns hplace hends template

end CellText

/-! ## Cells of a grid -/

namespace Grid

/-- The cell in a row and a column, both from zero on. -/
def cell? (rows : Grid) (i : Nat × Nat) : Option Page :=
  rows[i.1]?.bind (·[i.2]?)

/-- Change the cell in a row and a column. -/
def modifyCell (rows : Grid) (i : Nat × Nat) (f : Page → Page) : Grid :=
  rows.modify i.1 (·.modify i.2 f)

/-- The units of the grid before the units of a cell. -/
def before (rows : Grid) (i : Nat × Nat) : Body :=
  Atom.unitsOfRows (rows.take i.1) ++
    .mark .row :: (Atom.unitsOfRow ((rows[i.1]?.getD []).take i.2) ++ [.mark .cell])

/-- The units of the grid behind the units of a cell. -/
def behind (rows : Grid) (i : Nat × Nat) : Body :=
  Atom.unitsOfRow ((rows[i.1]?.getD []).drop (i.2 + 1)) ++ Atom.unitsOfRows (rows.drop (i.1 + 1))

/-- One cell comes before another when the grid is read row by row. -/
def Precedes (i j : Nat × Nat) : Prop :=
  i.1 < j.1 ∨ i.1 = j.1 ∧ i.2 < j.2

variable {rows : Grid} {i j : Nat × Nat} {cell : Page} {f g : Page → Page}

theorem Precedes.ne (h : Precedes i j) : i ≠ j := by
  rintro rfl
  unfold Precedes at h
  omega

theorem precedes_or_precedes (h : i ≠ j) : Precedes i j ∨ Precedes j i := by
  have hne : ¬ (i.1 = j.1 ∧ i.2 = j.2) := fun heq => h (Prod.ext heq.1 heq.2)
  unfold Precedes
  omega

theorem exists_row (h : cell? rows i = some cell) :
    ∃ row, rows[i.1]? = some row ∧ row[i.2]? = some cell :=
  Option.bind_eq_some_iff.1 h

theorem eq_append_of_getElem?
    {α : Type} {xs : List α} {n : Nat} {x : α} (h : xs[n]? = some x) :
    xs = xs.take n ++ x :: xs.drop (n + 1) := by
  obtain ⟨hn, rfl⟩ := List.getElem?_eq_some_iff.1 h
  rw [List.getElem_cons_drop, List.take_append_drop]

theorem units_eq (h : cell? rows i = some cell) :
    Atom.unitsOfRows rows = before rows i ++ Atom.unitsOf cell ++ behind rows i := by
  obtain ⟨row, hrow, hcell⟩ := exists_row h
  have hsplit := congrArg Atom.unitsOfRows (eq_append_of_getElem? hrow)
  have hcells := congrArg Atom.unitsOfRow (eq_append_of_getElem? hcell)
  rw [Atom.unitsOfRows_append, Atom.unitsOfRows] at hsplit
  rw [Atom.unitsOfRow_append, Atom.unitsOfRow] at hcells
  rw [hsplit, hcells, before, behind, hrow]
  simp only [Option.getD_some, List.append_assoc, List.cons_append, List.nil_append]

theorem cell?_modifyCell (rows : Grid) (i : Nat × Nat) (f : Page → Page) :
    cell? (modifyCell rows i f) i = (cell? rows i).map f := by
  rw [cell?, modifyCell, List.getElem?_modify_eq, cell?]
  cases rows[i.1]? with
  | none => rfl
  | some row => exact List.getElem?_modify_eq f i.2 row

theorem cell?_modifyCell_of_ne (h : i ≠ j) (rows : Grid) (f : Page → Page) :
    cell? (modifyCell rows j f) i = cell? rows i := by
  rw [cell?, modifyCell, cell?]
  by_cases hrow : j.1 = i.1
  · have hcolumn : j.2 ≠ i.2 := fun hcolumn => h (Prod.ext hrow.symm hcolumn.symm)
    rw [hrow, List.getElem?_modify_eq]
    cases rows[i.1]? with
    | none => rfl
    | some row => exact List.getElem?_modify_ne f row hcolumn
  · rw [List.getElem?_modify_ne _ _ hrow]

/-- The units before a cell are not touched by a change to the cell or to a later one. -/
theorem before_modifyCell (h : Precedes i j ∨ i = j) (rows : Grid) (f : Page → Page) :
    before (modifyCell rows j f) i = before rows i := by
  have htake : ∀ {α : Type} (xs : List α) (g : α → α) {m n : Nat}, m ≤ n →
      (xs.modify n g).take m = xs.take m := by
    intro α xs g m n hmn
    rw [List.take_modify, List.modify_eq_self]
    rw [List.length_take]
    omega
  have hle : i.1 ≤ j.1 ∧ (j.1 = i.1 → i.2 ≤ j.2) := by
    rcases h with h | rfl
    · unfold Precedes at h
      omega
    · omega
  rw [before, before, modifyCell, htake rows _ hle.1]
  by_cases hrow : j.1 = i.1
  · rw [hrow, List.getElem?_modify_eq]
    cases rows[i.1]? with
    | none => rfl
    | some row =>
      simp only [Option.map_eq_map, Option.map_some, Option.getD_some, htake row f (hle.2 hrow)]
  · rw [List.getElem?_modify_ne _ _ hrow]

theorem behind_modifyCell (rows : Grid) (i : Nat × Nat) (f : Page → Page) :
    behind (modifyCell rows i f) i = behind rows i := by
  rw [behind, behind, modifyCell, List.drop_modify_of_lt _ _ _ _ (Nat.lt_succ_self i.1),
    List.getElem?_modify_eq]
  cases rows[i.1]? with
  | none => rfl
  | some row =>
    simp only [Option.map_eq_map, Option.map_some, Option.getD_some,
      List.drop_modify_of_lt f i.2 (i.2 + 1) row (Nat.lt_succ_self i.2)]

theorem units_modifyCell (h : cell? rows i = some cell) (f : Page → Page) :
    Atom.unitsOfRows (modifyCell rows i f) =
      before rows i ++ Atom.unitsOf (f cell) ++ behind rows i := by
  have hcell : cell? (modifyCell rows i f) i = some (f cell) := by
    rw [cell?_modifyCell, h]
    rfl
  rw [units_eq hcell, before_modifyCell (.inr rfl), behind_modifyCell]

/-- Changes to different cells may change places. -/
theorem modifyCell_comm (h : i ≠ j) (rows : Grid) (f g : Page → Page) :
    modifyCell (modifyCell rows i f) j g = modifyCell (modifyCell rows j g) i f := by
  simp only [modifyCell]
  by_cases hrow : i.1 = j.1
  · have hcolumn : i.2 ≠ j.2 := fun hcolumn => h (Prod.ext hrow hcolumn)
    rw [hrow, List.modify_modify_eq, List.modify_modify_eq]
    congr 1
    funext row
    exact List.modify_modify_ne f g row hcolumn
  · exact List.modify_modify_ne _ _ rows hrow

/-- The units of a cell end before those of a later one start. -/
theorem length_before_lt (h : Precedes i j) (hcell : cell? rows i = some cell) :
    (before rows i).length + (Atom.unitsOf cell).length < (before rows j).length := by
  rcases h with hrow | ⟨hrow, hcolumn⟩
  · have hsame : before (rows.take j.1) i = before rows i := by
      rw [before, before, List.take_take, Nat.min_eq_left (Nat.le_of_lt hrow),
        List.getElem?_take_of_lt hrow]
    have hinner : cell? (rows.take j.1) i = some cell := by
      rw [cell?, List.getElem?_take_of_lt hrow]
      exact hcell
    have hlength := congrArg List.length (units_eq hinner)
    rw [hsame, List.length_append, List.length_append] at hlength
    rw [before.eq_def rows j, List.length_append, hlength, List.length_cons]
    omega
  · obtain ⟨row, hat, hfound⟩ := exists_row hcell
    have hinner : (row.take j.2)[i.2]? = some cell := by
      rw [List.getElem?_take_of_lt hcolumn]
      exact hfound
    have hlength := congrArg (fun cells => (Atom.unitsOfRow cells).length)
      (eq_append_of_getElem? hinner)
    simp only [List.take_take, Nat.min_eq_left (Nat.le_of_lt hcolumn), Atom.unitsOfRow_append,
      Atom.unitsOfRow, List.length_append, List.length_cons] at hlength
    simp only [before, ← hrow, hat, Option.getD_some, List.length_append, List.length_cons,
      List.length_nil, hlength]
    omega

end Grid

namespace Element

theorem atomsOfRow_eq_map (cells : List Cell) : atomsOfRow cells = cells.map atomsOf := by
  induction cells with
  | nil => rfl
  | cons cell cells ih => rw [atomsOfRow, ih, List.map_cons]

theorem atomsOfRows_eq_map (rows : List Row) : atomsOfRows rows = rows.map atomsOfRow := by
  induction rows with
  | nil => rfl
  | cons row rows ih => rw [atomsOfRows, ih, List.map_cons]

theorem PlacedRow.cell
    {place c : Nat} {cells : List Cell} {cell : Cell} (h : PlacedRow place cells)
    (hcell : cells[c]? = some cell) :
    PlacedOf (place + (Atom.unitsOfRow ((atomsOfRow cells).take c)).length + 1) cell := by
  induction cells generalizing place c with
  | nil => cases hcell
  | cons first cells ih =>
    rw [PlacedRow] at h
    cases c with
    | zero =>
      cases hcell
      exact h.1
    | succ c =>
      have hlast := ih h.2 hcell
      rw [atomsOfRow, List.take_succ_cons, Atom.unitsOfRow, List.length_cons, List.length_append]
      rwa [show place + 1 + (Atom.unitsOf (atomsOf first)).length +
          (Atom.unitsOfRow ((atomsOfRow cells).take c)).length = place +
          ((Atom.unitsOf (atomsOf first)).length +
          (Atom.unitsOfRow ((atomsOfRow cells).take c)).length + 1) by omega] at hlast

/-- The cells of a table that stands in its place stand in theirs. -/
theorem PlacedRows.cell
    {place r c : Nat} {rows : List Row} {row : Row} {cell : Cell} (h : PlacedRows place rows)
    (hrow : rows[r]? = some row) (hcell : row[c]? = some cell) :
    PlacedOf (place + (Grid.before (atomsOfRows rows) (r, c)).length) cell := by
  induction rows generalizing place r with
  | nil => cases hrow
  | cons first rows ih =>
    rw [PlacedRows] at h
    cases r with
    | zero =>
      cases hrow
      have hlast := h.1.cell hcell
      rw [Grid.before, atomsOfRows]
      simp only [List.take_zero, Atom.unitsOfRows, List.nil_append, List.getElem?_cons_zero,
        Option.getD_some, List.length_cons, List.length_append, List.length_nil]
      rwa [show place + 1 + (Atom.unitsOfRow ((atomsOfRow row).take c)).length + 1 = place +
        ((Atom.unitsOfRow ((atomsOfRow row).take c)).length + (0 + 1) + 1) by omega] at hlast
    | succ r =>
      have hlast := ih h.2 hrow
      have hlength : (Grid.before (atomsOfRows (first :: rows)) (r + 1, c)).length =
          1 + (Atom.unitsOfRow (atomsOfRow first)).length +
            (Grid.before (atomsOfRows rows) (r, c)).length := by
        rw [Grid.before, Grid.before, atomsOfRows]
        simp only [List.take_succ_cons, Atom.unitsOfRows, List.getElem?_cons_succ,
          List.length_cons, List.length_append]
        omega
      rw [hlength, ← Nat.add_assoc, ← Nat.add_assoc]
      exact hlast

end Element

end Redline
