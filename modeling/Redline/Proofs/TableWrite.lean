import Redline.Proofs.CellWrite
import Redline.Session.Tables

/-!
# Writing into a table of a page

A reference names a cell by the number of its table, its row and its column.  Writing over the cell
changes the rows of that table and nothing around it, and the edit of the cell, read off any document
that displays the page, does just this to the units.  The selector still names the table afterwards,
unless tables are counted from the last one and the write has deleted some.
-/

namespace Redline

/-! ## The table that is named -/

namespace TableSelector

/-- The number of the one table that a selector names among so many. -/
def number? (s : TableSelector) (count : Nat) : Option Nat :=
  match s with
  | .all => none
  | .position i =>
    let place := if 0 < i then i - 1 else count + i
    if 0 ≤ place ∧ place < count then some place.toNat else none

/-- The selector counts from the first table. -/
def FromStart (s : TableSelector) : Prop :=
  ∃ i, s = .position i ∧ 0 < i

variable {s : TableSelector} {count count' number : Nat}

theorem lt_of_number? (h : s.number? count = some number) : number < count := by
  cases s with
  | all => cases h
  | position i =>
    simp only [number?, Option.ite_none_right_eq_some, Option.some.injEq] at h
    omega

/-- A selector that counts from the first table names the same one among more or fewer tables. -/
theorem number?_of_fromStart
    (h : s.number? count = some number) (hstart : s.FromStart) (hlt : number < count') :
    s.number? count' = some number := by
  obtain ⟨i, rfl, hi⟩ := hstart
  simp only [number?, if_pos hi, Option.ite_none_right_eq_some, Option.some.injEq] at h ⊢
  omega

theorem tableFor_eq
    {tables : List Table} {t : Table} (h : s.number? tables.length = some number)
    (ht : tables[number]? = some t) :
    Session.tableFor s tables = .ok t := by
  have hlt := lt_of_number? h
  cases s with
  | all => cases h
  | position i =>
    simp only [number?, Option.ite_none_right_eq_some, Option.some.injEq] at h
    have hresolve : (TableSelector.position i).resolve tables.length = .ok [number] := by
      simp only [resolve]
      rw [if_neg (by omega), if_pos h.1, h.2]
    simp only [Session.tableFor, hresolve, Except.mapError, bind, Except.bind]
    simp [ht]
    rfl

end TableSelector

/-- A cell that is found stands in a row that is found. -/
theorem Table.exists_row_of_cell
    {t : Table} {place : Place} {cell : Cell} (h : t.cell place = .ok cell) :
    ∃ row, nth? t.rows place.row = some row ∧ nth? row place.column = some cell := by
  rw [Table.cell] at h
  split at h
  · cases h
  · next row hrow =>
    split at h
    · cases h
    · next found hfound =>
      cases h
      exact ⟨row, hrow, hfound⟩

/-- The row and the column of a reference, from zero on. -/
def CellRef.index (ref : CellRef) : Nat × Nat :=
  ((ref.row - 1).toNat, (ref.column - 1).toNat)

/-- The cell of a page that a reference names. -/
def Page.cell? (page : Page) (ref : CellRef) : Option Page := do
  let number ← ref.table.number? (Atom.tablesOf page).length
  let rows ← (Atom.tablesOf page)[number]?
  rows.cell? ref.index

/-! ## Writing into a grid -/

namespace Grid

/-- Write a template over the cell that a reference names. -/
def write (rows : Grid) (ref : CellRef) (template : Text) : Grid :=
  rows.modifyCell ref.index (Page.overwrite template)

/-- The grid has the cell that a reference names, and the cell ends with a newline.  A table in it
would be lost, which matters when tables are counted from the last one. -/
def Takes (rows : Grid) (ref : CellRef) : Prop :=
  ∃ cell, rows.cell? ref.index = some cell ∧ cell.EndsLine ∧
    (Atom.tablesOf cell = [] ∨ ref.table.FromStart)

variable {rows : Grid} {ref : CellRef}

theorem tablesOf_overwrite (template : Text) {cell : Page} (h : Atom.tablesOf cell = []) :
    Atom.tablesOf (cell.overwrite template) = [] := by
  have hsplit := congrArg Atom.tablesOf (List.takeWhile_append_dropWhile
    (p := fun a : Atom => a.char?.isNone) (l := cell))
  rw [Atom.tablesOf_append, h, List.append_eq_nil_iff] at hsplit
  rw [Page.overwrite, Atom.tablesOf_append, Atom.tablesOf_append, Atom.tablesOf_map_char, Page.lead,
    hsplit.1]
  rfl

/-- A cell that can be written over can be so after any other write. -/
theorem Takes.write (h : rows.Takes ref) (other : CellRef) (template : Text) :
    (rows.write other template).Takes ref := by
  obtain ⟨cell, hcell, hends, htables⟩ := h
  by_cases hsame : ref.index = other.index
  · refine ⟨cell.overwrite template, ?_, Page.endsLine_overwrite template cell, ?_⟩
    · rw [Grid.write, ← hsame, cell?_modifyCell, hcell]
      rfl
    · exact htables.imp_left (tablesOf_overwrite template)
  · refine ⟨cell, ?_, hends, htables⟩
    rw [Grid.write, cell?_modifyCell_of_ne hsame]
    exact hcell

theorem length_tablesOfRows_write
    {cell : Page} (hcell : rows.cell? ref.index = some cell)
    (htables : Atom.tablesOf cell = []) (template : Text) :
    (Atom.tablesOfRows (rows.write ref template)).length = (Atom.tablesOfRows rows).length := by
  have hold := Atom.count_unitsOf cell
  have hnew := Atom.count_unitsOf (cell.overwrite template)
  rw [htables] at hold
  rw [tablesOf_overwrite template htables] at hnew
  rw [← Atom.count_unitsOfRows, ← Atom.count_unitsOfRows, Grid.write,
    units_modifyCell hcell, units_eq hcell]
  simp only [List.count_append, hold, hnew]

end Grid

/-- A page whose table of some number is the one that a selector names. -/
structure Page.Named (page : Page) (selector : TableSelector) (number : Nat) (rows : Grid)
    (before behind : Body) : Prop where
  around : Atom.Around Atom.unitsOf Atom.tablesOf page number rows before behind
  number : selector.number? (Atom.tablesOf page).length = some number

/-- The second page is the first with a template written over the cell that a reference names. -/
def Page.Written (page : Page) (ref : CellRef) (template : Text) (page' : Page) : Prop :=
  ∃ (number : Nat) (rows : Grid) (before behind : Body) (cell : Page),
    page.Named ref.table number rows before behind ∧ rows.cell? ref.index = some cell ∧
    cell.EndsLine ∧
    Atom.Around Atom.unitsOf Atom.tablesOf page' number (rows.write ref template) before behind

/-- A table that stands on the page itself is written in its place. -/
theorem Page.written_table
    (first : Page) (rows : Grid) (rest : Page) (ref : CellRef)
    (hnumber : ref.table.number? (Atom.tablesOf (first ++ Atom.table rows :: rest)).length =
      some (Atom.tablesOf first).length)
    (hcell : ∃ cell, rows.cell? ref.index = some cell ∧ cell.EndsLine) (template : Text) :
    Written (first ++ Atom.table rows :: rest) ref template
      (first ++ Atom.table (rows.write ref template) :: rest) := by
  obtain ⟨cell, hcell, hends⟩ := hcell
  have haround : ∀ rows, Atom.Around Atom.unitsOf Atom.tablesOf (first ++ Atom.table rows :: rest)
      (Atom.tablesOf first).length rows (Atom.unitsOf first) (Atom.unitsOf rest) := by
    intro rows
    have hself := ((Atom.Around.self rows).append_right rest).append_left first
    rwa [Nat.add_zero, List.append_nil] at hself
  exact ⟨_, rows, _, _, cell, ⟨haround rows, hnumber⟩, hcell, hends, haround _⟩

/-- The last page comes from the first by writing items one after another, each on the page that is
there then. -/
inductive Page.WrittenInTurn : Page → List (Nat × CellRef × Text) → Page → Prop
  | nil (page : Page) : WrittenInTurn page [] page
  | cons {page page' page'' : Page} {item : Nat × CellRef × Text}
      {rest : List (Nat × CellRef × Text)} (h : page.Written item.2.1 item.2.2 page')
      (hrest : WrittenInTurn page' rest page'') : WrittenInTurn page (item :: rest) page''

namespace Page.Named

variable {page : Page} {selector : TableSelector} {number : Nat} {rows : Grid}
  {before behind : Body}

/-- The page with a cell of the table written over; the selector still names the table. -/
theorem exists_write
    {ref : CellRef} (h : page.Named ref.table number rows before behind) (htakes : rows.Takes ref)
    (template : Text) :
    ∃ page', Page.Named page' ref.table number (rows.write ref template) before behind := by
  obtain ⟨cell, hcell, -, htables⟩ := htakes
  obtain ⟨page', haround, hlength⟩ := h.around.exists_with (rows.write ref template)
  refine ⟨page', haround, ?_⟩
  -- Without tables in the cell their count stays; counted from the start, it does not matter.
  rcases htables with htables | hstart
  · rw [Grid.length_tablesOfRows_write hcell htables] at hlength
    rw [Nat.add_right_cancel hlength]
    exact h.number
  · refine TableSelector.number?_of_fromStart h.number hstart ?_
    exact (List.getElem?_eq_some_iff.1 haround.getElem?_tablesOf).1

theorem written
    {ref : CellRef} {template : Text} {page' : Page}
    (h : page.Named ref.table number rows before behind) (htakes : rows.Takes ref)
    (h' : page'.Named ref.table number (rows.write ref template) before behind) :
    page.Written ref template page' := by
  obtain ⟨cell, hcell, hends, -⟩ := htakes
  exact ⟨number, rows, before, behind, cell, h, hcell, hends, h'.around⟩

theorem eq_of_named
    {page' : Page} (h : page.Named selector number rows before behind)
    (h' : page'.Named selector number rows before behind) : page = page' :=
  Atom.unitsOf_injective (h.around.units_eq.trans h'.around.units_eq.symm)

end Page.Named

/-! ## The edit of one cell -/

section OneCell

variable {d : Document} {place number : Nat} {page : Page} {rows : Grid} {before behind : Body}
  {ref : CellRef} {cell : Page}

/-- A cell of the page is a cell of each document that displays it, in its place. -/
theorem Document.Displays.exists_cell
    (hd : d.Displays place page) (h : page.Named ref.table number rows before behind)
    (hrow : 0 < ref.row) (hcolumn : 0 < ref.column) (hcell : rows.cell? ref.index = some cell) :
    ∃ t found, Session.tableFor ref.table d.tables = .ok t ∧
      t.cell ⟨ref.row, ref.column⟩ = .ok found ∧ Element.atomsOf found = cell ∧
      Element.PlacedOf (place + before.length + 1 + (Grid.before rows ref.index).length) found := by
  obtain ⟨t, ht, rfl, hplaced⟩ := hd.exists_table h.around
  have hcount : (Atom.tablesOf page).length = d.tables.length := by
    rw [← hd.atoms, Element.tables_atomsOf, List.length_map]
    rfl
  have hnumber := h.number
  rw [hcount] at hnumber
  obtain ⟨cells, hcells, hfound⟩ := Grid.exists_row hcell
  rw [Element.atomsOfRows_eq_map, List.getElem?_map, Option.map_eq_some_iff] at hcells
  obtain ⟨foundRow, hfoundRow, rfl⟩ := hcells
  rw [Element.atomsOfRow_eq_map, List.getElem?_map, Option.map_eq_some_iff] at hfound
  obtain ⟨found, hfound, rfl⟩ := hfound
  refine ⟨t, found, TableSelector.tableFor_eq hnumber ht, ?_, rfl, ?_⟩
  · have hnthRow : Table.nth? t.rows ref.row = some foundRow := by
      rw [Table.nth?, if_pos (by omega)]
      exact hfoundRow
    have hnth : Table.nth? foundRow ref.column = some found := by
      rw [Table.nth?, if_pos (by omega)]
      exact hfound
    simp only [Table.cell, hnthRow, hnth]
  · exact hplaced.cell hfoundRow hfound

/-- An edit that writes over a cell does so where the cell stands in its table. -/
theorem EditGroup.Writes.in_table
    {g : EditGroup Request} {template : Text} (h : g.Writes place cell template)
    (hcell : rows.cell? ref.index = some cell) (front before behind : Body)
    (hplace : front.length + before.length + 1 + (Grid.before rows ref.index).length = place) :
    Request.carryOutAll? g.requests (front ++ (before ++ Atom.units (.table rows) ++ behind)) =
      some (front ++ (before ++ Atom.units (.table (rows.write ref template)) ++ behind)) := by
  have hwrite := h.requests (front ++ (before ++ .mark .table :: Grid.before rows ref.index))
    (Grid.behind rows ref.index ++ .mark .tableEnd :: behind) (by
      simp only [List.length_append, List.length_cons]
      omega)
  have hunits : ∀ content : Body, front ++ (before ++ .mark .table :: Grid.before rows ref.index) ++
      content ++ (Grid.behind rows ref.index ++ .mark .tableEnd :: behind) =
      front ++ (before ++ .mark .table :: (Grid.before rows ref.index ++ content ++
        Grid.behind rows ref.index ++ [.mark .tableEnd]) ++ behind) := by
    intro content
    simp only [List.append_assoc, List.cons_append, List.nil_append]
  rw [hunits, hunits, ← Grid.units_eq hcell, ← Grid.units_modifyCell hcell] at hwrite
  exact hwrite

end OneCell

end Redline
