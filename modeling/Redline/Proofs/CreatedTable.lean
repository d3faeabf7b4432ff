import Redline.Proofs.PageService
import Redline.Proofs.Replacing
import Redline.Table.Change

/-!
# Created tables

A table that is created at a position of a paragraph comes with a newline before it.  It is looked
for by the start of its first cell: the first table that has one shortly behind the position is
taken.  No table that starts before the position has its first cell behind it.  But the first cell of
a table may start at the position itself; then that table has the new one in its cell, comes before
it and is taken.  So the new table is found exactly when no first cell starts where it is created.
-/

namespace Redline

/-! ## Paragraphs in the units -/

theorem Body.mark_not_mem_ofText (t : Text) (m : TableMark) : .mark m ∉ ofText t := by
  intro hmem
  obtain ⟨c, -, hc⟩ := List.mem_flatMap.1 hmem
  exact List.count_eq_zero.1 (Atom.count_ofChar c m) hc

theorem Piece.mark_not_mem_units (p : Piece) (m : TableMark) : .mark m ∉ Atom.unitsOf p.atoms := by
  rw [atoms]
  split
  · rw [Atom.unitsOf_map_char]
    exact Body.mark_not_mem_ofText _ m
  · simp [Atom.unitsOf, Atom.units]
  · simp [Atom.unitsOf, Atom.units]

/-- A paragraph has no mark of a table in its units. -/
theorem Piece.mark_not_mem_unitsOf (pieces : List Piece) (m : TableMark) :
    .mark m ∉ Atom.unitsOf (pieces.flatMap atoms) := by
  induction pieces with
  | nil => exact List.not_mem_nil
  | cons p pieces ih =>
    rw [List.flatMap_cons, Atom.unitsOf_append, List.mem_append, not_or]
    exact ⟨p.mark_not_mem_units m, ih⟩

namespace Element

/-- The element stands in units that start at a place, and has its own place there. -/
def StandsAt (place : Nat) (units : Body) (e : Element) : Prop :=
  ∃ before behind, units = before ++ Atom.unitsOf (atoms e) ++ behind ∧
    Placed (place + before.length) e

theorem StandsAt.within
    {place : Nat} {units : Body} {e : Element} (x y : Body)
    (h : StandsAt (place + x.length) units e) : StandsAt place (x ++ units ++ y) e := by
  obtain ⟨before, behind, hunits, hplaced⟩ := h
  refine ⟨x ++ before, behind ++ y, ?_, ?_⟩
  · rw [hunits]
    simp only [List.append_assoc]
  · rwa [List.length_append, ← Nat.add_assoc]

mutual

theorem standsAt_of_mem_paragraphs : ∀ (e : Element) {place : Nat} {p : PlacedParagraph},
    Placed place e → p ∈ paragraphs e →
      StandsAt place (Atom.unitsOf (atoms e)) (.paragraph p.bounds p.paragraph)
  | .paragraph b q, place, p, hplaced, hp => by
    obtain rfl := List.mem_singleton.1 hp
    exact ⟨[], [], (List.append_nil _).symm, hplaced⟩
  | .table b rows, place, p, hplaced, hp => by
    rw [Placed] at hplaced
    have h := standsAt_of_mem_paragraphsOfRows rows hplaced.2 hp
    have hunits : Atom.unitsOf (atoms (.table b rows)) =
        [.mark .table] ++ Atom.unitsOfRows (atomsOfRows rows) ++ [.mark .tableEnd] := by
      simp [atoms, Atom.unitsOf, Atom.units]
    rw [hunits]
    exact h.within [.mark .table] _
  | .sectionBreak _, _, _, _, hp => by cases hp
  | .other _, _, _, _, hp => by cases hp

theorem standsAt_of_mem_paragraphsOf : ∀ (es : List Element) {place : Nat} {p : PlacedParagraph},
    PlacedOf place es → p ∈ paragraphsOf es →
      StandsAt place (Atom.unitsOf (atomsOf es)) (.paragraph p.bounds p.paragraph)
  | [], _, _, _, hp => by cases hp
  | e :: es, place, p, hplaced, hp => by
    rw [PlacedOf] at hplaced
    rw [atomsOf, Atom.unitsOf_append]
    rcases List.mem_append.1 hp with hfirst | hrest
    · exact (standsAt_of_mem_paragraphs e hplaced.1 hfirst).within [] _
    · have h := standsAt_of_mem_paragraphsOf es hplaced.2 hrest
      have hwithin := h.within _ []
      rwa [List.append_nil] at hwithin

theorem standsAt_of_mem_paragraphsOfRow : ∀ (cells : List (List Element)) {place : Nat}
    {p : PlacedParagraph}, PlacedRow place cells → p ∈ paragraphsOfRow cells →
      StandsAt place (Atom.unitsOfRow (atomsOfRow cells)) (.paragraph p.bounds p.paragraph)
  | [], _, _, _, hp => by cases hp
  | cell :: cells, place, p, hplaced, hp => by
    rw [PlacedRow] at hplaced
    rw [atomsOfRow, Atom.unitsOfRow]
    rcases List.mem_append.1 hp with hfirst | hrest
    · exact (standsAt_of_mem_paragraphsOf cell hplaced.1 hfirst).within [.mark .cell] _
    · have h := standsAt_of_mem_paragraphsOfRow cells hplaced.2 hrest
      rw [Nat.add_assoc, Nat.add_comm 1] at h
      have hwithin := h.within (.mark .cell :: Atom.unitsOf (atomsOf cell)) []
      rwa [List.append_nil] at hwithin

theorem standsAt_of_mem_paragraphsOfRows : ∀ (rows : List (List (List Element))) {place : Nat}
    {p : PlacedParagraph}, PlacedRows place rows → p ∈ paragraphsOfRows rows →
      StandsAt place (Atom.unitsOfRows (atomsOfRows rows)) (.paragraph p.bounds p.paragraph)
  | [], _, _, _, hp => by cases hp
  | row :: rows, place, p, hplaced, hp => by
    rw [PlacedRows] at hplaced
    rw [atomsOfRows, Atom.unitsOfRows]
    rcases List.mem_append.1 hp with hfirst | hrest
    · exact (standsAt_of_mem_paragraphsOfRow row hplaced.1 hfirst).within [.mark .row] _
    · have h := standsAt_of_mem_paragraphsOfRows rows hplaced.2 hrest
      rw [Nat.add_assoc, Nat.add_comm 1] at h
      have hwithin := h.within (.mark .row :: Atom.unitsOfRow (atomsOfRow row)) []
      rwa [List.append_nil] at hwithin

end

end Element

/-- Text may be put in at the position: it lies in a paragraph. -/
def Document.TakesText (d : Document) (index : Int) : Prop :=
  ∃ p ∈ d.paragraphs, p.bounds.start ≤ index ∧ index < p.bounds.stop

/-- Where text may be put in, the units go on with one that is no mark of a table. -/
theorem Document.Displays.exists_unit
    {d : Document} {place : Nat} {page : Page} {index : Int} (hd : d.Displays place page)
    (h : d.TakesText index) :
    ∃ before u behind, Atom.unitsOf page = before ++ u :: behind ∧ (∀ m, u ≠ .mark m) ∧
      index = (place + before.length : Nat) := by
  obtain ⟨p, hp, hstart, hstop⟩ := h
  obtain ⟨before, behind, hunits, hplaced⟩ :=
    Element.standsAt_of_mem_paragraphsOf d.body hd.placed hp
  rw [Element.Placed] at hplaced
  rw [hd.atoms, Element.atoms] at hunits
  rw [hplaced.1] at hstart hstop
  generalize htext : Atom.unitsOf (p.paragraph.pieces.flatMap Piece.atoms) = text at *
  have hstart' : ((place + before.length : Nat) : Int) ≤ index := hstart
  have hstop' : index < ((place + before.length + text.length : Nat) : Int) := hstop
  obtain ⟨offset, hoffset⟩ : ∃ offset : Nat, index = place + before.length + offset :=
    ⟨(index - place - before.length).toNat, by omega⟩
  have hlt : offset < text.length := by omega
  refine ⟨before ++ text.take offset, text[offset], text.drop (offset + 1) ++ behind, ?_, ?_, ?_⟩
  · rw [hunits]
    conv_lhs => rw [← List.take_append_drop offset text, List.drop_eq_getElem_cons hlt]
    simp only [List.append_assoc, List.cons_append]
  · intro m hm
    have hmem : text[offset] ∈ text := List.getElem_mem hlt
    rw [hm, ← htext] at hmem
    exact Piece.mark_not_mem_unitsOf _ m hmem
  · rw [List.length_append, List.length_take]
    omega

/-! ## First cells -/

theorem Element.start_of_placed {place : Nat} {e : Element} (h : Placed place e) :
    e.bounds.start = place := by
  cases e with
  | paragraph b p =>
    rw [Placed] at h
    rw [bounds, h.1]
    rfl
  | table b rows =>
    rw [Placed] at h
    rw [bounds, h.1]
    rfl
  | sectionBreak b =>
    rw [Placed] at h
    exact h.1
  | other b =>
    rw [Placed] at h
    exact h.1

/-- The marks before the first cell of a table. -/
def TableMark.opening : Body :=
  [.mark .table, .mark .row, .mark .cell]

open TableMark (opening)

namespace Table

theorem firstCellStart?_of_rows
    {t : Table} {place : Nat} (h : Element.Placed place (.table t.bounds t.rows)) {e : Element}
    {cell : Cell} {row : Row} {rows : List Row} (hrows : t.rows = ((e :: cell) :: row) :: rows) :
    t.firstCellStart? = some ((place + 3 : Nat) : Int) := by
  rw [Element.Placed, hrows, Element.PlacedRows, Element.PlacedRow, Element.PlacedOf] at h
  obtain ⟨-, ⟨⟨hfirst, -⟩, -⟩, -⟩ := h
  rw [firstCellStart?, hrows]
  exact congrArg some (Element.start_of_placed hfirst)

/-- A first cell with content starts behind its mark. -/
theorem exists_opening
    {t : Table} {place : Nat} (h : Element.Placed place (.table t.bounds t.rows)) {start : Int}
    (hstart : t.firstCellStart? = some start) :
    (∃ rest, Atom.units (.table (Element.atomsOfRows t.rows)) = opening ++ rest) ∧
      start = (place + 3 : Nat) := by
  have hrows : ∃ e cell row rows, t.rows = ((e :: cell) :: row) :: rows := by
    rw [firstCellStart?] at hstart
    generalize t.rows = rows at hstart ⊢
    rcases rows with _ | ⟨_ | ⟨_ | ⟨e, cell⟩, row⟩, rows⟩
    · cases hstart
    · cases hstart
    · cases hstart
    · exact ⟨e, cell, row, rows, rfl⟩
  obtain ⟨e, cell, row, rows, hrows⟩ := hrows
  refine ⟨?_, ?_⟩
  · rw [hrows]
    exact ⟨_, rfl⟩
  · exact Option.some.inj (hstart.symm.trans (firstCellStart?_of_rows h hrows))

/-- Where the units go on behind the mark of the first cell with no other mark, the cell has
content. -/
theorem firstCellStart?_of_opening
    {t : Table} {place : Nat} (h : Element.Placed place (.table t.bounds t.rows))
    {u : BodyUnit} (hu : ∀ m, u ≠ .mark m) {behind rest : Body}
    (hunits : Atom.units (.table (Element.atomsOfRows t.rows)) ++ behind = opening ++ u :: rest) :
    t.firstCellStart? = some ((place + 3 : Nat) : Int) := by
  have hend : Atom.GoesOn [.tableEnd] (.mark .tableEnd :: behind) :=
    .inr ⟨_, List.mem_singleton_self _, behind, rfl⟩
  simp only [Atom.units, opening, List.cons_append, List.append_assoc, List.nil_append,
    List.cons.injEq, true_and] at hunits
  -- With no row, no cell or no content, another mark comes next.
  rcases hrows : t.rows with _ | ⟨_ | ⟨_ | ⟨e, cell⟩, row⟩, rows⟩
  · rw [hrows] at hunits
    cases hunits
  · have hgoes := hend.rows (Element.atomsOfRows rows)
    simp only [hrows, Element.atomsOfRows, Element.atomsOfRow, Atom.unitsOfRows, Atom.unitsOfRow,
      List.nil_append, List.cons_append, List.cons.injEq, true_and] at hunits
    rw [hunits] at hgoes
    exact absurd hgoes (Atom.not_goesOn_cons (by simp))
  · have hgoes := (hend.rows (Element.atomsOfRows rows)).row (Element.atomsOfRow row)
    simp only [hrows, Element.atomsOfRows, Element.atomsOfRow, Element.atomsOf, Atom.unitsOfRows,
      Atom.unitsOfRow, Atom.unitsOf, List.nil_append, List.cons_append, List.append_assoc,
      List.cons.injEq, true_and] at hunits
    rw [hunits] at hgoes
    exact absurd hgoes (Atom.not_goesOn_cons fun m _ => hu m)
  · exact firstCellStart?_of_rows h hrows

end Table

namespace Document.Displays

variable {d : Document} {place : Nat} {page : Page} {before behind : Body} {u : BodyUnit}

theorem exists_opening
    (hd : d.Displays place page) {number : Nat} {t : Table} (ht : d.tables[number]? = some t)
    {start : Int} (hstart : t.firstCellStart? = some start) :
    ∃ before rest, before.count (.mark .table) = number ∧
      Atom.unitsOf page = before ++ (opening ++ rest) ∧
        start = (place + before.length + 3 : Nat) := by
  obtain ⟨before, behind, haround, hplaced⟩ := Element.exists_around_list _ hd.placed ht
  obtain ⟨⟨rest, hrest⟩, hplace⟩ := Table.exists_opening hplaced hstart
  refine ⟨before, rest ++ behind, haround.count, ?_, hplace⟩
  rw [← hd.atoms, haround.units_eq, hrest, List.append_assoc, List.append_assoc]

theorem exists_firstCell
    (hd : d.Displays place page) (h : Atom.unitsOf page = before ++ (opening ++ u :: behind))
    (hu : ∀ m, u ≠ .mark m) :
    ∃ t, d.tables[before.count (.mark .table)]? = some t ∧
      t.firstCellStart? = some ((place + before.length + 3 : Nat) : Int) := by
  obtain ⟨t, rest, ht, hunits, hplaced⟩ := hd.exists_table_of_mark h
  rw [h, List.append_assoc] at hunits
  have hfirst := (List.append_cancel_left hunits).symm
  exact ⟨t, ht, Table.firstCellStart?_of_opening hplaced hu hfirst⟩

/-- A first cell starts at a position of text exactly when the marks of one come before it. -/
theorem exists_firstCellStart_iff
    (hd : d.Displays place page) (h : Atom.unitsOf page = before ++ u :: behind)
    (hu : ∀ m, u ≠ .mark m) :
    (∃ t ∈ d.tables, t.firstCellStart? = some ((place + before.length : Nat) : Int)) ↔
      opening <:+ before := by
  constructor
  · rintro ⟨t, hmem, hstart⟩
    obtain ⟨number, ht⟩ := List.mem_iff_getElem?.1 hmem
    obtain ⟨front, rest, -, hunits, hplace⟩ := hd.exists_opening ht hstart
    rw [h, ← List.append_assoc] at hunits
    have hlength : before.length = (front ++ opening).length := by
      rw [List.length_append, show opening.length = 3 from rfl]
      omega
    exact ⟨front, (List.append_inj hunits hlength).1.symm⟩
  · rintro ⟨front, rfl⟩
    rw [List.append_assoc] at h
    obtain ⟨t, ht, hstart⟩ := hd.exists_firstCell h hu
    refine ⟨t, List.mem_of_getElem? ht, ?_⟩
    rwa [List.length_append, ← Nat.add_assoc]

/-- The first cell of a table that starts before a position of text does not start behind it. -/
theorem firstCellStart_le
    (hd : d.Displays place page) (h : Atom.unitsOf page = before ++ u :: behind)
    (hu : ∀ m, u ≠ .mark m) {number : Nat} (hnumber : number < before.count (.mark .table))
    {t : Table} (ht : d.tables[number]? = some t) {start : Int}
    (hstart : t.firstCellStart? = some start) :
    start ≤ (place + before.length : Nat) := by
  obtain ⟨front, rest, hcount, hunits, rfl⟩ := hd.exists_opening ht hstart
  have hfront : front <+: before := by
    have hleft : front <+: Atom.unitsOf page := ⟨_, hunits.symm⟩
    have hright : before <+: Atom.unitsOf page := ⟨_, h.symm⟩
    rcases List.prefix_or_prefix_of_prefix hleft hright with hprefix | hprefix
    · exact hprefix
    · have hle := hprefix.sublist.count_le (.mark .table)
      omega
  obtain ⟨more, rfl⟩ := hfront
  rw [h, List.append_assoc] at hunits
  -- The marks follow one another, so the text comes behind all of them.
  have hopening : opening <+: more := by
    refine isPrefix_of_append_eq (List.append_cancel_left hunits).symm ?_
    simp [opening, hu]
  have hthree : 3 ≤ more.length := hopening.length_le
  rw [List.length_append]
  omega

end Document.Displays

/-! ## The table that is found -/

namespace Table

/-- The first cell of the table starts in the window behind a position. -/
def InWindow (index : Int) (t : Table) : Prop :=
  ∃ start, t.firstCellStart? = some start ∧ index ≤ start ∧ start ≤ index + searchWindow

/-- The first table in the window is found. -/
theorem created?_eq_some_iff {d : Document} {index : Int} {t : Table} :
    created? d index = some t ↔ InWindow index t ∧
      ∃ number : Nat, d.tables[number]? = some t ∧
        ∀ earlier < number, ∀ t', d.tables[earlier]? = some t' → ¬ InWindow index t' := by
  have hwindow : ∀ t : Table, (t.firstCellStart?.any fun start =>
      decide (index ≤ start) && decide (start ≤ index + searchWindow)) = true ↔
        InWindow index t := by
    intro t
    rw [InWindow]
    cases t.firstCellStart? with
    | none => simp
    | some start => simp
  rw [created?, List.find?_eq_some_iff_getElem]
  refine and_congr (hwindow t) (exists_congr fun number => ?_)
  constructor
  · rintro ⟨hlt, hat, hearlier⟩
    refine ⟨List.getElem?_eq_some_iff.2 ⟨hlt, hat⟩, fun earlier hless t' ht' hin => ?_⟩
    obtain ⟨hlt', rfl⟩ := List.getElem?_eq_some_iff.1 ht'
    have hout := hearlier earlier hless
    rw [(hwindow _).2 hin] at hout
    cases hout
  · rintro ⟨ht, hearlier⟩
    obtain ⟨hlt, hat⟩ := List.getElem?_eq_some_iff.1 ht
    refine ⟨hlt, hat, fun earlier hless => ?_⟩
    rw [Bool.not_eq_true', ← Bool.not_eq_true, hwindow]
    exact hearlier earlier hless _ (List.getElem?_eq_getElem _)

end Table

/-- A new table four units behind a position of text is found from there unless a first cell starts
at the position. -/
theorem Document.Displays.created?_eq_some_iff
    {d : Document} {place : Nat} {page : Page} {before behind : Body} {u : BodyUnit}
    (hd : d.Displays place page) (h : Atom.unitsOf page = before ++ u :: behind)
    (hu : ∀ m, u ≠ .mark m) {t : Table} (ht : d.tables[before.count (.mark .table)]? = some t)
    (hstart : t.firstCellStart? = some ((place + before.length + 4 : Nat) : Int)) :
    Table.created? d ((place + before.length : Nat) : Int) = some t ↔ ¬ opening <:+ before := by
  rw [Table.created?_eq_some_iff]
  constructor
  · rintro ⟨-, number, hnumber, hearlier⟩ ⟨front, rfl⟩
    have hfront : front.count (.mark .table) < (front ++ opening).count (.mark .table) := by
      rw [List.count_append]
      exact Nat.lt_add_of_pos_right (by decide)
    -- The table with the marks before the position is in the window.
    obtain ⟨outer, houter, houterStart⟩ := hd.exists_firstCell (List.append_assoc .. ▸ h) hu
    have hlength : (front ++ opening).length = front.length + 3 := List.length_append
    have hin : Table.InWindow ((place + (front ++ opening).length : Nat) : Int) outer := by
      refine ⟨_, houterStart, ?_, ?_⟩
      · omega
      · simp only [Table.searchWindow]
        omega
    by_cases hless : front.count (.mark .table) < number
    · exact hearlier _ hless outer houter hin
    · have hle := hd.firstCellStart_le h hu (by omega) hnumber hstart
      omega
  · intro hopening
    refine ⟨⟨_, hstart, ?_, ?_⟩, _, ht, ?_⟩
    · omega
    · simp only [Table.searchWindow]
      omega
    · rintro earlier hlt t' ht' ⟨start, hstart', hle, -⟩
      have hge := hd.firstCellStart_le h hu hlt ht' hstart'
      obtain rfl : start = (place + before.length : Nat) := Int.le_antisymm hge hle
      exact hopening ((hd.exists_firstCellStart_iff h hu).1 ⟨t', List.mem_of_getElem? ht', hstart'⟩)

/-! ## Creating a table -/

/-- A table whose cells have an empty paragraph each. -/
def Grid.blank (rows columns : Nat) : Grid :=
  List.replicate rows (List.replicate columns [.char '\n'])

/-- Create a table at a position: a newline comes there, and the table behind it. -/
def Body.createTable? (body : Body) (index : Int) (rows columns : Nat) : Option Body :=
  body.insert? index (ofText ['\n'] ++ Atom.units (.table (Grid.blank rows columns)))

theorem Body.createTable?_append (before behind : Body) (rows columns : Nat) :
    createTable? (before ++ behind) before.length rows columns =
      some (before ++ ofText ['\n'] ++ Atom.units (.table (Grid.blank rows columns)) ++ behind) := by
  rw [createTable?, insert?, if_pos (by rw [List.length_append]; omega), Int.toNat_natCast,
    List.take_left, List.drop_left, ← List.append_assoc before]

theorem Body.exists_newline : ∃ u, ofText ['\n'] = [u] ∧ ∀ m, u ≠ .mark m :=
  ⟨_, rfl, fun m h => by cases h⟩

theorem Grid.exists_units_blank {rows columns : Nat} (hrows : 0 < rows) (hcolumns : 0 < columns) :
    ∃ rest, Atom.units (.table (blank rows columns)) = opening ++ (Body.ofText ['\n'] ++ rest) := by
  obtain ⟨rows, rfl⟩ := Nat.exists_eq_add_one.2 hrows
  obtain ⟨columns, rfl⟩ := Nat.exists_eq_add_one.2 hcolumns
  rw [blank, List.replicate_succ, List.replicate_succ]
  exact ⟨_, rfl⟩

/-- A table that is created at a position of text is found from there exactly when no table had its
first cell start at that position. -/
theorem Table.created?_eq_new_iff
    {d d' : Document} {place : Nat} {page page' : Page} {index : Int} {rows columns : Nat}
    (hd : d.Displays place page) (hd' : d'.Displays place page') (hindex : d.TakesText index)
    (hrows : 0 < rows) (hcolumns : 0 < columns)
    (hcreate : (Atom.unitsOf page).createTable? (index - place) rows columns =
      some (Atom.unitsOf page')) :
    ∃ new ∈ d'.tables, new.bounds.start = index + 1 ∧
      Element.atomsOfRows new.rows = .blank rows columns ∧
        new.firstCellStart? = some (index + 4) ∧
          (created? d' index = some new ↔ ∀ t ∈ d.tables, t.firstCellStart? ≠ some index) := by
  obtain ⟨before, u, behind, hunits, hu, rfl⟩ := hd.exists_unit hindex
  obtain ⟨newline, hnewline, hmark⟩ := Body.exists_newline
  obtain ⟨rest, hblank⟩ := Grid.exists_units_blank hrows hcolumns
  have hoffset : ((place + before.length : Nat) : Int) - place = before.length := by omega
  rw [hunits, hoffset, Body.createTable?_append] at hcreate
  have hunits' := (Option.some.inj hcreate).symm
  rw [hnewline] at hunits' hblank
  obtain ⟨new, hnew, hgrid, hplaced⟩ := hd'.exists_table_of_units hunits'
  have hcount : (before ++ [newline]).count (.mark .table) = before.count (.mark .table) := by
    rw [List.count_append, List.count_singleton, if_neg (by simpa using hmark .table), Nat.add_zero]
  rw [hcount] at hnew
  rw [List.length_append, List.length_singleton] at hplaced
  have hopening : Atom.units (.table (Element.atomsOfRows new.rows)) ++ [] =
      opening ++ newline :: rest := by
    rw [hgrid, hblank, List.append_nil, List.singleton_append]
  have hstart : new.firstCellStart? = some ((place + before.length + 4 : Nat) : Int) :=
    firstCellStart?_of_opening hplaced hmark hopening
  have hfound : created? d' ((place + before.length : Nat) : Int) = some new ↔ ¬ opening <:+ before :=
    hd'.created?_eq_some_iff (by simpa using hunits') hmark hnew hstart
  refine ⟨new, List.mem_of_getElem? hnew, Element.start_of_placed hplaced, hgrid, hstart, ?_⟩
  rw [hfound, ← hd.exists_firstCellStart_iff hunits hu]
  simp only [not_exists, not_and]

/-- A page with a table of one cell between two empty paragraphs. -/
def Page.framing (cell : Page) : Page :=
  [.char '\n', .table [[cell]], .char '\n']

theorem takesText_framing :
    (Document.ofPage 1 (.framing [.char 'x', .char '\n'])).TakesText 5 ∧
      (Document.ofPage 1 (.framing [.char 'x', .char '\n'])).TakesText 6 := by
  have hp : (⟨.cover 5 2, { pieces := [⟨.cover 5 2, .run "x\n".toList⟩] }⟩ : PlacedParagraph) ∈
      (Document.ofPage 1 (.framing [.char 'x', .char '\n'])).paragraphs :=
    List.mem_cons_of_mem _ List.mem_cons_self
  exact ⟨⟨_, hp, by decide, by decide⟩, ⟨_, hp, by decide, by decide⟩⟩

/-- Within the text of a cell, the table that is created is found. -/
theorem Table.created?_within_cell :
    (Document.ofPage 1 (.framing [.char 'x', .char '\n'])).TakesText 6 ∧
      (Atom.unitsOf (Page.framing [.char 'x', .char '\n'])).createTable? (6 - (1 : Nat)) 1 1 =
          some (Atom.unitsOf
            (Page.framing [.char 'x', .char '\n', .table (Grid.blank 1 1), .char '\n'])) ∧
        ∃ new, new.bounds.start = 7 ∧
          created? (.ofPage 1
              (.framing [.char 'x', .char '\n', .table (Grid.blank 1 1), .char '\n'])) 6 =
            some new := by
  have hcreate : (Atom.unitsOf (Page.framing [.char 'x', .char '\n'])).createTable?
      (6 - (1 : Nat)) 1 1 = some (Atom.unitsOf
        (Page.framing [.char 'x', .char '\n', .table (Grid.blank 1 1), .char '\n'])) := rfl
  refine ⟨takesText_framing.2, hcreate, ?_⟩
  obtain ⟨new, -, hstart, -, -, hfound⟩ := created?_eq_new_iff (Document.displays_ofPage 1 _)
    (Document.displays_ofPage 1 _) takesText_framing.2 Nat.one_pos Nat.one_pos hcreate
  refine ⟨new, hstart, hfound.2 fun t ht => ?_⟩
  obtain rfl := List.mem_singleton.1 ht
  decide

/-- At the start of the cell, the outer table is taken for the one that is created. -/
theorem Table.created?_at_cellStart :
    (Document.ofPage 1 (.framing [.char 'x', .char '\n'])).TakesText 5 ∧
      (Atom.unitsOf (Page.framing [.char 'x', .char '\n'])).createTable? (5 - (1 : Nat)) 1 1 =
          some (Atom.unitsOf
            (Page.framing [.char '\n', .table (Grid.blank 1 1), .char 'x', .char '\n'])) ∧
        (created? (.ofPage 1
            (.framing [.char '\n', .table (Grid.blank 1 1), .char 'x', .char '\n'])) 5).map
          (·.bounds.start) = some 2 :=
  ⟨takesText_framing.1, rfl, rfl⟩

end Redline
