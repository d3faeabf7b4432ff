import Redline.Proofs.Batches
import Redline.Proofs.Falling
import Redline.Proofs.Refusal

/-!
# The cells that requests name

Some requests name cells of a table by row and column: those that insert or delete a line, and those
that merge or split cells.  This module compares the cells that an expression on cells sends with
the size of the table that it is about.  A line is looked up before it is named, and so is a cell
that is written to, so that a miss is refused and nothing is sent.  The cells of a merge or a split
are sent as they are written, wherever they lie.
-/

namespace Redline

namespace CellBlock

/-- The block has cells, and all of them lie in a table of so many rows and columns. -/
def Within (b : CellBlock) (rows columns : Nat) : Prop :=
  (0 ≤ b.row ∧ 1 ≤ b.rowSpan ∧ b.row + b.rowSpan ≤ rows) ∧
    0 ≤ b.column ∧ 1 ≤ b.columnSpan ∧ b.column + b.columnSpan ≤ columns

instance (b : CellBlock) (rows columns : Nat) : Decidable (b.Within rows columns) :=
  inferInstanceAs (Decidable (_ ∧ _))

/-- The cell at the start of a block in a request in JSON, with the number of rows and columns. -/
def ofLocation? (cell : Json) (rowSpan columnSpan : Int) : Option CellBlock := do
  let table ← ((← cell.get? "tableStartLocation").get? "index").bind Json.asInt?
  let row ← (cell.get? "rowIndex").bind Json.asInt?
  let column ← (cell.get? "columnIndex").bind Json.asInt?
  return { table, row, column, rowSpan, columnSpan }

/-- The cells that a request in JSON names: one cell by its location, or a range of them. -/
def ofJson? (request : Json) : Option CellBlock := do
  let (_, body) ← request.members.head?
  match body.get? "tableRange" with
  | some range =>
    let rowSpan ← (range.get? "rowSpan").bind Json.asInt?
    let columnSpan ← (range.get? "columnSpan").bind Json.asInt?
    ofLocation? (← range.get? "tableCellLocation") rowSpan columnSpan
  | none => ofLocation? (← body.get? "tableCellLocation") 1 1

end CellBlock

/-- The cells that a request names. -/
def Request.block? : Request → Option CellBlock
  | .insertRow table row _ | .deleteRow table row => some ⟨table, row, 0, 1, 1⟩
  | .insertColumn table column _ | .deleteColumn table column => some ⟨table, 0, column, 1, 1⟩
  | .mergeCells block | .unmergeCells block => some block
  | _ => none

/-- The cells that are read off a request as it is sent are those that it names. -/
theorem CellBlock.ofJson?_toJson (r : Request) : ofJson? r.toJson = r.block? := by
  simp only [ofJson?, Request.toJson, Json.members_ofFields_cons, List.head?_cons,
    Option.bind_eq_bind, Option.bind_some]
  cases r with
  | insertImage index url width height =>
    obtain ⟨size, hbody⟩ := Request.exists_body_insertImage index url width height
    rw [hbody]
    cases size <;> rfl
  | _ =>
    simp only [Request.body, Request.block?, Request.location, Request.cell, Request.cellBlock,
      ofLocation?, Json.asInt?, Json.get?_ofFields_cons, Json.get?_ofFields_nil, String.reduceEq,
      reduceIte, Option.bind_eq_bind, Option.bind_some, Option.bind_none, Option.pure_def]

/-! ## The cells that an expression is about -/

namespace Table

variable {t : Table} {rows columns : Nat}

/-- The table has so many rows, each with so many cells, and there is one at least. -/
structure IsGrid (t : Table) (rows columns : Nat) : Prop where
  height : t.rows.length = rows
  width : ∀ row ∈ t.rows, row.length = columns
  row : 1 ≤ rows
  column : 1 ≤ columns

/-- The cell that stands for a line, counted from zero. -/
def lineBlock (t : Table) : Axis → Int → CellBlock
  | .row, i => ⟨t.bounds.start, i, 0, 1, 1⟩
  | .column, i => ⟨t.bounds.start, 0, i, 1, 1⟩

/-- The line that a change is about, counted from zero. Lines are appended behind the last one. -/
def lineOf (t : Table) (axis : Axis) : LineChange → Int
  | .delete target | .insert target =>
    (if target < 0 then t.lineCount axis + target + 1 else target) - 1
  | .append _ => t.lineCount axis - 1

theorem IsGrid.lineCount_row (h : t.IsGrid rows columns) : t.lineCount .row = rows :=
  h.height

theorem IsGrid.lineCount_column (h : t.IsGrid rows columns) : t.lineCount .column = columns := by
  have hrow := h.row
  rw [← h.height] at hrow
  obtain ⟨row, rest, hrows⟩ := List.exists_cons_of_length_pos hrow
  have hwidth := h.width row (by rw [hrows]; exact List.mem_cons_self)
  rw [lineCount, columnCount, hrows]
  exact hwidth

/-- A line is named by a cell of the table exactly when the table has the line. -/
theorem IsGrid.within_lineBlock_iff (h : t.IsGrid rows columns) (axis : Axis) (i : Int) :
    (t.lineBlock axis i).Within rows columns ↔ 0 ≤ i ∧ i < t.lineCount axis := by
  have hrow := h.row
  have hcolumn := h.column
  cases axis with
  | row =>
    rw [h.lineCount_row]
    simp only [CellBlock.Within, lineBlock]
    omega
  | column =>
    rw [h.lineCount_column]
    simp only [CellBlock.Within, lineBlock]
    omega

theorem IsGrid.lineCount_pos (h : t.IsGrid rows columns) (axis : Axis) :
    1 ≤ t.lineCount axis := by
  cases axis with
  | row => rw [h.lineCount_row]; exact h.row
  | column => rw [h.lineCount_column]; exact h.column

/-- A line is found when it is one of the table. -/
theorem of_resolveLine
    {axis : Axis} {target line : Int} {count : Nat} {forInsert : Bool}
    (h : resolveLine axis target count forInsert = .ok line) :
    line = (if target < 0 then count + target + 1 else target) ∧ 1 ≤ line ∧ line ≤ count := by
  unfold resolveLine at h
  generalize (if target < 0 then (count : Int) + target + 1 else target) = found at h ⊢
  by_cases hrange : 1 ≤ found ∧ found ≤ count
  · simp only [if_pos hrange] at h
    cases h
    exact ⟨rfl, hrange⟩
  · simp only [if_neg hrange] at h
    cases h

/-- A change names its line, which is one of the table when the table has any. -/
theorem of_change
    {axis : Axis} {change : LineChange} {sent : Request × Text}
    (hsent : t.change axis change = .ok sent) :
    sent.1.block? = some (t.lineBlock axis (t.lineOf axis change)) ∧
      (1 ≤ t.lineCount axis →
        0 ≤ t.lineOf axis change ∧ t.lineOf axis change < t.lineCount axis) := by
  cases change with
  | delete target =>
    obtain ⟨line, hline, hsent⟩ := exists_of_bind_eq_ok hsent
    obtain ⟨hplace, hrange⟩ := of_resolveLine hline
    have hline : t.lineOf axis (.delete target) = line - 1 := by
      rw [hplace]
      rfl
    rw [hline]
    by_cases honly : t.lineCount axis ≤ 1
    · simp only [if_pos honly] at hsent
      cases hsent
    · simp only [if_neg honly] at hsent
      cases hsent
      refine ⟨?_, by omega⟩
      cases axis <;> rfl
  | insert target =>
    obtain ⟨line, hline, hsent⟩ := exists_of_bind_eq_ok hsent
    obtain ⟨hplace, hrange⟩ := of_resolveLine hline
    have hline : t.lineOf axis (.insert target) = line - 1 := by
      rw [hplace]
      rfl
    rw [hline]
    cases hsent
    refine ⟨?_, by omega⟩
    cases axis <;> rfl
  | append target =>
    cases hsent
    refine ⟨?_, by simp only [lineOf]; omega⟩
    cases axis <;> rfl

theorem IsGrid.block?_of_change
    (h : t.IsGrid rows columns) {axis : Axis} {change : LineChange} {sent : Request × Text}
    (hsent : t.change axis change = .ok sent) :
    sent.1.block? = some (t.lineBlock axis (t.lineOf axis change)) ∧
      (t.lineBlock axis (t.lineOf axis change)).Within rows columns := by
  obtain ⟨hblock, hline⟩ := of_change hsent
  exact ⟨hblock, (h.within_lineBlock_iff axis _).2 (hline (h.lineCount_pos axis))⟩

/-- A merge or a split names cells. -/
theorem exists_block?_of_merge
    {ref : CellRef} {operation : Text} {sent : Request × Text}
    (h : t.merge ref operation = .ok sent) : ∃ b, sent.1.block? = some b := by
  simp only [merge] at h
  split at h
  · split at h
    · cases h
    · cases h
      exact ⟨_, rfl⟩
  · split at h
    · cases h
      exact ⟨_, rfl⟩
    · cases h

theorem of_nth?
    {α : Type} {xs : List α} {i : Int} {x : α} (h : nth? xs i = some x) :
    1 ≤ i ∧ i ≤ xs.length ∧ x ∈ xs := by
  rw [nth?] at h
  split at h
  · next hi =>
    obtain ⟨hlt, -⟩ := List.getElem?_eq_some_iff.1 h
    exact ⟨hi, by omega, List.mem_of_getElem? h⟩
  · cases h

/-- A cell that is found lies in the table. -/
theorem IsGrid.within_of_cell
    (h : t.IsGrid rows columns) {place : Place} {cell : Cell} (hcell : t.cell place = .ok cell) :
    CellBlock.Within ⟨t.bounds.start, place.row - 1, place.column - 1, 1, 1⟩ rows columns := by
  obtain ⟨row, hfound, hfound'⟩ := exists_row_of_cell hcell
  obtain ⟨hrow, hrow', hmem⟩ := of_nth? hfound
  obtain ⟨hcolumn, hcolumn', -⟩ := of_nth? hfound'
  have hheight := h.height
  have hwidth := h.width row hmem
  simp only [CellBlock.Within]
  omega

end Table

/-- The cells that an expression is about, when it names them one by one or as a rectangle: those to
merge or to split, the line of a change, or the cell to write to. -/
def CellRef.block? (ref : CellRef) (t : Table) (replacement : Text) : Option CellBlock :=
  let cell : CellBlock := ⟨t.bounds.start, ref.row - 1, ref.column - 1, 1, 1⟩
  if Expression.isMergeWord replacement then
    if Expression.operationWord replacement == "merge".toList then
      ref.rectangle?.map fun last =>
        { cell with
          rowSpan := last.row - ref.row + 1
          columnSpan := last.column - ref.column + 1 }
    else some cell
  else match ref.change with
    | some (axis, change) => some (t.lineBlock axis (t.lineOf axis change))
    | none => if ref.isSingle then some cell else none

/-- Cells that can be merged or split are named as they are written. -/
theorem Table.merge_cases
    (t : Table) (ref : CellRef) {replacement : Text}
    (hword : Expression.isMergeWord replacement = true) :
    (ref.block? t replacement = none ∧
        t.merge ref (Expression.operationWord replacement) = .error .mergeWithoutRange) ∨
      ∃ b sent, ref.block? t replacement = some b ∧
        t.merge ref (Expression.operationWord replacement) = .ok sent ∧ sent.1.block? = some b := by
  rw [CellRef.block?, if_pos hword, Table.merge]
  by_cases hmerge : (Expression.operationWord replacement == "merge".toList) = true
  · rw [if_pos hmerge, if_pos hmerge]
    cases ref.rectangle? with
    | none => exact .inl ⟨rfl, rfl⟩
    | some last => exact .inr ⟨_, _, rfl, rfl, rfl⟩
  · have hsplit : (Expression.operationWord replacement == "unmerge".toList ||
        Expression.operationWord replacement == "split".toList) = true := by
      simp only [Expression.isMergeWord, Expression.mergeWords, List.any_cons, List.any_nil,
        Bool.or_false, Bool.or_eq_true, beq_iff_eq] at hword hmerge ⊢
      rcases hword with hword | hword | hword
      · exact absurd hword.symm hmerge
      · exact .inl hword.symm
      · exact .inr hword.symm
    rw [if_neg hmerge, if_neg hmerge, if_pos hsplit]
    exact .inr ⟨_, _, rfl, rfl, rfl⟩

/-! ## The cells of sent requests -/

namespace Event

/-- The event names no cells but those of the block, as it is sent. -/
def Names (block? : Option CellBlock) : Event → Prop
  | .update requests => ∀ r ∈ requests, ∀ b, CellBlock.ofJson? r.toJson = some b → block? = some b
  | _ => True

/-- All cells that the event names lie in a table of so many rows and columns. -/
def Within (rows columns : Nat) : Event → Prop
  | .update requests =>
    ∀ r ∈ requests, ∀ b, CellBlock.ofJson? r.toJson = some b → b.Within rows columns
  | _ => True

theorem names_of_not_update {event : Event} (h : event.isUpdate = false)
    (block? : Option CellBlock) : event.Names block? := by
  cases event with
  | update requests => cases h
  | fetch | pause => trivial

theorem Names.of_none {event : Event} (h : event.Names none) (block? : Option CellBlock) :
    event.Names block? := by
  cases event with
  | update requests =>
    intro r hr b hb
    cases h r hr b hb
  | fetch | pause => trivial

theorem Names.within
    {event : Event} {block? : Option CellBlock} {rows columns : Nat} (h : event.Names block?)
    (hblock : ∀ b, block? = some b → b.Within rows columns) : event.Within rows columns := by
  cases event with
  | update requests => exact fun r hr b hb => hblock b (h r hr b hb)
  | fetch | pause => trivial

end Event

/-- Writing over text takes the old text out if there is any, puts the new one in and styles it. -/
theorem CellText.cases_of_mem_overwrite
    {start stop : Int} {text : Text} {formats : List Format} {r : Request}
    (hr : r ∈ overwrite start stop text formats) :
    (start < stop ∧ r = .delete start stop) ∨ r = .insert start text ∨ r.StylesText := by
  rcases List.mem_append.1 hr with hr | hr
  · split at hr
    · next hlt => exact .inl ⟨hlt, List.mem_singleton.1 hr⟩
    · cases hr
  · unfold write at hr
    split at hr
    · cases hr
    · rcases List.mem_cons.1 hr with rfl | hr
      · exact .inr (.inl rfl)
      · exact .inr (.inr (Request.stylesText_of_mem_ofStyle hr))

theorem CellText.block?_of_mem_overwrite
    {start stop : Int} {text : Text} {formats : List Format} {r : Request}
    (hr : r ∈ overwrite start stop text formats) : r.block? = none := by
  rcases cases_of_mem_overwrite hr with ⟨-, rfl⟩ | rfl | ⟨span, settings, mask, rfl⟩
  · rfl
  · rfl
  · rfl

namespace Session

open Run (Logs OnlyReads)
open World (Adds)

variable {σ : Type} {s : Session σ} {w w₁ : World σ} {d : Document} {t : Table} {ref : CellRef}
  {e : Expression} {rows columns : Nat}

theorem adds_of_fetch (hfetch : Run.fetch.execute s w = (.ok d, w₁)) :
    Adds (fun event => event.isUpdate = false) w w₁ := by
  have hread : Adds _ w (Run.fetch.execute s w).2 := (OnlyReads.fetch w).1
  rwa [hfetch] at hread

theorem names_update
    {named : Option CellBlock} {requests : List Request}
    (h : ∀ r ∈ requests, ∀ b, r.block? = some b → named = some b) :
    Logs s (Event.Names named) (Run.update requests) fun _ => True := by
  refine Logs.update (fun _ => ?_) fun _ => trivial
  intro r hr b hb
  rw [CellBlock.ofJson?_toJson] at hb
  exact h r hr b hb

/-- The edits of cells only write over text. -/
theorem block?_of_mem_order
    {groups : List (EditGroup Request)} {r : Request}
    (h : ∀ g ∈ groups, ∃ start stop text formats,
      g = ⟨start, CellText.overwrite start stop text formats⟩)
    (hr : r ∈ EditGroup.order groups) : r.block? = none := by
  obtain ⟨g, hg, hr⟩ := List.mem_flatMap.1 hr
  obtain ⟨start, stop, text, formats, rfl⟩ := h g (EditGroup.mem_sort.1 hg)
  exact CellText.block?_of_mem_overwrite hr

theorem names_editsOf [CharNames] (e : Expression) (cells : List Cell) :
    Logs s (Event.Names none) (editsOf e cells) fun groups =>
      ∀ g ∈ groups, ∃ start stop text formats,
        g = ⟨start, CellText.overwrite start stop text formats⟩ := by
  have hreads := (onlyReads_editsOf (s := s) e cells).mono fun event h =>
    Event.names_of_not_update h none
  refine hreads.of_execute fun w groups w' hrun => ?_
  exact (@sends_editsOf _ σ s (fun _ => True) e cells w).2 groups (congrArg Prod.fst hrun)

/-- What is checked first is refused, or it is sent. -/
theorem execute_ofTable_send
    (checked : Except TableError (Request × Text)) (report : Text → Outcome) (w : World σ) :
    (∃ cause, checked = .error cause ∧ (do
        let sent ← Run.ofTable checked
        discard <| Run.update [sent.1]
        return report sent.2 : Run σ Outcome).execute s w = (.error (.table cause), w)) ∨
      ∃ sent, checked = .ok sent ∧ ((do
        let sent ← Run.ofTable checked
        discard <| Run.update [sent.1]
        return report sent.2 : Run σ Outcome).execute s w).2 =
          ((Run.update [sent.1]).execute s w).2 := by
  cases checked with
  | error cause => exact .inl ⟨cause, rfl, rfl⟩
  | ok sent =>
    refine .inr ⟨sent, rfl, ?_⟩
    rw [Run.execute_bind_of_ok (Run.execute_ofTable rfl s w), Run.world_discard_pure]

/-- A merge or a split is refused when it names no cells, and else it is sent with the cells that it
names. -/
theorem mergeCells_cases
    (hfetch : Run.fetch.execute s w = (.ok d, w₁)) (htable : tableFor ref.table d.tables = .ok t)
    {replacement : Text} (hword : Expression.isMergeWord replacement = true) :
    (∃ cause, ref.block? t replacement = none ∧
        (mergeCells ref replacement).execute s w = (.error (.table cause), w₁)) ∨
      ∃ b r, ref.block? t replacement = some b ∧ r.block? = some b ∧
        ((mergeCells ref replacement).execute s w).2 = ((Run.update [r]).execute s w₁).2 := by
  rw [mergeCells, Run.execute_bind_of_ok hfetch,
    Run.execute_bind_of_ok (Run.execute_ofTable htable _ _)]
  have hsend := execute_ofTable_send (s := s) (t.merge ref (Expression.operationWord replacement))
    (fun description => [("action", .text description)]) w₁
  rcases t.merge_cases ref hword with ⟨hblock, herror⟩ | ⟨b, sent, hblock, hok, hsent⟩
  · rcases hsend with ⟨cause, -, hrun⟩ | ⟨sent, hok, -⟩
    · exact .inl ⟨cause, hblock, hrun⟩
    · rw [herror] at hok
      cases hok
  · rcases hsend with ⟨cause, herror, -⟩ | ⟨sent', hok', hrun⟩
    · rw [hok] at herror
      cases herror
    · rw [hok] at hok'
      cases hok'
      exact .inr ⟨b, sent.1, hblock, hsent, hrun⟩

/-- A change of lines is refused, or it is sent with a line of the table. -/
theorem changeLines_cases
    (hfetch : Run.fetch.execute s w = (.ok d, w₁)) (htable : tableFor ref.table d.tables = .ok t)
    (hgrid : t.IsGrid rows columns) {axis : Axis} {change : LineChange}
    (hchange : ref.change = some (axis, change)) :
    (∃ cause, (changeLines ref).execute s w = (.error (.table cause), w₁)) ∨
      ∃ r, r.block? = some (t.lineBlock axis (t.lineOf axis change)) ∧
        (t.lineBlock axis (t.lineOf axis change)).Within rows columns ∧
        ((changeLines ref).execute s w).2 = ((Run.update [r]).execute s w₁).2 := by
  rw [changeLines, Run.execute_bind_of_ok hfetch,
    Run.execute_bind_of_ok (Run.execute_ofTable htable _ _), hchange]
  rcases execute_ofTable_send (s := s) (t.change axis change)
    (fun description => [("op", .text description)]) w₁ with ⟨cause, -, hrun⟩ | ⟨sent, hok, hrun⟩
  · exact .inl ⟨cause, hrun⟩
  · obtain ⟨hblock, hwithin⟩ := hgrid.block?_of_change hok
    exact .inr ⟨sent.1, hblock, hwithin, hrun⟩

/-- A replacement is refused, or the cell that it names is there.  What is sent names no cells. -/
theorem replaceCells_cases [CharNames]
    (hfetch : Run.fetch.execute s w = (.ok d, w₁)) (htable : tableFor ref.table d.tables = .ok t)
    (hgrid : t.IsGrid rows columns) (hchange : ref.change = none) (e : Expression) :
    (∃ cause, (replaceCells ref e).execute s w = (.error (.table cause), w₁)) ∨
      (ref.isSingle = true →
        CellBlock.Within ⟨t.bounds.start, ref.row - 1, ref.column - 1, 1, 1⟩ rows columns) ∧
        Adds (Event.Names none) w₁ ((replaceCells ref e).execute s w).2 := by
  have hlines : ¬ ref.isChange = true := by
    rw [CellRef.isChange, hchange]
    exact Bool.false_ne_true
  rw [replaceCells, if_neg hlines, Run.execute_bind_of_ok hfetch,
    Run.execute_bind_of_ok (Run.execute_ofTable htable _ _)]
  cases hcells : cellsOf t ref with
  | error cause => exact .inl ⟨cause, rfl⟩
  | ok cells =>
    refine .inr ⟨?_, ?_⟩
    · intro hsingle
      rw [cellsOf, if_pos hsingle] at hcells
      obtain ⟨cell, hcell, -⟩ := exists_of_bind_eq_ok hcells
      exact hgrid.within_of_cell hcell
    · rw [Run.execute_bind_of_ok (Run.execute_ofTable rfl _ _)]
      refine Logs.adds ((names_editsOf e cells).bind fun groups hgroups => ?_) w₁
      have hnames : ∀ r ∈ EditGroup.order groups, ∀ b, r.block? = some b → none = some b := by
        intro r hr b hb
        rw [block?_of_mem_order hgroups hr] at hb
        exact hb
      simp only []
      split
      · exact Logs.pure trivial
      · exact (names_update hnames).discard.bind fun _ _ => Logs.pure trivial

/-- Where a run on cells leads: it is refused and nothing is sent, or it names what the expression
is about.  Only a merge or a split may name cells that the table does not have. -/
theorem runCells_cases [CharNames]
    (hfetch : Run.fetch.execute s w = (.ok d, w₁)) (htable : tableFor ref.table d.tables = .ok t)
    (hgrid : t.IsGrid rows columns) (e : Expression) :
    (∃ cause, (runCells ref e).execute s w = (.error (.table cause), w₁) ∧
        (Expression.isMergeWord e.replacement = true → ref.block? t e.replacement = none)) ∨
      Adds (Event.Names (ref.block? t e.replacement)) w₁ ((runCells ref e).execute s w).2 ∧
        (∀ b, ref.block? t e.replacement = some b → b.Within rows columns ∨
          Expression.isMergeWord e.replacement = true ∧ ∃ r, r.block? = some b ∧
            ((runCells ref e).execute s w).2 = ((Run.update [r]).execute s w₁).2) := by
  have hnames : ∀ {b : CellBlock} {r : Request}, r.block? = some b →
      Adds (Event.Names (some b)) w₁ ((Run.update [r]).execute s w₁).2 := by
    intro b r hr
    refine (names_update fun r' hr' b' hb' => ?_).adds w₁
    rw [List.mem_singleton.1 hr', hr] at hb'
    exact hb'
  by_cases hword : Expression.isMergeWord e.replacement = true
  · rw [runCells, if_pos hword]
    rcases mergeCells_cases hfetch htable hword with ⟨cause, hblock, hrun⟩ | ⟨b, r, hblock, hr, hrun⟩
    · exact .inl ⟨cause, hrun, fun _ => hblock⟩
    · rw [hblock]
      refine .inr ⟨hrun ▸ hnames hr, ?_⟩
      rintro b' hb'
      cases hb'
      exact .inr ⟨hword, r, hr, hrun⟩
  · rw [runCells, if_neg hword, CellRef.block?, if_neg hword]
    cases hchange : ref.change with
    | some change =>
      have hlines : replaceCells ref e = (changeLines ref : Run σ Outcome) := by
        rw [replaceCells, CellRef.isChange, hchange]
        rfl
      rw [hlines]
      rcases changeLines_cases hfetch htable hgrid hchange with ⟨cause, hrun⟩ | ⟨r, hr, hwithin, hrun⟩
      · exact .inl ⟨cause, hrun, fun h => absurd h hword⟩
      · refine .inr ⟨hrun ▸ hnames hr, ?_⟩
        rintro b hb
        cases hb
        exact .inl hwithin
    | none =>
      rcases replaceCells_cases hfetch htable hgrid hchange e with ⟨cause, hrun⟩ | ⟨hsingle, hadds⟩
      · exact .inl ⟨cause, hrun, fun h => absurd h hword⟩
      · refine .inr ⟨hadds.mono fun event hevent => hevent.of_none _, ?_⟩
        intro b hb
        by_cases hone : ref.isSingle = true
        · simp only [if_pos hone] at hb
          cases hb
          exact .inl (hsingle hone)
        · simp only [if_neg hone] at hb
          cases hb

/-- A run on cells names only cells that the expression is about.  They lie in the table, and what
does not lie there is refused before anything is sent, exactly when no merge or split names cells
that the table does not have. -/
theorem cells_sent_within_iff [CharNames]
    (hfetch : Run.fetch.execute s w = (.ok d, w₁)) (htable : tableFor ref.table d.tables = .ok t)
    (hgrid : t.IsGrid rows columns) (e : Expression) {result : Except Fault Outcome} {w' : World σ}
    (hrun : (runCells ref e).execute s w = (result, w')) :
    Adds (Event.Names (ref.block? t e.replacement)) w w' ∧
      ((Adds (Event.Within rows columns) w w' ∧
          ((∃ b, ref.block? t e.replacement = some b ∧ ¬ b.Within rows columns) →
            (∃ cause, result = .error (.table cause)) ∧
              Adds (fun event => event.isUpdate = false) w w')) ↔
        ¬ (Expression.isMergeWord e.replacement = true ∧
          ∃ b, ref.block? t e.replacement = some b ∧ ¬ b.Within rows columns)) := by
  have hread := adds_of_fetch hfetch
  have hunnamed : ∀ block?, Adds (Event.Names block?) w w₁ := fun block? =>
    hread.mono fun event h => Event.names_of_not_update h block?
  rcases runCells_cases hfetch htable hgrid e with ⟨cause, hrefused, hmerge⟩ | ⟨hnames, hblock⟩
  · rw [hrun] at hrefused
    cases hrefused
    refine ⟨hunnamed _, iff_of_true ⟨?_, fun _ => ⟨⟨cause, rfl⟩, hread⟩⟩ ?_⟩
    · exact (hunnamed none).mono fun event h => h.within fun b hb => by cases hb
    · rintro ⟨hword, b, hb, -⟩
      rw [hmerge hword] at hb
      cases hb
  · rw [hrun] at hnames hblock
    have hall := (hunnamed _).trans hnames
    refine ⟨hall, ?_⟩
    constructor
    · rintro ⟨⟨events, hlog, hwithin⟩, -⟩ ⟨hword, b, hb, hstray⟩
      rcases hblock b hb with hinside | ⟨-, r, hr, hsent⟩
      · exact hstray hinside
      · -- The request is in the log, so it is among those that name cells of the table.
        obtain ⟨before, hbefore, -⟩ := hread
        obtain ⟨after, hafter⟩ := Run.exists_log_update (List.cons_ne_nil r []) s w₁
        rw [← hsent, hlog, hbefore, List.append_assoc] at hafter
        have hmem : .update [r] ∈ events := by
          rw [List.append_cancel_left hafter]
          exact List.mem_append_right before List.mem_cons_self
        refine hstray (hwithin _ hmem r (List.mem_singleton_self r) b ?_)
        rw [CellBlock.ofJson?_toJson, hr]
    · intro hsafe
      have hinside : ∀ b, ref.block? t e.replacement = some b → b.Within rows columns := by
        intro b hb
        by_contra hstray
        rcases hblock b hb with hinside | ⟨hword, -⟩
        · exact hstray hinside
        · exact hsafe ⟨hword, b, hb, hstray⟩
      refine ⟨hall.mono fun event h => h.within hinside, ?_⟩
      rintro ⟨b, hb, hstray⟩
      exact absurd (hinside b hb) hstray

/-- The table with one cell. -/
def oneCell : Table where
  bounds := ⟨some 2, some 7⟩
  rows := [[[.paragraph ⟨some 5, some 6⟩ ⟨[⟨⟨some 5, some 6⟩, .run ['\n']⟩], none⟩]]]

/-- A cell of the first column. -/
def inFirstColumn (row : Int) : CellRef :=
  { table := .position 1, row, column := 1 }

theorem tableFor_oneCell (row : Int) :
    tableFor (inFirstColumn row).table oneCellTable.tables = .ok oneCell :=
  rfl

theorem isGrid_oneCell : oneCell.IsGrid 1 1 :=
  ⟨rfl, by decide, by decide, by decide⟩

theorem fetch_oneCellSession :
    Run.fetch.execute oneCellSession ⟨(), [], 0⟩ = (.ok oneCellTable, ⟨(), [.fetch], 0⟩) :=
  Run.execute_fetch rfl

/-- Split a cell of the first column. -/
def splitIn (row : Int) (raw : Text) : Expression where
  pattern := []
  replacement := "unmerge".toList
  raw := raw
  target := .cells (inFirstColumn row)

attribute [local instance] CharNames.none

/-- The one cell can be split: what is sent lies in the table. -/
theorem cells_sent_within_oneCell :
    oneCell.IsGrid 1 1 ∧
      Adds (Event.Within 1 1) ⟨(), [], 0⟩
        ((runCells (inFirstColumn 1) (splitIn 1 [])).execute oneCellSession ⟨(), [], 0⟩).2 := by
  have hblock : (inFirstColumn 1).block? oneCell (splitIn 1 []).replacement =
      some ⟨2, 0, 0, 1, 1⟩ := rfl
  obtain ⟨-, hsafe⟩ := cells_sent_within_iff fetch_oneCellSession (tableFor_oneCell 1)
    isGrid_oneCell (splitIn 1 []) rfl
  refine ⟨isGrid_oneCell, (hsafe.2 ?_).1⟩
  rintro ⟨-, b, hb, hstray⟩
  rw [hblock] at hb
  cases hb
  exact hstray (by decide)

/-- A cell of a row that the table does not have is split all the same. -/
theorem cells_sent_outside_oneCell :
    Expression.read "s/|1|[2,1]/unmerge/".toList =
        .ok (splitIn 2 "s/|1|[2,1]/unmerge/".toList) ∧
      oneCell.IsGrid 1 1 ∧
      (runOne (splitIn 2 "s/|1|[2,1]/unmerge/".toList)).execute oneCellSession ⟨(), [], 0⟩ =
        (.ok [("action", .text "unmerged [2,1]".toList)],
          ⟨(), [.fetch, .update [.unmergeCells ⟨2, 1, 0, 1, 1⟩]], 1⟩) ∧
      ¬ CellBlock.Within ⟨2, 1, 0, 1, 1⟩ 1 1 := by
  refine ⟨rfl, isGrid_oneCell, ?_, by decide⟩
  have hone : (runOne (splitIn 2 "s/|1|[2,1]/unmerge/".toList) : Run Unit Outcome) =
      mergeCells (inFirstColumn 2) "unmerge".toList := rfl
  have hmerge : oneCell.merge (inFirstColumn 2) (Expression.operationWord "unmerge".toList) =
      .ok (.unmergeCells ⟨2, 1, 0, 1, 1⟩, "unmerged [2,1]".toList) := rfl
  rw [hone, mergeCells, Run.execute_bind_of_ok fetch_oneCellSession,
    Run.execute_bind_of_ok (Run.execute_ofTable (tableFor_oneCell 2) _ _),
    Run.execute_bind_of_ok (Run.execute_ofTable hmerge _ _), Run.execute_discard_pure,
    Run.execute_update_of_ok (List.cons_ne_nil _ _) rfl]
  rfl

end Session

end Redline
