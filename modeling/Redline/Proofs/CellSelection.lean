import Redline.Proofs.TableWrite

/-!
# Writing over selected cells

A reference selects one cell, a row, a column, a rectangle or all cells of a table, and a template is
written over each of them.  The edits are read off one copy of the document and sent in one batch,
while every edit changes the length of the body.  This module takes the body apart into the texts of
the cells and what stands between them, and shows that the batch replaces the text of each selected
cell up to its newline and leaves everything else as it is.
-/

namespace Redline

/-! ## The text of a cell -/

/-- The pieces are runs of a text, one behind the other from a place on. -/
inductive Piece.Runs : Nat → Text → List Piece → Prop
  | nil (place : Nat) : Runs place [] []
  | cons {place : Nat} {run text : Text} {pieces : List Piece} (h : run ≠ [])
      (rest : Runs (place + run.units) text pieces) :
      Runs place (run ++ text) (⟨.cover place run.units, .run run⟩ :: pieces)

/-- The cell holds a text from a place on: its paragraphs are runs, one behind the other, and a
newline ends the text. -/
structure Cell.Holds (cell : Cell) (place : Nat) (text : Text) : Prop where
  positive : 0 < place
  runs : Piece.Runs place text (CellText.pieces cell)
  newline : text.getLast? = some '\n'

theorem Piece.Runs.runsShow
    {place : Nat} {text : Text} {pieces : List Piece} (h : Runs place text pieces) :
    RunsShow place (text.map .char) (pieces.filter (·.run?.isSome)) := by
  induction h with
  | nil place => exact .nil place
  | cons hrun _ ih =>
    rw [List.map_append]
    exact .run hrun ih

namespace Cell.Holds

variable {cell : Cell} {place : Nat} {text : Text}

theorem ne_nil (h : cell.Holds place text) : text ≠ [] := by
  rintro rfl
  cases h.newline

theorem units_pos (h : cell.Holds place text) : 0 < text.units := by
  obtain ⟨before, rfl⟩ := List.getLast?_eq_some_iff.1 h.newline
  rw [Text.units_append]
  exact Nat.lt_add_left _ (by decide)

theorem writes (h : cell.Holds place text) (template : Text) :
    (CellText.replaceWhole cell template).Writes place (text.map .char) template := by
  refine CellText.replaceWhole_writes_of_runsShow h.runs.runsShow h.positive ?_ template
  rw [Page.EndsLine, List.getLast?_map, h.newline]
  rfl

theorem lead_eq (h : cell.Holds place text) : Page.lead (text.map .char) = [] := by
  obtain ⟨c, rest, rfl⟩ := List.exists_cons_of_ne_nil h.ne_nil
  exact List.takeWhile_cons_of_neg (by simp [Atom.char?])

theorem anchor_eq (h : cell.Holds place text) (template : Text) :
    (CellText.replaceWhole cell template).anchor = place := by
  rw [(h.writes template).anchor, h.lead_eq]
  rfl

/-- The edit of a cell replaces its text up to the newline, wherever the text stands. -/
theorem carryOutAll?_requests
    (h : cell.Holds place text) (template : Text) {before : Body} (hbefore : before.length = place)
    (behind : Body) :
    Request.carryOutAll? (CellText.replaceWhole cell template).requests
        (before ++ Body.ofText text ++ behind) =
      some (before ++ Body.ofText ((CellText.replacement template text).1 ++ ['\n']) ++ behind) := by
  have hwrites := (h.writes template).requests before behind hbefore
  have htext : Page.text (text.map .char) = text := by
    rw [Page.text, List.filterMap_map]
    exact List.filterMap_some
  have hpage : Page.overwrite template (text.map .char) =
      ((CellText.replacement template text).1 ++ ['\n']).map .char := by
    rw [Page.overwrite, h.lead_eq, htext, List.map_append]
    rfl
  rwa [hpage, Atom.unitsOf_map_char, Atom.unitsOf_map_char] at hwrites

end Cell.Holds

/-! ## The body between the cells -/

/-- The cells of a table with their places, row by row. -/
def Table.places (t : Table) : List (Place × Cell) :=
  t.rows.zipIdx.flatMap fun row =>
    row.1.zipIdx.map fun cell => (⟨row.2 + 1, cell.2 + 1⟩, cell.1)

/-- The text of a cell in the body, and what stands between it and the text before. -/
structure Slot where
  gap : Body
  text : Text

namespace Slot

/-- The body that slots make up, and what stands behind the last one. -/
def weave (slots : List Slot) (tail : Body) : Body :=
  slots.flatMap (fun slot => slot.gap ++ Body.ofText slot.text) ++ tail

/-- The cells hold the texts of the slots, each where it stands in the body from a place on. -/
inductive Fits : Nat → List (Place × Cell) → List Slot → Prop
  | nil (start : Nat) : Fits start [] []
  | cons {start : Nat} {place : Place} {cell : Cell} {slot : Slot} {cells : List (Place × Cell)}
      {slots : List Slot} (h : cell.Holds (start + slot.gap.length) slot.text)
      (rest : Fits (start + slot.gap.length + slot.text.units) cells slots) :
      Fits start ((place, cell) :: cells) (slot :: slots)

/-- A template written over the text of a cell; the newline stays. -/
def overwrite (template : Text) (slot : Slot) : Slot :=
  { slot with text := (CellText.replacement template slot.text).1 ++ ['\n'] }

/-- A template written over the cells that a reference includes. -/
def write (ref : CellRef) (template : Text) (cells : List (Place × Cell)) (slots : List Slot) :
    List Slot :=
  cells.zipWith (fun cell slot => if ref.includes cell.1 then slot.overwrite template else slot)
    slots

variable {start : Nat} {cells : List (Place × Cell)} {slots : List Slot}

theorem weave_cons (slot : Slot) (slots : List Slot) (tail : Body) :
    weave (slot :: slots) tail = slot.gap ++ Body.ofText slot.text ++ weave slots tail := by
  rw [weave, List.flatMap_cons, List.append_assoc, weave]

theorem write_cons
    (ref : CellRef) (template : Text) (cell : Place × Cell) (cells : List (Place × Cell))
    (slot : Slot) (slots : List Slot) :
    write ref template (cell :: cells) (slot :: slots) =
      (if ref.includes cell.1 then slot.overwrite template else slot) ::
        write ref template cells slots :=
  rfl

/-- The edits of the cells that a reference includes. -/
def edits (ref : CellRef) (template : Text) (cells : List (Place × Cell)) :
    List (EditGroup Request) :=
  (cells.filter fun cell => ref.includes cell.1).map fun cell =>
    CellText.replaceWhole cell.2 template

theorem edits_cons
    (ref : CellRef) (template : Text) (cell : Place × Cell) (cells : List (Place × Cell)) :
    edits ref template (cell :: cells) =
      (if ref.includes cell.1 then [CellText.replaceWhole cell.2 template] else []) ++
        edits ref template cells := by
  rw [edits, List.filter_cons]
  split
  · rfl
  · rfl

/-- The edits stand no earlier than the first slot. -/
theorem Fits.le_anchor
    (h : Fits start cells slots) {ref : CellRef} {template : Text} {g : EditGroup Request}
    (hg : g ∈ edits ref template cells) : start ≤ g.anchor := by
  induction h with
  | nil => cases hg
  | @cons start place cell slot cells slots hcell _ ih =>
    rw [edits_cons] at hg
    rcases List.mem_append.1 hg with hg | hg
    · split at hg
      · rw [List.mem_singleton.1 hg, hcell.anchor_eq]
        omega
      · cases hg
    · have hrest := ih hg
      omega

/-- The edits stand in the order of their cells. -/
theorem Fits.pairwise_anchor (h : Fits start cells slots) (ref : CellRef) (template : Text) :
    (edits ref template cells).Pairwise fun a b => a.anchor < b.anchor := by
  induction h with
  | nil => exact .nil
  | @cons start place cell slot cells slots hcell rest ih =>
    rw [edits_cons]
    split
    · refine List.pairwise_cons.2 ⟨fun g hg => ?_, ih⟩
      have hle := rest.le_anchor hg
      have hpos := hcell.units_pos
      rw [hcell.anchor_eq]
      omega
    · exact ih

/-- The edits, carried out from the last cell to the first, write over the cells that the reference
includes, and leave all else as it is. -/
theorem Fits.carryOutAll?_reverse
    (h : Fits start cells slots) (ref : CellRef) (template : Text) {front : Body}
    (hfront : front.length = start) (tail : Body) :
    Request.carryOutAll? ((edits ref template cells).reverse.flatMap (·.requests))
        (front ++ weave slots tail) =
      some (front ++ weave (write ref template cells slots) tail) := by
  induction h generalizing front with
  | nil => rfl
  | @cons start place cell slot cells slots hcell _ ih =>
    have hassoc : ∀ (text : Text) (behind : Body),
        front ++ (slot.gap ++ Body.ofText text ++ behind) =
          front ++ slot.gap ++ Body.ofText text ++ behind := by
      intro text behind
      simp only [List.append_assoc]
    -- For the cells behind, which are written first, this one is a part of what stands in front.
    have hlength : (front ++ slot.gap ++ Body.ofText slot.text).length =
        start + slot.gap.length + slot.text.units := by
      simp only [List.length_append, Body.length_ofText, hfront]
    have hrest := ih hlength
    rw [edits_cons, List.reverse_append, List.flatMap_append, Request.carryOutAll?_append,
      weave_cons, hassoc, hrest, Option.bind_some, write_cons, weave_cons]
    split
    · have hgap : (front ++ slot.gap).length = start + slot.gap.length := by
        rw [List.length_append, hfront]
      have hfirst := hcell.carryOutAll?_requests template hgap
        (weave (write ref template cells slots) tail)
      rw [List.reverse_singleton, List.flatMap_singleton, hfirst]
      exact congrArg some (hassoc _ _).symm
    · exact congrArg some (hassoc _ _).symm

/-- The batch of edits writes over the cells that the reference includes. -/
theorem Fits.carryOutAll?_order
    (h : Fits 0 cells slots) (ref : CellRef) (template : Text) (tail : Body) :
    Request.carryOutAll? (EditGroup.order (edits ref template cells)) (weave slots tail) =
      some (weave (write ref template cells slots) tail) := by
  rw [EditGroup.order, EditGroup.sort_eq_reverse (h.pairwise_anchor ref template)]
  have hnil : ([] : Body).length = 0 := rfl
  exact h.carryOutAll?_reverse ref template hnil tail

end Slot

/-! ## The cells that are selected -/

/-- A reference to one cell includes the place that it names and no other. -/
theorem CellRef.includes_of_isSingle
    {ref : CellRef} (h : ref.isSingle = true) (place : Place) :
    ref.includes place = true ↔ ref.row = place.row ∧ ref.column = place.column := by
  simp only [isSingle, Bool.and_eq_true, Bool.not_eq_true', decide_eq_true_eq] at h
  obtain ⟨⟨⟨-, hrange⟩, hrow⟩, hcolumn⟩ := h
  have hnone : ref.rectangle? = none := by
    rw [← Option.isNone_iff_eq_none, ← Option.isSome_eq_false_iff]
    exact hrange
  simp only [includes, hnone, Bool.and_eq_true, Bool.or_eq_true, beq_iff_eq]
  omega

namespace Table

/-- Of a list with its indices, a function that yields something for one index only sees the item
there. -/
theorem flatMap_zipIdx
    {α β : Type} {xs : List α} {n : Nat} {x : α} (hx : xs[n]? = some x) {k : Nat}
    {f : α × Nat → List β} (h : ∀ a i, i ≠ k + n → f (a, i) = []) :
    (xs.zipIdx k).flatMap f = f (x, k + n) := by
  induction xs generalizing n k with
  | nil => cases hx
  | cons y ys ih =>
    rw [List.zipIdx_cons, List.flatMap_cons]
    cases n with
    | zero =>
      cases hx
      have hrest : (ys.zipIdx (k + 1)).flatMap f = [] := by
        rw [List.flatMap_eq_nil_iff]
        rintro ⟨a, i⟩ hmem
        have hle := List.le_snd_of_mem_zipIdx hmem
        exact h a i (by omega)
      rw [hrest, List.append_nil]
      rfl
    | succ n =>
      have hk : k + 1 + n = k + (n + 1) := by omega
      rw [h y k (by omega), List.nil_append, ih hx (by rwa [hk]), hk]

variable {t : Table} {ref : CellRef}

theorem selected_eq (t : Table) (ref : CellRef) :
    t.selected ref = (t.places.filter fun cell => ref.includes cell.1).map (·.2) := by
  rw [places, List.filter_flatMap, List.map_flatMap]
  simp only [List.filter_map, List.map_map]
  rfl

theorem filter_zipIdx
    {α : Type} {xs : List α} {n : Nat} {x : α} (hx : xs[n]? = some x) {p : α × Nat → Bool}
    (h : ∀ a i, p (a, i) = true ↔ i = n) : xs.zipIdx.filter p = [(x, n)] := by
  rw [← List.flatMap_singleton' xs.zipIdx, List.filter_flatMap, flatMap_zipIdx hx]
  · rw [Nat.zero_add, List.filter_cons_of_pos ((h x n).2 rfl), List.filter_nil]
  · intro a i hi
    rw [Nat.zero_add] at hi
    rw [List.filter_cons_of_neg fun hp => hi ((h a i).1 hp), List.filter_nil]

/-- A reference to one cell selects the cell that is found there. -/
theorem selected_of_isSingle
    (h : ref.isSingle = true) {cell : Cell} (hcell : t.cell ⟨ref.row, ref.column⟩ = .ok cell) :
    t.selected ref = [cell] := by
  obtain ⟨row, hrow, hfound⟩ := exists_row_of_cell hcell
  simp only [nth?, Option.ite_none_right_eq_some] at hrow hfound
  obtain ⟨hpos, hrow⟩ := hrow
  obtain ⟨hpos', hfound⟩ := hfound
  have hincludes : ∀ r c : Nat, ref.includes ⟨r + 1, c + 1⟩ = true ↔
      r = (ref.row - 1).toNat ∧ c = (ref.column - 1).toNat := by
    intro r c
    rw [CellRef.includes_of_isSingle h]
    simp only []
    omega
  rw [selected, flatMap_zipIdx hrow]
  · rw [Nat.zero_add]
    have hcells := filter_zipIdx hfound
      (p := fun cell => ref.includes ⟨(ref.row - 1).toNat + 1, cell.2 + 1⟩) fun a c => by
        rw [hincludes]
        exact and_iff_right rfl
    exact congrArg (List.map (·.1)) hcells
  · intro other r hr
    rw [List.map_eq_nil_iff, List.filter_eq_nil_iff]
    intro pair _ hpair
    rw [hincludes] at hpair
    omega

end Table

namespace Session

theorem cellsOf_eq
    {t : Table} {ref : CellRef}
    (h : ref.isSingle = true → ∃ cell, t.cell ⟨ref.row, ref.column⟩ = .ok cell) :
    cellsOf t ref = .ok ((t.places.filter fun cell => ref.includes cell.1).map (·.2)) := by
  rw [← t.selected_eq ref, cellsOf]
  split
  · next hsingle =>
    obtain ⟨cell, hcell⟩ := h hsingle
    rw [Table.selected_of_isSingle hsingle hcell, hcell]
    rfl
  · rfl

variable {σ : Type} {s : Session σ} {view : σ → Body} {w w₁ : World σ} {d : Document}
  {ref : CellRef} {t : Table} {e : Expression}

/-- Once the cells are found, what is left is to send their edits, if there are any. -/
theorem execute_replaceCells [CharNames]
    (hfetch : Run.fetch.execute s w = (.ok d, w₁)) (htable : tableFor ref.table d.tables = .ok t)
    (hchange : ref.isChange = false)
    (hcell : ref.isSingle = true → ∃ cell, t.cell ⟨ref.row, ref.column⟩ = .ok cell)
    (hpattern : e.pattern = []) :
    (replaceCells ref e).execute s w =
      (if (EditGroup.order (Slot.edits ref e.replacement t.places)).isEmpty then
          pure [("replaced", .count 0)]
        else do
          discard <| Run.update (EditGroup.order (Slot.edits ref e.replacement t.places))
          return [("replaced", .count (Slot.edits ref e.replacement t.places).length)] :
        Run σ Outcome).execute s w₁ := by
  have hedits : (editsOf e ((t.places.filter fun cell => ref.includes cell.1).map (·.2)) :
      Run σ (List (EditGroup Request))) = pure (Slot.edits ref e.replacement t.places) := by
    rw [editsOf, hpattern, if_pos List.isEmpty_nil, List.map_map]
    rfl
  rw [replaceCells, hchange, if_neg Bool.false_ne_true, Run.execute_bind_of_ok hfetch,
    Run.execute_bind_of_ok (Run.execute_ofTable htable _ _),
    Run.execute_bind_of_ok (Run.execute_ofTable (cellsOf_eq hcell) _ _), hedits]
  rfl

/-- Writing over cells replaces the text of the cells that are selected, up to the newline, and
leaves everything else in the body as it is.  The number of selected cells is reported, unless there
was nothing to send. -/
theorem replaceCells_touches_selected [CharNames]
    (hs : s.service.Literal view) (hfetch : Run.fetch.execute s w = (.ok d, w₁))
    (htable : tableFor ref.table d.tables = .ok t) {slots : List Slot} {tail : Body}
    (hfits : Slot.Fits 0 t.places slots) (hbody : view w₁.state = Slot.weave slots tail)
    (hchange : ref.isChange = false)
    (hcell : ref.isSingle = true → ∃ cell, t.cell ⟨ref.row, ref.column⟩ = .ok cell)
    (hpattern : e.pattern = []) :
    ∃ requests w',
      Request.carryOutAll? requests (Slot.weave slots tail) =
        some (Slot.weave (Slot.write ref e.replacement t.places slots) tail) ∧
      view w'.state = Slot.weave (Slot.write ref e.replacement t.places slots) tail ∧
      (requests = [] ∧ w'.log = w₁.log ∧
          (replaceCells ref e).execute s w = (.ok [("replaced", .count 0)], w') ∨
        requests ≠ [] ∧ w'.log = w₁.log ++ [.update requests] ∧
          (replaceCells ref e).execute s w = (.ok [("replaced",
            .count (t.places.filter fun cell => ref.includes cell.1).length)], w')) := by
  have hcarry := hfits.carryOutAll?_order ref e.replacement tail
  have hrun := execute_replaceCells hfetch htable hchange hcell hpattern
  have hcount : (Slot.edits ref e.replacement t.places).length =
      (t.places.filter fun cell => ref.includes cell.1).length := List.length_map _
  rw [hcount] at hrun
  generalize EditGroup.order (Slot.edits ref e.replacement t.places) = requests at hcarry hrun
  by_cases hempty : requests = []
  · subst hempty
    refine ⟨[], w₁, hcarry, ?_, .inl ⟨rfl, rfl, hrun⟩⟩
    rw [hbody]
    exact Option.some.inj hcarry
  · rw [← hbody] at hcarry
    obtain ⟨response, state, hupdate, hview⟩ := hs.update hcarry
    rw [if_neg (by rwa [List.isEmpty_iff]), Run.execute_discard_pure,
      Run.execute_update_of_ok hempty hupdate] at hrun
    rw [hbody] at hcarry
    exact ⟨requests, _, hcarry, hview, .inr ⟨hempty, rfl, hrun⟩⟩

/-! ## A table of four cells -/

/-- A table with two rows of two cells.  One cell holds a character of two units, one holds no more
than its newline, and one holds two paragraphs. -/
def letterTable : Table where
  bounds := ⟨some 2, some 20⟩
  rows := [
    [[.paragraph ⟨some 5, some 7⟩ ⟨[⟨⟨some 5, some 7⟩, .run "a\n".toList⟩], none⟩],
      [.paragraph ⟨some 8, some 11⟩ ⟨[⟨⟨some 8, some 11⟩, .run "𝕓\n".toList⟩], none⟩]],
    [[.paragraph ⟨some 13, some 14⟩ ⟨[⟨⟨some 13, some 14⟩, .run "\n".toList⟩], none⟩],
      [.paragraph ⟨some 15, some 17⟩ ⟨[⟨⟨some 15, some 17⟩, .run "c\n".toList⟩], none⟩,
        .paragraph ⟨some 17, some 19⟩ ⟨[⟨⟨some 17, some 19⟩, .run "d\n".toList⟩], none⟩]]]

def letterDocument : Document where
  body := [
    .paragraph ⟨some 1, some 2⟩ ⟨[⟨⟨some 1, some 2⟩, .run "\n".toList⟩], none⟩,
    .table letterTable.bounds letterTable.rows,
    .paragraph ⟨some 20, some 21⟩ ⟨[⟨⟨some 20, some 21⟩, .run "\n".toList⟩], none⟩]

/-- The body of the document, with the given texts in the second column. -/
def letterSlots (first second : Text) : List Slot :=
  [⟨.object [] :: Body.ofText ['\n'] ++ [.mark .table, .mark .row, .mark .cell], "a\n".toList⟩,
    ⟨[.mark .cell], first⟩, ⟨[.mark .row, .mark .cell], "\n".toList⟩, ⟨[.mark .cell], second⟩]

def letterTail : Body :=
  .mark .tableEnd :: Body.ofText ['\n']

def letterTableSession : Session Body where
  service := { Service.ofBody with fetch := fun body => (.ok letterDocument, body) }
  settings := {}

def letterWorld : World Body where
  state := Slot.weave (letterSlots "𝕓\n".toList "c\nd\n".toList) letterTail

def secondColumn : CellRef where
  table := .position 1
  column := 2

/-- Put an exclamation mark behind the text of every cell in the second column. -/
def exclaim : Expression where
  pattern := []
  replacement := Template.reference ['0'] ++ ['!']
  raw := []

theorem fits_letterSlots :
    Slot.Fits 0 letterTable.places (letterSlots "𝕓\n".toList "c\nd\n".toList) := by
  have hsingle : ∀ (place : Nat) (run : Text), run ≠ [] →
      Piece.Runs place run [⟨.cover place run.units, .run run⟩] := by
    intro place run hrun
    have hone := Piece.Runs.cons hrun (.nil (place + run.units))
    rwa [List.append_nil] at hone
  refine .cons ⟨by decide, ?_, rfl⟩ (.cons ⟨by decide, ?_, rfl⟩ (.cons ⟨by decide, ?_, rfl⟩
    (.cons ⟨by decide, ?_, rfl⟩ (.nil _))))
  · exact hsingle 5 "a\n".toList (by decide)
  · exact hsingle 8 "𝕓\n".toList (by decide)
  · exact hsingle 13 "\n".toList (by decide)
  · have hfirst : "c\n".toList ≠ [] := by decide
    exact .cons hfirst (hsingle 17 "d\n".toList (by decide))

attribute [local instance] CharNames.none

theorem replaceCells_touches_selected_letterTable :
    Slot.Fits 0 letterTable.places (letterSlots "𝕓\n".toList "c\nd\n".toList) ∧
      ∃ requests w',
        Request.carryOutAll? requests
            (Slot.weave (letterSlots "𝕓\n".toList "c\nd\n".toList) letterTail) =
          some (Slot.weave (letterSlots "𝕓!\n".toList "c\nd!\n".toList) letterTail) ∧
        w'.state = Slot.weave (letterSlots "𝕓!\n".toList "c\nd!\n".toList) letterTail ∧
        w'.log = [.fetch, .update requests] ∧
        (replaceCells secondColumn exclaim).execute letterTableSession letterWorld =
          (.ok [("replaced", .count 2)], w') := by
  have hliteral : letterTableSession.service.Literal id := ⟨Service.literal_ofBody.update⟩
  have hfetch : Run.fetch.execute letterTableSession letterWorld =
      (.ok letterDocument, { letterWorld with log := [.fetch] }) := Run.execute_fetch rfl
  have htable : tableFor secondColumn.table letterDocument.tables = .ok letterTable := rfl
  have hsingle : secondColumn.isSingle = true →
      ∃ cell, letterTable.cell ⟨secondColumn.row, secondColumn.column⟩ = .ok cell := by
    intro h
    cases h
  obtain ⟨requests, w', hcarry, hview, hrun⟩ := replaceCells_touches_selected (e := exclaim)
    hliteral hfetch htable fits_letterSlots rfl rfl hsingle rfl
  have hwritten : Slot.write secondColumn exclaim.replacement letterTable.places
      (letterSlots "𝕓\n".toList "c\nd\n".toList) =
        letterSlots "𝕓!\n".toList "c\nd!\n".toList := rfl
  rw [hwritten] at hcarry hview
  refine ⟨fits_letterSlots, requests, w', hcarry, hview, ?_⟩
  rcases hrun with ⟨rfl, -⟩ | ⟨-, hlog, hrun⟩
  · exact absurd (congrArg (Option.map List.length) hcarry) (by decide)
  · exact ⟨hlog, hrun⟩

end Session

end Redline
