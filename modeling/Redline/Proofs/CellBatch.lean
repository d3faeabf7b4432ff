import Redline.Proofs.Falling
import Redline.Proofs.Log
import Redline.Proofs.PageService
import Redline.Proofs.TableWrite
import Redline.Session.Schedule

/-!
# Cells that are written together

Neighbours in the queue for cells that write single cells of one table are sent in one batch, whose
edits are all read off one copy of the document.  When the cells are different ones and no write
changes which table is named, this leaves the same page as writing them one after another, each on a
fresh copy: an edit changes only its own cell, the batch is sorted from the last cell to the first,
and writes to different cells may change places.
-/

namespace Redline

namespace Session

variable {σ : Type} {s : Session σ} {front : Body} {view : σ → Page} {number : Nat}
  {rows : Grid} {before behind : Body}

/-- What a batch does to the page of a faithful service. -/
theorem ensures_update
    (hs : s.service.Faithful front view) {requests : List Request} {page page' : Page}
    (h : Request.carryOutAll? requests (front ++ Atom.unitsOf page) =
      some (front ++ Atom.unitsOf page')) :
    Run.Ensures s (fun w => view w.state = page) (Run.update requests)
      fun _ w => view w.state = page' := by
  refine Run.Ensures.of_update (P := fun state => view state = page)
    (Q := fun state => view state = page') ?_ ?_
  · rintro rfl state hstate
    have hsame := List.append_cancel_left (Option.some.inj h)
    exact hstate.trans (Atom.unitsOf_injective hsame)
  · rintro state rfl
    exact hs.update h

/-! ## One cell after another -/

/-- The expression writes over one cell, and does nothing else. -/
structure WritesCell (e : Expression) (ref : CellRef) : Prop where
  target : e.target = .cells ref
  pattern : e.pattern = []
  row : 0 < ref.row
  column : 0 < ref.column
  range : ref.isRange = false
  change : ref.isChange = false
  merge : Expression.isMergeWord e.replacement = false

theorem exists_writesCell {e : Expression} (h : e.replacesOneCell = true) :
    ∃ ref, e.cells? = some ref ∧ WritesCell e ref := by
  unfold Expression.replacesOneCell at h
  split at h
  next ref href =>
    simp only [Bool.and_eq_true, Bool.not_eq_true', decide_eq_true_eq, List.isEmpty_iff] at h
    obtain ⟨⟨⟨⟨⟨hpattern, hrow⟩, hcolumn⟩, hrange⟩, hchange⟩, hmerge⟩ := h
    refine ⟨ref, href, ⟨?_, hpattern, hrow, hcolumn, hrange, hchange, hmerge⟩⟩
    unfold Expression.cells? at href
    split at href
    next heq =>
      cases href
      exact heq
    next => cases href
  next => cases h

/-- The cell is written over on a fresh copy of the document. -/
theorem ensures_replaceCells [CharNames]
    (hs : s.service.Faithful front view) {e : Expression} {ref : CellRef} (he : WritesCell e ref)
    {page page' : Page} (hpage : page.Written ref e.replacement page') :
    Run.Ensures s (fun w => view w.state = page) (replaceCells ref e)
      fun _ w => view w.state = page' := by
  rintro w rfl
  obtain ⟨number, rows, before, behind, cell, hnamed, hcell, hends, haround⟩ := hpage
  obtain ⟨d, state, hfetch, hview, hd⟩ := hs.fetch w.state
  obtain ⟨t, found, htable, hfound, hatoms, hplaced⟩ := hd.exists_cell hnamed he.row he.column hcell
  have hwrites := CellText.replaceWhole_writes hplaced (by omega) hatoms hends e.replacement
  have hcarry := hwrites.in_table hcell front before behind rfl
  rw [← hnamed.around.units_eq, ← haround.units_eq] at hcarry
  obtain ⟨done, w₂, hrun, hend⟩ := (ensures_update hs hcarry).discard
    { w with state, log := w.log ++ [.fetch] } hview
  have hcells : cellsOf t ref = .ok [found] := by
    simp only [cellsOf, CellRef.isSingle, he.change, he.range, he.row, he.column, hfound]
    rfl
  have hedits : editsOf e [found] = (pure [CellText.replaceWhole found e.replacement] :
      Run σ (List (EditGroup Request))) := by
    rw [editsOf, he.pattern]
    rfl
  have horder : EditGroup.order [CellText.replaceWhole found e.replacement] =
      (CellText.replaceWhole found e.replacement).requests := List.append_nil _
  unfold replaceCells
  rw [he.change, if_neg Bool.false_ne_true, Run.execute_bind_of_ok (Run.execute_fetch hfetch)]
  rw [Run.execute_bind_of_ok (Run.execute_ofTable htable _ _)]
  rw [Run.execute_bind_of_ok (Run.execute_ofTable hcells _ _)]
  rw [hedits, pure_bind, horder]
  by_cases hempty : (CellText.replaceWhole found e.replacement).requests.isEmpty = true
  · rw [List.isEmpty_iff.1 hempty] at hrun
    cases hrun
    rw [if_pos hempty]
    exact ⟨_, _, rfl, hend⟩
  · rw [if_neg hempty, Run.execute_bind_of_ok hrun]
    exact ⟨_, w₂, rfl, hend⟩

theorem runTarget_eq_replaceCells [CharNames] {e : Expression} {ref : CellRef}
    (he : WritesCell e ref) :
    (runTarget e : Run σ Outcome) = replaceCells ref e := by
  rw [runTarget, he.target]
  simp only [runCells, he.merge, Bool.false_eq_true, if_false]

theorem unitItems_cons
    {item : Numbered} {rest : List Numbered} {ref : CellRef}
    (h : item.expression.cells? = some ref) :
    unitItems (item :: rest) =
      (item.position, ref, item.expression.replacement) :: unitItems rest := by
  rw [unitItems, List.filterMap_cons, h]
  rfl

/-- All items of the unit write single cells of one table. -/
def WritesTable (selector : TableSelector) (unit : List Numbered) : Prop :=
  ∀ item ∈ unit, ∃ ref, item.expression.cells? = some ref ∧ WritesCell item.expression ref ∧
    ref.table = selector

theorem execute_within
    {α : Type} {x : Run σ α} {w w' : World σ} {a : α} (h : x.execute s w = (.ok a, w'))
    (origin : Origin) :
    (Run.within origin x).execute s w = (.ok a, w') := by
  rw [Run.within, Run.execute_tryCatch, h]

/-- One item of a unit is run, and the others are left. -/
theorem ensures_runTarget [CharNames]
    (hs : s.service.Faithful front view) {selector : TableSelector} {last : Page}
    (item : Numbered) (rest : List Numbered) :
    Run.Ensures s
      (fun w => WritesTable selector (item :: rest) ∧
        (view w.state).WrittenInTurn (unitItems (item :: rest)) last)
      (discard <| Run.within (.expression (item.position + 1)) (runTarget item.expression))
      fun _ w => WritesTable selector rest ∧
        (view w.state).WrittenInTurn (unitItems rest) last := by
  rintro w ⟨hunit, hturn⟩
  obtain ⟨ref, hcells, hwrites, -⟩ := hunit item List.mem_cons_self
  rw [unitItems_cons hcells] at hturn
  cases hturn with
  | cons hfirst hrest =>
    obtain ⟨outcome, w', hrun, rfl⟩ := ensures_replaceCells hs hwrites hfirst w rfl
    rw [← runTarget_eq_replaceCells hwrites] at hrun
    have hdiscard : ∀ x : Run σ Outcome, discard x = x >>= fun _ => pure () := fun _ => rfl
    refine ⟨(), w', ?_, fun other hother => hunit other (List.mem_cons_of_mem _ hother), hrest⟩
    rw [hdiscard, Run.execute_bind_of_ok (execute_within hrun _)]
    rfl

/-- The items of a unit that are run by themselves write their cells one after another. -/
theorem ensures_runEach [CharNames]
    (hs : s.service.Faithful front view) {selector : TableSelector} {unit : List Numbered}
    (hunit : WritesTable selector unit) {page page' : Page}
    (hpage : page.WrittenInTurn (unitItems unit) page') :
    Run.Ensures s (fun w => view w.state = page) (runEach unit runTarget)
      fun count w => count = unit.length ∧ view w.state = page' := by
  rintro w rfl
  have hloop := Run.Ensures.forIn
    (fun rest (w : World σ) => WritesTable selector rest ∧
      (view w.state).WrittenInTurn (unitItems rest) page') unit (ensures_runTarget hs)
  obtain ⟨done, w', hrun, -, hend⟩ := hloop w ⟨hunit, hpage⟩
  refine ⟨unit.length, w', ?_, rfl, ?_⟩
  · unfold runEach
    rw [Run.execute_bind_of_ok hrun]
    rfl
  · cases hend
    rfl

end Session

/-! ## All cells at once -/

namespace EditGroup

/-- Groups that are made of items are sorted as the items are. -/
theorem exists_perm_sort_map {α ι : Type} (g : ι → EditGroup α) (items : List ι) :
    ∃ sorted : List ι, sorted.Perm items ∧ sort (items.map g) = sorted.map g := by
  have hplace : ∀ (a : ι) (sorted : List ι), ∃ more : List ι, more.Perm (a :: sorted) ∧
      place (g a) (sorted.map g) = more.map g := by
    intro a sorted
    induction sorted with
    | nil => exact ⟨[a], .refl _, rfl⟩
    | cons b rest ih =>
      by_cases hle : (g b).anchor ≤ (g a).anchor
      · refine ⟨a :: b :: rest, .refl _, ?_⟩
        rw [List.map_cons, place, if_pos hle]
        rfl
      · obtain ⟨more, hperm, hmore⟩ := ih
        refine ⟨b :: more, (hperm.cons b).trans (.swap a b rest), ?_⟩
        rw [List.map_cons, place, if_neg hle, hmore]
        rfl
  induction items with
  | nil => exact ⟨[], .refl _, rfl⟩
  | cons a rest ih =>
    obtain ⟨sorted, hperm, hsort⟩ := ih
    obtain ⟨more, hperm', hmore⟩ := hplace a sorted
    refine ⟨more, hperm'.trans (hperm.cons a), ?_⟩
    have hcons : sort ((a :: rest).map g) = place (g a) (sort (rest.map g)) := rfl
    rw [hcons, hsort, hmore]

end EditGroup

namespace Session

variable {σ : Type} {s : Session σ} {front : Body} {view : σ → Page} {number : Nat}
  {rows : Grid} {before behind : Body}

/-- The grid after the items of a unit are written one after another. -/
def writeAll (rows : Grid) (items : List (Nat × CellRef × Text)) : Grid :=
  items.foldl (fun rows item => rows.write item.2.1 item.2.2) rows

/-- Two items write different cells. -/
def Apart (a b : Nat × CellRef × Text) : Prop :=
  a.2.1.index ≠ b.2.1.index

instance : Std.Symm Apart :=
  ⟨fun _ _ h => Ne.symm h⟩

/-- The edit of an item stands where its cell does, and writes over it. -/
def WritesItem (front before : Body) (rows : Grid) (g : Nat × CellRef × Text → EditGroup Request)
    (item : Nat × CellRef × Text) : Prop :=
  ∃ cell, rows.cell? item.2.1.index = some cell ∧
    (g item).Writes (front.length + before.length + 1 + (Grid.before rows item.2.1.index).length)
      cell item.2.2

variable {g : Nat × CellRef × Text → EditGroup Request} {items : List (Nat × CellRef × Text)}

/-- Edits that are sent from the last cell to the first write over all of their cells, each as it
was read off the first grid. -/
theorem carryOutAll?_sorted
    (hitems : ∀ item ∈ items, WritesItem front before rows g item)
    (hfalling : items.Pairwise fun a b => Grid.Precedes b.2.1.index a.2.1.index)
    (behind : Body) :
    Request.carryOutAll? ((items.map g).flatMap (·.requests))
        (front ++ (before ++ Atom.units (.table rows) ++ behind)) =
      some (front ++ (before ++ Atom.units (.table (writeAll rows items)) ++ behind)) := by
  induction items generalizing rows with
  | nil => rfl
  | cons item rest ih =>
    obtain ⟨cell, hcell, hwrites⟩ := hitems item List.mem_cons_self
    obtain ⟨hfirst, hrest⟩ := List.pairwise_cons.1 hfalling
    rw [List.map_cons, List.flatMap_cons, Request.carryOutAll?_append,
      hwrites.in_table hcell front before behind rfl]
    refine ih ?_ hrest
    intro other hother
    -- What is left stands before the cell that was written, so neither it nor its place changes.
    obtain ⟨cell', hcell', hwrites'⟩ := hitems other (List.mem_cons_of_mem _ hother)
    have hbefore := hfirst other hother
    refine ⟨cell', ?_, ?_⟩
    · rw [Grid.write, Grid.cell?_modifyCell_of_ne hbefore.ne]
      exact hcell'
    · rw [Grid.write, Grid.before_modifyCell (.inl hbefore)]
      exact hwrites'

/-- Falling anchors are those of cells that come one before the other. -/
theorem precedes_of_anchor_le
    {a b : Nat × CellRef × Text} (ha : WritesItem front before rows g a)
    (hb : WritesItem front before rows g b) (hne : Apart a b)
    (hle : (g b).anchor ≤ (g a).anchor) :
    Grid.Precedes b.2.1.index a.2.1.index := by
  obtain ⟨cell, hcell, hwrites⟩ := ha
  obtain ⟨cell', -, hwrites'⟩ := hb
  rcases Grid.precedes_or_precedes hne with hlt | hlt
  · have hspace := Grid.length_before_lt hlt hcell
    have hlead := cell.length_lead_le
    rw [hwrites.anchor, hwrites'.anchor] at hle
    omega
  · exact hlt

theorem writeAll_perm
    {sorted : List (Nat × CellRef × Text)} (hperm : sorted.Perm items)
    (hdistinct : items.Pairwise Apart) (rows : Grid) :
    writeAll rows sorted = writeAll rows items := by
  refine hperm.foldl_eq' ?_ rows
  intro a ha b hb now
  -- `foldl_eq'` also asks for an item and itself, which are not apart.
  by_cases hsame : a = b
  · rw [hsame]
  · have hne : Apart a b := hdistinct.forall (hperm.mem_iff.1 ha) (hperm.mem_iff.1 hb) hsame
    exact Grid.modifyCell_comm hne now _ _

/-- Items of one table lead to the page on which all of them are written in it. -/
theorem exists_writtenInTurn
    {selector : TableSelector} {page : Page} (h : page.Named selector number rows before behind)
    (hselector : ∀ item ∈ items, item.2.1.table = selector)
    (htakes : ∀ item ∈ items, rows.Takes item.2.1) :
    ∃ page', page.WrittenInTurn items page' ∧
      Page.Named page' selector number (writeAll rows items) before behind := by
  induction items generalizing rows page with
  | nil => exact ⟨page, .nil page, h⟩
  | cons item rest ih =>
    obtain rfl := hselector item List.mem_cons_self
    have hfirst := htakes item List.mem_cons_self
    obtain ⟨next, hnext⟩ := h.exists_write hfirst item.2.2
    obtain ⟨page', hturn, hpage'⟩ := ih hnext
      (fun other hother => hselector other (List.mem_cons_of_mem _ hother))
      (fun other hother => (htakes other (List.mem_cons_of_mem _ hother)).write _ _)
    exact ⟨page', .cons (h.written hfirst hnext) hturn, hpage'⟩

/-- The edits of all items, read off one document that displays the page. -/
theorem exists_edits
    {selector : TableSelector} {page : Page} {d : Document} (hd : d.Displays front.length page)
    (h : page.Named selector number rows before behind)
    (hitems : ∀ item ∈ items, 0 < item.2.1.row ∧ 0 < item.2.1.column ∧ item.2.1.table = selector)
    (htakes : ∀ item ∈ items, rows.Takes item.2.1) :
    ∃ g, items.mapM (cellEdit d.tables) = .ok (items.map g) ∧
      ∀ item ∈ items, WritesItem front before rows g item := by
  have hedit : ∀ item ∈ items, ∃ edit, cellEdit d.tables item = .ok edit ∧
      WritesItem front before rows (fun _ => edit) item := by
    intro item hitem
    obtain ⟨hrow, hcolumn, rfl⟩ := hitems item hitem
    obtain ⟨cell, hcell, hends, -⟩ := htakes item hitem
    obtain ⟨t, found, htable, hfound, hatoms, hplaced⟩ := hd.exists_cell h hrow hcolumn hcell
    refine ⟨CellText.replaceWhole found item.2.2, ?_, cell, hcell, ?_⟩
    · simp only [cellEdit, htable, bind, Except.bind, hfound]
      rfl
    · exact CellText.replaceWhole_writes hplaced (by omega) hatoms hends item.2.2
  refine ⟨fun item => (cellEdit d.tables item).toOption.getD ⟨0, []⟩, ?_, ?_⟩
  · clear hitems htakes
    induction items with
    | nil => rfl
    | cons item rest ih =>
      obtain ⟨edit, hok, -⟩ := hedit item List.mem_cons_self
      rw [List.mapM_cons, hok, ih fun other hother => hedit other (List.mem_cons_of_mem _ hother),
        List.map_cons, hok]
      rfl
  · intro item hitem
    obtain ⟨edit, hok, cell, hcell, hwrites⟩ := hedit item hitem
    refine ⟨cell, hcell, ?_⟩
    simp only [hok]
    exact hwrites

/-- What a batch of cells leaves, by the edits that are read off the document. -/
theorem exists_execute_replaceCellBatch
    (hs : s.service.Faithful front view) {w : World σ} {d : Document} {state : σ}
    (hfetch : s.service.fetch w.state = (.ok d, state)) (hview : view state = view w.state)
    {edits : List (EditGroup Request)} (hedits : items.mapM (cellEdit d.tables) = .ok edits)
    {page' : Page}
    (hcarry : Request.carryOutAll? (EditGroup.order edits) (front ++ Atom.unitsOf (view w.state)) =
      some (front ++ Atom.unitsOf page')) :
    ∃ w', (replaceCellBatch items).execute s w = (.ok edits.length, w') ∧
      view w'.state = page' := by
  obtain ⟨done, w', hrun, hend⟩ := (ensures_update hs hcarry).discard
    { w with state, log := w.log ++ [.fetch] } hview
  refine ⟨w', ?_, hend⟩
  unfold replaceCellBatch
  rw [Run.execute_bind_of_ok (Run.execute_fetch hfetch)]
  rw [Run.execute_bind_of_ok (Run.execute_ofTable hedits _ _)]
  rw [Run.execute_bind_of_ok hrun]
  rfl

/-- A batch writes its cells as if they were written one after another, when they are different
ones. -/
theorem ensures_replaceCellBatch
    (hs : s.service.Faithful front view) {selector : TableSelector}
    (hitems : ∀ item ∈ items, 0 < item.2.1.row ∧ 0 < item.2.1.column ∧ item.2.1.table = selector)
    (htakes : ∀ item ∈ items, rows.Takes item.2.1) (hdistinct : items.Pairwise Apart) :
    Run.Ensures s (fun w => (view w.state).Named selector number rows before behind)
      (replaceCellBatch items)
      fun count w => count = items.length ∧
        (view w.state).Named selector number (writeAll rows items) before behind := by
  intro w hw
  obtain ⟨d, state, hfetch, hview, hd⟩ := hs.fetch w.state
  obtain ⟨g, hedits, hwrites⟩ := exists_edits hd hw hitems htakes
  obtain ⟨sorted, hperm, hsort⟩ := EditGroup.exists_perm_sort_map g items
  -- Anchors fall along the batch and no cell is written twice, so it goes from the last cell to the
  -- first, and every edit still fits when its turn comes.
  have hfalling : sorted.Pairwise fun a b => Grid.Precedes b.2.1.index a.2.1.index := by
    have hanchors := EditGroup.pairwise_sort (items.map g)
    rw [hsort, List.pairwise_map] at hanchors
    have hapart := hperm.symm.pairwise hdistinct fun h => Ne.symm h
    refine (hanchors.and hapart).imp_of_mem ?_
    rintro a b ha hb ⟨hle, hne⟩
    exact precedes_of_anchor_le (hwrites a (hperm.mem_iff.1 ha)) (hwrites b (hperm.mem_iff.1 hb))
      hne hle
  obtain ⟨page', -, hpage'⟩ := exists_writtenInTurn hw
    (fun item hitem => (hitems item hitem).2.2) htakes
  have hcarry := carryOutAll?_sorted
    (fun item hitem => hwrites item (hperm.mem_iff.1 hitem)) hfalling behind
  rw [writeAll_perm hperm hdistinct, ← hw.around.units_eq, ← hpage'.around.units_eq, ← hsort]
    at hcarry
  obtain ⟨w', hrun, hend⟩ := exists_execute_replaceCellBatch hs hfetch hview hedits hcarry
  rw [List.length_map] at hrun
  refine ⟨items.length, w', hrun, rfl, ?_⟩
  rwa [hend]

/-! ## Units -/

theorem isChain_of_mem_units
    {queue unit : List Numbered} (h : unit ∈ Queues.units queue) :
    unit.IsChain fun a b => Queues.sameUnit a b = true := by
  induction queue generalizing unit with
  | nil => cases h
  | cons item rest ih =>
    rw [Queues.units] at h
    split at h
    next next more others hrest =>
      rw [hrest] at ih
      split at h
      next hsame =>
        rcases List.mem_cons.1 h with rfl | h
        · exact .cons_cons hsame (ih List.mem_cons_self)
        · exact ih (List.mem_cons_of_mem _ h)
      next =>
        rcases List.mem_cons.1 h with rfl | h
        · exact .singleton item
        · exact ih h
    next others _ =>
      rcases List.mem_cons.1 h with rfl | h
      · exact .singleton item
      · exact ih h

theorem exists_of_sameUnit
    {a b : Numbered} (h : Queues.sameUnit a b = true) :
    ∃ ref ref', a.expression.cells? = some ref ∧ WritesCell a.expression ref ∧
      b.expression.cells? = some ref' ∧ WritesCell b.expression ref' ∧ ref.table = ref'.table := by
  simp only [Queues.sameUnit, Bool.and_eq_true, beq_iff_eq] at h
  obtain ⟨⟨ha, hb⟩, htable⟩ := h
  obtain ⟨ref, href, hwrites⟩ := exists_writesCell ha
  obtain ⟨ref', href', hwrites'⟩ := exists_writesCell hb
  rw [href, href'] at htable
  exact ⟨ref, ref', href, hwrites, href', hwrites', Option.some.inj htable⟩

theorem writesTable_of_isChain
    {first : Numbered} {rest : List Numbered} {ref : CellRef}
    (hcells : first.expression.cells? = some ref) (hwrites : WritesCell first.expression ref)
    (h : (first :: rest).IsChain fun a b => Queues.sameUnit a b = true) :
    WritesTable ref.table (first :: rest) := by
  intro item hitem
  induction rest generalizing first ref with
  | nil =>
    rw [List.mem_singleton.1 hitem]
    exact ⟨ref, hcells, hwrites, rfl⟩
  | cons second rest ih =>
    rw [List.isChain_cons_cons] at h
    obtain ⟨ref₁, ref₂, hcells₁, -, hcells₂, hwrites₂, htable⟩ := exists_of_sameUnit h.1
    rw [hcells] at hcells₁
    cases hcells₁
    rcases List.mem_cons.1 hitem with rfl | hitem
    · exact ⟨ref, hcells, hwrites, rfl⟩
    · rw [htable]
      exact ih hcells₂ hwrites₂ h.2 hitem

/-- A unit of several items writes single cells of one table. -/
theorem exists_writesTable
    {queue unit : List Numbered} (hunit : unit ∈ Queues.units queue) (hmany : 2 ≤ unit.length) :
    ∃ selector, WritesTable selector unit := by
  have hchain := isChain_of_mem_units hunit
  match unit, hmany, hchain with
  | first :: second :: rest, _, hchain =>
    have hpair := List.isChain_cons_cons.1 hchain
    obtain ⟨ref, -, hcells, hwrites, -⟩ := exists_of_sameUnit hpair.1
    exact ⟨ref.table, writesTable_of_isChain hcells hwrites hchain⟩

theorem exists_of_mem_unitItems
    {unit : List Numbered} {selector : TableSelector} (h : WritesTable selector unit)
    {item : Nat × CellRef × Text} (hitem : item ∈ unitItems unit) :
    0 < item.2.1.row ∧ 0 < item.2.1.column ∧ item.2.1.table = selector := by
  obtain ⟨source, hsource, hmap⟩ := List.mem_filterMap.1 hitem
  obtain ⟨ref, hcells, hwrites, htable⟩ := h source hsource
  rw [hcells] at hmap
  cases hmap
  exact ⟨hwrites.row, hwrites.column, htable⟩

theorem length_unitItems
    {unit : List Numbered} {selector : TableSelector} (h : WritesTable selector unit) :
    (unitItems unit).length = unit.length := by
  induction unit with
  | nil => rfl
  | cons item rest ih =>
    obtain ⟨ref, hcells, -⟩ := h item List.mem_cons_self
    rw [unitItems_cons hcells, List.length_cons, List.length_cons,
      ih fun other hother => h other (List.mem_cons_of_mem _ hother)]

/-- The table that the items of a unit name, and what is around it. -/
theorem exists_named
    (hs : s.service.Faithful front view) {w : World σ} {selector : TableSelector}
    (hne : items ≠ []) (hselector : ∀ item ∈ items, item.2.1.table = selector)
    (hcells : ∀ item ∈ items, ∃ cell, (view w.state).cell? item.2.1 = some cell ∧ cell.EndsLine ∧
      (Atom.tablesOf cell = [] ∨ item.2.1.table.FromStart)) :
    ∃ number rows before behind, (view w.state).Named selector number rows before behind ∧
      ∀ item ∈ items, rows.Takes item.2.1 := by
  have hlookup : ∀ item ∈ items, ∃ number rows cell,
      selector.number? (Atom.tablesOf (view w.state)).length = some number ∧
      (Atom.tablesOf (view w.state))[number]? = some rows ∧
      rows.cell? item.2.1.index = some cell ∧ cell.EndsLine ∧
      (Atom.tablesOf cell = [] ∨ item.2.1.table.FromStart) := by
    intro item hitem
    obtain ⟨cell, hcell, hends, htables⟩ := hcells item hitem
    obtain rfl := hselector item hitem
    obtain ⟨number, hnumber, hcell⟩ := Option.bind_eq_some_iff.1 hcell
    obtain ⟨rows, hrows, hcell⟩ := Option.bind_eq_some_iff.1 hcell
    exact ⟨number, rows, cell, hnumber, hrows, hcell, hends, htables⟩
  obtain ⟨first, hfirst⟩ := List.exists_mem_of_ne_nil _ hne
  obtain ⟨number, rows, -, hnumber, hrows, -⟩ := hlookup first hfirst
  obtain ⟨d, -, -, -, hd⟩ := hs.fetch w.state
  have htable := hrows
  rw [← hd.atoms, Element.tables_atomsOf, List.getElem?_map, Option.map_eq_some_iff] at htable
  obtain ⟨t, ht, rfl⟩ := htable
  obtain ⟨before, behind, haround, -⟩ := Element.exists_around_list _ hd.placed ht
  rw [hd.atoms] at haround
  refine ⟨number, _, before, behind, ⟨haround, hnumber⟩, ?_⟩
  intro item hitem
  obtain ⟨number', rows', cell, hnumber', hrows', hcell⟩ := hlookup item hitem
  rw [hnumber] at hnumber'
  cases hnumber'
  rw [hrows] at hrows'
  cases hrows'
  exact ⟨cell, hcell⟩

/-- Writing the cells of a unit in one batch leaves the same page as running its items one after
another, each on a fresh copy of the document: the table of the unit with every cell written over in
turn, and the rest of the page as it was.  All cells have to be there, and no two items may write
the same one. -/
theorem replaceCellBatch_same_as_runEach [CharNames]
    (hs : s.service.Faithful front view) {queue unit : List Numbered}
    (hunit : unit ∈ Queues.units queue) (hmany : 2 ≤ unit.length) (w : World σ)
    (hcells : ∀ item ∈ unitItems unit, ∃ cell, (view w.state).cell? item.2.1 = some cell ∧
      cell.EndsLine ∧ (Atom.tablesOf cell = [] ∨ item.2.1.table.FromStart))
    (hdistinct : (unitItems unit).Pairwise fun a b =>
      (a.2.1.row, a.2.1.column) ≠ (b.2.1.row, b.2.1.column)) :
    ∃ w₁ w₂, (replaceCellBatch (unitItems unit)).execute s w = (.ok unit.length, w₁) ∧
      (runEach unit runTarget).execute s w = (.ok unit.length, w₂) ∧
      view w₁.state = view w₂.state ∧
      ∃ selector number rows before behind,
        (view w.state).Named selector number rows before behind ∧
        (view w₁.state).Named selector number (writeAll rows (unitItems unit)) before behind := by
  obtain ⟨selector, hwrites⟩ := exists_writesTable hunit hmany
  have hitems : ∀ item ∈ unitItems unit, 0 < item.2.1.row ∧ 0 < item.2.1.column ∧
      item.2.1.table = selector := fun item hitem => exists_of_mem_unitItems hwrites hitem
  have hlength := length_unitItems hwrites
  have hne : unitItems unit ≠ [] := List.ne_nil_of_length_pos (by omega)
  have hapart : (unitItems unit).Pairwise Apart := by
    refine hdistinct.imp_of_mem ?_
    intro a b ha hb hne hsame
    obtain ⟨hrow, hcolumn, -⟩ := hitems a ha
    obtain ⟨hrow', hcolumn', -⟩ := hitems b hb
    obtain ⟨hfirst, hsecond⟩ := Prod.mk.inj hsame
    exact hne (Prod.ext (by simp only []; omega) (by simp only []; omega))
  obtain ⟨number, rows, before, behind, hnamed, htakes⟩ := exists_named hs hne
    (fun item hitem => (hitems item hitem).2.2) hcells
  obtain ⟨count₁, w₁, hrun₁, rfl, hend₁⟩ :=
    ensures_replaceCellBatch hs hitems htakes hapart w hnamed
  obtain ⟨page', hturn, hpage'⟩ := exists_writtenInTurn hnamed
    (fun item hitem => (hitems item hitem).2.2) htakes
  obtain ⟨count₂, w₂, hrun₂, rfl, hend₂⟩ := ensures_runEach hs hwrites hturn w rfl
  rw [hlength] at hrun₁
  exact ⟨w₁, w₂, hrun₁, hrun₂, (hend₁.eq_of_named hpage').trans hend₂.symm, selector, number, rows,
    before, behind, hnamed, hend₁⟩

/-- A cell in the first row of a table. -/
def rowCell (table column : Int) : CellRef where
  table := .position table
  row := 1
  column

def rowWrite (table column : Int) (template : Text) : Expression where
  pattern := []
  replacement := template
  target := .cells (rowCell table column)
  raw := []

/-- A row of cells with text only. -/
def textRow (cells : List Text) : List Page :=
  cells.map (·.map .char)

/-- A page with one table between two empty lines. -/
def tablePage (rows : Grid) : Page :=
  [.char '\n', .table rows, .char '\n']

noncomputable def pageSession : Session Page where
  service := .ofPage [.object []]
  settings := {}

def rowWorld : World Page where
  state := tablePage [textRow ["abc\n".toList, "d\n".toList]]

/-- Writes over both cells of the row. -/
def rowWrites : List Numbered :=
  [⟨0, rowWrite 1 1 ['x']⟩, ⟨1, rowWrite 1 2 ['y']⟩]

attribute [local instance] CharNames.none

theorem replaceCellBatch_same_as_runEach_rowWrites :
    ∃ w₁ w₂, (replaceCellBatch (unitItems rowWrites)).execute pageSession rowWorld = (.ok 2, w₁) ∧
      (runEach rowWrites runTarget).execute pageSession rowWorld = (.ok 2, w₂) ∧
      w₁.state = w₂.state ∧
      (Atom.tablesOf w₁.state)[0]? = some [textRow ["x\n".toList, "y\n".toList]] := by
  have hunit : rowWrites ∈ Queues.units rowWrites := List.mem_cons_self
  have hcells : ∀ item ∈ unitItems rowWrites, ∃ cell,
      (id rowWorld.state).cell? item.2.1 = some cell ∧ cell.EndsLine ∧
        (Atom.tablesOf cell = [] ∨ item.2.1.table.FromStart) := by
    intro item hitem
    rcases List.mem_cons.1 hitem with rfl | hitem
    · exact ⟨_, rfl, rfl, .inl rfl⟩
    · rw [List.mem_singleton.1 hitem]
      exact ⟨_, rfl, rfl, .inl rfl⟩
  obtain ⟨w₁, w₂, hbatch, heach, hsame, selector, number, rows, before, behind, hnamed, hend⟩ :=
    replaceCellBatch_same_as_runEach (s := pageSession) (Service.faithful_ofPage _) hunit
      (Nat.le_refl 2) rowWorld hcells (List.pairwise_pair.2 (by decide))
  have hnumber : number = 0 := Nat.lt_one_iff.1 (TableSelector.lt_of_number? hnamed.number)
  subst hnumber
  have hrows := Option.some.inj hnamed.around.getElem?_tablesOf
  subst hrows
  exact ⟨w₁, w₂, hbatch, heach, hsame, hend.around.getElem?_tablesOf⟩

/-- Writes over the first cell of the row, both of them. -/
def repeatedWrites : List Numbered :=
  [⟨0, rowWrite 1 1 ['x']⟩, ⟨1, rowWrite 1 1 ['y']⟩]

/-- A page with a row of two cells, and a second one whose first cell holds a table. -/
def nestedPage (second : List Page) (cell : Text) : Page :=
  [.char '\n', .table [textRow ["a\n".toList, cell]], .char '\n', .table [second], .char '\n']

def nestedWorld : World Page where
  state := nestedPage [[.char 'u', .char '\n', .table [textRow ["n\n".toList]], .char '\n'],
    "d\n".toList.map .char] "b\n".toList

/-- Writes over both cells of the last table but one. -/
def writesFromLast : List Numbered :=
  [⟨0, rowWrite (-2) 1 ['x']⟩, ⟨1, rowWrite (-2) 2 ['y']⟩]

/-- Two ways in which a batch is not what its items do one after another.  The second of two writes
over one cell deletes as much as the cell had at first, which reaches into the next cell.  And where
tables are counted from the last one, a write that deletes a table makes the next item name another
one, but only when the items are run by themselves. -/
theorem replaceCellBatch_differs_from_runEach :
    (repeatedWrites ∈ Queues.units repeatedWrites ∧
      (∃ w, (replaceCellBatch (unitItems repeatedWrites)).execute pageSession rowWorld =
          (.ok 2, w) ∧
        w.state = tablePage [textRow ["yd\n".toList]]) ∧
      ∃ w, (runEach repeatedWrites runTarget).execute pageSession rowWorld = (.ok 2, w) ∧
        w.state = tablePage [textRow ["y\n".toList, "d\n".toList]]) ∧
    writesFromLast ∈ Queues.units writesFromLast ∧
      (∃ w, (replaceCellBatch (unitItems writesFromLast)).execute pageSession nestedWorld =
          (.ok 2, w) ∧
        w.state = nestedPage (textRow ["x\n".toList, "y\n".toList]) "b\n".toList) ∧
      ∃ w, (runEach writesFromLast runTarget).execute pageSession nestedWorld = (.ok 2, w) ∧
        w.state = nestedPage (textRow ["x\n".toList, "d\n".toList]) "y\n".toList := by
  have hs : pageSession.service.Faithful [.object []] id := Service.faithful_ofPage _
  have hrepeated : repeatedWrites ∈ Queues.units repeatedWrites := List.mem_cons_self
  have hlast : writesFromLast ∈ Queues.units writesFromLast := List.mem_cons_self
  refine ⟨⟨hrepeated, ?_, ?_⟩, hlast, ?_, ?_⟩
  · have hedits : (unitItems repeatedWrites).mapM
        (cellEdit (Document.ofPage 1 rowWorld.state).tables) =
          .ok [⟨5, [.delete 5 8, .insert 5 ['x']]⟩, ⟨5, [.delete 5 8, .insert 5 ['y']]⟩] := rfl
    -- The first write leaves two units in the cell, so the third one that the second write deletes
    -- is the mark of the next cell.
    exact exists_execute_replaceCellBatch hs rfl rfl hedits rfl
  · obtain ⟨selector, hwrites⟩ := exists_writesTable hrepeated (Nat.le_refl 2)
    have hfirst : Page.Written rowWorld.state (rowCell 1 1) ['x']
        (tablePage [textRow ["x\n".toList, "d\n".toList]]) :=
      Page.written_table [.char '\n'] [textRow ["abc\n".toList, "d\n".toList]] [.char '\n']
        (rowCell 1 1) rfl ⟨_, rfl, rfl⟩ _
    have hsecond : Page.Written (tablePage [textRow ["x\n".toList, "d\n".toList]]) (rowCell 1 1)
        ['y'] (tablePage [textRow ["y\n".toList, "d\n".toList]]) :=
      Page.written_table [.char '\n'] [textRow ["x\n".toList, "d\n".toList]] [.char '\n']
        (rowCell 1 1) rfl ⟨_, rfl, rfl⟩ _
    have hturn : Page.WrittenInTurn rowWorld.state (unitItems repeatedWrites) _ :=
      .cons hfirst (.cons hsecond (.nil _))
    obtain ⟨count, w, hrun, rfl, hend⟩ := ensures_runEach hs hwrites hturn rowWorld rfl
    exact ⟨w, hrun, hend⟩
  · have hedits : (unitItems writesFromLast).mapM
        (cellEdit (Document.ofPage 1 nestedWorld.state).tables) =
          .ok [⟨15, [.delete 15 23, .insert 15 ['x']]⟩, ⟨25, [.delete 25 26, .insert 25 ['y']]⟩] :=
      rfl
    exact exists_execute_replaceCellBatch hs rfl rfl hedits rfl
  · obtain ⟨selector, hwrites⟩ := exists_writesTable hlast (Nat.le_refl 2)
    have hfirst : Page.Written nestedWorld.state (rowCell (-2) 1) ['x']
        (nestedPage (textRow ["x\n".toList, "d\n".toList]) "b\n".toList) :=
      Page.written_table [.char '\n', .table [textRow ["a\n".toList, "b\n".toList]], .char '\n']
        [[[.char 'u', .char '\n', .table [textRow ["n\n".toList]], .char '\n'],
          "d\n".toList.map .char]] [.char '\n'] (rowCell (-2) 1) rfl ⟨_, rfl, rfl⟩ _
    have hsecond : Page.Written (nestedPage (textRow ["x\n".toList, "d\n".toList]) "b\n".toList)
        (rowCell (-2) 2) ['y']
        (nestedPage (textRow ["x\n".toList, "d\n".toList]) "y\n".toList) :=
      Page.written_table [.char '\n'] [textRow ["a\n".toList, "b\n".toList]]
        [.char '\n', .table [textRow ["x\n".toList, "d\n".toList]], .char '\n']
        (rowCell (-2) 2) rfl ⟨_, rfl, rfl⟩ _
    have hturn : Page.WrittenInTurn nestedWorld.state (unitItems writesFromLast) _ :=
      .cons hfirst (.cons hsecond (.nil _))
    obtain ⟨count, w, hrun, rfl, hend⟩ := ensures_runEach hs hwrites hturn nestedWorld rfl
    exact ⟨w, hrun, hend⟩

end Session

end Redline
