import Redline.Proofs.Falling
import Redline.Proofs.Outline

/-!
# Documents in order

In a document as it is served, the elements of the body, the rows of a table, the cells of a row,
the elements of a cell and the text of a paragraph take up positions one behind the other, and what
stands in something takes up positions within it.  Walking through such a document then meets the
positions in order, however deep the tables are nested: the starts of the runs of text rise, those
of the tables do not fall, and a table comes before those in its cells.  The positions of rows and
cells are not kept, so they may be any that fit.
-/

namespace Redline

/-! ## One behind the other -/

/-- The items take up positions one behind the other, between a start and a stop. -/
inductive Successive {α : Type} (occupies : α → Int → Int → Prop) : List α → Int → Int → Prop where
  | nil {start stop : Int} (h : start ≤ stop) : Successive occupies [] start stop
  | cons {item : α} {items : List α} {start first last stop : Int} (hstart : start ≤ first)
      (hle : first ≤ last) (hitem : occupies item first last)
      (hitems : Successive occupies items last stop) :
      Successive occupies (item :: items) start stop

namespace Successive

variable {α : Type} {occupies : α → Int → Int → Prop} {start middle stop : Int}

theorem start_le_stop {items : List α} (h : Successive occupies items start stop) :
    start ≤ stop := by
  induction h with
  | nil h => exact h
  | cons hstart hle _ _ ih => exact Int.le_trans hstart (Int.le_trans hle ih)

theorem start_mono {items : List α} (h : Successive occupies items middle stop)
    (hle : start ≤ middle) : Successive occupies items start stop := by
  cases h with
  | nil h => exact .nil (Int.le_trans hle h)
  | cons hstart hfirst hitem hitems => exact .cons (Int.le_trans hle hstart) hfirst hitem hitems

theorem append {xs ys : List α} (hxs : Successive occupies xs start middle)
    (hys : Successive occupies ys middle stop) : Successive occupies (xs ++ ys) start stop := by
  induction hxs with
  | nil h => exact hys.start_mono h
  | cons hstart hle hitem _ ih => exact .cons hstart hle hitem (ih hys)

/-- Lists of items one behind the other are one list of them. -/
theorem flatten {lists : List (List α)} (h : Successive (Successive occupies) lists start stop) :
    Successive occupies lists.flatten start stop := by
  induction h with
  | nil h => exact .nil h
  | cons hstart _ hlist _ ih => exact (hlist.append ih).start_mono hstart

end Successive

/-- A piece takes up its positions, of which there is at least one. -/
structure Piece.Occupies (p : Piece) (first last : Int) : Prop where
  start : p.bounds.start = first
  stop : p.bounds.stop = last
  lt : first < last

/-- The pieces that have text. -/
def Paragraph.written (p : Paragraph) : List Piece :=
  p.pieces.filter fun piece => (Document.runOf? piece).isSome

namespace Element

/-- An element takes up its positions. -/
structure Occupies (e : Element) (first last : Int) : Prop where
  start : e.bounds.start = first
  stop : e.bounds.stop = last

/-- What stands in an element takes up positions one behind the other within it: the text of a
paragraph, or the rows of a table, the cells of each row, and the elements of each cell. -/
def KeepsOrder : Element → Prop
  | .paragraph b p => Successive Piece.Occupies p.written b.start b.stop
  | .table b rows => Successive (Successive (Successive Occupies)) rows b.start b.stop
  | .sectionBreak _ => True
  | .other _ => True

end Element

/-- The elements of the body take up positions one behind the other, and every element keeps the
order of what stands in it. -/
structure Document.InPlace (d : Document) : Prop where
  body : ∃ start stop, Successive Element.Occupies d.body start stop
  inside : ∀ path e, Element.atPath? d.body path = some e → e.KeepsOrder

/-! ## Elements -/

namespace Element

variable {elements : List Element} {start stop : Int}

theorem successive_children {e : Element} (h : e.KeepsOrder)
    (hle : e.bounds.start ≤ e.bounds.stop) :
    Successive Occupies e.children e.bounds.start e.bounds.stop := by
  cases e with
  | paragraph b p => exact .nil hle
  | table b rows => exact h.flatten.flatten
  | sectionBreak b => exact .nil hle
  | other b => exact .nil hle

/-- Only a table has something in its cells. -/
theorem isSome_table?_of_mem_outline {e : Element} {x : List Nat × Element}
    (h : x ∈ outline e.children) : e.table?.isSome = true := by
  have hnil : x ∉ outline [] := by
    rw [outline]
    exact List.not_mem_nil
  cases e with
  | paragraph b p => exact absurd h hnil
  | table b rows => rfl
  | sectionBreak b => exact absurd h hnil
  | other b => exact absurd h hnil

/-- What holds of all elements holds of the first one, of those in its cells and of the others. -/
theorem forall_mem_outline_cons {P : Element → Prop} {e : Element} {rest : List Element} :
    (∀ x ∈ outline (e :: rest), P x.2) ↔
      P e ∧ (∀ x ∈ outline e.children, P x.2) ∧ ∀ x ∈ outline rest, P x.2 := by
  rw [outline_cons, List.forall_mem_cons, List.forall_mem_append, List.forall_mem_map,
    List.forall_mem_map]
  rfl

/-- The first element and the others of a list that takes up positions one behind the other. -/
theorem Occupies.of_cons {e : Element} {rest : List Element}
    (h : Successive Occupies (e :: rest) start stop) :
    start ≤ e.bounds.start ∧ e.bounds.start ≤ e.bounds.stop ∧
      Successive Occupies rest e.bounds.stop stop := by
  cases h with
  | cons hstart hle hitem hitems =>
    rw [hitem.start, hitem.stop]
    exact ⟨hstart, hle, hitems⟩

/-- An element takes up positions between a start and a stop. -/
structure Within (start stop : Int) (e : Element) : Prop where
  start_le : start ≤ e.bounds.start
  le : e.bounds.start ≤ e.bounds.stop
  le_stop : e.bounds.stop ≤ stop

/-- Every element takes up positions within those of the whole list. -/
theorem within_of_mem_outline (h : Successive Occupies elements start stop)
    (hkeep : ∀ x ∈ outline elements, x.2.KeepsOrder) :
    ∀ x ∈ outline elements, Within start stop x.2 := by
  fun_induction outline elements generalizing start stop with
  | case1 => exact fun x hx => absurd hx List.not_mem_nil
  | case2 e rest ihchildren ihrest =>
    rw [← outline_cons] at hkeep ⊢
    obtain ⟨hfirst, hchildren, hrest⟩ := forall_mem_outline_cons.1 hkeep
    obtain ⟨hstart, hle, hsuccessive⟩ := Occupies.of_cons h
    have hstop := hsuccessive.start_le_stop
    refine forall_mem_outline_cons.2 ⟨⟨hstart, hle, hstop⟩, ?_, ?_⟩
    · intro x hx
      obtain ⟨hfrom, hx, hto⟩ := ihchildren (successive_children hfirst hle) hchildren x hx
      exact ⟨Int.le_trans hstart hfrom, hx, Int.le_trans hto hstop⟩
    · intro x hx
      obtain ⟨hfrom, hx, hto⟩ := ihrest hsuccessive hrest x hx
      exact ⟨Int.le_trans hstart (Int.le_trans hle hfrom), hx, hto⟩

/-- An element that comes later does not start earlier, and it starts behind the other one or stands
in its cells. -/
def Precedes (x y : List Nat × Element) : Prop :=
  x.2.bounds.start ≤ y.2.bounds.start ∧
    (x.2.table?.isSome = true ∧ x.1 <+: y.1 ∨ x.2.bounds.stop ≤ y.2.bounds.start)

theorem pairwise_outline_precedes (h : Successive Occupies elements start stop)
    (hkeep : ∀ x ∈ outline elements, x.2.KeepsOrder) : (outline elements).Pairwise Precedes := by
  fun_induction outline elements generalizing start stop with
  | case1 => exact .nil
  | case2 e rest ihchildren ihrest =>
    rw [← outline_cons] at hkeep ⊢
    obtain ⟨hfirst, hchildren, hrest⟩ := forall_mem_outline_cons.1 hkeep
    obtain ⟨hstart, hle, hsuccessive⟩ := Occupies.of_cons h
    have hinside := within_of_mem_outline (successive_children hfirst hle) hchildren
    have hbehind := within_of_mem_outline hsuccessive hrest
    apply pairwise_outline_cons
    · intro x hx
      refine ⟨(hinside x hx).start_le, .inl ⟨isSome_table?_of_mem_outline hx, ?_⟩⟩
      exact List.cons_prefix_cons.2 ⟨rfl, List.nil_prefix⟩
    · intro y hy
      have hstop : e.bounds.stop ≤ y.2.bounds.start := (hbehind y hy).start_le
      exact ⟨Int.le_trans hle hstop, .inr hstop⟩
    · intro x hx y hy
      have hstop : x.2.bounds.stop ≤ y.2.bounds.start :=
        Int.le_trans (hinside x hx).le_stop (hbehind y hy).start_le
      exact ⟨Int.le_trans (hinside x hx).le hstop, .inr hstop⟩
    · refine (ihchildren (successive_children hfirst hle) hchildren).imp ?_
      rintro x y ⟨hxy, hnested | hstop⟩
      · exact ⟨hxy, .inl ⟨hnested.1, List.cons_prefix_cons.2 ⟨rfl, hnested.2⟩⟩⟩
      · exact ⟨hxy, .inr hstop⟩
    · refine (ihrest hsuccessive hrest).imp_of_mem ?_
      rintro x y hx hy ⟨hxy, hnested | hstop⟩
      · refine ⟨hxy, .inl ⟨hnested.1, ?_⟩⟩
        exact (behindFirst_prefix_iff (ne_nil_of_mem_outline hy) (ne_nil_of_mem_outline hx)).2
          hnested.2
      · exact ⟨hxy, .inr hstop⟩

end Element

/-! ## Runs -/

namespace Piece

theorem start_of_runOf? {p : Piece} {r : Document.Run} (h : Document.runOf? p = some r) :
    r.start = p.bounds.start := by
  unfold Document.runOf? at h
  split at h
  · cases h
    rfl
  · cases h

/-- The runs of pieces one behind the other start one behind the other, within the pieces. -/
theorem runs_of_successive {pieces : List Piece} {start stop : Int}
    (h : Successive Occupies pieces start stop) :
    (pieces.filterMap Document.runOf?).Pairwise (fun r r' => r.start < r'.start) ∧
      ∀ r ∈ pieces.filterMap Document.runOf?, start ≤ r.start ∧ r.start < stop := by
  induction h with
  | nil h => exact ⟨.nil, fun r hr => absurd hr List.not_mem_nil⟩
  | @cons p pieces start first last stop hstart hle hitem hitems ih =>
    obtain ⟨hpairwise, hbounds⟩ := ih
    have hrest : ∀ r ∈ pieces.filterMap Document.runOf?, start ≤ r.start ∧ r.start < stop := by
      intro r hr
      obtain ⟨hfrom, hto⟩ := hbounds r hr
      exact ⟨Int.le_trans hstart (Int.le_trans hle hfrom), hto⟩
    cases hrun : Document.runOf? p with
    | none =>
      rw [List.filterMap_cons_none hrun]
      exact ⟨hpairwise, hrest⟩
    | some r =>
      have hfirst : r.start = first := (start_of_runOf? hrun).trans hitem.start
      rw [List.filterMap_cons_some hrun]
      constructor
      · refine .cons ?_ hpairwise
        intro r' hr'
        rw [hfirst]
        exact Int.lt_of_lt_of_le hitem.lt (hbounds r' hr').1
      · refine List.forall_mem_cons.2 ⟨?_, hrest⟩
        rw [hfirst]
        exact ⟨hstart, Int.lt_of_lt_of_le hitem.lt hitems.start_le_stop⟩

theorem filterMap_written (p : Paragraph) :
    p.written.filterMap Document.runOf? = p.pieces.filterMap Document.runOf? := by
  rw [Paragraph.written, List.filterMap_filter]
  congr 1
  funext piece
  cases Document.runOf? piece with
  | none => rfl
  | some r => rfl

end Piece

namespace Document

variable {d : Document}

/-- The paragraph at the end of a path. -/
def paragraphAt? (d : Document) (path : List Nat) : Option PlacedParagraph :=
  (Element.atPath? d.body path).bind Element.paragraph?

/-- The table at the end of a path. -/
def tableAt? (d : Document) (path : List Nat) : Option Table :=
  (Element.atPath? d.body path).bind Element.table?

/-- The run of text at a position in the paragraph at the end of a path. -/
def runAt? (d : Document) (place : List Nat × Nat) : Option Run :=
  ((d.paragraphAt? place.1).bind fun p => p.paragraph.pieces[place.2]?).bind runOf?

theorem exists_lists_runs (d : Document) :
    ∃ listed, Lists d.runAt? listed ∧ listed.map Prod.snd = d.runs := by
  let pieces (p : PlacedParagraph) : List Piece := p.paragraph.pieces
  have hparagraphs := (Element.lists_outline d.body).filterMap Element.paragraph?
  refine ⟨_, (hparagraphs.members pieces).filterMap runOf?, ?_⟩
  rw [Lists.map_snd_filterMap, Lists.map_snd_members, Lists.map_snd_filterMap,
    List.filterMap_flatMap, List.filterMap_map, runs, paragraphs,
    Element.paragraphsOf_eq_filterMap]
  rfl

theorem InPlace.keepsOrder (h : d.InPlace) : ∀ x ∈ Element.outline d.body, x.2.KeepsOrder :=
  fun x hx => h.inside x.1 x.2 (Element.mem_outline.1 hx)

theorem InPlace.pairwise_outline (h : d.InPlace) :
    (Element.outline d.body).Pairwise Element.Precedes := by
  obtain ⟨start, stop, hbody⟩ := h.body
  exact Element.pairwise_outline_precedes hbody h.keepsOrder

theorem eq_paragraph_of_paragraph? {e : Element} {p : PlacedParagraph}
    (h : e.paragraph? = some p) : e = .paragraph p.bounds p.paragraph := by
  cases e with
  | paragraph b q => cases h; rfl
  | table b rows => cases h
  | sectionBreak b => cases h
  | other b => cases h

theorem runs_of_paragraph? {e : Element} {p : PlacedParagraph} (hkeep : e.KeepsOrder)
    (h : e.paragraph? = some p) :
    (p.paragraph.pieces.filterMap runOf?).Pairwise (fun r r' => r.start < r'.start) ∧
      ∀ r ∈ p.paragraph.pieces.filterMap runOf?,
        e.bounds.start ≤ r.start ∧ r.start < e.bounds.stop := by
  rw [eq_paragraph_of_paragraph? h] at hkeep ⊢
  rw [← Piece.filterMap_written]
  exact Piece.runs_of_successive hkeep

theorem InPlace.pairwise_runs (h : d.InPlace) :
    d.runs.Pairwise fun r r' => r.start < r'.start := by
  rw [runs, paragraphs, Element.paragraphsOf_eq_filterMap, List.pairwise_flatMap]
  constructor
  · intro p hp
    obtain ⟨x, hx, hp⟩ := List.mem_filterMap.1 hp
    exact (runs_of_paragraph? (h.keepsOrder x hx) hp).1
  · rw [List.pairwise_filterMap]
    refine h.pairwise_outline.imp_of_mem ?_
    intro x y hx hy hprecedes p hp q hq r hr r' hr'
    have hbefore := (runs_of_paragraph? (h.keepsOrder x hx) hp).2 r hr
    have hafter := (runs_of_paragraph? (h.keepsOrder y hy) hq).2 r' hr'
    rcases hprecedes.2 with hnested | hstop
    · -- Nothing stands in the cells of a paragraph.
      rw [eq_paragraph_of_paragraph? hp] at hnested
      cases hnested.1
    · exact Int.lt_of_lt_of_le hbefore.2 (Int.le_trans hstop hafter.1)

/-- The tables with their paths. -/
def tableOutline (d : Document) : List (List Nat × Table) :=
  (Element.outline d.body).filterMap fun x => x.2.table?.map (Prod.mk x.1)

theorem map_snd_tableOutline (d : Document) : d.tableOutline.map Prod.snd = d.tables := by
  rw [tableOutline, Lists.map_snd_filterMap, List.filterMap_map, tables,
    Element.tablesOf_eq_filterMap]
  rfl

theorem topTables_eq (d : Document) :
    (d.tableOutline.filter fun x => x.1.length == 1).map Prod.snd = d.topTables := by
  have hfilter : d.tableOutline.filter (fun x => x.1.length == 1) =
      ((Element.outline d.body).filter fun x => x.1.length == 1).filterMap
        fun x => x.2.table?.map (Prod.mk x.1) := by
    rw [tableOutline, List.filter_filterMap, List.filterMap_filter]
    congr 1
    funext x
    cases x.2.table? with
    | none => simp
    | some t => simp [Option.filter]
  rw [hfilter, Lists.map_snd_filterMap, Element.outline_of_length_one]
  rfl

theorem InPlace.pairwise_tableOutline (h : d.InPlace) :
    d.tableOutline.Pairwise fun x y =>
      ¬ y.1 <+: x.1 ∧ x.2.bounds.start ≤ y.2.bounds.start ∧
        (x.1 <+: y.1 ∨ x.2.bounds.stop ≤ y.2.bounds.start) := by
  rw [tableOutline, List.pairwise_filterMap]
  refine ((Element.pairwise_outline_path d.body).and h.pairwise_outline).imp ?_
  rintro x y ⟨hpath, hstart, hplace⟩ x' hx y' hy
  obtain ⟨t, ht, rfl⟩ := Option.map_eq_some_iff.1 hx
  obtain ⟨t', ht', rfl⟩ := Option.map_eq_some_iff.1 hy
  rw [bounds_of_table? ht, bounds_of_table? ht'] at hstart hplace
  exact ⟨hpath, hstart, hplace.imp_left And.right⟩

/-- A walk through a document in place meets every run of text once, and their starts rise.  It
meets every table once and before those in its cells, and a table that comes later stands in the
cells of the one before or starts behind it.  The tables of the body are those that it meets at
paths of one position. -/
theorem walks_in_order (h : d.InPlace) :
    (∃ listed, Lists d.runAt? listed ∧ listed.map Prod.snd = d.runs) ∧
      d.runs.Pairwise (fun r r' => r.start < r'.start) ∧
      (∃ listed, Lists d.tableAt? listed ∧ listed.map Prod.snd = d.tables ∧
        listed.Pairwise (fun x y => ¬ y.1 <+: x.1 ∧ x.2.bounds.start ≤ y.2.bounds.start ∧
          (x.1 <+: y.1 ∨ x.2.bounds.stop ≤ y.2.bounds.start)) ∧
        (listed.filter fun x => x.1.length == 1).map Prod.snd = d.topTables) ∧
      d.topTables.Sublist d.tables := by
  refine ⟨exists_lists_runs d, h.pairwise_runs, ?_, ?_⟩
  · exact ⟨d.tableOutline, (Element.lists_outline d.body).filterMap Element.table?,
      map_snd_tableOutline d, h.pairwise_tableOutline, topTables_eq d⟩
  · rw [← topTables_eq d, ← map_snd_tableOutline d]
    exact List.filter_sublist.map Prod.snd

end Document

/-! ## A table in a table -/

/-- A paragraph of a letter and a newline. -/
def letterAt (place : Int) (c : Char) : Element :=
  .paragraph ⟨some place, some (place + 2)⟩
    { pieces := [⟨⟨some place, some (place + 2)⟩, .run [c, '\n']⟩] }

/-- A table of one cell. -/
def boxAt (place stop : Int) (content : List Element) : Element :=
  .table ⟨some place, some stop⟩ [[content]]

/-- A document with a table in the cell of another table. -/
def nestedTables : Document where
  body := [letterAt 1 'a', boxAt 3 12 [letterAt 5 'b', boxAt 7 12 [letterAt 10 'c']]]

theorem keepsOrder_letterAt (place : Int) (c : Char) : (letterAt place c).KeepsOrder := by
  have hlt : place < place + 2 := by omega
  exact .cons (Int.le_refl place) (Int.le_of_lt hlt) ⟨rfl, rfl, hlt⟩ (.nil (Int.le_refl _))

theorem keepsOrder_boxAt {place stop : Int} {content : List Element}
    (h : Successive Element.Occupies content (place + 2) stop) :
    (boxAt place stop content).KeepsOrder := by
  have hcell := h.start_le_stop
  have hrow : place ≤ place + 1 ∧ place + 1 ≤ place + 2 ∧ place + 1 ≤ stop := by omega
  exact .cons hrow.1 hrow.2.2 (.cons hrow.2.1 hcell h (.nil (Int.le_refl stop)))
    (.nil (Int.le_refl stop))

theorem inPlace_nestedTables : nestedTables.InPlace := by
  have hletter : Successive Element.Occupies [letterAt 10 'c'] (7 + 2) 12 :=
    .cons (by decide) (by decide) ⟨rfl, rfl⟩ (.nil (by decide))
  have hcell : Successive Element.Occupies [letterAt 5 'b', boxAt 7 12 [letterAt 10 'c']]
      (3 + 2) 12 :=
    .cons (by decide) (by decide) ⟨rfl, rfl⟩
      (.cons (by decide) (by decide) ⟨rfl, rfl⟩ (.nil (by decide)))
  have hbody : Successive Element.Occupies nestedTables.body 1 12 :=
    .cons (by decide) (by decide) ⟨rfl, rfl⟩
      (.cons (by decide) (by decide) ⟨rfl, rfl⟩ (.nil (by decide)))
  refine ⟨⟨1, 12, hbody⟩, ?_⟩
  have hnone : ∀ x ∈ Element.outline [], x.2.KeepsOrder := by
    rw [Element.outline]
    exact fun x hx => absurd hx List.not_mem_nil
  have hkeep : ∀ x ∈ Element.outline nestedTables.body, x.2.KeepsOrder := by
    refine Element.forall_mem_outline_cons.2 ⟨keepsOrder_letterAt 1 'a', hnone, ?_⟩
    refine Element.forall_mem_outline_cons.2 ⟨keepsOrder_boxAt hcell, ?_, hnone⟩
    refine Element.forall_mem_outline_cons.2 ⟨keepsOrder_letterAt 5 'b', hnone, ?_⟩
    refine Element.forall_mem_outline_cons.2 ⟨keepsOrder_boxAt hletter, ?_, hnone⟩
    exact Element.forall_mem_outline_cons.2 ⟨keepsOrder_letterAt 10 'c', hnone, hnone⟩
  exact fun path e hpath => hkeep (path, e) (Element.mem_outline.2 hpath)

theorem Document.walks_in_order_nestedTables :
    nestedTables.InPlace ∧
      nestedTables.runs.Pairwise (fun r r' => r.start < r'.start) ∧
      (∃ listed, Lists nestedTables.tableAt? listed ∧
        listed.map Prod.snd = nestedTables.tables) ∧
      nestedTables.topTables.Sublist nestedTables.tables := by
  obtain ⟨-, hruns, ⟨listed, hlists, htables, -⟩, htop⟩ :=
    Document.walks_in_order inPlace_nestedTables
  exact ⟨inPlace_nestedTables, hruns, ⟨listed, hlists, htables⟩, htop⟩

end Redline
