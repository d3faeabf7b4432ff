import Redline.Proofs.BulletCover
import Redline.Proofs.Falling

/-!
# What bullet runs reach across

Whether list paragraphs are neighbours is decided with everything else taken out of the body, but
the bullets are created over a part of the body as it is.  This module shows what a run of bullets
touches: of the paragraphs only listed ones, and of all other elements just those that stand between
two paragraphs of the run.  So bullets are created outside of lists exactly when a run has the
paragraphs on both sides of a table, a break or another such element.
-/

namespace Redline

namespace Element

/-- The element has a part in a span. -/
def Meets (span : Span) (e : Element) : Prop :=
  e.bounds.start < span.stop ∧ span.start < e.bounds.stop

/-- The element is a paragraph that has a bullet or starts with a tab. -/
def isListed (e : Element) : Bool :=
  e.paragraph?.any fun p => p.paragraph.list?.isSome || p.paragraph.startsWithTab

/-- The last paragraph of elements. -/
def lastParagraph? (elements : List Element) : Option PlacedParagraph :=
  (elements.filterMap paragraph?).getLast?

/-- The first paragraph of elements. -/
def firstParagraph? (elements : List Element) : Option PlacedParagraph :=
  (elements.filterMap paragraph?).head?

end Element

namespace BulletRun

variable {items : List Item} {r : BulletRun} {j : Item}

/-- An item that a run touches joins its style. -/
theorem joins_of_meets
    (hascending : items.Pairwise fun i j => i.stop ≤ j.start) (hr : r ∈ collect none items)
    (hj : j ∈ items) (hmeets : j.Meets r.span) : j.joins r.preset = true := by
  obtain ⟨before, i, taken, after, rfl, hopens, rfl⟩ := exists_of_mem_collect hr
  rw [preset_foldl_add]
  exact hopens.joins_of_mem (mem_run_of_meets hascending hj hmeets)

end BulletRun

namespace Document

variable {d : Document} {r : BulletRun} {e : Element} {before after : List Element}

theorem ascending_paragraphs {elements : List Element} (h : Element.InOrder elements) :
    (elements.filterMap Element.paragraph?).Pairwise fun p q => p.bounds.stop ≤ q.bounds.start := by
  rw [List.pairwise_filterMap]
  refine h.ascending.imp ?_
  intro e e' hle p hp q hq
  rw [bounds_of_paragraph? hp, bounds_of_paragraph? hq] at hle
  exact hle

theorem ascending_items (h : Element.InOrder d.body) :
    d.items.Pairwise fun i j => i.stop ≤ j.start := by
  rw [items, List.pairwise_map]
  exact ascending_paragraphs h

/-- No item goes beyond the body, so a run whose bullets have to be created is a run of items. -/
theorem mem_collect_of_mem_bulletRuns (h : Element.InOrder d.body) (hr : r ∈ d.bulletRuns) :
    r ∈ BulletRun.collect none d.items := by
  rw [bulletRuns, if_pos (pending_of_mem_bulletRuns hr)] at hr
  obtain ⟨run, hrun, hwithin⟩ := List.mem_filterMap.1 hr
  obtain ⟨i, hi, hstop⟩ := BulletRun.exists_stop_of_mem hrun
  obtain ⟨p, hp, rfl⟩ := List.mem_map.1 hi
  obtain ⟨e, he, hparagraph⟩ := List.mem_filterMap.1 hp
  have hinside := stop_le_bodyEnd h he
  rw [bounds_of_paragraph? hparagraph] at hinside
  have hmin : min run.stop (d.bodyEnd - 1) = run.stop := by
    simp only at hstop
    omega
  rw [BulletRun.within?, hmin] at hwithin
  split at hwithin
  · cases hwithin
    exact hrun
  · cases hwithin

/-- A run touches no paragraph that is not listed. -/
theorem isListed_of_meets
    (h : Element.InOrder d.body) (hr : r ∈ d.bulletRuns) (he : e ∈ d.body)
    {p : PlacedParagraph} (hp : e.paragraph? = some p) (hmeets : e.Meets r.span) :
    e.isListed = true := by
  have hitem : d.itemOf p ∈ d.items := itemOf_mem_items (List.mem_filterMap.2 ⟨e, he, hp⟩)
  have htouch : (d.itemOf p).Meets r.span := by
    rw [Element.Meets, bounds_of_paragraph? hp] at hmeets
    exact hmeets
  have hjoins := BulletRun.joins_of_meets (ascending_items h) (mem_collect_of_mem_bulletRuns h hr)
    hitem htouch
  rw [Element.isListed, hp, Option.any_some, Bool.or_eq_true]
  exact (listed_of_joins hjoins).1

/-! ## Between two paragraphs -/

/-- A run starts with a paragraph of the body and ends with one. -/
theorem exists_ends_of_mem_bulletRuns (h : Element.InOrder d.body) (hr : r ∈ d.bulletRuns) :
    (∃ p ∈ d.topParagraphs, r.start = p.bounds.start) ∧
      ∃ q ∈ d.topParagraphs, r.stop = q.bounds.stop - 1 := by
  have hmem := mem_collect_of_mem_bulletRuns h hr
  obtain ⟨i, hi, hstart⟩ := BulletRun.exists_start_of_mem hmem
  obtain ⟨j, hj, hstop⟩ := BulletRun.exists_stop_of_mem hmem
  obtain ⟨p, hp, rfl⟩ := List.mem_map.1 hi
  obtain ⟨q, hq, rfl⟩ := List.mem_map.1 hj
  exact ⟨⟨p, hp, hstart⟩, q, hq, hstop⟩

theorem topParagraphs_of_split (hbody : d.body = before ++ e :: after) (he : e.paragraph? = none) :
    d.topParagraphs =
      before.filterMap Element.paragraph? ++ after.filterMap Element.paragraph? := by
  rw [topParagraphs, hbody, List.filterMap_append, List.filterMap_cons_none he]

/-- The paragraphs before an element end before it, and those behind it start behind it. -/
theorem bounds_of_split
    (h : Element.InOrder d.body) (hbody : d.body = before ++ e :: after) :
    (∀ p ∈ before.filterMap Element.paragraph?,
        p.bounds.start < p.bounds.stop ∧ p.bounds.stop ≤ e.bounds.start) ∧
      ∀ q ∈ after.filterMap Element.paragraph?,
        e.bounds.stop ≤ q.bounds.start ∧ q.bounds.start < q.bounds.stop := by
  obtain ⟨hnonempty, hascending⟩ := h
  rw [hbody] at hnonempty hascending
  obtain ⟨-, hbehind, hacross⟩ := List.pairwise_append.1 hascending
  constructor
  · intro p hp
    obtain ⟨f, hf, hparagraph⟩ := List.mem_filterMap.1 hp
    rw [← bounds_of_paragraph? hparagraph]
    exact ⟨hnonempty f (List.mem_append_left _ hf), hacross f hf e List.mem_cons_self⟩
  · intro q hq
    obtain ⟨f, hf, hparagraph⟩ := List.mem_filterMap.1 hq
    rw [← bounds_of_paragraph? hparagraph]
    exact ⟨(List.pairwise_cons.1 hbehind).1 f hf,
      hnonempty f (List.mem_append_right before (List.mem_cons_of_mem e hf))⟩

/-- The paragraphs before an element do not start behind the last of them. -/
theorem start_le_last
    (h : Element.InOrder d.body) (hbody : d.body = before ++ e :: after) {p last : PlacedParagraph}
    (hp : p ∈ before.filterMap Element.paragraph?)
    (hlast : last ∈ Element.lastParagraph? before) : p.bounds.start ≤ last.bounds.start := by
  have hnonempty := ((bounds_of_split h hbody).1 p hp).1
  obtain ⟨front, hfront⟩ := List.getLast?_eq_some_iff.1 hlast
  have hsub : before.Sublist d.body := by
    rw [hbody]
    exact List.sublist_append_left before _
  have hascending := ascending_paragraphs (h.sublist hsub)
  rw [hfront] at hascending hp
  rcases List.mem_append.1 hp with hp | hp
  · have hstop := (List.pairwise_append.1 hascending).2.2 p hp last List.mem_cons_self
    omega
  · rw [List.mem_singleton.1 hp]

/-- The paragraphs behind an element do not end before the first of them. -/
theorem first_le_stop
    (h : Element.InOrder d.body) (hbody : d.body = before ++ e :: after)
    {first q : PlacedParagraph} (hfirst : first ∈ Element.firstParagraph? after)
    (hq : q ∈ after.filterMap Element.paragraph?) : first.bounds.stop ≤ q.bounds.stop := by
  have hnonempty := ((bounds_of_split h hbody).2 q hq).2
  obtain ⟨rest, hrest⟩ := List.head?_eq_some_iff.1 hfirst
  have hsub : after.Sublist d.body := by
    rw [hbody]
    exact (List.sublist_cons_self e after).trans (List.sublist_append_right before _)
  have hascending := ascending_paragraphs (h.sublist hsub)
  rw [hrest] at hascending hq
  rcases List.mem_cons.1 hq with rfl | hq
  · exact Int.le_refl _
  · have hstop := (List.pairwise_cons.1 hascending).1 q hq
    omega

/-- A run touches an element that is no paragraph exactly when it has the paragraphs beside it. -/
theorem meets_iff_of_not_paragraph
    (h : Element.InOrder d.body) (hr : r ∈ d.bulletRuns) (hbody : d.body = before ++ e :: after)
    (he : e.paragraph? = none) :
    e.Meets r.span ↔ ∃ p ∈ Element.lastParagraph? before, ∃ q ∈ Element.firstParagraph? after,
      r.Holds (d.itemOf p) ∧ r.Holds (d.itemOf q) := by
  have hwide : e.bounds.start < e.bounds.stop := h.nonempty e (by simp [hbody])
  obtain ⟨hbefore, hafter⟩ := bounds_of_split h hbody
  constructor
  · rintro ⟨hstart, hstop⟩
    obtain ⟨⟨p, hp, hpstart⟩, q, hq, hqstop⟩ := exists_ends_of_mem_bulletRuns h hr
    rw [topParagraphs_of_split hbody he] at hp hq
    simp only [BulletRun.span] at hstart hstop
    -- The run starts before the element and ends behind it.
    have hp : p ∈ before.filterMap Element.paragraph? := by
      rcases List.mem_append.1 hp with hp | hp
      · exact hp
      · have := (hafter p hp).1
        omega
    have hq : q ∈ after.filterMap Element.paragraph? := by
      rcases List.mem_append.1 hq with hq | hq
      · have := (hbefore q hq).2
        omega
      · exact hq
    obtain ⟨last, hlast⟩ : ∃ last, Element.lastParagraph? before = some last :=
      ⟨_, List.getLast?_eq_some_getLast (List.ne_nil_of_mem hp)⟩
    obtain ⟨first, hfirst⟩ : ∃ first, Element.firstParagraph? after = some first :=
      ⟨_, List.head?_eq_some_head (List.ne_nil_of_mem hq)⟩
    have hfrom := start_le_last h hbody hp hlast
    have hto := first_le_stop h hbody hfirst hq
    have hlastBounds := hbefore last (List.mem_of_getLast? hlast)
    have hfirstBounds := hafter first (List.mem_of_head? hfirst)
    refine ⟨last, hlast, first, hfirst, ⟨?_, ?_⟩, ?_, ?_⟩ <;> simp only [itemOf] <;> omega
  · rintro ⟨last, hlast, first, hfirst, ⟨hstart, -⟩, -, hstop⟩
    have hlastBounds := hbefore last (List.mem_of_getLast? hlast)
    have hfirstBounds := hafter first (List.mem_of_head? hfirst)
    simp only [itemOf] at hstart hstop
    exact ⟨by simp only [BulletRun.span]; omega, by simp only [BulletRun.span]; omega⟩

/-- Runs touch nothing but listed paragraphs exactly when no run has the paragraphs on both sides of
an element that is no paragraph. -/
theorem bulletRuns_touch_listed_iff (h : Element.InOrder d.body) :
    (∀ r ∈ d.bulletRuns, ∀ e ∈ d.body, e.Meets r.span → e.isListed = true) ↔
      ∀ r ∈ d.bulletRuns, ∀ before e after, d.body = before ++ e :: after → e.paragraph? = none →
        ∀ p ∈ Element.lastParagraph? before, ∀ q ∈ Element.firstParagraph? after,
          ¬ (r.Holds (d.itemOf p) ∧ r.Holds (d.itemOf q)) := by
  constructor
  · intro hlisted r hr before e after hbody he p hp q hq hholds
    have hmeets := (meets_iff_of_not_paragraph h hr hbody he).2 ⟨p, hp, q, hq, hholds⟩
    have hnot := hlisted r hr e (by simp [hbody]) hmeets
    rw [Element.isListed, he] at hnot
    cases hnot
  · intro happart r hr e he hmeets
    cases hparagraph : e.paragraph? with
    | some p => exact isListed_of_meets h hr he hparagraph hmeets
    | none =>
      obtain ⟨before, after, hbody⟩ := List.append_of_mem he
      obtain ⟨p, hp, q, hq, hholds⟩ := (meets_iff_of_not_paragraph h hr hbody hparagraph).1 hmeets
      exact absurd hholds (happart r hr before e after hbody hparagraph p hp q hq)

theorem bulletRuns_touch_listed_gardenDocument :
    Element.InOrder gardenDocument.body ∧
      (∀ r ∈ gardenDocument.bulletRuns, ∀ e ∈ gardenDocument.body, e.Meets r.span →
        e.isListed = true) ∧
      ∀ r ∈ gardenDocument.bulletRuns, ∀ before e after,
        gardenDocument.body = before ++ e :: after → e.paragraph? = none →
        ∀ p ∈ Element.lastParagraph? before, ∀ q ∈ Element.firstParagraph? after,
          ¬ (r.Holds (gardenDocument.itemOf p) ∧ r.Holds (gardenDocument.itemOf q)) := by
  have hinorder : Element.InOrder gardenDocument.body := by decide
  have hlisted : ∀ r ∈ gardenDocument.bulletRuns, ∀ e ∈ gardenDocument.body, e.Meets r.span →
      e.isListed = true := by
    unfold Element.Meets
    decide
  exact ⟨hinorder, hlisted, (bulletRuns_touch_listed_iff hinorder).1 hlisted⟩

/-- Two nested items with a table of one empty cell between them. -/
def dividedDocument : Document where
  body := ListLine.place 1 [⟨"\troot".toList, none⟩] ++
    .table ⟨some 7, some 12⟩ [[ListLine.place 10 [⟨[], none⟩]]] ::
    ListLine.place 12 [⟨"\tleaf".toList, none⟩]

/-- One run goes from the first item to the second, and the table is in it. -/
theorem bulletRuns_cross_dividedDocument :
    (dividedDocument.body.IsChain fun e e' => e'.bounds.start = e.bounds.stop) ∧
      Element.InOrder dividedDocument.body ∧
      dividedDocument.bulletRuns = [⟨1, 17, .disc, true⟩] ∧
      ∃ r ∈ dividedDocument.bulletRuns, ∃ e ∈ dividedDocument.body,
        e.Meets r.span ∧ e.isListed = false ∧ (e.table?).isSome = true := by
  refine ⟨by decide, by decide, by decide, ⟨1, 17, .disc, true⟩, by decide,
    .table ⟨some 7, some 12⟩ [[ListLine.place 10 [⟨[], none⟩]]],
    List.mem_of_getElem? (show dividedDocument.body[1]? = some _ from rfl), ?_, rfl, rfl⟩
  exact ⟨by decide, by decide⟩

end Document

end Redline
