import Redline.Proofs.BulletRounds

/-!
# What bullet runs cover

The runs whose bullets are created again stand one behind the other.  A paragraph that a run touches
is one of its items as a whole, so it is listed, and if it has a bullet, that has the style of the
run.  No paragraph that waits for a bullet is left out.
-/

namespace Redline

namespace BulletRun

variable {items : List Item} {r : BulletRun} {j : Item}

/-- The item lies in the run, which ends before the last unit of its last item. -/
def Holds (r : BulletRun) (i : Item) : Prop :=
  r.start ≤ i.start ∧ i.stop - 1 ≤ r.stop

/-- Runs stand one behind the other, with the end of an item between them. -/
theorem pairwise_collect (hplaced : Placed items) :
    (collect none items).Pairwise fun a b => a.stop < b.start := by
  induction items using induction_by_run with
  | nil => exact .nil
  | pass i rest hlisted ih =>
    rw [collect_of_not_listed hlisted]
    exact ih hplaced.of_cons
  | run i taken after hopens ih =>
    rw [collect_of_opens hopens]
    refine .cons (fun b hb => ?_) (ih hplaced.of_cons.of_append_right)
    obtain ⟨k, hk, hstart⟩ := exists_start_of_mem hb
    rw [hstart]
    exact stop_lt_of_after hplaced.ascending hk

theorem holds_of_run
    {i : Item} {before taken after : List Item}
    (hplaced : Placed (before ++ i :: (taken ++ after))) (hj : j ∈ i :: taken) :
    (taken.foldl add (ofItem i)).Holds j := by
  obtain ⟨hstart, hstop⟩ := bounds_of_run hplaced.of_append_right hj
  exact ⟨hstart, by omega⟩

/-- An item that a run touches is one of its own. -/
theorem mem_run_of_meets
    {i : Item} {before taken after : List Item}
    (hascending : (before ++ i :: (taken ++ after)).Pairwise fun i j => i.stop ≤ j.start)
    (hj : j ∈ before ++ i :: (taken ++ after)) (h : j.Meets (taken.foldl add (ofItem i)).span) :
    j ∈ i :: taken := by
  obtain ⟨-, hrun, hacross⟩ := List.pairwise_append.1 hascending
  rcases List.mem_append.1 hj with hj | hj
  · refine absurd h (Item.not_meets_of_stop_le ?_)
    rw [span, start_foldl_add]
    exact hacross j hj i List.mem_cons_self
  · rw [← List.cons_append] at hj
    rcases List.mem_append.1 hj with hj | hj
    · exact hj
    · exact absurd h (Item.not_meets_of_le_start (Int.le_of_lt (stop_lt_of_after hrun hj)))

/-- An item that a run touches, or that lies in it, is one of its own. -/
theorem mem_run
    {i : Item} {before taken after : List Item}
    (hplaced : Placed (before ++ i :: (taken ++ after)))
    (hj : j ∈ before ++ i :: (taken ++ after))
    (h : j.Meets (taken.foldl add (ofItem i)).span ∨ (taken.foldl add (ofItem i)).Holds j) :
    j ∈ i :: taken := by
  rcases h with hmeets | ⟨hstart, hstop⟩
  · exact mem_run_of_meets hplaced.ascending hj hmeets
  have hwide := hplaced.wide j hj
  rw [start_foldl_add] at hstart
  rcases List.mem_append.1 hj with hj | hj
  · have hbefore := (List.pairwise_append.1 hplaced.ascending).2.2 j hj i List.mem_cons_self
    simp only [ofItem] at hstart
    omega
  · rw [← List.cons_append] at hj
    rcases List.mem_append.1 hj with hj | hj
    · exact hj
    · have hbehind := stop_lt_of_after hplaced.of_append_right.ascending hj
      omega

/-- An item that a run touches lies in it, and joins its style. -/
theorem joins_of_mem_collect
    (hplaced : Placed items) (hr : r ∈ collect none items) (hj : j ∈ items)
    (h : j.Meets r.span ∨ r.Holds j) :
    r.Holds j ∧ j.joins r.preset = true := by
  obtain ⟨before, i, taken, after, rfl, hopens, rfl⟩ := exists_of_mem_collect hr
  have hmem := mem_run hplaced hj h
  refine ⟨holds_of_run hplaced hmem, ?_⟩
  rw [preset_foldl_add]
  exact hopens.joins_of_mem hmem

theorem exists_tab_of_mem_collect
    (hplaced : Placed items) (hr : r ∈ collect none items) (htab : r.hasTab = true) :
    ∃ i ∈ items, r.Holds i ∧ i.startsWithTab = true := by
  obtain ⟨before, i, taken, after, rfl, -, rfl⟩ := exists_of_mem_collect hr
  obtain ⟨j, hj, hjtab⟩ := (hasTab_run_iff i taken).1 htab
  refine ⟨j, ?_, holds_of_run hplaced hj, hjtab⟩
  rw [← List.cons_append]
  exact List.mem_append_right before (List.mem_append_left after hj)

/-- An item with a tab lies in a run with a tab. -/
theorem exists_holds_of_tab
    (hplaced : Placed items) (hj : j ∈ items) (htab : j.startsWithTab = true) :
    ∃ r ∈ collect none items, r.hasTab = true ∧ r.Holds j := by
  obtain ⟨before, opener, taken, after, rfl, -, hr, hmem⟩ :=
    exists_run_of_mem hj (show j.isListed = true by rw [Item.isListed, htab, Bool.true_or])
  exact ⟨_, hr, (hasTab_run_iff opener taken).2 ⟨j, hmem, htab⟩, holds_of_run hplaced hmem⟩

end BulletRun

namespace Document

variable {d : Document}

/-- What counts of a paragraph of the document for its bullets. -/
def itemOf (d : Document) (p : PlacedParagraph) : Item :=
  { start := p.bounds.start
    stop := p.bounds.stop
    startsWithTab := p.paragraph.startsWithTab
    preset? := p.paragraph.list?.map d.presetOf }

theorem items_eq_map (d : Document) : d.items = d.topParagraphs.map d.itemOf :=
  rfl

theorem itemOf_mem_items {p : PlacedParagraph} (hp : p ∈ d.topParagraphs) :
    d.itemOf p ∈ d.items :=
  List.mem_map_of_mem hp

/-- A paragraph that joins a style is listed, and if it has a bullet, it has one of that style. -/
theorem listed_of_joins
    {p : PlacedParagraph} {preset : Preset} (h : (d.itemOf p).joins preset = true) :
    (p.paragraph.list?.isSome = true ∨ p.paragraph.startsWithTab = true) ∧
      ∀ list ∈ p.paragraph.list?, d.presetOf list = preset := by
  obtain ⟨hlisted, hstyle⟩ := Bool.and_eq_true_iff.1 h
  constructor
  · rcases Bool.or_eq_true_iff.1 hlisted with htab | hbullet
    · exact .inr htab
    · rw [Item.hasBullet, itemOf, Option.isSome_map] at hbullet
      exact .inl hbullet
  · intro list hlist
    rw [itemOf, Option.mem_def.1 hlist] at hstyle
    exact eq_of_beq hstyle

/-- The runs whose bullets are created again are in ascending order and apart.  Each of them lies
within the body and is not empty, holds a paragraph with a tab before it, and touches no paragraph
but those that lie in it as a whole, are listed, and have no bullet or one of the style of the run.
Every paragraph that waits for a bullet lies in one of the runs. -/
theorem bulletRuns_cover (h : d.Spread) :
    (d.bulletRuns.Pairwise fun r r' => r.start < r'.start ∧ r.stop ≤ r'.start) ∧
      (∀ r ∈ d.bulletRuns,
        r.start < r.stop ∧ r.stop ≤ d.bodyEnd - 1 ∧
          (∀ p ∈ d.topParagraphs, p.Meets r.span ∨ r.Holds (d.itemOf p) →
            r.Holds (d.itemOf p) ∧
              (p.paragraph.list?.isSome = true ∨ p.paragraph.startsWithTab = true) ∧
              ∀ list ∈ p.paragraph.list?, d.presetOf list = r.preset) ∧
          ∃ p ∈ d.topParagraphs, r.Holds (d.itemOf p) ∧ p.paragraph.startsWithTab = true) ∧
      ∀ p ∈ d.topParagraphs, p.paragraph.startsWithTab = true → p.paragraph.list? = none →
        ∃ r ∈ d.bulletRuns, r.start ≤ p.bounds.start ∧ p.bounds.stop - 1 ≤ r.stop := by
  have hplaced := h.placed
  refine ⟨?_, fun r hr => ?_, fun p hp htab hlist => ?_⟩
  · cases hpending : d.hasPendingBullets with
    | false =>
      rw [bulletRuns, hpending]
      exact .nil
    | true =>
      have hapart : d.bulletRuns.Pairwise fun r r' => r.stop < r'.start := by
        rw [h.bulletRuns_of_pending hpending]
        exact (BulletRun.pairwise_collect hplaced).filter _
      refine hapart.imp_of_mem fun {r r'} hr _ hlt => ?_
      have hlong := (h.places_of_mem_bulletRuns hr).1
      omega
  · obtain ⟨hlong, hinside, -⟩ := h.places_of_mem_bulletRuns hr
    obtain ⟨hmem, htab⟩ := (h.mem_bulletRuns_iff (pending_of_mem_bulletRuns hr)).1 hr
    refine ⟨hlong, by omega, fun p hp htouch => ?_, ?_⟩
    · obtain ⟨hholds, hjoins⟩ :=
        BulletRun.joins_of_mem_collect hplaced hmem (itemOf_mem_items hp) htouch
      exact ⟨hholds, listed_of_joins hjoins⟩
    · obtain ⟨i, hi, hholds, hitab⟩ := BulletRun.exists_tab_of_mem_collect hplaced hmem htab
      rw [items_eq_map] at hi
      obtain ⟨p, hp, rfl⟩ := List.mem_map.1 hi
      exact ⟨p, hp, hholds, hitab⟩
  · have hwaits : (d.itemOf p).isPending = true := by
      rw [Item.isPending, Item.hasBullet, itemOf, htab, hlist]
      rfl
    have hpending : d.hasPendingBullets = true :=
      List.any_eq_true.2 ⟨d.itemOf p, itemOf_mem_items hp, hwaits⟩
    obtain ⟨r, hr, hrtab, hholds⟩ :=
      BulletRun.exists_holds_of_tab hplaced (itemOf_mem_items hp) htab
    exact ⟨r, (h.mem_bulletRuns_iff hpending).2 ⟨hr, hrtab⟩, hholds⟩

/-- A numbered item with a nested one, a table, a line of text and a nested item by itself. -/
def gardenDocument : Document where
  body := ListLine.place 1 [⟨"fruit".toList, some true⟩, ⟨"\tapple".toList, none⟩] ++
    .table ⟨some 14, some 20⟩ [] :: ListLine.place 20 [⟨"and".toList, none⟩, ⟨"\tleaf".toList, none⟩]
  lists := [(ListLine.listName true, true)]

theorem bulletRuns_cover_gardenDocument :
    gardenDocument.Spread ∧
      gardenDocument.bulletRuns = [⟨1, 13, .numbered, true⟩, ⟨24, 29, .disc, true⟩] ∧
      (gardenDocument.bulletRuns.Pairwise fun r r' => r.start < r'.start ∧ r.stop ≤ r'.start) ∧
      ∃ r ∈ gardenDocument.bulletRuns, r.start ≤ 24 ∧ 30 - 1 ≤ r.stop := by
  have hspread : gardenDocument.Spread := ⟨by decide, by decide, by decide, by decide⟩
  obtain ⟨hapart, -, hwaiting⟩ := bulletRuns_cover hspread
  refine ⟨hspread, by decide, hapart, ?_⟩
  exact hwaiting ⟨⟨some 24, some 30⟩, ListLine.paragraph ⟨"\tleaf".toList, none⟩⟩
    (List.mem_of_getElem? (show gardenDocument.topParagraphs[3]? = some _ from rfl)) (by decide) rfl

end Document

end Redline
