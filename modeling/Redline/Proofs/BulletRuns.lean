import Mathlib.Data.List.Forall2
import Redline.Document.Bullets
import Redline.Proofs.Run

/-!
# Runs of list items

The items of a document fall into runs: a run opens with a listed item and takes in the listed items
behind it that have no style or the style of the run.  Whether a run has to be mended depends on the
tabs of its items only.  When the first run with a tab is mended, its items have one style and no
tab, and it neither joins with a run beside it nor falls apart, so one run with a tab less is left.
-/

namespace Redline

namespace Item

/-- The item is listed and has no style, or the given one. -/
def joins (preset : Preset) (i : Item) : Bool :=
  i.isListed && i.preset?.all (· == preset)

/-- The two items differ in their places at most. -/
def SameMarks (i j : Item) : Prop :=
  j.startsWithTab = i.startsWithTab ∧ j.preset? = i.preset?

/-- The item has a bullet of a style, and no tab. -/
def IsMended (preset : Preset) (i : Item) : Prop :=
  i.startsWithTab = false ∧ i.preset? = some preset

/-- The item has a part in a span. -/
def Meets (span : Span) (i : Item) : Prop :=
  i.start < span.stop ∧ span.start < i.stop

/-- What becomes of an item when bullets of a style are created over a span. -/
def Becomes (span : Span) (preset : Preset) (i j : Item) : Prop :=
  (i.Meets span → j.IsMended preset) ∧ (¬ i.Meets span → i.SameMarks j)

theorem not_meets_of_stop_le {span : Span} {i : Item} (h : i.stop ≤ span.start) :
    ¬ i.Meets span := by
  rintro ⟨-, hmeets⟩
  omega

theorem not_meets_of_le_start {span : Span} {i : Item} (h : span.stop ≤ i.start) :
    ¬ i.Meets span := by
  rintro ⟨hmeets, -⟩
  omega

/-- Items without a part in the span keep their marks. -/
theorem sameMarks_of_becomes
    {span : Span} {preset : Preset} {items items' : List Item}
    (h : List.Forall₂ (Becomes span preset) items items') (hmiss : ∀ i ∈ items, ¬ i.Meets span) :
    List.Forall₂ SameMarks items items' :=
  ((List.forall₂_and_left items items').2 ⟨hmiss, h⟩).imp fun _ _ hi => hi.2.2 hi.1

theorem SameMarks.isListed {i j : Item} (h : i.SameMarks j) : j.isListed = i.isListed := by
  simp only [Item.isListed, hasBullet, h.1, h.2]

theorem SameMarks.joins {i j : Item} (h : i.SameMarks j) (preset : Preset) :
    j.joins preset = i.joins preset := by
  rw [Item.joins, h.isListed, h.2, Item.joins]

theorem IsMended.isListed {preset : Preset} {i : Item} (h : i.IsMended preset) :
    i.isListed = true := by
  simp [Item.isListed, hasBullet, h.1, h.2]

theorem IsMended.joins {preset : Preset} {i : Item} (h : i.IsMended preset) (other : Preset) :
    i.joins other = (preset == other) := by
  simp [Item.joins, h.isListed, h.2]

/-- A listed item without a tab that joins a style has a bullet of that style. -/
theorem isMended_of_joins
    {preset : Preset} {i : Item} (h : i.joins preset = true) (htab : i.startsWithTab = false) :
    i.IsMended preset := by
  obtain ⟨hlisted, hstyle⟩ := Bool.and_eq_true_iff.1 h
  rw [Item.isListed, htab, Bool.false_or, hasBullet] at hlisted
  obtain ⟨p, hp⟩ := Option.isSome_iff_exists.1 hlisted
  rw [hp] at hstyle
  exact ⟨htab, hp.trans (congrArg some (eq_of_beq hstyle))⟩

end Item

namespace BulletRun

/-! ## The items of a run -/

@[simp]
theorem preset_foldl_add (items : List Item) (r : BulletRun) :
    (items.foldl add r).preset = r.preset := by
  induction items generalizing r with
  | nil => rfl
  | cons i rest ih => rw [List.foldl_cons, ih, add]

@[simp]
theorem start_foldl_add (items : List Item) (r : BulletRun) :
    (items.foldl add r).start = r.start := by
  induction items generalizing r with
  | nil => rfl
  | cons i rest ih => rw [List.foldl_cons, ih, add]

theorem hasTab_foldl_add (items : List Item) (r : BulletRun) :
    (items.foldl add r).hasTab = (r.hasTab || items.any (·.startsWithTab)) := by
  induction items generalizing r with
  | nil => rw [List.foldl_nil, List.any_nil, Bool.or_false]
  | cons i rest ih => rw [List.foldl_cons, ih, add, List.any_cons, Bool.or_assoc]

theorem joins_ofItem {i : Item} (h : i.isListed = true) : i.joins (ofItem i).preset = true := by
  rw [Item.joins, h, ofItem]
  cases i.preset? with
  | none => rfl
  | some p => simp

/-- An item that is listed opens a run, some items behind it join the run, and the next one does
not. -/
structure Opens (i : Item) (taken after : List Item) : Prop where
  listed : i.isListed = true
  taken : ∀ j ∈ taken, j.joins (ofItem i).preset = true
  after : ∀ j ∈ after.head?, j.joins (ofItem i).preset = false

/-- Every item of a run joins its style. -/
theorem Opens.joins_of_mem
    {i j : Item} {taken after : List Item} (h : Opens i taken after) (hj : j ∈ i :: taken) :
    j.joins (ofItem i).preset = true := by
  rcases List.mem_cons.1 hj with rfl | hj
  · exact joins_ofItem h.listed
  · exact h.taken j hj

/-- A run that is open takes in the items that join it, and the runs of the others follow. -/
theorem collect_some
    {r : BulletRun} {taken after : List Item} (htaken : ∀ j ∈ taken, j.joins r.preset = true)
    (hafter : ∀ j ∈ after.head?, j.joins r.preset = false) :
    collect (some r) (taken ++ after) = taken.foldl add r :: collect none after := by
  induction taken generalizing r with
  | nil =>
    cases after with
    | nil => rfl
    | cons j rest =>
      have hj := hafter j rfl
      rw [Item.joins] at hj
      rw [List.nil_append, List.foldl_nil, collect, collect]
      cases hlisted : j.isListed with
      | false => rfl
      | true =>
        rw [hlisted, Bool.true_and] at hj
        simp [accepts, hj]
  | cons j taken ih =>
    have hj := htaken j List.mem_cons_self
    obtain ⟨hlisted, hstyle⟩ := Bool.and_eq_true_iff.1 hj
    have hrest := ih (r := r.add j) (fun k hk => htaken k (List.mem_cons_of_mem j hk)) hafter
    rw [List.cons_append, collect, List.foldl_cons, ← hrest]
    simp [hlisted, accepts, hstyle]

theorem collect_of_opens {i : Item} {taken after : List Item} (h : Opens i taken after) :
    collect none (i :: (taken ++ after)) =
      taken.foldl add (ofItem i) :: collect none after := by
  rw [collect, ← collect_some h.taken h.after]
  simp [h.listed]

theorem collect_of_not_listed {i : Item} (h : i.isListed = false) (rest : List Item) :
    collect none (i :: rest) = collect none rest := by
  rw [collect]
  simp [h]

theorem exists_opens {i : Item} (h : i.isListed = true) (rest : List Item) :
    ∃ taken after, rest = taken ++ after ∧ Opens i taken after := by
  refine ⟨rest.takeWhile (·.joins (ofItem i).preset), rest.dropWhile (·.joins (ofItem i).preset),
    List.takeWhile_append_dropWhile.symm, h, List.all_eq_true.1 List.all_takeWhile, ?_⟩
  intro j hj
  have hnot := List.head?_dropWhile_not (·.joins (ofItem i).preset) rest
  rw [Option.mem_def.1 hj] at hnot
  exact hnot

/-- What holds of a list of items by its first item, when it is not listed, or by the run that it
opens, and of the items that follow, holds of every list. -/
theorem induction_by_run
    {motive : List Item → Prop} (nil : motive [])
    (pass : ∀ i rest, i.isListed = false → motive rest → motive (i :: rest))
    (run : ∀ i taken after, Opens i taken after → motive after → motive (i :: (taken ++ after)))
    (items : List Item) : motive items := by
  induction hn : items.length using Nat.strongRecOn generalizing items with
  | ind n ih =>
    subst hn
    cases items with
    | nil => exact nil
    | cons i rest =>
      cases hlisted : i.isListed with
      | false => exact pass i rest hlisted (ih rest.length (by simp) rest rfl)
      | true =>
        obtain ⟨taken, after, rfl, hopens⟩ := exists_opens hlisted rest
        refine run i taken after hopens (ih _ ?_ after rfl)
        rw [List.length_cons, List.length_append]
        omega

/-! ## Runs with a tab -/

/-- Every listed item is in a run. -/
theorem exists_run_of_mem
    {items : List Item} {i : Item} (hi : i ∈ items) (hlisted : i.isListed = true) :
    ∃ before opener taken after, items = before ++ opener :: (taken ++ after) ∧
      Opens opener taken after ∧ taken.foldl add (ofItem opener) ∈ collect none items ∧
      i ∈ opener :: taken := by
  induction items using induction_by_run with
  | nil => cases hi
  | pass j rest hj ih =>
    rcases List.mem_cons.1 hi with rfl | hi
    · rw [hj] at hlisted
      cases hlisted
    · obtain ⟨before, opener, taken, after, rfl, hopens, hmem, hrun⟩ := ih hi
      rw [collect_of_not_listed hj]
      exact ⟨j :: before, opener, taken, after, rfl, hopens, hmem, hrun⟩
  | run j taken after hopens ih =>
    rw [collect_of_opens hopens]
    rw [← List.cons_append] at hi
    rcases List.mem_append.1 hi with hi | hi
    · exact ⟨[], j, taken, after, rfl, hopens, List.mem_cons_self, hi⟩
    · obtain ⟨before, opener, taken', after', rfl, hopens', hmem, hrun⟩ := ih hi
      exact ⟨j :: (taken ++ before), opener, taken', after', by simp, hopens',
        List.mem_cons_of_mem _ hmem, hrun⟩

/-- A run has a tab when one of its items has one. -/
theorem hasTab_run_iff (i : Item) (taken : List Item) :
    (taken.foldl add (ofItem i)).hasTab = true ↔ ∃ j ∈ i :: taken, j.startsWithTab = true := by
  rw [hasTab_foldl_add, ← List.any_eq_true, List.any_cons]
  rfl

/-- An item with a tab is in a run with a tab. -/
theorem exists_hasTab
    {items : List Item} (h : ∃ i ∈ items, i.startsWithTab = true) :
    ∃ r ∈ collect none items, r.hasTab = true := by
  obtain ⟨i, hi, htab⟩ := h
  obtain ⟨-, opener, taken, -, -, -, hmem, hrun⟩ :=
    exists_run_of_mem hi (show i.isListed = true by rw [Item.isListed, htab, Bool.true_or])
  exact ⟨_, hmem, (hasTab_run_iff opener taken).2 ⟨i, hrun, htab⟩⟩

/-- A list that stands item by item for two lists in a row falls into two lists as well. -/
theorem exists_append_of_forall₂
    {α β : Type} {R : α → β → Prop} {xs ys : List α} {zs : List β}
    (h : List.Forall₂ R (xs ++ ys) zs) :
    ∃ xs' ys', zs = xs' ++ ys' ∧ List.Forall₂ R xs xs' ∧ List.Forall₂ R ys ys' := by
  induction xs generalizing zs with
  | nil => exact ⟨[], zs, rfl, .nil, h⟩
  | cons x xs ih =>
    obtain ⟨z, zs, hz, hzs, rfl⟩ := List.forall₂_cons_left_iff.1 h
    obtain ⟨xs', ys', rfl, hxs, hys⟩ := ih hzs
    exact ⟨z :: xs', ys', rfl, .cons hz hxs, hys⟩

theorem any_of_sameMarks
    {items items' : List Item} (h : List.Forall₂ Item.SameMarks items items') :
    items'.any (·.startsWithTab) = items.any (·.startsWithTab) := by
  induction h with
  | nil => rfl
  | cons hi _ ih => rw [List.any_cons, List.any_cons, hi.1, ih]

/-- The items of a run keep their marks, and the next one still does not join: the run has a tab as
before. -/
theorem collect_of_sameMarks
    {i i' : Item} {taken taken' after after' : List Item} (hopens : Opens i taken after)
    (hi : i.SameMarks i') (htaken : List.Forall₂ Item.SameMarks taken taken')
    (hafter : ∀ j ∈ after'.head?, j.joins (ofItem i).preset = false) :
    ∃ r, collect none (i' :: (taken' ++ after')) = r :: collect none after' ∧
      r.hasTab = (taken.foldl add (ofItem i)).hasTab := by
  have hpreset : (ofItem i').preset = (ofItem i).preset := by
    rw [ofItem, ofItem, hi.2]
  have hopens' : Opens i' taken' after' := by
    refine ⟨hi.isListed.trans hopens.listed, ?_, ?_⟩
    · intro j' hj'
      obtain ⟨j, hj, hmarks⟩ := exists_of_mem_forall₂ htaken hj'
      rw [hpreset, hmarks.joins, hopens.taken j hj]
    · rwa [hpreset]
  refine ⟨_, collect_of_opens hopens', ?_⟩
  rw [hasTab_foldl_add, hasTab_foldl_add, any_of_sameMarks htaken, ofItem, ofItem, hi.1]

/-- Items that are mended are a run without a tab, if the next one does not join. -/
theorem collect_of_isMended
    {preset : Preset} {i : Item} {taken after : List Item} (hi : i.IsMended preset)
    (htaken : ∀ j ∈ taken, j.IsMended preset) (hafter : ∀ j ∈ after.head?, j.joins preset = false) :
    ∃ r, collect none (i :: (taken ++ after)) = r :: collect none after ∧ r.hasTab = false := by
  have hpreset : (ofItem i).preset = preset := by
    rw [ofItem, hi.2, Option.getD_some]
  have hopens : Opens i taken after := by
    refine ⟨hi.isListed, fun j hj => ?_, by rwa [hpreset]⟩
    rw [(htaken j hj).joins, hpreset, beq_self_eq_true]
  refine ⟨_, collect_of_opens hopens, ?_⟩
  rw [hasTab_foldl_add, ofItem, hi.1, Bool.false_or, List.any_eq_false]
  intro j hj
  simp [(htaken j hj).1]

theorem joins_head_of_sameMarks
    {items items' : List Item} (h : List.Forall₂ Item.SameMarks items items') {preset : Preset}
    (hhead : ∀ j ∈ items.head?, j.joins preset = false) :
    ∀ j ∈ items'.head?, j.joins preset = false := by
  intro j hj
  cases h with
  | nil => cases hj
  | cons hmarks _ =>
    cases hj
    rw [hmarks.joins]
    exact hhead _ rfl

/-- The number of runs with a tab does not depend on the places of the items. -/
theorem countP_hasTab_of_sameMarks
    {items items' : List Item} (h : List.Forall₂ Item.SameMarks items items') :
    (collect none items').countP (·.hasTab) = (collect none items).countP (·.hasTab) := by
  induction items using induction_by_run generalizing items' with
  | nil =>
    cases h
    rfl
  | pass i rest hlisted ih =>
    obtain ⟨i', rest', hi, hrest, rfl⟩ := List.forall₂_cons_left_iff.1 h
    rw [collect_of_not_listed hlisted, collect_of_not_listed (hi.isListed.trans hlisted), ih hrest]
  | run i taken after hopens ih =>
    obtain ⟨i', rest', hi, hrest, rfl⟩ := List.forall₂_cons_left_iff.1 h
    obtain ⟨taken', after', rfl, htaken, hafter⟩ := exists_append_of_forall₂ hrest
    obtain ⟨r, hcollect, htab⟩ := collect_of_sameMarks hopens hi htaken
      (joins_head_of_sameMarks hafter hopens.after)
    rw [hcollect, collect_of_opens hopens, List.countP_cons, List.countP_cons, ih hafter, htab]

/-! ## Runs in their places -/

/-- Items in ascending places, none of them empty, and with more than its end behind a tab. -/
structure Placed (items : List Item) : Prop where
  ascending : items.Pairwise fun i j => i.stop ≤ j.start
  wide : ∀ i ∈ items, i.start < i.stop
  tab : ∀ i ∈ items, i.startsWithTab = true → i.start + 1 < i.stop

namespace Placed

variable {i j : Item} {taken after rest : List Item} {r : BulletRun}

theorem of_append_right {xs ys : List Item} (h : Placed (xs ++ ys)) : Placed ys :=
  ⟨(List.pairwise_append.1 h.ascending).2.1, fun i hi => h.wide i (List.mem_append_right xs hi),
    fun i hi => h.tab i (List.mem_append_right xs hi)⟩

theorem of_cons (h : Placed (i :: rest)) : Placed rest :=
  @of_append_right [i] rest h

theorem stop_le (h : Placed (i :: rest)) (hj : j ∈ rest) : i.stop ≤ j.start :=
  (List.pairwise_cons.1 h.ascending).1 j hj

end Placed

/-- Every run is opened by one of the items and takes in items behind it. -/
theorem exists_of_mem_collect
    {items : List Item} {r : BulletRun} (h : r ∈ collect none items) :
    ∃ before i taken after, items = before ++ i :: (taken ++ after) ∧ Opens i taken after ∧
      r = taken.foldl add (ofItem i) := by
  induction items using induction_by_run with
  | nil => cases h
  | pass i rest hlisted ih =>
    rw [collect_of_not_listed hlisted] at h
    obtain ⟨before, j, taken, after, rfl, hopens, hr⟩ := ih h
    exact ⟨i :: before, j, taken, after, rfl, hopens, hr⟩
  | run i taken after hopens ih =>
    rw [collect_of_opens hopens] at h
    rcases List.mem_cons.1 h with rfl | h
    · exact ⟨[], i, taken, after, rfl, hopens, rfl⟩
    · obtain ⟨before, j, taken', after', rfl, hopens', hr⟩ := ih h
      exact ⟨i :: (taken ++ before), j, taken', after', by simp, hopens', hr⟩

/-- A run starts where one of the items does. -/
theorem exists_start_of_mem
    {items : List Item} {r : BulletRun} (h : r ∈ collect none items) :
    ∃ i ∈ items, r.start = i.start := by
  obtain ⟨before, i, taken, after, rfl, -, rfl⟩ := exists_of_mem_collect h
  exact ⟨i, by simp, start_foldl_add taken _⟩

/-- A run stops before the end of its last item. -/
theorem exists_last_of_run (i : Item) (taken : List Item) :
    ∃ before last, i :: taken = before ++ [last] ∧
      (taken.foldl add (ofItem i)).stop = last.stop - 1 := by
  rcases List.eq_nil_or_concat' taken with rfl | ⟨before, last, rfl⟩
  · exact ⟨[], i, rfl, rfl⟩
  · refine ⟨i :: before, last, rfl, ?_⟩
    rw [List.foldl_append, List.foldl_cons, List.foldl_nil, add]

theorem exists_stop_of_mem
    {items : List Item} {r : BulletRun} (h : r ∈ collect none items) :
    ∃ i ∈ items, r.stop = i.stop - 1 := by
  obtain ⟨before, i, taken, after, rfl, -, rfl⟩ := exists_of_mem_collect h
  obtain ⟨front, last, hsplit, hstop⟩ := exists_last_of_run i taken
  refine ⟨last, ?_, hstop⟩
  rw [← List.cons_append, hsplit]
  simp

section Mending

variable {i : Item} {taken after : List Item}

/-- The places of a run go from the start of its first item to the end of its last one. -/
theorem bounds_of_run
    (h : Placed (i :: (taken ++ after))) {j : Item} (hj : j ∈ i :: taken) :
    (taken.foldl add (ofItem i)).start ≤ j.start ∧
      j.stop ≤ (taken.foldl add (ofItem i)).stop + 1 := by
  constructor
  · rw [start_foldl_add]
    rcases List.mem_cons.1 hj with rfl | hj
    · exact Int.le_refl _
    · have hstop := h.stop_le (List.mem_append_left after hj)
      have hwide := h.wide i List.mem_cons_self
      simp only [ofItem]
      omega
  · obtain ⟨before, last, hsplit, hstop⟩ := exists_last_of_run i taken
    rw [← List.cons_append, hsplit] at h
    rw [hsplit] at hj
    rcases List.mem_append.1 hj with hj | hj
    · have hascending := (List.pairwise_append.1 (List.pairwise_append.1 h.ascending).1).2.2 j hj
        last (List.mem_singleton_self last)
      have hwide := h.wide last (by simp)
      omega
    · rw [List.mem_singleton.1 hj]
      omega

/-- What follows a run starts behind it. -/
theorem stop_lt_of_after
    (h : (i :: (taken ++ after)).Pairwise fun i j => i.stop ≤ j.start) {j : Item} (hj : j ∈ after) :
    (taken.foldl add (ofItem i)).stop < j.start := by
  obtain ⟨before, last, hsplit, hstop⟩ := exists_last_of_run i taken
  rw [← List.cons_append, hsplit] at h
  have hbehind := (List.pairwise_append.1 h).2.2 last (by simp) j hj
  omega

/-- The span over which the bullets of a run are created. -/
def span (r : BulletRun) : Span :=
  ⟨r.start, r.stop⟩

/-- Every item of a run is mended when its bullets are created.  The span may miss the last item,
but only if that has no text, and then it has a bullet of the style of the run already. -/
theorem isMended_of_run
    (hopens : Opens i taken after) (h : Placed (i :: (taken ++ after))) {j j' : Item}
    (hj : j ∈ i :: taken)
    (hbecomes : j.Becomes (taken.foldl add (ofItem i)).span (ofItem i).preset j') :
    j'.IsMended (ofItem i).preset := by
  by_cases hmeets : j.Meets (taken.foldl add (ofItem i)).span
  · exact hbecomes.1 hmeets
  · have hbounds := bounds_of_run h hj
    have hmem : j ∈ i :: (taken ++ after) := by
      rw [← List.cons_append]
      exact List.mem_append_left after hj
    have hwide := h.wide j hmem
    have htab : j.startsWithTab = false := by
      by_contra htab
      have hlong := h.tab j hmem (by simpa using htab)
      simp only [Item.Meets, span] at hmeets
      omega
    obtain ⟨hsametab, hsamepreset⟩ := hbecomes.2 hmeets
    obtain ⟨-, hpreset⟩ := Item.isMended_of_joins (hopens.joins_of_mem hj) htab
    exact ⟨hsametab.trans htab, hsamepreset.trans hpreset⟩

/-- A run starts behind an item that stands before all items of it. -/
theorem stop_le_of_mem_collect
    {j : Item} {rest items : List Item} {r : BulletRun} (h : Placed (j :: rest))
    (hitems : ∀ k ∈ items, k ∈ rest) (hr : r ∈ collect none items) : j.stop ≤ r.start := by
  obtain ⟨k, hk, hstart⟩ := exists_start_of_mem hr
  rw [hstart]
  exact h.stop_le (hitems k hk)

/-- When the bullets of the first run with a tab are created, an item that opens the list joins no
style that it did not join before. -/
theorem joins_head_of_becomes
    {items items' : List Item} {r : BulletRun} {preset : Preset} (hplaced : Placed items)
    (hr : (collect none items).find? (·.hasTab) = some r)
    (h : List.Forall₂ (Item.Becomes r.span r.preset) items items')
    (hhead : ∀ j ∈ items.head?, j.joins preset = false) :
    ∀ j ∈ items'.head?, j.joins preset = false := by
  cases h with
  | nil => cases hr
  | @cons j j' rest rest' hbecomes hrest =>
    rintro _ ⟨⟩
    have hj := hhead j rfl
    have hsame : j.stop ≤ r.start → j'.joins preset = false := fun hstop => by
      rw [(hbecomes.2 (Item.not_meets_of_stop_le hstop)).joins, hj]
    cases hlisted : j.isListed with
    | false =>
      rw [collect_of_not_listed hlisted] at hr
      exact hsame (stop_le_of_mem_collect hplaced (fun _ hk => hk) (List.mem_of_find?_eq_some hr))
    | true =>
      obtain ⟨taken, after, rfl, hopens⟩ := exists_opens hlisted rest
      rw [collect_of_opens hopens] at hr
      by_cases htab : (taken.foldl add (ofItem j)).hasTab = true
      · -- The item opens the run that is mended, so it gets the style that it has.
        rw [List.find?_cons_of_pos htab] at hr
        obtain rfl := Option.some.inj hr
        rw [preset_foldl_add] at hbecomes
        rw [(isMended_of_run hopens hplaced List.mem_cons_self hbecomes).joins]
        refine beq_false_of_ne fun hpreset => ?_
        rw [← hpreset, joins_ofItem hlisted] at hj
        cases hj
      · rw [List.find?_cons_of_neg htab] at hr
        exact hsame (stop_le_of_mem_collect hplaced (fun k hk => List.mem_append_right taken hk)
          (List.mem_of_find?_eq_some hr))

/-- When the bullets of the first run with a tab are created, one run with a tab less is left. -/
theorem countP_hasTab_of_becomes
    {items items' : List Item} {r : BulletRun} (hplaced : Placed items)
    (hr : (collect none items).find? (·.hasTab) = some r)
    (h : List.Forall₂ (Item.Becomes r.span r.preset) items items') :
    (collect none items').countP (·.hasTab) + 1 = (collect none items).countP (·.hasTab) := by
  induction items using induction_by_run generalizing items' with
  | nil => cases hr
  | pass i rest hlisted ih =>
    obtain ⟨i', rest', hi, hrest, rfl⟩ := List.forall₂_cons_left_iff.1 h
    rw [collect_of_not_listed hlisted] at hr ⊢
    have hstop := stop_le_of_mem_collect hplaced (fun _ hk => hk) (List.mem_of_find?_eq_some hr)
    have hmarks := hi.2 (Item.not_meets_of_stop_le hstop)
    rw [collect_of_not_listed (hmarks.isListed.trans hlisted)]
    exact ih hplaced.of_cons hr hrest
  | run i taken after hopens ih =>
    obtain ⟨i', rest', hi, hrest, rfl⟩ := List.forall₂_cons_left_iff.1 h
    obtain ⟨taken', after', rfl, htaken, hafter⟩ := exists_append_of_forall₂ hrest
    rw [collect_of_opens hopens] at hr ⊢
    by_cases htab : (taken.foldl add (ofItem i)).hasTab = true
    · -- The run is the one that is mended, and nothing behind it changes.
      rw [List.find?_cons_of_pos htab] at hr
      obtain rfl := Option.some.inj hr
      rw [preset_foldl_add] at hi htaken hafter
      have hi' := isMended_of_run hopens hplaced List.mem_cons_self hi
      have htaken' : ∀ j' ∈ taken', j'.IsMended (ofItem i).preset := by
        intro j' hj'
        obtain ⟨j, hj, hbecomes⟩ := exists_of_mem_forall₂ htaken hj'
        exact isMended_of_run hopens hplaced (List.mem_cons_of_mem i hj) hbecomes
      have hsame := Item.sameMarks_of_becomes hafter fun j hj =>
        Item.not_meets_of_le_start (Int.le_of_lt (stop_lt_of_after hplaced.ascending hj))
      obtain ⟨r', hcollect, htab'⟩ := collect_of_isMended hi' htaken'
        (joins_head_of_sameMarks hsame hopens.after)
      rw [hcollect, List.countP_cons, List.countP_cons, countP_hasTab_of_sameMarks hsame,
        if_neg (by simp [htab']), if_pos htab]
    · -- The run has no tab, and the one that is mended follows.
      rw [List.find?_cons_of_neg htab] at hr
      obtain ⟨k, hk, hstart⟩ := exists_start_of_mem (List.mem_of_find?_eq_some hr)
      have hmiss : ∀ j ∈ i :: taken, ¬ j.Meets r.span := by
        intro j hj
        have hascending := hplaced.ascending
        rw [← List.cons_append] at hascending
        refine Item.not_meets_of_stop_le ?_
        rw [span, hstart]
        exact (List.pairwise_append.1 hascending).2.2 j hj k hk
      have hmarks := Item.sameMarks_of_becomes htaken fun j hj =>
        hmiss j (List.mem_cons_of_mem i hj)
      have hnext := joins_head_of_becomes hplaced.of_cons.of_append_right hr hafter hopens.after
      obtain ⟨r', hcollect, htab'⟩ := collect_of_sameMarks hopens
        (hi.2 (hmiss i List.mem_cons_self)) hmarks hnext
      have hcount := ih hplaced.of_cons.of_append_right hr hafter
      rw [hcollect, List.countP_cons, List.countP_cons, htab', ← hcount]
      simp [htab]

end Mending

/-! ## Runs to mend -/

section Places

variable {items : List Item} {r : BulletRun}

/-- A run has a style of its items, or discs. -/
theorem preset_of_mem_collect (h : r ∈ collect none items) :
    r.preset = .disc ∨ ∃ i ∈ items, i.preset? = some r.preset := by
  obtain ⟨before, i, taken, after, rfl, -, rfl⟩ := exists_of_mem_collect h
  rw [preset_foldl_add]
  cases hpreset : i.preset? with
  | none =>
    left
    rw [ofItem, hpreset]
    rfl
  | some preset =>
    refine .inr ⟨i, by simp, ?_⟩
    rw [ofItem, hpreset]
    rfl

/-- A run stops before the end of an item, and a run with a tab is not empty. -/
theorem places_of_mem_collect (hplaced : Placed items) (h : r ∈ collect none items) :
    (∃ i ∈ items, r.stop = i.stop - 1) ∧ (r.hasTab = true → r.start < r.stop) := by
  refine ⟨exists_stop_of_mem h, fun htab => ?_⟩
  obtain ⟨before, i, taken, after, rfl, -, rfl⟩ := exists_of_mem_collect h
  have hrun := hplaced.of_append_right
  obtain ⟨j, hj, hjtab⟩ := (hasTab_run_iff i taken).1 htab
  have hmem : j ∈ i :: (taken ++ after) := by
    rw [← List.cons_append]
    exact List.mem_append_left after hj
  have hlong := hrun.tab j hmem hjtab
  have hbounds := bounds_of_run hrun hj
  omega

/-- The runs within a limit that no item goes beyond are just those with a tab. -/
theorem filterMap_within?
    (hplaced : Placed items) {limit : Int} (hlimit : ∀ i ∈ items, i.stop - 1 ≤ limit) :
    (collect none items).filterMap (within? limit) = (collect none items).filter (·.hasTab) := by
  rw [← List.filterMap_eq_filter]
  apply List.filterMap_congr
  intro r hr
  obtain ⟨⟨i, hi, hstop⟩, hlong⟩ := places_of_mem_collect hplaced hr
  have hmin : min r.stop limit = r.stop := by
    have := hlimit i hi
    omega
  simp only [within?, hmin, Option.guard]
  by_cases htab : r.hasTab = true
  · rw [if_pos htab, if_pos (by simp [htab, hlong htab])]
  · rw [if_neg htab, if_neg (by simp [htab])]

end Places

end BulletRun

end Redline
