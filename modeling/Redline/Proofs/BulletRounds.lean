import Mathlib.Data.List.Chain
import Mathlib.Data.List.DropRight
import Redline.Proofs.BulletRuns
import Redline.Proofs.LineDeletion
import Redline.Proofs.Refusal
import Redline.Proofs.Replacing
import Redline.Session.Bullets

/-!
# Bullets are created until none is missing

Bullets are created for one run of items after another, and the document is looked at anew in
between, since every run that is done moves what follows it.  This module shows that the rounds come
to an end: on a service that gives every paragraph of a span its bullet and uses up its tabs, each
round leaves one run with a tab less, so there are no more rounds than runs at the start, and at the
end no paragraph waits for a bullet.
-/

namespace Redline

/-! ## Documents of consecutive paragraphs -/

namespace Paragraph

/-- The first run of the paragraph starts with a tab. -/
def startsWithTab (p : Paragraph) : Bool :=
  p.firstRun?.any (Text.startsWith ['\t'])

/-- The text of a paragraph starts with its first run. -/
theorem exists_text_of_firstRun? {p : Paragraph} {first : Text} (h : p.firstRun? = some first) :
    ∃ rest, p.text = first ++ rest := by
  rw [firstRun?, List.findSome?_eq_some_iff] at h
  obtain ⟨before, piece, behind, hpieces, hpiece, hbefore⟩ := h
  have hnil : before.flatMap (fun piece => piece.run?.getD []) = [] := by
    rw [List.flatMap_eq_nil_iff]
    intro other hother
    rw [hbefore other hother, Option.getD_none]
  refine ⟨behind.flatMap fun piece => piece.run?.getD [], ?_⟩
  rw [text, hpieces, List.flatMap_append, hnil, List.nil_append, List.flatMap_cons, hpiece,
    Option.getD_some]

/-- A paragraph that ends its line has a part for the newline. -/
theorem one_le_units {p : Paragraph} (h : p.text.getLast? = some '\n') : 1 ≤ p.text.units := by
  obtain ⟨front, hfront⟩ := List.getLast?_eq_some_iff.1 h
  rw [hfront, Text.units_append]
  exact Nat.le_add_left _ _

/-- A paragraph that starts with a tab and ends its line has a part for each. -/
theorem two_le_units
    {p : Paragraph} (h : p.text.getLast? = some '\n') (htab : p.startsWithTab = true) :
    2 ≤ p.text.units := by
  obtain ⟨first, hfirst, htab⟩ := (Option.any_eq_true _ _).1 htab
  obtain ⟨behind, htext⟩ := exists_text_of_firstRun? hfirst
  rw [Text.eq_append_of_startsWith htab, List.append_assoc, List.singleton_append] at htext
  obtain ⟨front, hfront⟩ := List.getLast?_eq_some_iff.1 h
  rw [hfront] at htext
  cases front with
  | nil => cases htext
  | cons c front =>
    obtain ⟨rfl, -⟩ := List.cons.inj htext
    have hunits : p.text.units = 1 + Text.units front + 1 := by
      rw [hfront, Text.units_append]
      rfl
    omega

end Paragraph

namespace PlacedParagraph

/-- The paragraph has a part in a span. -/
def Meets (span : Span) (p : PlacedParagraph) : Prop :=
  p.bounds.start < span.stop ∧ span.start < p.bounds.stop

end PlacedParagraph

namespace Document

/-- The paragraphs of the body follow one another, each is as wide as its text, which ends with a
newline, and none of them goes beyond the end of the body. -/
structure LaidOut (d : Document) : Prop where
  consecutive : d.topParagraphs.IsChain fun p q => q.bounds.start = p.bounds.stop
  wide : ∀ p ∈ d.topParagraphs, p.bounds.stop = p.bounds.start + p.paragraph.text.units
  ended : ∀ p ∈ d.topParagraphs, p.paragraph.text.getLast? = some '\n'
  inside : ∀ p ∈ d.topParagraphs, p.bounds.stop ≤ d.bodyEnd

/-- The paragraphs of the body stand one behind the other within it, with or without something
between them, and each is as wide as its text, which ends with a newline. -/
structure Spread (d : Document) : Prop where
  ascending : d.topParagraphs.Pairwise fun p q => p.bounds.stop ≤ q.bounds.start
  wide : ∀ p ∈ d.topParagraphs, p.bounds.stop = p.bounds.start + p.paragraph.text.units
  ended : ∀ p ∈ d.topParagraphs, p.paragraph.text.getLast? = some '\n'
  inside : ∀ p ∈ d.topParagraphs, p.bounds.stop ≤ d.bodyEnd

variable {d d' : Document} {span : Span} {preset : Preset}

theorem ascending_of_isChain
    {ps : List PlacedParagraph}
    (hchain : ps.IsChain fun p q => q.bounds.start = p.bounds.stop)
    (hwide : ∀ p ∈ ps, p.bounds.start ≤ p.bounds.stop) :
    ps.Pairwise fun p q => p.bounds.stop ≤ q.bounds.start := by
  induction ps with
  | nil => exact .nil
  | cons p rest ih =>
    have hrest := ih (List.isChain_cons.1 hchain).2 fun q hq => hwide q (List.mem_cons_of_mem p hq)
    refine .cons ?_ hrest
    cases rest with
    | nil => simp
    | cons q rest =>
      have hq : q.bounds.start = p.bounds.stop := (List.isChain_cons.1 hchain).1 q rfl
      have hqwide := hwide q (by simp)
      intro r hr
      rcases List.mem_cons.1 hr with rfl | hr
      · omega
      · have hqr := (List.pairwise_cons.1 hrest).1 r hr
        omega

theorem LaidOut.spread (h : d.LaidOut) : d.Spread := by
  refine ⟨ascending_of_isChain h.consecutive fun p hp => ?_, h.wide, h.ended, h.inside⟩
  have hstop := h.wide p hp
  omega

/-- The items of a document of spread paragraphs are in ascending places. -/
theorem Spread.placed (h : d.Spread) : BulletRun.Placed d.items := by
  refine ⟨?_, ?_, ?_⟩
  · rw [items, List.pairwise_map]
    exact h.ascending
  · intro i hi
    obtain ⟨p, hp, rfl⟩ := List.mem_map.1 hi
    have hunits := Paragraph.one_le_units (h.ended p hp)
    have hstop := h.wide p hp
    simp only
    omega
  · intro i hi htab
    obtain ⟨p, hp, rfl⟩ := List.mem_map.1 hi
    have hunits := Paragraph.two_le_units (h.ended p hp) htab
    have hstop := h.wide p hp
    simp only
    omega

theorem pending_of_mem_bulletRuns {r : BulletRun} (h : r ∈ d.bulletRuns) :
    d.hasPendingBullets = true := by
  by_contra hpending
  rw [bulletRuns, if_neg hpending] at h
  cases h

/-- While a bullet is missing, the runs whose bullets have to be created are those with a tab. -/
theorem Spread.bulletRuns_of_pending (h : d.Spread) (hpending : d.hasPendingBullets = true) :
    d.bulletRuns = (BulletRun.collect none d.items).filter (·.hasTab) := by
  rw [bulletRuns, if_pos hpending, BulletRun.filterMap_within? h.placed]
  intro i hi
  obtain ⟨p, hp, rfl⟩ := List.mem_map.1 hi
  have hinside := h.inside p hp
  simp only
  omega

/-- A run whose bullets have to be created is one of the runs of items and has a tab. -/
theorem Spread.mem_bulletRuns_iff (h : d.Spread) (hpending : d.hasPendingBullets = true)
    {r : BulletRun} :
    r ∈ d.bulletRuns ↔ r ∈ BulletRun.collect none d.items ∧ r.hasTab = true := by
  rw [h.bulletRuns_of_pending hpending, List.mem_filter]

theorem LaidOut.length_bulletRuns_le (h : d.LaidOut) :
    d.bulletRuns.length ≤ (BulletRun.collect none d.items).countP (·.hasTab) := by
  cases hpending : d.hasPendingBullets with
  | false => simp [bulletRuns, hpending]
  | true => rw [h.spread.bulletRuns_of_pending hpending, List.countP_eq_length_filter]

/-- When no run is left, no bullet is missing. -/
theorem LaidOut.not_pending_of_bulletRuns (h : d.LaidOut) (hruns : d.bulletRuns = []) :
    d.hasPendingBullets = false := by
  by_contra hpending
  rw [Bool.not_eq_false] at hpending
  obtain ⟨i, hi, hwaits⟩ := List.any_eq_true.1 hpending
  have htab : i.startsWithTab = true := (Bool.and_eq_true_iff.1 hwaits).1
  obtain ⟨r, hr, hrtab⟩ := BulletRun.exists_hasTab ⟨i, hi, htab⟩
  rw [h.spread.bulletRuns_of_pending hpending, List.filter_eq_nil_iff] at hruns
  exact hruns r hr hrtab

/-! ## Creating bullets over a span -/

/-- The paragraph has got a bullet of a style, and its leading tabs are used up. -/
structure GetsBullet (d' : Document) (preset : Preset) (p q : PlacedParagraph) : Prop where
  style : q.paragraph.list?.map d'.presetOf = some preset
  text : q.paragraph.text = p.paragraph.text.dropWhile (· == '\t')
  tab : q.paragraph.startsWithTab = false

/-- The paragraph has the content and the style that it had, but maybe another place. -/
structure Stays (d d' : Document) (p q : PlacedParagraph) : Prop where
  style : q.paragraph.list?.map d'.presetOf = p.paragraph.list?.map d.presetOf
  content : q.paragraph.pieces.map (·.content) = p.paragraph.pieces.map (·.content)

/-- The second document comes of the first one when bullets are created over a span: the paragraphs
with a part in it get a bullet, and the others stay. -/
structure Bulleted (span : Span) (preset : Preset) (d d' : Document) : Prop where
  laidOut : d'.LaidOut
  paragraphs : List.Forall₂ (fun p q => (p.Meets span → GetsBullet d' preset p q) ∧
    (¬ p.Meets span → Stays d d' p q)) d.topParagraphs d'.topParagraphs

theorem Stays.startsWithTab {p q : PlacedParagraph} (h : Stays d d' p q) :
    q.paragraph.startsWithTab = p.paragraph.startsWithTab := by
  have hfirst : ∀ pieces : List Piece, pieces.findSome? Piece.run? =
      (pieces.map (·.content)).findSome? fun content => Piece.run? ⟨{}, content⟩ := by
    intro pieces
    rw [List.findSome?_map]
    rfl
  rw [Paragraph.startsWithTab, Paragraph.firstRun?, hfirst, h.content, ← hfirst]
  rfl

theorem Bulleted.items (h : Bulleted span preset d d') :
    List.Forall₂ (Item.Becomes span preset) d.items d'.items := by
  rw [Document.items, Document.items, List.forall₂_map_left_iff, List.forall₂_map_right_iff]
  refine h.paragraphs.imp ?_
  rintro p q ⟨hgets, hstays⟩
  refine ⟨fun hmeets => ?_, fun hmiss => ?_⟩
  · exact ⟨(hgets hmeets).tab, (hgets hmeets).style⟩
  · exact ⟨(hstays hmiss).startsWithTab, (hstays hmiss).style⟩

/-- The texts of the paragraphs of the body without the tabs before them. -/
def bareTexts (d : Document) : List Text :=
  d.topParagraphs.map fun p => p.paragraph.text.dropWhile (· == '\t')

theorem Stays.text {p q : PlacedParagraph} (h : Stays d d' p q) :
    q.paragraph.text = p.paragraph.text := by
  have htext : ∀ pieces : List Piece, (pieces.flatMap fun piece => piece.run?.getD []) =
      (pieces.map (·.content)).flatMap fun content => (Piece.run? ⟨{}, content⟩).getD [] := by
    intro pieces
    rw [List.flatMap_map]
    rfl
  rw [Paragraph.text, htext, h.content, ← htext]
  rfl

/-- Creating bullets uses up nothing but tabs. -/
theorem Bulleted.bareTexts_eq (h : Bulleted span preset d d') : d'.bareTexts = d.bareTexts := by
  have hsame : List.Forall₂ (· = ·) d.bareTexts d'.bareTexts := by
    rw [bareTexts, bareTexts, List.forall₂_map_left_iff, List.forall₂_map_right_iff]
    refine h.paragraphs.imp ?_
    rintro p q ⟨hgets, hstays⟩
    by_cases hmeets : p.Meets span
    · rw [(hgets hmeets).text, List.dropWhile_idempotent]
    · rw [(hstays hmeets).text]
  exact (List.forall₂_eq_eq_eq ▸ hsame : d.bareTexts = d'.bareTexts).symm

/-- Creating the bullets of the first run leaves fewer runs. -/
theorem Bulleted.length_bulletRuns_lt
    {r : BulletRun} {rest : List BulletRun} (hlaid : d.LaidOut) (hruns : d.bulletRuns = r :: rest)
    (h : Bulleted r.span r.preset d d') :
    d'.bulletRuns.length < d.bulletRuns.length := by
  have hr : r ∈ d.bulletRuns := by
    rw [hruns]
    exact List.mem_cons_self
  have htabs := hlaid.spread.bulletRuns_of_pending (pending_of_mem_bulletRuns hr)
  have hfirst : (BulletRun.collect none d.items).find? (·.hasTab) = some r := by
    rw [← List.head?_filter, ← htabs, hruns, List.head?_cons]
  have hcount := BulletRun.countP_hasTab_of_becomes hlaid.spread.placed hfirst h.items
  have hafter := h.laidOut.length_bulletRuns_le
  rw [htabs, ← List.countP_eq_length_filter]
  omega

/-- A run whose bullets have to be created lies in the body and has a style that lists have. -/
theorem Spread.places_of_mem_bulletRuns
    {r : BulletRun} (h : d.Spread) (hr : r ∈ d.bulletRuns) :
    r.start < r.stop ∧ r.stop < d.bodyEnd ∧ (r.preset = .disc ∨ r.preset = .numbered) := by
  rw [h.mem_bulletRuns_iff (pending_of_mem_bulletRuns hr)] at hr
  obtain ⟨⟨i, hi, hstop⟩, hlong⟩ := BulletRun.places_of_mem_collect h.placed hr.1
  refine ⟨hlong hr.2, ?_, ?_⟩
  · obtain ⟨p, hp, rfl⟩ := List.mem_map.1 hi
    have hinside := h.inside p hp
    simp only at hstop
    omega
  · rcases BulletRun.preset_of_mem_collect hr.1 with hdisc | ⟨j, hj, hpreset⟩
    · exact .inl hdisc
    · obtain ⟨p, hp, rfl⟩ := List.mem_map.1 hj
      obtain ⟨list, -, hlist⟩ := Option.map_eq_some_iff.1 hpreset
      rw [presetOf] at hlist
      split at hlist
      · exact .inr hlist.symm
      · exact .inl hlist.symm

end Document

theorem Event.countP_isUpdate_fetch (log : List Event) :
    (log ++ [Event.fetch]).countP isUpdate = log.countP isUpdate := by
  rw [List.countP_append]
  rfl

theorem Event.countP_isUpdate_update (log : List Event) (requests : List Request) :
    (log ++ [Event.update requests]).countP isUpdate = log.countP isUpdate + 1 := by
  rw [List.countP_append]
  rfl

/-- A service that creates bullets.  It hands out the document of its state.  When bullets are taken
away and created over a span within the body, in a style that lists have, the paragraphs with a part
in the span get a bullet and the others stay. -/
structure Service.CreatesBullets
    {σ : Type} (service : Service σ) (view : σ → Document) : Prop where
  fetch : ∀ state, service.fetch state = (.ok (view state), state)
  update : ∀ state (span : Span) (preset : Preset), (view state).LaidOut →
    span.start < span.stop → span.stop < (view state).bodyEnd →
    (preset = .disc ∨ preset = .numbered) →
    ∃ response state',
      service.update [.deleteBullets span, .createBullets span preset] state =
        (.ok response, state') ∧
      (view state).Bulleted span preset (view state')

namespace Session

variable {σ : Type} {s : Session σ} {view : σ → Document}

/-- One round: the bullets of the first run are created, and fewer runs are left. -/
theorem execute_createFirst
    (hs : s.service.CreatesBullets view) {w : World σ} (hlaid : (view w.state).LaidOut)
    {r : BulletRun} {rest : List BulletRun} (hruns : (view w.state).bulletRuns = r :: rest) :
    ∃ w', (createFirst (r :: rest)).execute s w = (.ok true, w') ∧
      w'.log = w.log ++ [.update r.requests] ∧
      (view w.state).Bulleted r.span r.preset (view w'.state) := by
  have hr : r ∈ (view w.state).bulletRuns := by
    rw [hruns]
    exact List.mem_cons_self
  obtain ⟨hlong, hinside, hpreset⟩ := hlaid.spread.places_of_mem_bulletRuns hr
  obtain ⟨response, state', hupdate, hbulleted⟩ :=
    hs.update w.state r.span r.preset hlaid hlong hinside hpreset
  have hrun : (Run.update r.requests).execute s w = _ :=
    Run.execute_update_of_ok (List.cons_ne_nil _ _) hupdate
  refine ⟨⟨state', w.log ++ [.update r.requests], w.batches + 1⟩, ?_, rfl, hbulleted⟩
  rw [createFirst, Run.execute_discard_pure, hrun]

/-- All rounds: with a budget above the number of runs, no run is left at the end, and no more
rounds were made than there were runs. -/
theorem execute_recreateUpTo
    (hs : s.service.CreatesBullets view) (budget : Nat) {w : World σ}
    (hlaid : (view w.state).LaidOut) (hbudget : (view w.state).bulletRuns.length < budget) :
    ∃ n w', (recreateUpTo budget).execute s w = (.ok n, w') ∧
      n ≤ (view w.state).bulletRuns.length ∧
      w'.log.countP Event.isUpdate = w.log.countP Event.isUpdate + n ∧
      (view w'.state).LaidOut ∧ (view w'.state).bulletRuns = [] ∧
      (view w'.state).bareTexts = (view w.state).bareTexts := by
  induction budget generalizing w with
  | zero => omega
  | succ budget ih =>
    rw [recreateUpTo, Run.execute_bind_of_ok (Run.execute_fetch (hs.fetch w.state))]
    cases hruns : (view w.state).bulletRuns with
    | nil =>
      exact ⟨0, { w with log := w.log ++ [.fetch] }, rfl, Nat.le_refl 0,
        Event.countP_isUpdate_fetch w.log, hlaid, hruns, rfl⟩
    | cons r rest =>
      obtain ⟨w₁, hround, hlog, hbulleted⟩ :=
        execute_createFirst hs (w := { w with log := w.log ++ [.fetch] }) hlaid hruns
      have hfewer := hbulleted.length_bulletRuns_lt hlaid hruns
      rw [hruns] at hfewer hbudget
      obtain ⟨n, w₂, hrun, hn, hcount, hlaid₂, hnone, htexts⟩ := ih hbulleted.laidOut (by omega)
      refine ⟨n + 1, w₂, ?_, by omega, ?_, hlaid₂, hnone, htexts.trans hbulleted.bareTexts_eq⟩
      · rw [Run.execute_bind_of_ok hround, if_pos rfl, Run.execute_bind_of_ok hrun]
        rfl
      · rw [hcount, hlog, Event.countP_isUpdate_update, Event.countP_isUpdate_fetch]
        omega

/-- Without a bound, the budget is one above the number of runs at the start. -/
theorem execute_recreateBullets
    (hs : s.service.CreatesBullets view) (w : World σ) :
    (recreateBullets none).execute s w =
      (recreateUpTo ((view w.state).bulletRuns.length + 1)).execute s w := by
  have hfetch := Run.execute_fetch (hs.fetch w.state)
  rw [recreateBullets, Run.execute_bind_of_ok hfetch, recreateUpTo, Run.execute_bind_of_ok hfetch]

/-- Bullets are created until none is missing: at the end every paragraph with a tab before it has a
bullet, no more batches were sent than there were runs at the start, and nothing but tabs is gone
from the texts. -/
theorem recreateBullets_leaves_none_waiting
    (hs : s.service.CreatesBullets view) (w : World σ) (hlaid : (view w.state).LaidOut) :
    ∃ n w', (recreateBullets none).execute s w = (.ok n, w') ∧
      n ≤ (view w.state).bulletRuns.length ∧
      w'.log.countP Event.isUpdate = w.log.countP Event.isUpdate + n ∧
      (∀ p ∈ (view w'.state).topParagraphs,
        p.paragraph.startsWithTab = true → p.paragraph.list?.isSome = true) ∧
      (view w'.state).bareTexts = (view w.state).bareTexts := by
  obtain ⟨n, w', hrun, hn, hcount, hlaid', hnone, htexts⟩ :=
    execute_recreateUpTo hs ((view w.state).bulletRuns.length + 1) hlaid (Nat.lt_succ_self _)
  refine ⟨n, w', (execute_recreateBullets hs w).trans hrun, hn, hcount, ?_, htexts⟩
  intro p hp htab
  have hpending := List.any_eq_false.1 (hlaid'.not_pending_of_bulletRuns hnone) _
    (List.mem_map_of_mem hp)
  by_contra hlist
  refine hpending (Bool.and_eq_true_iff.2 ⟨htab, ?_⟩)
  simpa [Item.hasBullet] using hlist

end Session

/-! ## Lines with bullets -/

namespace Document

/-- The paragraphs of a document of lines are consecutive. -/
theorem laidOut_of_areLines
    {d : Document} {start : Int} {lines : List Text} (h : Element.AreLines start d.body lines) :
    d.LaidOut := by
  have hplaces : (d.topParagraphs.IsChain fun p q => q.bounds.start = p.bounds.stop) ∧
      (∀ p ∈ d.topParagraphs.head?, p.bounds.start = start) ∧
      ∀ p ∈ d.topParagraphs, p.bounds.stop = p.bounds.start + p.paragraph.text.units ∧
        p.paragraph.text.getLast? = some '\n' ∧
        p.bounds.stop ≤ start + (Body.ofLines lines).length := by
    rw [topParagraphs]
    generalize d.body = elements at h
    induction h with
    | nil => exact ⟨.nil, by simp, by simp⟩
    | @cons start bounds paragraph line elements lines hstart hstop htext hrest ih =>
      obtain ⟨hchain, hhead, hparagraphs⟩ := ih
      have hfirst : (Element.paragraph bounds paragraph).paragraph? = some ⟨bounds, paragraph⟩ :=
        rfl
      rw [List.filterMap_cons_some hfirst, Body.length_ofLines_cons]
      refine ⟨List.isChain_cons.2 ⟨hhead, hchain⟩, ?_, ?_⟩
      · rintro p ⟨⟩
        exact hstart
      · intro p hp
        rcases List.mem_cons.1 hp with rfl | hp
        · refine ⟨?_, by rw [htext, List.getLast?_concat], by simp only; omega⟩
          have hunits : Text.units (line ++ ['\n']) = line.units + 1 := by
            rw [Text.units_append]
            rfl
          simp only [htext, hunits]
          omega
        · obtain ⟨hwide, hended, hinside⟩ := hparagraphs p hp
          exact ⟨hwide, hended, by omega⟩
  obtain ⟨hchain, -, hparagraphs⟩ := hplaces
  refine ⟨hchain, fun p hp => (hparagraphs p hp).1, fun p hp => (hparagraphs p hp).2.1, ?_⟩
  intro p hp
  have hne : lines ≠ [] := by
    rintro rfl
    cases hbody : d.body with
    | nil =>
      rw [topParagraphs, hbody] at hp
      cases hp
    | cons e rest =>
      rw [hbody] at h
      cases h
  rw [bodyEnd_of_areLines h hne]
  exact (hparagraphs p hp).2.2

end Document

/-- A line and the bullet before it, if it has one: a number or a disc. -/
structure ListLine where
  text : Text
  numbered? : Option Bool := none

namespace ListLine

/-- The name of the list with numbers and of the one without. -/
def listName (numbered : Bool) : Text :=
  if numbered then ['1'] else ['*']

/-- The end of a line with its newline. -/
def stop (start : Int) (line : ListLine) : Int :=
  start + line.text.units + 1

/-- The paragraph of a line. -/
def paragraph (line : ListLine) : Paragraph :=
  { pieces := [⟨{}, .run (line.text ++ ['\n'])⟩], list? := line.numbered?.map listName }

/-- The paragraphs of lines, one behind the other. -/
def place : Int → List ListLine → List Element
  | _, [] => []
  | start, line :: rest =>
    .paragraph ⟨some start, some (line.stop start)⟩ line.paragraph :: place (line.stop start) rest

/-- The document of lines. -/
def document (lines : List ListLine) : Document :=
  { body := place 1 lines, lists := [(listName true, true), (listName false, false)] }

/-- The line with a bullet of a style and without the tabs before it. -/
def withBullet (preset : Preset) (line : ListLine) : ListLine :=
  ⟨line.text.dropWhile (· == '\t'), some (preset == .numbered)⟩

/-- The lines after bullets are created over a span. -/
def withBullets (span : Span) (preset : Preset) : Int → List ListLine → List ListLine
  | _, [] => []
  | start, line :: rest =>
    (if start < span.stop ∧ span.start < line.stop start then line.withBullet preset else line) ::
      withBullets span preset (line.stop start) rest

theorem areLines_place (start : Int) (lines : List ListLine) :
    Element.AreLines start (place start lines) (lines.map (·.text)) := by
  induction lines generalizing start with
  | nil => exact .nil start
  | cons line rest ih => exact .cons rfl rfl (List.append_nil _) (ih _)

theorem laidOut_document (lines : List ListLine) : (document lines).LaidOut :=
  Document.laidOut_of_areLines (areLines_place 1 lines)

theorem presetOf_listName (lines : List ListLine) (numbered : Bool) :
    (document lines).presetOf (listName numbered) = if numbered then .numbered else .disc := by
  cases numbered with
  | false => rfl
  | true => rfl

theorem startsWithTab_withBullet (preset : Preset) (line : ListLine) :
    (line.withBullet preset).paragraph.startsWithTab = false := by
  have hhead := List.head?_dropWhile_not (· == '\t') line.text
  have hfirst : (line.withBullet preset).paragraph.startsWithTab =
      Text.startsWith ['\t'] (line.text.dropWhile (· == '\t') ++ ['\n']) := rfl
  rw [hfirst]
  cases hrest : line.text.dropWhile (· == '\t') with
  | nil => rfl
  | cons c rest =>
    rw [hrest] at hhead
    exact Text.startsWith_cons_of_ne (Ne.symm (ne_of_beq_false hhead)) _ _

theorem text_withBullet (preset : Preset) (line : ListLine) :
    (line.withBullet preset).paragraph.text =
      line.paragraph.text.dropWhile (· == '\t') := by
  have htext : ∀ line : ListLine, line.paragraph.text = line.text ++ ['\n'] := fun line =>
    List.append_nil _
  rw [htext, htext, withBullet, List.dropWhile_append]
  cases line.text.dropWhile (· == '\t') with
  | nil => rfl
  | cons c rest => rfl

theorem bulleted_withBullets
    (span : Span) {preset : Preset} (hpreset : preset = .disc ∨ preset = .numbered)
    (lines : List ListLine) :
    (document lines).Bulleted span preset (document (withBullets span preset 1 lines)) := by
  refine ⟨laidOut_document _, ?_⟩
  have hplace : ∀ (d d' : List ListLine) (rest : List ListLine) (start start' : Int),
      List.Forall₂ (fun p q => (p.Meets span → (document d').GetsBullet preset p q) ∧
        (¬ p.Meets span → (document d).Stays (document d') p q))
        ((place start rest).filterMap Element.paragraph?)
        ((place start' (withBullets span preset start rest)).filterMap Element.paragraph?) := by
    intro d d' rest
    induction rest with
    | nil => exact fun _ _ => .nil
    | cons line rest ih =>
      intro start start'
      refine .cons ⟨fun hmeets => ?_, fun hmiss => ?_⟩ (ih _ _)
      · have hinside : start < span.stop ∧ span.start < line.stop start := hmeets
        rw [if_pos hinside]
        refine ⟨?_, text_withBullet preset line, startsWithTab_withBullet preset line⟩
        refine congrArg some ((presetOf_listName d' _).trans ?_)
        rcases hpreset with rfl | rfl
        · rfl
        · rfl
      · have houtside : ¬ (start < span.stop ∧ span.start < line.stop start) := hmiss
        rw [if_neg houtside]
        refine ⟨?_, rfl⟩
        cases hnumbered : line.numbered? with
        | none => simp [paragraph, hnumbered]
        | some numbered => simp [paragraph, hnumbered, presetOf_listName]
  exact hplace lines _ lines 1 1

end ListLine

/-- A service whose document is a list of lines with bullets. -/
def Service.ofListLines : Service (List ListLine) where
  fetch lines := (.ok (ListLine.document lines), lines)
  update requests lines :=
    match requests with
    | [.deleteBullets _, .createBullets span preset] =>
      (.ok {}, ListLine.withBullets span preset 1 lines)
    | _ => (.ok {}, lines)

theorem Service.createsBullets_ofListLines :
    Service.ofListLines.CreatesBullets ListLine.document where
  fetch _ := rfl
  update lines span preset _ _ _ hpreset :=
    ⟨{}, ListLine.withBullets span preset 1 lines, rfl,
      ListLine.bulleted_withBullets span hpreset lines⟩

namespace Session

/-- A numbered item with a nested one, a line of text, and a nested item by itself. -/
def nestedLines : List ListLine :=
  [⟨"fruit".toList, some true⟩, ⟨"\tapple".toList, none⟩, ⟨"and".toList, none⟩,
    ⟨"\t\tleaf".toList, none⟩]

theorem recreateBullets_leaves_none_waiting_nestedLines :
    (ListLine.document nestedLines).LaidOut ∧
      (ListLine.document nestedLines).bulletRuns.length = 2 ∧
      ∃ n w', (recreateBullets none).execute ⟨Service.ofListLines, {}, 0⟩ ⟨nestedLines, [], 0⟩ =
          (.ok n, w') ∧
        n ≤ (ListLine.document nestedLines).bulletRuns.length ∧
        w'.log.countP Event.isUpdate = n ∧
        (∀ p ∈ (ListLine.document w'.state).topParagraphs,
          p.paragraph.startsWithTab = true → p.paragraph.list?.isSome = true) ∧
        (ListLine.document w'.state).bareTexts = (ListLine.document nestedLines).bareTexts := by
  have hlaid := ListLine.laidOut_document nestedLines
  refine ⟨hlaid, by decide, ?_⟩
  obtain ⟨n, w', hrun, hn, hcount, hnone, htexts⟩ := recreateBullets_leaves_none_waiting
    (s := ⟨Service.ofListLines, {}, 0⟩) Service.createsBullets_ofListLines ⟨nestedLines, [], 0⟩
    hlaid
  exact ⟨n, w', hrun, hn, hcount.trans (Nat.zero_add n), hnone, htexts⟩

end Session

end Redline
