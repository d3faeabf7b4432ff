import Redline.Proofs.Search
import Redline.Proofs.Substitution

/-!
# The order of matches in a document

The matches of a pattern in a document come run by run, and in each run from left to right.  They
never overlap, but two of them can start at one place: an empty match may stand where the next match
starts, in the same run or where one run ends and the next one begins.  This is the only way in
which the starts of matches fail to increase strictly.
-/

namespace Redline

/-! ## Positions in runs -/

namespace Document

/-- The runs stand one behind the other, each as wide as its text. -/
structure RunsInOrder (d : Document) : Prop where
  nonneg : ∀ run ∈ d.runs, 0 ≤ run.start
  apart : d.runs.IsChain fun a b => a.start + (a.text.units : Int) ≤ b.start

theorem RunsInOrder.pairwise {d : Document} (h : d.RunsInOrder) :
    d.runs.Pairwise fun a b => a.start + (a.text.units : Int) ≤ b.start := by
  have htrans : Trans (fun a b : Run => a.start + (a.text.units : Int) ≤ b.start)
      (fun a b : Run => a.start + (a.text.units : Int) ≤ b.start)
      (fun a b : Run => a.start + (a.text.units : Int) ≤ b.start) :=
    ⟨fun {a b c} hab hbc => by omega⟩
  exact h.apart.pairwise

namespace Run

/-- Where a place in the text of a run is found in the document. -/
def position (run : Run) (i : Nat) : Int :=
  run.start + Text.units (run.text.take i)

theorem one_le_charUnits (c : Char) : 1 ≤ charUnits c := by
  unfold charUnits
  split
  · exact Nat.le_refl 1
  · exact Nat.le_succ 1

theorem length_le_units (t : Text) : t.length ≤ t.units := by
  induction t with
  | nil => exact Nat.le_refl 0
  | cons c rest ih =>
    have hc := one_le_charUnits c
    rw [List.length_cons, Text.units_cons]
    omega

variable (run : Run)

@[simp]
theorem position_zero : run.position 0 = run.start := by
  simp [position]

theorem position_length : run.position run.text.length = run.start + run.text.units := by
  simp [position]

/-- A place further on in the text stands further on in the document by at least as much. -/
theorem position_add_le
    {i j : Nat} (hij : i ≤ j) (hj : j ≤ run.text.length) :
    run.position i + (j - i : Nat) ≤ run.position j := by
  have hsplit : run.text.take j = run.text.take i ++ (run.text.take j).drop i := by
    have htake : run.text.take i = (run.text.take j).take i := by
      rw [List.take_take, Nat.min_eq_left hij]
    rw [htake, List.take_append_drop]
  have hunits := length_le_units ((run.text.take j).drop i)
  have hlength : ((run.text.take j).drop i).length = j - i := by
    rw [List.length_drop, List.length_take, Nat.min_eq_left hj]
  rw [position, position, hsplit, Text.units_append]
  omega

end Run

end Document

namespace DocMatch

/-- The first match is empty and stands where the second one starts: in the same run, or at the end
of its run where the run of the second one begins. -/
def Ties (a b : Document.Run × Match) : Prop :=
  a.2.start = a.2.stop ∧
    (a.1 = b.1 ∧ a.2.stop = b.2.start ∨
      a.2.stop = a.1.text.length ∧ a.1.start + (a.1.text.units : Int) = b.1.start ∧ b.2.start = 0)

instance (a b : Document.Run × Match) : Decidable (Ties a b) :=
  inferInstanceAs (Decidable (_ ∧ _))

/-- The first match comes before the second one: in the same run, or in a run before its run. -/
def Precedes (a b : Document.Run × Match) : Prop :=
  a.1 = b.1 ∧ a.2.stop ≤ b.2.start ∨ a.1.start + (a.1.text.units : Int) ≤ b.1.start

/-- The match lies within the text of its run. -/
def InRun (a : Document.Run × Match) : Prop :=
  a.2.start ≤ a.2.stop ∧ a.2.stop ≤ a.1.text.length

theorem inRun_of_mem_located
    {d : Document} {p : Pattern} {a : Document.Run × Match} (h : a ∈ located d p) : InRun a := by
  obtain ⟨run, -, ha⟩ := List.mem_flatMap.1 h
  obtain ⟨m, hm, rfl⟩ := List.mem_map.1 ha
  exact p.findAll_bounds hm

theorem pairwise_located
    {d : Document} (hd : d.RunsInOrder) (p : Pattern) :
    (located d p).Pairwise fun a b => InRun a ∧ InRun b ∧ Precedes a b := by
  suffices horder : (located d p).Pairwise Precedes from
    (List.Pairwise.and_mem.1 horder).imp fun ⟨ha, hb, hab⟩ =>
      ⟨inRun_of_mem_located ha, inRun_of_mem_located hb, hab⟩
  rw [located, List.pairwise_flatMap]
  constructor
  · intro run _
    rw [List.pairwise_map]
    exact (p.pairwise_findAll run.text).imp fun h => .inl ⟨rfl, h⟩
  · refine hd.pairwise.imp fun hab a ha b hb => ?_
    obtain ⟨m, -, rfl⟩ := List.mem_map.1 ha
    obtain ⟨n, -, rfl⟩ := List.mem_map.1 hb
    exact .inr hab

section Positions

variable {a b : Document.Run × Match}

theorem InRun.le (h : InRun a) : a.1.position a.2.start ≤ a.1.position a.2.stop := by
  have := a.1.position_add_le h.1 h.2
  omega

theorem Precedes.le (h : Precedes a b) (ha : InRun a) (hb : InRun b) :
    a.1.position a.2.stop ≤ b.1.position b.2.start := by
  rcases h with ⟨hrun, hle⟩ | hle
  · have := b.1.position_add_le hle (Nat.le_trans hb.1 hb.2)
    rw [hrun]
    omega
  · have hend := a.1.position_add_le ha.2 (Nat.le_refl _)
    have hbegin := b.1.position_add_le (Nat.zero_le b.2.start) (Nat.le_trans hb.1 hb.2)
    rw [Document.Run.position_length] at hend
    rw [Document.Run.position_zero] at hbegin
    omega

/-- Matches start at one place exactly when they tie. -/
theorem Precedes.lt_iff (h : Precedes a b) (ha : InRun a) (hb : InRun b) :
    a.1.position a.2.start < b.1.position b.2.start ↔ ¬ Ties a b := by
  have hle := h.le ha hb
  constructor
  · rintro hlt ⟨hempty, ⟨hrun, hplace⟩ | ⟨hstop, htouch, hstart⟩⟩
    · rw [hempty, hplace, hrun] at hlt
      omega
    · rw [hempty, hstop, hstart, Document.Run.position_length, Document.Run.position_zero] at hlt
      omega
  · intro hties
    by_contra hnot
    apply hties
    obtain ⟨hinner, houter⟩ := ha
    have hstart := a.1.position_add_le hinner houter
    refine ⟨by omega, ?_⟩
    rcases h with ⟨hrun, hle'⟩ | htouch
    · have hgap := b.1.position_add_le hle' (Nat.le_trans hb.1 hb.2)
      rw [hrun] at hnot hstart hle
      exact .inl ⟨hrun, by omega⟩
    · have hend := a.1.position_add_le houter (Nat.le_refl _)
      have hbegin := b.1.position_add_le (Nat.zero_le b.2.start) (Nat.le_trans hb.1 hb.2)
      rw [Document.Run.position_length] at hend
      rw [Document.Run.position_zero] at hbegin
      exact .inr ⟨by omega, by omega, by omega⟩

end Positions

/-! ## Matches in their places -/

section Find

variable {d : Document} {p : Pattern} {e : Expression} {found placed : List DocMatch}

/-- A global expression is about all matches, or about one of them by its number. -/
theorem exists_of_find_eq_ok
    (h : find d p e = .ok found) (he : e.isGlobal = true) :
    ∃ placed, (located d p).mapM (fun a => place e a.1 a.2) = .ok placed ∧
      found = if e.nth > 0 then (placed[e.nth - 1]?).toList else placed := by
  simp only [find, he, Bool.not_true, Bool.false_and, Bool.false_eq_true, if_false] at h
  obtain ⟨placed, hplaced, h⟩ := exists_of_bind_eq_ok h
  cases h
  exact ⟨placed, hplaced, rfl⟩

theorem map_span_of_mapM
    {items : List (Document.Run × Match)}
    (h : items.mapM (fun a => place e a.1 a.2) = .ok placed) :
    placed.map (fun m => (m.start, m.stop)) =
      items.map fun a => (a.1.position a.2.start, a.1.position a.2.stop) := by
  have hplaced := forall₂_of_mapM_eq_ok h
  clear h
  induction hplaced with
  | nil => rfl
  | @cons a m items placed hplace _ ih =>
    obtain ⟨written, -, hm⟩ := exists_of_bind_eq_ok hplace
    cases hm
    rw [List.map_cons, List.map_cons, ih]
    rfl

/-- Matches stand one behind the other, also when some are left out. -/
theorem pairwise_placed_of_sublist
    {items : List (Document.Run × Match)} (hd : d.RunsInOrder) (hsub : items.Sublist (located d p))
    (h : items.mapM (fun a => place e a.1 a.2) = .ok placed) :
    placed.Pairwise fun a b => a.stop ≤ b.start := by
  have hspans : (placed.map fun m => (m.start, m.stop)).Pairwise fun a b => a.2 ≤ b.1 := by
    rw [map_span_of_mapM h, List.pairwise_map]
    exact ((pairwise_located hd p).sublist hsub).imp fun ⟨ha, hb, hab⟩ => hab.le ha hb
  rwa [List.pairwise_map] at hspans

theorem bounds_of_mem_placed_of_sublist
    {items : List (Document.Run × Match)} (hd : d.RunsInOrder) (hsub : items.Sublist (located d p))
    (h : items.mapM (fun a => place e a.1 a.2) = .ok placed)
    {m : DocMatch} (hm : m ∈ placed) : 0 ≤ m.start ∧ m.start ≤ m.stop := by
  have hspan := List.mem_map_of_mem (f := fun m => (m.start, m.stop)) hm
  rw [map_span_of_mapM h] at hspan
  obtain ⟨a, ha, hspan⟩ := List.mem_map.1 hspan
  obtain ⟨hstart, hstop⟩ := Prod.mk.inj hspan
  replace ha := hsub.subset ha
  have hinner := inRun_of_mem_located ha
  have hle := hinner.le
  obtain ⟨run, hrun, ha⟩ := List.mem_flatMap.1 ha
  obtain ⟨found, -, rfl⟩ := List.mem_map.1 ha
  have hnonneg := hd.nonneg run hrun
  have hbegin : run.start ≤ run.position found.start := by
    simp only [Document.Run.position]
    omega
  simp only [] at hstart hstop hle
  exact ⟨by omega, by omega⟩

theorem pairwise_placed
    (hd : d.RunsInOrder) (h : (located d p).mapM (fun a => place e a.1 a.2) = .ok placed) :
    placed.Pairwise fun a b => a.stop ≤ b.start :=
  pairwise_placed_of_sublist hd (List.Sublist.refl _) h

theorem bounds_of_mem_placed
    (hd : d.RunsInOrder) (h : (located d p).mapM (fun a => place e a.1 a.2) = .ok placed)
    {m : DocMatch} (hm : m ∈ placed) : 0 ≤ m.start ∧ m.start ≤ m.stop :=
  bounds_of_mem_placed_of_sublist hd (List.Sublist.refl _) h hm

theorem sublist_getElem?_toList (placed : List DocMatch) (i : Nat) :
    (placed[i]?).toList.Sublist placed := by
  cases hi : placed[i]? with
  | none => exact List.nil_sublist placed
  | some m => exact List.singleton_sublist.2 (List.mem_of_getElem? hi)

/-- Any expression is about some of the matches, in their order. -/
theorem exists_sublist_of_find (h : find d p e = .ok found) :
    ∃ (items : List (Document.Run × Match)) (placed : List DocMatch),
      items.Sublist (located d p) ∧ items.mapM (fun a => place e a.1 a.2) = .ok placed ∧
        found.Sublist placed := by
  obtain ⟨placed, hplaced, h⟩ := exists_of_bind_eq_ok h
  refine ⟨_, placed, ?_, hplaced, ?_⟩
  · split
    · exact List.take_sublist 1 _
    · exact List.Sublist.refl _
  · cases h
    split
    · exact sublist_getElem?_toList placed _
    · exact List.Sublist.refl placed

theorem pairwise_find (hd : d.RunsInOrder) (h : find d p e = .ok found) :
    found.Pairwise fun a b => a.stop ≤ b.start := by
  obtain ⟨items, placed, hitems, hplaced, hsub⟩ := exists_sublist_of_find h
  exact (pairwise_placed_of_sublist hd hitems hplaced).sublist hsub

theorem bounds_of_mem_find
    (hd : d.RunsInOrder) (h : find d p e = .ok found) {m : DocMatch} (hm : m ∈ found) :
    0 ≤ m.start ∧ m.start ≤ m.stop := by
  obtain ⟨items, placed, hitems, hplaced, hsub⟩ := exists_sublist_of_find h
  exact bounds_of_mem_placed_of_sublist hd hitems hplaced (hsub.subset hm)

/-- The starts of matches increase strictly exactly when no two matches tie. -/
theorem pairwise_placed_lt_iff
    (hd : d.RunsInOrder) (h : (located d p).mapM (fun a => place e a.1 a.2) = .ok placed) :
    placed.Pairwise (fun a b => a.start < b.start) ↔
      (located d p).Pairwise fun a b => ¬ Ties a b := by
  have horder := pairwise_located hd p
  calc
    placed.Pairwise (fun a b => a.start < b.start)
        ↔ (placed.map fun m => (m.start, m.stop)).Pairwise (fun a b => a.1 < b.1) := by
      rw [List.pairwise_map]
    _ ↔ (located d p).Pairwise
          fun a b => a.1.position a.2.start < b.1.position b.2.start := by
      rw [map_span_of_mapM h, List.pairwise_map]
    _ ↔ (located d p).Pairwise fun a b => ¬ Ties a b := by
      constructor
      · intro hlt
        exact (hlt.and horder).imp fun ⟨hlt, ha, hb, hab⟩ => (hab.lt_iff ha hb).1 hlt
      · intro hties
        exact (hties.and horder).imp fun ⟨hties, ha, hb, hab⟩ => (hab.lt_iff ha hb).2 hties

end Find

end DocMatch

/-! ## Anchors -/

namespace Session

variable {σ : Type} {s : Session σ}

theorem record_of_insertImage
    {shift shift' : ShiftMap} {m : DocMatch} {spec : ImageSpec} {w w' : World σ}
    (h : (insertImage shift m spec).execute s w = (.ok shift', w')) :
    shift' = ShiftMap.record shift m.start (m.stop - m.start) 1 := by
  unfold insertImage at h
  by_cases hlt : m.start < m.stop
  · simp only [if_pos hlt] at h
    obtain ⟨-, w₁, -, h⟩ := Run.exists_of_execute_bind h
    obtain ⟨-, w₂, -, h⟩ := Run.exists_of_execute_bind h
    cases h
    rfl
  · simp only [if_neg hlt] at h
    obtain ⟨-, w₁, -, h⟩ := Run.exists_of_execute_bind h
    cases h
    rfl

/-- The changes of length of images in the places of matches, recorded from the last one on. -/
def imageShift (images : List DocMatch) : ShiftMap :=
  images.reverse.foldl (fun shift m => ShiftMap.record shift m.start (m.stop - m.start) 1) []

/-- Whatever the service does, images that are put in are recorded with their changes of length. -/
theorem eq_imageShift_of_insertImages
    {images : List DocMatch} {shift : ShiftMap} {w w' : World σ}
    (himages : ∀ m ∈ images, m.isImage = true)
    (h : (insertImages images).execute s w = (.ok shift, w')) : shift = imageShift images := by
  apply Run.foldl_of_execute_foldlM _ _ h
  intro m hm shift shift' w w' hrun
  obtain ⟨spec, hspec, -⟩ := DocMatch.exists_image (himages m (List.mem_reverse.1 hm))
  rw [hspec] at hrun
  exact record_of_insertImage hrun

/-- The changes of length of images are those of their splices. -/
theorem tracks_imageShift
    {images : List DocMatch}
    (himages : ∀ m ∈ images, m.isImage = true ∧ 0 ≤ m.start ∧ m.start ≤ m.stop) :
    (imageShift images).Tracks (images.map DocMatch.splice) := by
  have hshift : imageShift images = images.reverse.foldl (fun shift m =>
      ShiftMap.record shift m.splice.start (m.splice.stop - m.splice.start)
        m.splice.content.length) [] := by
    refine List.foldl_ext _ _ _ fun shift m hm => ?_
    obtain ⟨himage, hstart, hstop⟩ := himages m (List.mem_reverse.1 hm)
    obtain ⟨spec, -, hcontent⟩ := DocMatch.exists_image himage
    have hplace : (m.splice.start : Int) = m.start ∧ (m.splice.stop : Int) = m.stop := by
      simp only [DocMatch.splice]
      omega
    have hone : m.splice.content.length = 1 := congrArg List.length hcontent
    rw [hplace.1, hplace.2, hone]
    rfl
  intro offset
  rw [hshift, ShiftMap.move_foldl_record DocMatch.splice, List.map_reverse,
    Splice.shiftAt_perm (List.reverse_perm _), ShiftMap.move_nil]

theorem tracks_of_insertImages
    {images : List DocMatch} {shift : ShiftMap} {w w' : World σ}
    (himages : ∀ m ∈ images, m.isImage = true ∧ 0 ≤ m.start ∧ m.start ≤ m.stop)
    (h : (insertImages images).execute s w = (.ok shift, w')) :
    shift.Tracks (images.map DocMatch.splice) := by
  rw [eq_imageShift_of_insertImages (fun m hm => (himages m hm).1) h]
  exact tracks_imageShift himages

/-- Edits for text have increasing anchors when the matches are in order. -/
theorem pairwise_anchor_of_inOrder
    {e : Expression} {found : List DocMatch} {body : Body} {shift : ShiftMap} {edits : List Edit}
    {w w' : World σ} (hfound : DocMatch.InOrder body.length found)
    (himages : (insertImages (found.filter (·.isImage))).execute s w = (.ok shift, w'))
    (hedits : Edit.compile e shift (found.filter (·.isRegular)) = .ok edits) :
    (edits.map (·.group)).Pairwise fun a b => a.anchor < b.anchor := by
  have htracks := tracks_of_insertImages (fun m hm => ?_) himages
  · refine Edit.pairwise_anchor (Edit.forall₂_carriesOut hedits fun m hm => ?_)
      hfound.ordered_text
    obtain ⟨hm, hregular⟩ := List.mem_filter.1 hm
    have himage := DocMatch.isImage_eq_false_of_isRegular hregular
    exact ⟨hregular, hfound.move_start htracks hm, hfound.move_stop htracks hm himage, rfl⟩
  · obtain ⟨hm, himage⟩ := List.mem_filter.1 hm
    obtain ⟨hstart, hstop, -⟩ := hfound.inside m hm
    exact ⟨himage, hstart, hstop⟩

end Session

namespace DocMatch

theorem pairwise_toList (R : DocMatch → DocMatch → Prop) (m : Option DocMatch) :
    m.toList.Pairwise R := by
  cases m with
  | none => exact .nil
  | some m => exact List.pairwise_singleton R m

/-- Some body is long enough for matches that stand one behind the other. -/
theorem exists_inOrder
    {found : List DocMatch} (hbounds : ∀ m ∈ found, 0 ≤ m.start ∧ m.start ≤ m.stop)
    (hapart : found.Pairwise fun a b => a.start < b.start ∧ a.stop ≤ b.start) :
    ∃ body : Body, InOrder body.length found := by
  obtain ⟨n, hn⟩ : ∃ n : Nat, ∀ m ∈ found, m.stop ≤ n := by
    clear hapart
    induction found with
    | nil => exact ⟨0, by simp⟩
    | cons m rest ih =>
      obtain ⟨n, hn⟩ := ih fun k hk => hbounds k (List.mem_cons_of_mem m hk)
      refine ⟨n + m.stop.toNat, fun k hk => ?_⟩
      rcases List.mem_cons.1 hk with rfl | hk
      · omega
      · have := hn k hk
        omega
  refine ⟨List.replicate n .footnote, ?_, hapart.isChain⟩
  intro m hm
  rw [List.length_replicate]
  exact ⟨(hbounds m hm).1, (hbounds m hm).2, hn m hm⟩

/-- The matches of a global expression in a document stand one behind the other.  Their starts
increase strictly exactly when no two of them tie, and then the edits for text have anchors of their
own. -/
theorem find_in_order
    {d : Document} (hd : d.RunsInOrder) {p : Pattern} {e : Expression} (he : e.isGlobal = true)
    {found : List DocMatch} (h : find d p e = .ok found) :
    (∀ m ∈ found, m.start ≤ m.stop) ∧ found.Pairwise (fun a b => a.stop ≤ b.start) ∧
    (found.Pairwise (fun a b => a.start < b.start) ↔
      0 < e.nth ∨ (located d p).Pairwise fun a b => ¬ Ties a b) ∧
    (found.Pairwise (fun a b => a.start < b.start) →
      ∀ {σ : Type} (s : Session σ) (w w' : World σ) (shift : ShiftMap) (edits : List Edit),
        (Session.insertImages (found.filter (·.isImage))).execute s w = (.ok shift, w') →
        Edit.compile e shift (found.filter (·.isRegular)) = .ok edits →
        (edits.map (·.group)).Pairwise fun a b => a.anchor < b.anchor) := by
  obtain ⟨placed, hplaced, hfound⟩ := exists_of_find_eq_ok h he
  have hsub : found.Sublist placed := by
    rw [hfound]
    split
    · exact sublist_getElem?_toList placed _
    · exact List.Sublist.refl placed
  have hbounds : ∀ m ∈ found, 0 ≤ m.start ∧ m.start ≤ m.stop :=
    fun m hm => bounds_of_mem_placed hd hplaced (hsub.subset hm)
  have hapart := (pairwise_placed hd hplaced).sublist hsub
  refine ⟨fun m hm => (hbounds m hm).2, hapart, ?_, ?_⟩
  -- One match by its number is in order whatever the others do.
  · by_cases hnth : 0 < e.nth
    · rw [if_pos hnth] at hfound
      rw [hfound]
      exact ⟨fun _ => .inl hnth, fun _ => pairwise_toList _ _⟩
    · rw [if_neg hnth] at hfound
      rw [hfound, pairwise_placed_lt_iff hd hplaced]
      exact ⟨.inr, fun hor => hor.resolve_left hnth⟩
  · intro hstrict σ s w w' shift edits himages hedits
    obtain ⟨body, hinOrder⟩ := exists_inOrder hbounds (hstrict.and hapart)
    exact Session.pairwise_anchor_of_inOrder hinOrder himages hedits

/-- Two runs that touch, and one in the cell of a table. -/
def cellDocument : Document where
  body := [
    .paragraph {}
      ⟨[⟨⟨some 1, some 3⟩, .run "aa".toList⟩, ⟨⟨some 3, some 5⟩, .run "b\n".toList⟩], none⟩,
    .table {} [[[.paragraph {} ⟨[⟨⟨some 8, some 10⟩, .run "a\n".toList⟩], none⟩]]]]

/-- The pattern of one letter. -/
def letter : Pattern :=
  ⟨.one { items := [.code 97] }, 0⟩

/-- The pattern of one letter or nothing, and nothing is tried first. -/
def lazyLetter : Pattern :=
  ⟨.loop 0 (some 1) .lazy letter.root, 0⟩

/-- Every match is erased. -/
def erase : Expression :=
  { pattern := [], isGlobal := true, raw := [] }

/-- All matches are found when the expression writes the same in the place of each. -/
theorem find_of_ofMatch_eq_ok
    {e : Expression} (hglobal : e.isGlobal = true) (hnth : e.nth = 0) {written : Written}
    (hwritten : ∀ m, Written.ofMatch e m = .ok written) (d : Document) (p : Pattern) :
    find d p e = .ok ((located d p).map fun a =>
      ⟨a.1.position a.2.start, a.1.position a.2.stop, a.2, written⟩) := by
  have hplace : (fun a : Document.Run × Match => place e a.1 a.2) = fun a =>
      pure ⟨a.1.position a.2.start, a.1.position a.2.stop, a.2, written⟩ := by
    funext a
    rw [place, hwritten]
    rfl
  simp only [find, hglobal, hnth, Bool.not_true, Bool.false_and, Bool.false_eq_true, if_false]
  rw [hplace, List.mapM_pure]
  rfl

theorem find_erase (d : Document) (p : Pattern) :
    find d p erase = .ok ((located d p).map fun a =>
      ⟨a.1.position a.2.start, a.1.position a.2.stop, a.2, .text [] [] none⟩) := by
  refine find_of_ofMatch_eq_ok rfl rfl ?_ d p
  intro m
  have hexpand : Template.expand (some m) erase.replacement = .ok [] := by
    rw [Template.expand, show erase.replacement = [] from rfl, Template.pieces_nil]
    rfl
  rw [Written.ofMatch, hexpand]
  rfl

theorem find_in_order_cellDocument :
    cellDocument.RunsInOrder ∧ erase.isGlobal = true ∧
    ∃ found, find cellDocument letter erase = .ok found ∧ found.length = 3 ∧
      found.Pairwise (fun a b => a.stop ≤ b.start) ∧
      found.Pairwise (fun a b => a.start < b.start) := by
  have hd : cellDocument.RunsInOrder := ⟨by decide, by decide⟩
  obtain ⟨-, hapart, hstrict, -⟩ := find_in_order hd rfl (find_erase cellDocument letter)
  exact ⟨hd, rfl, _, find_erase cellDocument letter, by decide, hapart,
    hstrict.2 (.inr (by decide))⟩

/-- An empty match where the next match starts makes two edits with one anchor. -/
theorem find_tie_at_empty_match :
    cellDocument.RunsInOrder ∧ erase.isGlobal = true ∧
    ∃ found edits, find cellDocument lazyLetter erase = .ok found ∧
      ¬ found.Pairwise (fun a b => a.start < b.start) ∧ Edit.compile erase [] found = .ok edits ∧
      ¬ (edits.map (·.group)).Pairwise fun a b => a.anchor < b.anchor :=
  ⟨⟨by decide, by decide⟩, rfl, _, _, find_erase cellDocument lazyLetter, by decide, rfl, by decide⟩

end DocMatch

end Redline
