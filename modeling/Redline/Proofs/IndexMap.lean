import Redline.Proofs.Rounds

/-!
# Where places are found after edits

Edits that were computed on one copy of a text are a set of splices.  Their order does not matter:
no two start at one place, and no unit is taken out by two of them.  This module says place by place
what such edits make of a text, and shows that a shift map into which they were recorded in any order
moves a place to where it is found afterwards.  A place within a part that is taken out is found
nowhere, and a place where an edit starts is found before the new content.  When further edits
follow, each set computed on the text that the one before has left, their maps are gone through one
after the other.
-/

namespace Redline

namespace Splice

variable {α : Type}

/-! ## Edits in any order -/

/-- The splice takes out the unit at a place. -/
def takes (s : Splice α) (i : Nat) : Bool :=
  decide (s.start ≤ i ∧ i < s.stop)

/-- The place lies strictly inside the part that the splice takes out. -/
def Crosses (s : Splice α) (i : Nat) : Prop :=
  s.start < i ∧ i < s.stop

/-- The splice neither takes out the unit at a place nor puts anything before it. -/
def Spares (s : Splice α) (i : Nat) : Prop :=
  s.start ≠ i ∧ s.takes i = false

instance (s : Splice α) (i : Nat) : Decidable (s.Crosses i) :=
  inferInstanceAs (Decidable (_ ∧ _))

instance (s : Splice α) (i : Nat) : Decidable (s.Spares i) :=
  inferInstanceAs (Decidable (_ ∧ _))

/-- Edits of a text of some length, in any order: they lie within it, no two of them start at one
place, and their parts have no unit in common. -/
structure Apart (length : Nat) (edits : List (Splice α)) : Prop where
  inside : ∀ s ∈ edits, s.start ≤ s.stop ∧ s.stop ≤ length
  starts : edits.Pairwise fun s t => s.start ≠ t.start
  disjoint : edits.Pairwise fun s t => min s.stop t.stop ≤ max s.start t.start

instance (length : Nat) (edits : List (Splice α)) : Decidable (Apart length edits) :=
  decidable_of_iff
    ((∀ s ∈ edits, s.start ≤ s.stop ∧ s.stop ≤ length) ∧
      (edits.Pairwise fun s t => s.start ≠ t.start) ∧
      edits.Pairwise fun s t => min s.stop t.stop ≤ max s.start t.start)
    ⟨fun h => ⟨h.1, h.2.1, h.2.2⟩, fun h => ⟨h.inside, h.starts, h.disjoint⟩⟩

/-- What edits make of one place of a text: the content of the edit that starts there, and behind it
the unit that stands there, unless an edit takes it out. -/
def atPlace (body : List α) (edits : List (Splice α)) (i : Nat) : List α :=
  (edits.filter fun s => decide (s.start = i)).flatMap (·.content) ++
    if edits.any (·.takes i) then [] else body[i]?.toList

/-- What edits make of the places before a place. -/
def upTo (body : List α) (edits : List (Splice α)) (o : Nat) : List α :=
  (List.range o).flatMap (atPlace body edits)

/-- A text after edits, all at once.  Something may also be put in at its end. -/
def edited (body : List α) (edits : List (Splice α)) : List α :=
  upTo body edits (body.length + 1)

section Places

variable {body : List α} {edits : List (Splice α)} {s : Splice α} {o : Nat}

theorem Apart.of_cons {length : Nat} (h : Apart length (s :: edits)) : Apart length edits :=
  ⟨fun t ht => h.inside t (List.mem_cons_of_mem s ht), (List.pairwise_cons.1 h.starts).2,
    (List.pairwise_cons.1 h.disjoint).2⟩

/-- A unit that one edit takes out is taken out by no other. -/
theorem Apart.any_takes_eq_false
    {length i : Nat} (h : Apart length (s :: edits)) (hs : s.takes i = true) :
    edits.any (·.takes i) = false := by
  rw [List.any_eq_false]
  intro t ht hti
  have hdisjoint := (List.pairwise_cons.1 h.disjoint).1 t ht
  simp only [takes, decide_eq_true_eq] at hs hti
  omega

/-- At most one edit starts at a place. -/
theorem Apart.filter_start_eq
    {length : Nat} (h : Apart length edits) (hs : s ∈ edits) :
    edits.filter (fun t => decide (t.start = s.start)) = [s] := by
  induction edits with
  | nil => cases hs
  | cons t rest ih =>
    obtain ⟨hstart, -⟩ := List.pairwise_cons.1 h.starts
    rcases List.mem_cons.1 hs with rfl | hs
    · rw [List.filter_cons_of_pos (by simp), List.filter_eq_nil_iff.2]
      intro u hu
      have := hstart u hu
      simp only [decide_eq_true_eq]
      omega
    · have := hstart s hs
      rw [List.filter_cons_of_neg (by simp only [decide_eq_true_eq]; omega), ih h.of_cons hs]

/-! ## The text before a place -/

theorem upTo_succ (body : List α) (edits : List (Splice α)) (o : Nat) :
    upTo body edits (o + 1) = upTo body edits o ++ atPlace body edits o := by
  rw [upTo, List.range_succ, List.flatMap_append, List.flatMap_singleton, upTo]

/-- A text after edits is what they make of the places before a place and of those from it on. -/
theorem edited_eq_append (body : List α) (edits : List (Splice α)) (ho : o ≤ body.length) :
    edited body edits = upTo body edits o ++
      (List.range' o (body.length + 1 - o)).flatMap (atPlace body edits) := by
  have hrange := @List.range'_append_1 0 o (body.length + 1 - o)
  rw [Nat.zero_add, Nat.add_sub_of_le (Nat.le_succ_of_le ho), ← List.range_eq_range',
    ← List.range_eq_range'] at hrange
  rw [edited, upTo, ← hrange, List.flatMap_append, upTo]

/-- What edits make of a place stands behind what they make of the places before it. -/
theorem exists_edited_eq (body : List α) (edits : List (Splice α)) (ho : o ≤ body.length) :
    ∃ rest, edited body edits = upTo body edits o ++ (atPlace body edits o ++ rest) := by
  rw [edited_eq_append body edits ho, show body.length + 1 - o = body.length - o + 1 by omega,
    List.range'_succ, List.flatMap_cons]
  exact ⟨_, rfl⟩

/-- What becomes of the text before a place depends only on that text and the edits that start
before the place. -/
theorem upTo_eq_edited_take (body : List α) (edits : List (Splice α)) (ho : o ≤ body.length) :
    upTo body edits o =
      edited (body.take o) (edits.filter fun s => decide (s.start < o)) := by
  have hlength : (body.take o).length = o := by
    rw [List.length_take, Nat.min_eq_left ho]
  have hlast : atPlace (body.take o) (edits.filter fun s => decide (s.start < o)) o = [] := by
    have hstarts : (edits.filter fun s => decide (s.start < o)).filter
        (fun s => decide (s.start = o)) = [] := by
      simp only [List.filter_eq_nil_iff, List.mem_filter, decide_eq_true_eq]
      omega
    rw [atPlace, hstarts, List.getElem?_eq_none (by omega)]
    simp
  rw [edited, hlength, upTo_succ, hlast, List.append_nil, upTo, upTo]
  apply List.flatMap_congr
  intro i hi
  have hio : i < o := List.mem_range.1 hi
  have hstarts : (edits.filter fun s => decide (s.start < o)).filter
      (fun s => decide (s.start = i)) = edits.filter fun s => decide (s.start = i) := by
    rw [List.filter_filter]
    apply List.filter_congr
    intro s _
    rw [← Bool.decide_and]
    exact decide_eq_decide.2 ⟨fun h => h.1, fun h => ⟨h, by omega⟩⟩
  have htakes : (edits.filter fun s => decide (s.start < o)).any (·.takes i) =
      edits.any (·.takes i) := by
    rw [List.any_filter]
    apply List.any_congr rfl
    intro s
    rw [takes, ← Bool.decide_and]
    exact decide_eq_decide.2 ⟨fun h => h.2, fun h => ⟨by omega, h⟩⟩
  rw [atPlace, atPlace, hstarts, htakes, List.getElem?_take_of_lt hio]

/-- The change of length by the parts of edits that lie before a place. -/
def growthUpTo : List (Splice α) → Nat → Int
  | [], _ => 0
  | s :: rest, o =>
    (if s.start < o then s.content.length - ((min s.stop o : Nat) - (s.start : Int)) else 0) +
      growthUpTo rest o

/-- An edit adds its content where it starts, and takes one unit off where it takes one out. -/
theorem length_atPlace_cons
    (h : Apart body.length (s :: edits)) (ho : o < body.length) :
    ((atPlace body (s :: edits) o).length : Int) =
      (atPlace body edits o).length + (if s.start = o then (s.content.length : Int) else 0) -
        if s.takes o then 1 else 0 := by
  have hfilter : (((s :: edits).filter fun t => decide (t.start = o)).flatMap
      (·.content)).length = (if s.start = o then s.content.length else 0) +
        ((edits.filter fun t => decide (t.start = o)).flatMap (·.content)).length := by
    by_cases hstart : s.start = o
    · rw [List.filter_cons_of_pos (by simp [hstart]), List.flatMap_cons, List.length_append,
        if_pos hstart]
    · rw [List.filter_cons_of_neg (by simp [hstart]), if_neg hstart, Nat.zero_add]
  by_cases htakes : s.takes o = true
  · simp only [atPlace, List.length_append, hfilter, List.any_cons, htakes, Bool.true_or, if_true,
      h.any_takes_eq_false htakes, Bool.false_eq_true, if_false, List.getElem?_eq_getElem ho,
      Option.toList_some, List.length_cons, List.length_nil]
    split
    · omega
    · omega
  · simp only [atPlace, List.length_append, hfilter, List.any_cons, htakes, Bool.false_or,
      Bool.false_eq_true, if_false]
    split
    · omega
    · omega

/-- One place more changes the length by what the edits make of that place. -/
theorem length_atPlace
    (h : Apart body.length edits) (ho : o < body.length) :
    ((atPlace body edits o).length : Int) = 1 + growthUpTo edits (o + 1) - growthUpTo edits o := by
  induction edits with
  | nil => simp [atPlace, growthUpTo, List.getElem?_eq_getElem ho]
  | cons s rest ih =>
    have hle := (h.inside s List.mem_cons_self).1
    rw [length_atPlace_cons h ho, ih h.of_cons, growthUpTo, growthUpTo, takes]
    simp only [decide_eq_true_eq]
    grind

theorem growthUpTo_zero (edits : List (Splice α)) : growthUpTo edits 0 = 0 := by
  induction edits with
  | nil => rfl
  | cons s rest ih => rw [growthUpTo, ih, if_neg (Nat.not_lt_zero _), Int.add_zero]

theorem length_upTo (h : Apart body.length edits) (ho : o ≤ body.length) :
    ((upTo body edits o).length : Int) = o + growthUpTo edits o := by
  induction o with
  | zero =>
    rw [growthUpTo_zero]
    rfl
  | succ o ih =>
    have hplace := length_atPlace h (Nat.lt_of_succ_le ho)
    have hbefore := ih (Nat.le_of_succ_le ho)
    rw [upTo_succ, List.length_append]
    omega

/-- No edit reaches across the place, so those that start before it lie before it as a whole. -/
theorem growthUpTo_eq_shiftAt (h : ∀ s ∈ edits, ¬ s.Crosses o) :
    growthUpTo edits o = shiftAt edits o := by
  induction edits with
  | nil => rfl
  | cons s rest ih =>
    have hs := h s List.mem_cons_self
    rw [growthUpTo, shiftAt_cons, ih fun t ht => h t (List.mem_cons_of_mem s ht), growth]
    simp only [Crosses] at hs
    split
    · rw [if_pos (by omega)]
      omega
    · rw [if_neg (by omega)]

/-- A place that no edit reaches across is found behind what becomes of the text before it. -/
theorem length_upTo_eq_add_shiftAt
    (h : Apart body.length edits) (ho : o ≤ body.length) (hcross : ∀ s ∈ edits, ¬ s.Crosses o) :
    ((upTo body edits o).length : Int) = o + shiftAt edits o := by
  rw [length_upTo h ho, growthUpTo_eq_shiftAt hcross]

/-- Edits that spare a place leave its unit there and nothing else. -/
theorem atPlace_of_spares (h : ∀ s ∈ edits, s.Spares o) :
    atPlace body edits o = body[o]?.toList := by
  have hstarts : edits.filter (fun s => decide (s.start = o)) = [] := by
    rw [List.filter_eq_nil_iff]
    intro s hs
    simp [(h s hs).1]
  have htakes : edits.any (·.takes o) = false := by
    rw [List.any_eq_false]
    intro s hs
    simp [(h s hs).2]
  rw [atPlace, hstarts, htakes]
  rfl

theorem atPlace_start {length : Nat} (h : Apart length edits) (hs : s ∈ edits) :
    s.content <+: atPlace body edits s.start := by
  rw [atPlace, h.filter_start_eq hs, List.flatMap_singleton]
  exact List.prefix_append _ _

end Places

/-! ## One edit after the other -/

section InTurn

variable {body : List α} {edits others : List (Splice α)} {s : Splice α}

/-- What becomes of a text does not depend on the order in which its edits are given. -/
theorem edited_perm {body : List α} (h : Apart body.length edits) (hperm : others.Perm edits) :
    edited body others = edited body edits := by
  have hplace : atPlace body others = atPlace body edits := by
    funext i
    rw [atPlace, atPlace, hperm.any_eq]
    congr 2
    have hfilter := hperm.filter fun s => decide (s.start = i)
    cases hstarts : edits.filter (fun s => decide (s.start = i)) with
    | nil => rwa [hstarts, List.perm_nil] at hfilter
    | cons s rest =>
      obtain ⟨hs, hstart⟩ := List.mem_filter.1 (hstarts ▸ List.mem_cons_self : s ∈ edits.filter _)
      obtain rfl := of_decide_eq_true hstart
      rw [h.filter_start_eq hs] at hstarts hfilter
      rw [← hstarts]
      exact List.perm_singleton.1 hfilter
  rw [edited, edited, upTo, upTo, hplace]

/-- The units of a list from a place on, one by one. -/
theorem flatMap_range'_toList (body : List α) (a k : Nat) :
    (List.range' a k).flatMap (fun i => body[i]?.toList) = (body.drop a).take k := by
  induction k generalizing a with
  | zero => rfl
  | succ k ih =>
    rw [List.range'_succ, List.flatMap_cons, ih]
    by_cases ha : a < body.length
    · rw [List.getElem?_eq_getElem ha, List.drop_eq_getElem_cons ha, List.take_succ_cons]
      rfl
    · rw [List.getElem?_eq_none (by omega), List.drop_of_length_le (by omega),
        List.drop_of_length_le (by omega)]
      simp

/-- The last one of edits in order decides alone what becomes of the places from its start on. -/
theorem atPlace_last
    {hi i : Nat} (h : Ordered hi 0 (edits ++ [s])) (hi : s.start ≤ i) :
    atPlace body (edits ++ [s]) i =
      (if i = s.start then s.content else []) ++ if i < s.stop then [] else body[i]?.toList := by
  obtain ⟨hbefore, hlt, -⟩ := Ordered.split h
  have hstarts : edits.filter (fun t => decide (t.start = i)) = [] := by
    rw [List.filter_eq_nil_iff]
    intro t ht
    have := hlt t ht
    simp only [decide_eq_true_eq]
    omega
  have htakes : edits.any (·.takes i) = false := by
    rw [List.any_eq_false]
    intro t ht
    have := (hbefore.bounds ht).2
    simp only [takes, decide_eq_true_eq]
    omega
  have hlast : s.takes i = decide (i < s.stop) := by
    simp [takes, hi]
  rw [atPlace, List.filter_append, hstarts, List.any_append, htakes, List.any_cons, List.any_nil,
    hlast]
  by_cases hstart : i = s.start
  · simp [hstart]
  · simp [hstart, Ne.symm hstart]

/-- What the last edit makes of the text from its start on. -/
theorem flatMap_range'_atPlace_last
    (h : Ordered body.length 0 (edits ++ [s])) :
    (List.range' s.start (body.length + 1 - s.start)).flatMap (atPlace body (edits ++ [s])) =
      s.content ++ body.drop s.stop := by
  obtain ⟨-, hle, hstop, -⟩ := Ordered.concat h
  let kept : Nat → List α := fun i => if i < s.stop then [] else body[i]?.toList
  have hgone : (List.range' s.start (s.stop - s.start)).flatMap kept = [] := by
    rw [List.flatMap_eq_nil_iff]
    intro i hi
    rw [List.mem_range'_1] at hi
    exact if_pos (by omega)
  have hstay : (List.range' s.stop (body.length + 1 - s.stop)).flatMap kept = body.drop s.stop := by
    rw [← List.take_of_length_le (show (body.drop s.stop).length ≤ body.length + 1 - s.stop by
      rw [List.length_drop]; omega), ← flatMap_range'_toList]
    apply List.flatMap_congr
    intro i hi
    rw [List.mem_range'_1] at hi
    exact if_neg (by omega)
  have hkept : (List.range' s.start (body.length + 1 - s.start)).flatMap kept =
      body.drop s.stop := by
    have hsplit : List.range' s.start (body.length + 1 - s.start) =
        List.range' s.start (s.stop - s.start) ++
          List.range' s.stop (body.length + 1 - s.stop) := by
      have happend := @List.range'_append_1 s.start (s.stop - s.start) (body.length + 1 - s.stop)
      rw [Nat.add_sub_of_le hle] at happend
      rw [happend]
      congr 1
      omega
    rw [hsplit, List.flatMap_append, hgone, hstay, List.nil_append]
  have hcount : body.length + 1 - s.start = body.length - s.start + 1 := by omega
  rw [hcount, List.range'_succ, List.flatMap_cons] at hkept ⊢
  have hrest : (List.range' (s.start + 1) (body.length - s.start)).flatMap
      (atPlace body (edits ++ [s])) =
        (List.range' (s.start + 1) (body.length - s.start)).flatMap kept := by
    apply List.flatMap_congr
    intro i hi
    rw [List.mem_range'_1] at hi
    rw [atPlace_last h (by omega), if_neg (by omega), List.nil_append]
  rw [hrest, atPlace_last h (Nat.le_refl _), if_pos rfl, List.append_assoc]
  exact congrArg (s.content ++ ·) hkept

/-- Edits in order, all at once or place by place, give the same text. -/
theorem edited_eq_replace {body : List α} (h : Ordered body.length 0 edits) :
    edited body edits = replace body edits := by
  induction edits using List.reverseRecOn generalizing body with
  | nil =>
    have hplace : atPlace body ([] : List (Splice α)) = fun i => body[i]?.toList := rfl
    rw [edited, upTo, hplace, List.range_eq_range', flatMap_range'_toList,
      List.take_of_length_le (by simp)]
    rfl
  | append_singleton edits s ih =>
    obtain ⟨hbefore, hle, hstop, -⟩ := Ordered.concat h
    have hlt := (Ordered.split h).2.1
    have hlength : (body.take s.start).length = s.start := by
      rw [List.length_take]
      omega
    have hfilter : (edits ++ [s]).filter (fun t => decide (t.start < s.start)) = edits := by
      rw [List.filter_append, List.filter_eq_self.2 fun t ht => decide_eq_true (hlt t ht)]
      simp
    rw [edited_eq_append body (edits ++ [s]) (hle.trans hstop), flatMap_range'_atPlace_last h,
      upTo_eq_edited_take body _ (hle.trans hstop), hfilter, ih (by rwa [hlength]), replace, replace,
      replaceFrom_split body h, List.append_assoc]
    rfl

end InTurn

/-! ## Several rounds of edits -/

/-- Sets of edits, each of the text that those before it have left. -/
def InTurn : List α → List (List (Splice α)) → Prop
  | _, [] => True
  | body, edits :: rest => Apart body.length edits ∧ InTurn (edited body edits) rest

/-- What sets of edits make of the text before a place: of each set, the edits that start before the
place to which it has come by then. -/
def front : List α → List (List (Splice α)) → List α
  | before, [] => before
  | before, edits :: rest =>
    front (edited before (edits.filter fun s => decide (s.start < before.length))) rest

/-- Something holds of every edit and the place to which the end of a text has come by its turn. -/
def Throughout (P : Splice α → Nat → Prop) : List α → List (List (Splice α)) → Prop
  | _, [] => True
  | before, edits :: rest =>
    (∀ s ∈ edits, P s before.length) ∧
      Throughout P (edited before (edits.filter fun s => decide (s.start < before.length))) rest

end Splice

namespace ShiftMap

variable {α : Type}

/-- The map into which edits are recorded one after the other. -/
def recorded (edits : List (Splice α)) : ShiftMap :=
  edits.foldl (fun map s => record map s.start ((s.stop : Int) - s.start) s.content.length) []

/-- Edits are recorded into the map, in any order. -/
def Records (map : ShiftMap) (edits : List (Splice α)) : Prop :=
  ∃ order : List (Splice α), order.Perm edits ∧ map = recorded order

section Places

variable {body : List α} {edits : List (Splice α)} {map : ShiftMap} {o : Nat}

theorem Records.tracks (h : map.Records edits) : map.Tracks edits := by
  obtain ⟨order, hperm, rfl⟩ := h
  intro offset
  rw [recorded, move_foldl_record (fun s => s) order [] offset, move_nil, List.map_id',
    Splice.shiftAt_perm hperm]

/-- The map moves a place to the end of what becomes of the text before it. -/
theorem Records.move_eq
    (hmap : map.Records edits) (h : Splice.Apart body.length edits) (ho : o ≤ body.length)
    (hcross : ∀ s ∈ edits, ¬ s.Crosses o) :
    map.move o = (Splice.upTo body edits o).length := by
  rw [hmap.tracks, Splice.length_upTo_eq_add_shiftAt h ho hcross]

end Places

/-- What holds of one map and its edits holds of several, one after the other: the end of a text that
no edit reaches across is moved to the end of what becomes of that text, and a unit behind it that
is spared by all edits is found there. -/
theorem moveThrough_eq
    {before behind : List α} {rounds : List (List (Splice α))} {maps : List ShiftMap}
    (hrounds : Splice.InTurn (before ++ behind) rounds)
    (hmaps : List.Forall₂ (fun map edits => map.Records edits) maps rounds)
    (hcross : Splice.Throughout (fun s i => ¬ s.Crosses i) before rounds) :
    moveThrough maps before.length = (Splice.front before rounds).length ∧
      ∃ behind', rounds.foldl Splice.edited (before ++ behind) =
          Splice.front before rounds ++ behind' ∧
        (Splice.Throughout Splice.Spares before rounds →
          ∀ u ∈ behind.head?, behind'.head? = some u) := by
  induction hmaps generalizing before behind with
  | nil => exact ⟨rfl, behind, rfl, fun _ u hu => hu⟩
  | @cons map edits maps rounds hmap _ ih =>
    obtain ⟨hapart, hrounds⟩ := hrounds
    obtain ⟨hcross, hcrosses⟩ := hcross
    have ho : before.length ≤ (before ++ behind).length := by
      rw [List.length_append]
      exact Nat.le_add_right _ _
    have hfront := Splice.upTo_eq_edited_take (before ++ behind) edits ho
    rw [List.take_left] at hfront
    obtain ⟨rest, hrest⟩ := Splice.exists_edited_eq (before ++ behind) edits ho
    rw [hfront] at hrest
    rw [hrest] at hrounds
    obtain ⟨hmove, behind', hfinal, hhead⟩ := ih hrounds hcrosses
    refine ⟨?_, behind', ?_, ?_⟩
    · rw [moveThrough, List.foldl_cons, hmap.move_eq hapart ho hcross, hfront]
      exact hmove
    · rw [List.foldl_cons, hrest]
      exact hfinal
    · rintro ⟨hspares, hspared⟩ u hu
      refine hhead hspared u ?_
      rw [Splice.atPlace_of_spares hspares, List.getElem?_append_right (Nat.le_refl _),
        Nat.sub_self, ← List.head?_eq_getElem?, Option.mem_def.1 hu]
      rfl

/-- A map into which edits were recorded in any order is their index map.  A place that no edit
reaches across is moved to the end of what the edits that start before it make of the text before it.
In the text after all edits, a unit that they spare is found at the place to which its own is moved,
and the content of an edit begins at the place to which its start is moved.  The maps of several
rounds of edits, gone through one after the other, are the index map of all rounds. -/
theorem move_finds_places (body : List α) :
    (∀ (edits : List (Splice α)) (map : ShiftMap),
      Splice.Apart body.length edits → map.Records edits →
        (∀ order : List (Splice α), order.Perm edits → Splice.Ordered body.length 0 order →
          order.foldr Splice.apply body = Splice.edited body edits) ∧
        ∀ o ≤ body.length, (∀ s ∈ edits, ¬ s.Crosses o) →
          map.move o =
              (Splice.edited (body.take o) (edits.filter fun s => decide (s.start < o))).length ∧
            ((∀ s ∈ edits, s.Spares o) → ∀ u, body[o]? = some u →
              (Splice.edited body edits)[(map.move o).toNat]? = some u) ∧
            ∀ s ∈ edits, s.start = o →
              s.content <+: (Splice.edited body edits).drop (map.move o).toNat) ∧
    ∀ (rounds : List (List (Splice α))) (maps : List ShiftMap),
      Splice.InTurn body rounds →
      List.Forall₂ (fun map edits => map.Records edits) maps rounds →
        ∀ o ≤ body.length, Splice.Throughout (fun s i => ¬ s.Crosses i) (body.take o) rounds →
          moveThrough maps o = (Splice.front (body.take o) rounds).length ∧
            Splice.front (body.take o) rounds <+: rounds.foldl Splice.edited body ∧
            (Splice.Throughout Splice.Spares (body.take o) rounds → ∀ u, body[o]? = some u →
              (rounds.foldl Splice.edited body)[(moveThrough maps o).toNat]? = some u) := by
  constructor
  · intro edits map h hmap
    refine ⟨fun order hperm hordered => ?_, fun o ho hcross => ?_⟩
    · rw [← Splice.edited_perm h hperm, Splice.edited_eq_replace hordered,
        Splice.foldr_apply_eq_replaceFrom body hordered, Splice.replace]
    · have hmove := hmap.move_eq h ho hcross
      obtain ⟨rest, hrest⟩ := Splice.exists_edited_eq body edits ho
      rw [← Splice.upTo_eq_edited_take body edits ho, hmove, Int.toNat_natCast, hrest,
        List.drop_left]
      refine ⟨rfl, fun hspares u hu => ?_, ?_⟩
      · rw [Splice.atPlace_of_spares hspares, hu, List.getElem?_append_right (Nat.le_refl _),
          Nat.sub_self]
        rfl
      · rintro s hs rfl
        exact (Splice.atPlace_start h hs).trans (List.prefix_append _ _)
  · intro rounds maps hrounds hmaps o ho hcross
    have hsplit := List.take_append_drop o body
    have hlength : (body.take o).length = o := by
      rw [List.length_take, Nat.min_eq_left ho]
    rw [← hsplit] at hrounds
    obtain ⟨hmove, behind, hfinal, hhead⟩ := moveThrough_eq hrounds hmaps hcross
    rw [hsplit] at hfinal
    rw [hlength] at hmove
    rw [hmove, Int.toNat_natCast, hfinal]
    refine ⟨rfl, List.prefix_append _ _, fun hspares u hu => ?_⟩
    rw [List.getElem?_append_right (Nat.le_refl _), Nat.sub_self, ← List.head?_eq_getElem?]
    refine hhead hspares u ?_
    rw [List.head?_drop]
    exact hu

/-- The letters `abcdef`. -/
def letters : List Char :=
  ['a', 'b', 'c', 'd', 'e', 'f']

/-- Edits that make `aXYZd-e` of the letters. -/
def letterEdits : List (Splice Char) :=
  [⟨1, 3, ['X', 'Y', 'Z']⟩, ⟨4, 4, ['-']⟩, ⟨5, 6, []⟩]

/-- Edits that make `XYZd-e!` of what the first ones leave. -/
def laterEdits : List (Splice Char) :=
  [⟨0, 1, []⟩, ⟨7, 7, ['!']⟩]

theorem move_finds_places_letters :
    Splice.Apart letters.length letterEdits ∧
      Splice.Apart (Splice.edited letters letterEdits).length laterEdits ∧
      (recorded letterEdits.reverse).move 3 = 4 ∧
      (Splice.edited letters letterEdits)[4]? = some 'd' ∧
      ['-'] <+: (Splice.edited letters letterEdits).drop
        ((recorded letterEdits.reverse).move 4).toNat ∧
      moveThrough [recorded letterEdits.reverse, recorded laterEdits] 3 = 3 ∧
      ([letterEdits, laterEdits].foldl Splice.edited letters)[3]? = some 'd' := by
  have hfirst : Splice.Apart letters.length letterEdits := by decide
  have hlater : Splice.Apart (Splice.edited letters letterEdits).length laterEdits := by decide
  have hrecords : (recorded letterEdits.reverse).Records letterEdits :=
    ⟨_, List.reverse_perm _, rfl⟩
  obtain ⟨hone, hmany⟩ := move_finds_places letters
  obtain ⟨-, hplaces⟩ := hone letterEdits _ hfirst hrecords
  obtain ⟨-, -, hunit⟩ := hmany [letterEdits, laterEdits] _ ⟨hfirst, hlater, trivial⟩
    (.cons hrecords (.cons ⟨_, List.Perm.refl _, rfl⟩ .nil)) 3 (by decide)
    ⟨by decide, by decide, trivial⟩
  refine ⟨hfirst, hlater, rfl, ?_, ?_, rfl, ?_⟩
  · exact (hplaces 3 (by decide) (by decide)).2.1 (by decide) 'd' rfl
  · exact (hplaces 4 (by decide) (by decide)).2.2 ⟨4, 4, ['-']⟩ (by simp [letterEdits]) rfl
  · exact hunit ⟨by decide, by decide, trivial⟩ 'd' rfl

end ShiftMap

end Redline
