import Mathlib.Data.List.Induction
import Mathlib.Order.Lattice

/-!
# Replacing parts of a list

A splice puts new content in the place of a part of a list.  Splices that stand one behind the other
can be carried out all at once, one by one from the last to the first, or in two rounds: first some
of them, and then the others at positions that are moved by the change of length of the first ones.
All three ways give the same list.

The positions of a splice may coincide, and the stop of one splice may be the start of the next.
Two splices never have the same start, since then their order would not be settled by their
positions.
-/

namespace Redline

/-- A part of a list, from `start` up to `stop`, and the content that takes its place. -/
structure Splice (α : Type) where
  start : Nat
  stop : Nat
  content : List α

namespace Splice

variable {α : Type}

/-- A list from a position on, with the content of every splice in the place of its part. -/
def replaceFrom (body : List α) : Nat → List (Splice α) → List α
  | position, [] => body.drop position
  | position, s :: rest =>
    (body.take s.start).drop position ++ s.content ++ replaceFrom body s.stop rest

/-- A list with the content of every splice in the place of its part, all at once. -/
def replace (body : List α) (splices : List (Splice α)) : List α :=
  replaceFrom body 0 splices

/-- A list after one splice. -/
def apply (s : Splice α) (body : List α) : List α :=
  body.take s.start ++ s.content ++ body.drop s.stop

/-- The splices stand one behind the other in the part of a list from `lo` up to `hi`. -/
def Ordered (hi : Nat) : Nat → List (Splice α) → Prop
  | _, [] => True
  | lo, s :: rest =>
    lo ≤ s.start ∧ s.start ≤ s.stop ∧ s.stop ≤ hi ∧
      Ordered hi (max s.stop (s.start + 1)) rest

/-! ## Parts of a list -/

theorem drop_eq_drop_take_append
    (body : List α) {a b : Nat} (hab : a ≤ b) :
    body.drop a = (body.take b).drop a ++ body.drop b := by
  have hdrop : body.drop b = (body.drop a).drop (b - a) := by
    rw [List.drop_drop, Nat.add_sub_of_le hab]
  rw [hdrop, List.drop_take, List.take_append_drop]

theorem drop_take_append
    (body : List α) {a b c : Nat} (hab : a ≤ b) (hbc : b ≤ c) :
    (body.take c).drop a = (body.take b).drop a ++ (body.take c).drop b := by
  have hb : body.take b = (body.take c).take b := by
    rw [List.take_take, Nat.min_eq_left hbc]
  rw [hb]
  exact drop_eq_drop_take_append (body.take c) hab

/-! ## Splices in order -/

namespace Ordered

variable {hi lo : Nat} {s : Splice α} {splices : List (Splice α)}

theorem mono
    {lo' hi' : Nat} (h : Ordered hi lo splices) (hlo : lo' ≤ lo) (hhi : hi ≤ hi') :
    Ordered hi' lo' splices := by
  induction splices generalizing lo lo' with
  | nil => trivial
  | cons s rest ih =>
    obtain ⟨h₁, h₂, h₃, h₄⟩ := h
    exact ⟨by omega, h₂, by omega, ih h₄ le_rfl⟩

theorem sublist
    {others : List (Splice α)} (h : Ordered hi lo splices) (hsub : others.Sublist splices) :
    Ordered hi lo others := by
  induction hsub generalizing lo with
  | slnil => trivial
  | cons s _ ih =>
    obtain ⟨h₁, -, -, h₄⟩ := h
    exact (ih h₄).mono (by omega) le_rfl
  | cons_cons s _ ih =>
    obtain ⟨h₁, h₂, h₃, h₄⟩ := h
    exact ⟨h₁, h₂, h₃, ih h₄⟩

theorem le_start (h : Ordered hi lo splices) (hs : s ∈ splices) : lo ≤ s.start := by
  induction splices generalizing lo with
  | nil => simp at hs
  | cons t rest ih =>
    obtain ⟨h₁, h₂, -, h₄⟩ := h
    rcases List.mem_cons.1 hs with rfl | hs
    · exact h₁
    · have := ih h₄ hs
      omega

theorem bounds
    (h : Ordered hi lo splices) (hs : s ∈ splices) :
    s.start ≤ s.stop ∧ s.stop ≤ hi := by
  induction splices generalizing lo with
  | nil => simp at hs
  | cons t rest ih =>
    obtain ⟨-, h₂, h₃, h₄⟩ := h
    rcases List.mem_cons.1 hs with rfl | hs
    · exact ⟨h₂, h₃⟩
    · exact ih h₄ hs

/-- Splices in order are those before the last one, which end where it starts, and the last one. -/
theorem concat
    (h : Ordered hi lo (splices ++ [s])) :
    Ordered s.start lo splices ∧ s.start ≤ s.stop ∧ s.stop ≤ hi ∧ lo ≤ s.start := by
  induction splices generalizing lo with
  | nil =>
    obtain ⟨h₁, h₂, h₃, -⟩ := h
    exact ⟨trivial, h₂, h₃, h₁⟩
  | cons t rest ih =>
    obtain ⟨h₁, h₂, -, h₄⟩ := h
    obtain ⟨hrest, hs, hhi, hlo⟩ := ih h₄
    exact ⟨⟨h₁, h₂, by omega, hrest⟩, hs, hhi, by omega⟩

/-- The splices before a splice and those after it. -/
theorem split
    {before after : List (Splice α)} (h : Ordered hi lo (before ++ s :: after)) :
    Ordered s.start lo before ∧ (∀ t ∈ before, t.start < s.start) ∧ lo ≤ s.start ∧
      s.start ≤ s.stop ∧ s.stop ≤ hi ∧
      Ordered hi (max s.stop (s.start + 1)) after := by
  induction before generalizing lo with
  | nil =>
    obtain ⟨h₁, h₂, h₃, h₄⟩ := h
    exact ⟨trivial, by simp, h₁, h₂, h₃, h₄⟩
  | cons t rest ih =>
    obtain ⟨h₁, h₂, -, h₄⟩ := h
    obtain ⟨hrest, hlt, hlo, hs⟩ := ih h₄
    refine ⟨⟨h₁, h₂, by omega, hrest⟩, ?_, by omega, hs⟩
    intro u hu
    rcases List.mem_cons.1 hu with rfl | hu
    · omega
    · exact hlt u hu

end Ordered

/-! ## From the last splice to the first -/

/-- What stands before the first splice is kept as it is. -/
theorem replaceFrom_eq_append
    (body : List α) {hi lo position middle : Nat} {splices : List (Splice α)}
    (h : Ordered hi lo splices) (hp : position ≤ middle) (hm : middle ≤ lo) :
    replaceFrom body position splices =
      (body.take middle).drop position ++ replaceFrom body middle splices := by
  cases splices with
  | nil => exact drop_eq_drop_take_append body hp
  | cons s rest =>
    obtain ⟨h₁, -⟩ := h
    simp only [replaceFrom]
    rw [drop_take_append body hp (hm.trans h₁)]
    simp only [List.append_assoc]

/-- The last splice can be carried out before all others. -/
theorem replaceFrom_concat
    (body : List α) {lo position : Nat} {s : Splice α} {splices : List (Splice α)}
    (h : Ordered body.length lo (splices ++ [s])) (hp : position ≤ lo) :
    replaceFrom body position (splices ++ [s]) =
      replaceFrom (s.apply body) position splices := by
  induction splices generalizing lo position with
  | nil =>
    obtain ⟨h₁, h₂, h₃, -⟩ := h
    have hlen : position ≤ (body.take s.start).length := by
      rw [List.length_take]
      omega
    simp only [List.nil_append, replaceFrom, apply]
    rw [List.append_assoc, List.append_assoc, List.drop_append_of_le_length hlen]
  | cons t rest ih =>
    obtain ⟨h₁, h₂, h₃, h₄⟩ := h
    obtain ⟨hrest, hs, hhi, hlo⟩ := h₄.concat
    have htake : (s.apply body).take t.start = body.take t.start := by
      rw [apply, List.append_assoc, List.take_append_of_le_length
        (by rw [List.length_take]; omega), List.take_take, Nat.min_eq_left (by omega)]
    simp only [List.cons_append, replaceFrom]
    rw [ih h₄ (le_max_left _ _), htake]

/-- Splices that are carried out one by one, the last one first, give the same list as all of them
at once. -/
theorem foldr_apply_eq_replaceFrom
    (body : List α) {lo : Nat} {splices : List (Splice α)}
    (h : Ordered body.length lo splices) :
    splices.foldr apply body = replaceFrom body 0 splices := by
  induction splices using List.reverseRecOn generalizing body with
  | nil => rfl
  | append_singleton rest s ih =>
    obtain ⟨hrest, hs, hhi, -⟩ := h.concat
    have hlen : s.start ≤ (s.apply body).length := by
      simp only [apply, List.length_append, List.length_take]
      omega
    rw [List.foldr_append, replaceFrom_concat body h (Nat.zero_le lo)]
    exact ih (s.apply body) (hrest.mono le_rfl hlen)

/-- The content of a splice stands behind what became of the part before it. -/
theorem replaceFrom_split
    (body : List α) {hi lo position : Nat} {s : Splice α} {before after : List (Splice α)}
    (h : Ordered hi lo (before ++ s :: after)) :
    replaceFrom body position (before ++ s :: after) =
      replaceFrom (body.take s.start) position before ++ s.content ++
        replaceFrom body s.stop after := by
  induction before generalizing lo position with
  | nil => rfl
  | cons t rest ih =>
    obtain ⟨-, h₂, -, h₄⟩ := h
    have hlo := h₄.split.2.2.1
    have htake : (body.take s.start).take t.start = body.take t.start := by
      rw [List.take_take, Nat.min_eq_left (by omega)]
    simp only [List.cons_append, replaceFrom]
    rw [ih h₄, htake]
    simp only [List.append_assoc]

/-! ## Positions that are moved -/

/-- By how much a splice changes the length of a list. -/
def growth (s : Splice α) : Int :=
  s.content.length - ((s.stop : Int) - s.start)

/-- By how much splices change the length of a list in all. -/
def totalGrowth : List (Splice α) → Int
  | [] => 0
  | s :: rest => s.growth + totalGrowth rest

/-- By how much a position is moved: the growth of all splices that start before it. -/
def shiftAt (splices : List (Splice α)) (offset : Int) : Int :=
  totalGrowth (splices.filter fun s => decide ((s.start : Int) < offset))

/-- A splice at the positions where its part is found after other splices. -/
def moved (others : List (Splice α)) (s : Splice α) : Splice α :=
  ⟨(s.start + shiftAt others s.start).toNat, (s.stop + shiftAt others s.stop).toNat, s.content⟩

theorem totalGrowth_append (xs ys : List (Splice α)) :
    totalGrowth (xs ++ ys) = totalGrowth xs + totalGrowth ys := by
  induction xs with
  | nil => simp [totalGrowth]
  | cons s xs ih => rw [List.cons_append, totalGrowth, ih, totalGrowth, Int.add_assoc]

@[simp]
theorem shiftAt_nil (offset : Int) : shiftAt ([] : List (Splice α)) offset = 0 :=
  rfl

theorem shiftAt_cons (s : Splice α) (splices : List (Splice α)) (offset : Int) :
    shiftAt (s :: splices) offset =
      (if (s.start : Int) < offset then s.growth else 0) + shiftAt splices offset := by
  unfold shiftAt
  by_cases h : (s.start : Int) < offset
  · simp [h, totalGrowth]
  · simp [h]

theorem shiftAt_eq_zero
    {splices : List (Splice α)} {offset : Int}
    (h : ∀ s ∈ splices, offset ≤ s.start) :
    shiftAt splices offset = 0 := by
  have hnone : splices.filter (fun s => decide ((s.start : Int) < offset)) = [] := by
    rw [List.filter_eq_nil_iff]
    intro s hs
    have := h s hs
    simp only [decide_eq_true_eq]
    omega
  rw [shiftAt, hnone]
  rfl

theorem shiftAt_eq_totalGrowth
    {splices : List (Splice α)} {offset : Int}
    (h : ∀ s ∈ splices, (s.start : Int) < offset) :
    shiftAt splices offset = totalGrowth splices := by
  have hall : splices.filter (fun s => decide ((s.start : Int) < offset)) = splices := by
    rw [List.filter_eq_self]
    intro s hs
    exact decide_eq_true (h s hs)
  rw [shiftAt, hall]

theorem shiftAt_append (xs ys : List (Splice α)) (offset : Int) :
    shiftAt (xs ++ ys) offset = shiftAt xs offset + shiftAt ys offset := by
  rw [shiftAt, List.filter_append, totalGrowth_append]
  rfl

theorem totalGrowth_perm {xs ys : List (Splice α)} (h : xs.Perm ys) :
    totalGrowth xs = totalGrowth ys := by
  induction h with
  | nil => rfl
  | cons s _ ih => rw [totalGrowth, ih, totalGrowth]
  | swap s t rest =>
    simp only [totalGrowth]
    omega
  | trans _ _ ih₁ ih₂ => exact ih₁.trans ih₂

/-- Positions are moved in the same way whatever the order of the splices. -/
theorem shiftAt_perm {xs ys : List (Splice α)} (h : xs.Perm ys) (offset : Int) :
    shiftAt xs offset = shiftAt ys offset :=
  totalGrowth_perm (h.filter _)

theorem Ordered.shiftAt_eq_zero
    {hi lo : Nat} {splices : List (Splice α)} {offset : Int}
    (h : Ordered hi lo splices) (hoffset : offset ≤ lo) :
    shiftAt splices offset = 0 := by
  apply Splice.shiftAt_eq_zero
  intro s hs
  have := h.le_start hs
  omega

/-- Two places are not brought closer together when all that lies between them is left as it is. -/
theorem shiftAt_le_shiftAt
    {splices : List (Splice α)} {x y : Int} (hxy : x ≤ y)
    (h : ∀ s ∈ splices, s.start ≤ s.stop ∧ ((s.stop : Int) ≤ x ∨ y ≤ s.start)) :
    shiftAt splices x ≤ shiftAt splices y := by
  induction splices with
  | nil => exact le_rfl
  | cons s rest ih =>
    obtain ⟨hle, hapart⟩ := h s List.mem_cons_self
    have hrest := ih fun t ht => h t (List.mem_cons_of_mem s ht)
    rw [shiftAt_cons, shiftAt_cons]
    by_cases hx : (s.start : Int) < x
    · rw [if_pos hx, if_pos (by omega)]
      omega
    · rw [if_neg hx]
      split
      · -- Only an empty splice can start here, and it takes nothing away.
        simp only [growth]
        omega
      · omega

/-- Places that no splice reaches across stay in order, also when splices start at one place. -/
theorem add_shiftAt_le_add_shiftAt
    {splices : List (Splice α)} {x y : Int} (hxy : x ≤ y)
    (horder : splices.Pairwise fun s t => s.stop ≤ t.start)
    (h : ∀ s ∈ splices, s.start ≤ s.stop ∧
      ((s.stop : Int) ≤ x ∨ x ≤ s.start) ∧ ((s.stop : Int) ≤ y ∨ y ≤ s.start)) :
    x + shiftAt splices x ≤ y + shiftAt splices y := by
  induction splices generalizing x with
  | nil => simpa using hxy
  | cons s rest ih =>
    obtain ⟨hbehind, horder⟩ := List.pairwise_cons.1 horder
    obtain ⟨hle, hx, hy⟩ := h s List.mem_cons_self
    have hrest : ∀ t ∈ rest, t.start ≤ t.stop ∧
        ((t.stop : Int) ≤ x ∨ x ≤ t.start) ∧ ((t.stop : Int) ≤ y ∨ y ≤ t.start) :=
      fun t ht => h t (List.mem_cons_of_mem s ht)
    rw [shiftAt_cons, shiftAt_cons]
    by_cases hbefore : (s.start : Int) < x
    · have := ih hxy horder hrest
      rw [if_pos hbefore, if_pos (by omega)]
      omega
    · rw [if_neg hbefore]
      split
      · -- The splice lies between the places, and the rest lies behind it.
        have hstop : (s.stop : Int) ≤ y := by omega
        have hlast := ih hstop horder fun t ht => by
          have := hbehind t ht
          obtain ⟨hle', -, hy'⟩ := hrest t ht
          exact ⟨hle', .inr (by omega), hy'⟩
        have hzero : ∀ z : Int, z ≤ s.stop → shiftAt rest z = 0 := by
          intro z hz
          apply shiftAt_eq_zero
          intro t ht
          have := hbehind t ht
          omega
        rw [hzero s.stop le_rfl] at hlast
        rw [hzero x (by omega)]
        simp only [growth]
        omega
      · have := ih hxy horder hrest
        omega

/-- Splices cannot take away more than there is. -/
theorem Ordered.sub_le_totalGrowth
    {hi lo k : Nat} {splices : List (Splice α)}
    (h : Ordered hi lo splices) (hk : k ≤ lo) (hkhi : k ≤ hi) :
    (k : Int) - hi ≤ totalGrowth splices := by
  induction splices generalizing lo k with
  | nil =>
    simp only [totalGrowth]
    omega
  | cons s rest ih =>
    obtain ⟨h₁, h₂, h₃, h₄⟩ := h
    have hrest := ih h₄ (le_max_left _ _) h₃
    simp only [totalGrowth, growth]
    omega

theorem length_replaceFrom
    (body : List α) {lo position : Nat} {splices : List (Splice α)}
    (h : Ordered body.length lo splices) (hp : position ≤ lo) (hb : position ≤ body.length) :
    ((replaceFrom body position splices).length : Int) =
      body.length - position + totalGrowth splices := by
  induction splices generalizing lo position with
  | nil =>
    simp only [replaceFrom, List.length_drop, totalGrowth]
    omega
  | cons s rest ih =>
    obtain ⟨h₁, h₂, h₃, h₄⟩ := h
    have hrest := ih h₄ (le_max_left _ _) h₃
    simp only [replaceFrom, List.length_append, List.length_drop, List.length_take, totalGrowth,
      growth]
    omega

/-- The part before a splice ends, after all splices, where the start of the splice is moved to. -/
theorem length_replaceFrom_before
    (body : List α) {lo : Nat} {s : Splice α} {before after : List (Splice α)}
    (h : Ordered body.length lo (before ++ s :: after)) :
    ((replaceFrom (body.take s.start) 0 before).length : Int) =
      s.start + shiftAt (before ++ s :: after) s.start := by
  obtain ⟨hbefore, hlt, -, hs, hstop, hafter⟩ := h.split
  have hlen : (body.take s.start).length = s.start := by
    rw [List.length_take]
    omega
  rw [length_replaceFrom (body.take s.start) (hlen.symm ▸ hbefore) (Nat.zero_le lo)
    (Nat.zero_le _), hlen, shiftAt_append, shiftAt_cons, if_neg (by omega),
    hafter.shiftAt_eq_zero (by omega),
    shiftAt_eq_totalGrowth (fun t ht => by exact_mod_cast hlt t ht)]
  omega

/-! ## Two rounds -/

section TwoRounds

variable {ι : Type} {lo : Nat} {items : List ι} (f : ι → Splice α) (p : ι → Bool)

theorem Ordered.map_filter
    {hi : Nat} (h : Ordered hi lo (items.map f)) :
    Ordered hi lo ((items.filter p).map f) :=
  h.sublist (List.filter_sublist.map f)

/-- The first round moves no start before the place where the splices begin. -/
theorem le_add_shiftAt
    {hi : Nat} {i : ι} (h : Ordered hi lo (items.map f)) (hi' : i ∈ items) :
    (lo : Int) ≤ (f i).start + shiftAt ((items.filter p).map f) (f i).start := by
  induction items generalizing lo with
  | nil => simp at hi'
  | cons j rest ih =>
    obtain ⟨h₁, h₂, h₃, h₄⟩ := h
    rcases List.mem_cons.1 hi' with rfl | hrest
    · -- No splice of the list starts before its first one.
      have hzero : shiftAt (((i :: rest).filter p).map f) (f i).start = 0 := by
        apply Splice.shiftAt_eq_zero
        intro s hs
        obtain ⟨k, hk, rfl⟩ := List.mem_map.1 hs
        rcases List.mem_cons.1 (List.mem_filter.1 hk).1 with rfl | hk
        · exact le_rfl
        · have := h₄.le_start (List.mem_map_of_mem hk)
          omega
      omega
    · have hle := ih h₄ hrest
      have hstart := h₄.le_start (List.mem_map_of_mem hrest)
      rw [List.filter_cons]
      split
      · rw [List.map_cons, shiftAt_cons, if_pos (by omega)]
        simp only [growth]
        omega
      · omega

/-- The splices of the second round are in order in the list that the first round leaves.  Of the
first round, the splices before `lo` have changed the length by `change`. -/
theorem ordered_moved
    {hi hi' k : Nat} {total : List (Splice α)} (change : Int)
    (h : Ordered hi lo (items.map f))
    (hk : (k : Int) ≤ lo + change)
    (hhi : (hi' : Int) = hi + change + totalGrowth ((items.filter p).map f))
    (htotal : ∀ offset : Int, lo ≤ offset →
      shiftAt total offset = change + shiftAt ((items.filter p).map f) offset) :
    Ordered hi' k ((items.filter (!p ·)).map fun i => moved total (f i)) := by
  induction items generalizing lo k change with
  | nil => trivial
  | cons i rest ih =>
    obtain ⟨h₁, h₂, h₃, h₄⟩ := h
    have hfilter := Ordered.map_filter f p h₄
    cases hp : p i with
    | true =>
      simp only [List.filter_cons, hp, Bool.not_true, Bool.false_eq_true, if_true, if_false,
        List.map_cons, totalGrowth] at hhi htotal ⊢
      apply ih (change + (f i).growth) h₄
      · simp only [growth]
        omega
      · omega
      · intro offset hoffset
        rw [htotal offset (by omega), shiftAt_cons, if_pos (by omega)]
        omega
    | false =>
      simp only [List.filter_cons, hp, Bool.not_false, Bool.false_eq_true, if_true, if_false,
        List.map_cons] at hhi htotal ⊢
      have hstart : shiftAt total (f i).start = change := by
        rw [htotal (f i).start (by omega), hfilter.shiftAt_eq_zero (by omega), Int.add_zero]
      have hstop : shiftAt total (f i).stop = change := by
        rw [htotal (f i).stop (by omega), hfilter.shiftAt_eq_zero (by omega), Int.add_zero]
      -- The first round cannot take away more than what stands behind this splice.
      have hroom := hfilter.sub_le_totalGrowth (le_max_left _ _) h₃
      refine ⟨?_, ?_, ?_, ?_⟩
      · simp only [moved, hstart]
        omega
      · simp only [moved, hstart, hstop]
        omega
      · simp only [moved, hstop]
        omega
      · apply ih change h₄
        · simp only [moved, hstart, hstop]
          omega
        · exact hhi
        · intro offset hoffset
          exact htotal offset (by omega)

/-- What is done stays as it is when the splices start behind it. -/
theorem replaceFrom_append_done
    {hi : Nat} {splices : List (Splice α)} (done piece tail : List α)
    (h : Ordered hi (done ++ piece).length splices) :
    replaceFrom (done ++ (piece ++ tail)) done.length splices =
      piece ++ replaceFrom (done ++ piece ++ tail) (done ++ piece).length splices := by
  rw [← List.append_assoc, replaceFrom_eq_append _ h (by simp) le_rfl, List.take_left,
    List.drop_left]

/-- What the second round makes of the list that the first round leaves.  The list is given by the
part that is done and by the rest, which the first round has reached at `position`. -/
theorem replaceFrom_moved
    (body done : List α) (position : Nat) {total : List (Splice α)} (change : Int)
    (h : Ordered body.length lo (items.map f))
    (hposition : position ≤ lo) (hbody : position ≤ body.length)
    (hdone : (done.length : Int) = position + change)
    (htotal : ∀ offset : Int, lo ≤ offset →
      shiftAt total offset = change + shiftAt ((items.filter p).map f) offset) :
    replaceFrom (done ++ replaceFrom body position ((items.filter p).map f)) done.length
        ((items.filter (!p ·)).map fun i => moved total (f i)) =
      replaceFrom body position (items.map f) := by
  induction items generalizing lo position done change with
  | nil => simp [replaceFrom]
  | cons i rest ih =>
    obtain ⟨h₁, h₂, h₃, h₄⟩ := h
    have hfilter := Ordered.map_filter f p h₄
    cases hp : p i with
    | true =>
      simp only [List.filter_cons, hp, Bool.not_true, Bool.false_eq_true, if_true, if_false,
        List.map_cons, replaceFrom] at htotal ⊢
      have htotal' : ∀ offset : Int, (max (f i).stop ((f i).start + 1) : Nat) ≤ offset →
          shiftAt total offset =
            change + (f i).growth + shiftAt ((rest.filter p).map f) offset := by
        intro offset hoffset
        rw [htotal offset (by omega), shiftAt_cons, if_pos (by omega)]
        omega
      obtain ⟨piece, hpiece⟩ :
          ∃ piece, piece = (body.take (f i).start).drop position ++ (f i).content := ⟨_, rfl⟩
      have hlen : ((done ++ piece).length : Int) = (f i).stop + (change + (f i).growth) := by
        simp only [hpiece, List.length_append, List.length_drop, List.length_take, growth]
        omega
      have hhi : ((done ++ piece ++
          replaceFrom body (f i).stop ((rest.filter p).map f)).length : Int) =
          body.length + (change + (f i).growth) + totalGrowth ((rest.filter p).map f) := by
        rw [List.length_append, Int.natCast_add, hlen,
          length_replaceFrom body hfilter (le_max_left _ _) h₃]
        omega
      have hordered := ordered_moved f p (change + (f i).growth) h₄
        (k := (done ++ piece).length) (by omega) hhi htotal'
      rw [← hpiece, replaceFrom_append_done done piece _ hordered,
        ih (done ++ piece) (f i).stop (change + (f i).growth) h₄ (le_max_left _ _) h₃ hlen
          htotal']
    | false =>
      simp only [List.filter_cons, hp, Bool.not_false, Bool.false_eq_true, if_true, if_false,
        List.map_cons, replaceFrom] at htotal ⊢
      have hstart : shiftAt total (f i).start = change := by
        rw [htotal (f i).start (by omega), hfilter.shiftAt_eq_zero (by omega), Int.add_zero]
      have hstop : shiftAt total (f i).stop = change := by
        rw [htotal (f i).stop (by omega), hfilter.shiftAt_eq_zero (by omega), Int.add_zero]
      obtain ⟨piece, hpiece⟩ : ∃ piece, piece = (body.take (f i).stop).drop position := ⟨_, rfl⟩
      have hlen : ((done ++ piece).length : Int) = (f i).stop + change := by
        simp only [hpiece, List.length_append, List.length_drop, List.length_take]
        omega
      have hmoved : (moved total (f i)).stop = (done ++ piece).length := by
        simp only [moved, hstop]
        omega
      have hbefore : ((done ++ (piece ++
          replaceFrom body (f i).stop ((rest.filter p).map f))).take
            (moved total (f i)).start).drop done.length =
          (body.take (f i).start).drop position := by
        have hle : (f i).start - position ≤ piece.length := by
          simp only [hpiece, List.length_drop, List.length_take]
          omega
        rw [List.drop_take, List.drop_left, List.drop_take,
          show (moved total (f i)).start - done.length = (f i).start - position by
            simp only [moved, hstart]
            omega,
          List.take_append_of_le_length hle, hpiece, List.drop_take, List.take_take,
          Nat.min_eq_left (by omega)]
      rw [replaceFrom_eq_append body hfilter (hposition.trans (h₁.trans h₂)) (le_max_left _ _),
        ← hpiece, hbefore, hmoved, ← List.append_assoc done,
        ih (done ++ piece) (f i).stop change h₄ (le_max_left _ _) h₃ hlen
          (fun offset hoffset => htotal offset (by omega))]
      rfl

/-- Some splices can be carried out before the others, which are then moved. -/
theorem replace_moved
    (body : List α) (h : Ordered body.length lo (items.map f)) :
    replace (replace body ((items.filter p).map f))
        ((items.filter (!p ·)).map fun i => moved ((items.filter p).map f) (f i)) =
      replace body (items.map f) := by
  have hmoved := replaceFrom_moved f p body [] 0 0 h (Nat.zero_le lo) (Nat.zero_le _) rfl
    (fun offset _ => (Int.zero_add (shiftAt ((items.filter p).map f) offset)).symm)
  simpa [replace] using hmoved

/-- The splices of the second round are in order in the list that the first round leaves. -/
theorem ordered_second_round
    (body : List α) (h : Ordered body.length lo (items.map f)) :
    Ordered (replace body ((items.filter p).map f)).length 0
      ((items.filter (!p ·)).map fun i => moved ((items.filter p).map f) (f i)) := by
  apply ordered_moved f p 0 h
  · omega
  · rw [replace, length_replaceFrom body (h.map_filter f p) (Nat.zero_le lo) (Nat.zero_le _)]
    omega
  · intro offset _
    exact (Int.zero_add _).symm

/-- No splice of the first round starts within a splice of the second one. -/
theorem shiftAt_stop_eq
    {hi : Nat} {i : ι} (h : Ordered hi lo (items.map f)) (hmem : i ∈ items) (hp : p i = false) :
    shiftAt ((items.filter p).map f) (f i).stop =
      shiftAt ((items.filter p).map f) (f i).start := by
  induction items generalizing lo with
  | nil => simp at hmem
  | cons j rest ih =>
    obtain ⟨-, h₂, -, h₄⟩ := h
    have hfilter := Ordered.map_filter f p h₄
    rcases List.mem_cons.1 hmem with rfl | hmem
    · rw [List.filter_cons_of_neg (by simp [hp]), hfilter.shiftAt_eq_zero (by omega),
        hfilter.shiftAt_eq_zero (by omega)]
    · have hstart := h₄.le_start (List.mem_map_of_mem hmem)
      have hstop := (h₄.bounds (List.mem_map_of_mem hmem)).1
      rw [List.filter_cons]
      split
      · rw [List.map_cons, shiftAt_cons, shiftAt_cons, if_pos (by omega), if_pos (by omega),
          ih h₄ hmem]
      · exact ih h₄ hmem

/-- The first round keeps the order of a splice of the second round and any other one. -/
theorem add_shiftAt_lt_iff
    {hi : Nat} {i j : ι} (h : Ordered hi lo (items.map f))
    (hj : j ∈ items) (hp : p j = false) (hmem : i ∈ items) :
    ((f j).start : Int) + shiftAt ((items.filter p).map f) (f j).start <
        (f i).start + shiftAt ((items.filter p).map f) (f i).start ↔
      (f j).start < (f i).start := by
  induction items generalizing lo with
  | nil => simp at hmem
  | cons k rest ih =>
    obtain ⟨h₁, h₂, h₃, h₄⟩ := h
    have hfilter := Ordered.map_filter f p h₄
    rcases List.mem_cons.1 hj with rfl | hj
    · rcases List.mem_cons.1 hmem with rfl | hmem
      · omega
      · have hle := le_add_shiftAt f p h₄ hmem
        have hlt := h₄.le_start (List.mem_map_of_mem hmem)
        rw [List.filter_cons_of_neg (by simp [hp]), hfilter.shiftAt_eq_zero (by omega)]
        omega
    · have hjlo := h₄.le_start (List.mem_map_of_mem hj)
      have hle := le_add_shiftAt f p h₄ hj
      rcases List.mem_cons.1 hmem with rfl | hmem
      · have hzero := hfilter.shiftAt_eq_zero (show ((f i).start : Int) ≤ _ by omega)
        rw [List.filter_cons]
        split
        · rw [List.map_cons, shiftAt_cons, shiftAt_cons, if_pos (by omega), if_neg (by omega),
            hzero]
          simp only [growth]
          omega
        · rw [hzero]
          omega
      · have hilo := h₄.le_start (List.mem_map_of_mem hmem)
        have hiff := ih h₄ hj hmem
        rw [List.filter_cons]
        split
        · rw [List.map_cons, shiftAt_cons, shiftAt_cons, if_pos (by omega), if_pos (by omega)]
          omega
        · exact hiff

theorem moved_start
    {hi : Nat} {i : ι} (h : Ordered hi lo (items.map f)) (hmem : i ∈ items) :
    ((moved ((items.filter p).map f) (f i)).start : Int) =
      (f i).start + shiftAt ((items.filter p).map f) (f i).start := by
  have := le_add_shiftAt f p h hmem
  simp only [moved]
  omega

theorem moved_stop
    {hi : Nat} {i : ι} (h : Ordered hi lo (items.map f)) (hmem : i ∈ items) (hp : p i = false) :
    ((moved ((items.filter p).map f) (f i)).stop : Int) =
      (f i).stop + shiftAt ((items.filter p).map f) (f i).stop := by
  have hle := le_add_shiftAt f p h hmem
  have hstop := shiftAt_stop_eq f p h hmem hp
  have hbounds := (h.bounds (List.mem_map_of_mem hmem)).1
  simp only [moved]
  omega

theorem shiftAt_filter_add
    (items : List ι) (offset : Int) :
    shiftAt ((items.filter p).map f) offset + shiftAt ((items.filter (!p ·)).map f) offset =
      shiftAt (items.map f) offset := by
  induction items with
  | nil => rfl
  | cons i rest ih =>
    cases hp : p i with
    | true =>
      rw [List.filter_cons_of_pos hp, List.filter_cons_of_neg (by simp [hp]), List.map_cons,
        List.map_cons, shiftAt_cons, shiftAt_cons]
      omega
    | false =>
      rw [List.filter_cons_of_neg (by simp [hp]), List.filter_cons_of_pos (by simp [hp]),
        List.map_cons, List.map_cons, shiftAt_cons, shiftAt_cons]
      omega

/-- The start of a splice that is moved round by round comes to where it is moved at once. -/
theorem shiftAt_two_rounds
    {hi : Nat} {i : ι} (h : Ordered hi lo (items.map f)) (hmem : i ∈ items) :
    shiftAt ((items.filter p).map f) (f i).start +
        shiftAt ((items.filter (!p ·)).map fun j => moved ((items.filter p).map f) (f j))
          ((f i).start + shiftAt ((items.filter p).map f) (f i).start) =
      shiftAt (items.map f) (f i).start := by
  -- The splices of the second round grow as before, and the same ones start before the position.
  have hsame : ∀ rest : List ι, (∀ j ∈ rest, j ∈ items ∧ p j = false) →
      shiftAt (rest.map fun j => moved ((items.filter p).map f) (f j))
          ((f i).start + shiftAt ((items.filter p).map f) (f i).start) =
        shiftAt (rest.map f) (f i).start := by
    intro rest hrest
    induction rest with
    | nil => rfl
    | cons j rest ih =>
      obtain ⟨hj, hp⟩ := hrest j List.mem_cons_self
      have hiff := add_shiftAt_lt_iff f p h hj hp hmem
      have hgrowth : (moved ((items.filter p).map f) (f j)).growth = (f j).growth := by
        have hstart := moved_start f p h hj
        have hstop := moved_stop f p h hj hp
        have heq := shiftAt_stop_eq f p h hj hp
        have hcontent : (moved ((items.filter p).map f) (f j)).content = (f j).content := rfl
        rw [growth, growth, hstart, hstop, heq, hcontent]
        omega
      rw [List.map_cons, List.map_cons, shiftAt_cons, shiftAt_cons, hgrowth,
        moved_start f p h hj, ih fun k hk => hrest k (List.mem_cons_of_mem j hk)]
      simp only [hiff, Int.ofNat_lt]
  rw [hsame _ fun j hj => ?_, shiftAt_filter_add]
  simpa using hj

end TwoRounds

end Splice

end Redline
