import Redline.Directive.Block

/-!
# Braces that match

A backslash hides the character after it, so that a hidden brace neither opens nor closes anything.
The brace that matches an opening one ends the shortest segment from there on in which as many
visible braces are opened as closed.  Before its end such a segment has opened more braces than it
has closed, so its braces are nested too.  There is no matching brace exactly when no segment from
the opening one on is balanced.
-/

namespace Redline.Block

/-- The characters of a text that no backslash hides.  A backslash is left out together with the
character that it hides. -/
def visible : Text → Text
  | '\\' :: _ :: rest => visible rest
  | c :: rest => c :: visible rest
  | [] => []

/-- The number of visible braces that open. -/
def openings (t : Text) : Nat :=
  (visible t).count '\x7b'

/-- The number of visible braces that close. -/
def closings (t : Text) : Nat :=
  (visible t).count '\x7d'

/-- As many visible braces open as close. -/
def Balanced (t : Text) : Prop :=
  openings t = closings t

/-- No part from the start on closes more braces than it opens. -/
def Nested (t : Text) : Prop :=
  ∀ length, closings (t.take length) ≤ openings (t.take length)

/-- The characters of a text from one position up to another one, which is included. -/
def segment (t : Text) (first last : Nat) : Text :=
  (t.take (last + 1)).drop first

/-- A balanced segment of a text that starts with a brace. -/
structure Closes (t : Text) (first last : Nat) : Prop where
  opens : t[first]? = some '\x7b'
  first_le : first ≤ last
  last_lt : last < t.length
  balanced : Balanced (segment t first last)

/-! ## Open braces -/

/-- The number of open braces behind a text, by the number before it. -/
def level (depth : Int) (t : Text) : Int :=
  depth + openings t - closings t

theorem level_nil (depth : Int) : level depth [] = depth := by
  rw [level, openings, closings]
  simp [visible]

theorem level_hidden (depth : Int) (c : Char) (rest : Text) :
    level depth ('\\' :: c :: rest) = level depth rest :=
  rfl

theorem level_cons {c : Char} (h : c ≠ '\\') (depth : Int) (rest : Text) :
    level depth (c :: rest) =
      level (depth + (if c = '\x7b' then 1 else 0) - (if c = '\x7d' then 1 else 0)) rest := by
  have hvisible : visible (c :: rest) = c :: visible rest := by
    rw [visible]
    rintro e tail hslash -
    exact h hslash
  rw [level, level, openings, closings, hvisible, List.count_cons, List.count_cons]
  simp only [beq_iff_eq, openings, closings]
  split <;> split <;> omega

theorem level_opening (depth : Int) (rest : Text) :
    level depth ('\x7b' :: rest) = level (depth + 1) rest := by
  rw [level_cons (by decide), if_pos rfl, if_neg (by decide), Int.sub_zero]

theorem level_closing (depth : Int) (rest : Text) :
    level depth ('\x7d' :: rest) = level (depth - 1) rest := by
  rw [level_cons (by decide), if_neg (by decide), if_pos rfl, Int.add_zero]

theorem level_plain {c : Char} (hslash : c ≠ '\\') (hopening : c ≠ '\x7b') (hclosing : c ≠ '\x7d')
    (depth : Int) (rest : Text) : level depth (c :: rest) = level depth rest := by
  rw [level_cons hslash, if_neg hopening, if_neg hclosing, Int.add_zero, Int.sub_zero]

theorem ne_backslash {c : Char} {rest : Text} (hlone : c = '\\' → rest = [] → False)
    (hpair : ∀ e tail, c = '\\' → rest = e :: tail → False) : c ≠ '\\' := by
  intro hslash
  cases rest with
  | nil => exact hlone hslash rfl
  | cons e tail => exact hpair e tail hslash rfl

/-- The brace that is found closes one more brace than is open before it. -/
theorem level_of_closing {depth : Nat} {t inner tail : Text}
    (h : closing depth t = some (inner, tail)) :
    level depth (t.take (inner.length + 1)) = -1 := by
  -- Each character that is passed changes the level as it changes the depth of the search.
  fun_induction closing depth t generalizing inner tail with
  | case1 => cases h
  | case2 => cases h
  | case3 depth c rest ih =>
    obtain ⟨⟨i, r⟩, hr, he⟩ := Option.map_eq_some_iff.1 h
    cases he
    exact ih hr
  | case4 depth rest ih =>
    obtain ⟨⟨i, r⟩, hr, he⟩ := Option.map_eq_some_iff.1 h
    cases he
    rw [List.length_cons, List.take_succ_cons, level_opening]
    exact ih hr
  | case5 rest =>
    cases h
    rw [List.length_nil, List.take_succ_cons, level_closing, List.take_zero, level_nil]
    rfl
  | case6 rest outer ih =>
    obtain ⟨⟨i, r⟩, hr, he⟩ := Option.map_eq_some_iff.1 h
    cases he
    rw [List.length_cons, List.take_succ_cons, level_closing, Int.natCast_succ, Int.add_sub_cancel]
    exact ih hr
  | case7 depth c rest hlone hpair hopening hclosing ih =>
    obtain ⟨⟨i, r⟩, hr, he⟩ := Option.map_eq_some_iff.1 h
    cases he
    have hslash : c ≠ '\\' := ne_backslash hlone hpair
    rw [List.length_cons, List.take_succ_cons, level_plain hslash hopening hclosing]
    exact ih hr

/-- Before the brace that is found, and everywhere when none is, a brace stays open for each one
that was open before the text. -/
theorem level_nonneg {depth : Nat} {t : Text} {k : Nat}
    (h : ∀ inner tail, closing depth t = some (inner, tail) → k ≤ inner.length) :
    0 ≤ level depth (t.take k) := by
  have hzero : ∀ depth : Nat, 0 ≤ level depth [] := by
    intro depth
    rw [level_nil]
    exact Int.natCast_nonneg depth
  fun_induction closing depth t generalizing k with
  | case1 depth =>
    rw [List.take_nil]
    exact hzero depth
  | case2 depth =>
    cases k with
    | zero => exact hzero depth
    | succ k =>
      rw [List.take_succ_cons, List.take_nil]
      exact Int.natCast_nonneg depth
  | case3 depth c rest ih =>
    rcases k with _ | _ | k
    · exact hzero depth
    · exact Int.natCast_nonneg depth
    · rw [List.take_succ_cons, List.take_succ_cons, level_hidden]
      refine ih fun i r hr => ?_
      exact Nat.le_of_succ_le_succ
        (Nat.le_of_succ_le_succ (h ('\\' :: c :: i) r (by rw [hr]; rfl)))
  | case4 depth rest ih =>
    cases k with
    | zero => exact hzero depth
    | succ k =>
      rw [List.take_succ_cons, level_opening]
      refine ih fun i r hr => ?_
      exact Nat.le_of_succ_le_succ (h ('\x7b' :: i) r (by rw [hr]; rfl))
  | case5 rest =>
    have hk : k = 0 := Nat.le_zero.1 (h [] rest rfl)
    rw [hk]
    exact hzero 0
  | case6 rest outer ih =>
    cases k with
    | zero => exact hzero (outer + 1)
    | succ k =>
      rw [List.take_succ_cons, level_closing, Int.natCast_succ, Int.add_sub_cancel]
      refine ih fun i r hr => ?_
      exact Nat.le_of_succ_le_succ (h ('\x7d' :: i) r (by rw [hr]; rfl))
  | case7 depth c rest hlone hpair hopening hclosing ih =>
    cases k with
    | zero => exact hzero depth
    | succ k =>
      have hslash : c ≠ '\\' := ne_backslash hlone hpair
      rw [List.take_succ_cons, level_plain hslash hopening hclosing]
      refine ih fun i r hr => ?_
      exact Nat.le_of_succ_le_succ (h (c :: i) r (by rw [hr]; rfl))

/-! ## Segments -/

section Segment

variable {t rest : Text} {first : Nat} (h : t.drop first = '\x7b' :: rest)
include h

theorem segment_of_opening (length : Nat) :
    segment t first (first + length) = '\x7b' :: rest.take length := by
  rw [segment, List.drop_take, h, Nat.add_assoc, Nat.add_sub_cancel_left, List.take_succ_cons]

theorem closes_iff {length : Nat} :
    Closes t first (first + length) ↔ length ≤ rest.length ∧ level 0 (rest.take length) = -1 := by
  have hopens : t[first]? = some '\x7b' := by
    rw [← List.head?_drop, h]
    rfl
  have hlength : (t.drop first).length = rest.length + 1 := congrArg List.length h
  have hlevel : Balanced (segment t first (first + length)) ↔ level 0 (rest.take length) = -1 := by
    rw [Balanced, segment_of_opening h]
    have hopening := level_opening 0 (rest.take length)
    simp only [level] at hopening ⊢
    omega
  rw [List.length_drop] at hlength
  constructor
  · rintro ⟨-, -, hlt, hbalanced⟩
    exact ⟨by omega, hlevel.1 hbalanced⟩
  · rintro ⟨hle, hbalanced⟩
    exact ⟨hopens, Nat.le_add_right _ _, by omega, hlevel.2 hbalanced⟩

theorem matchingBrace?_of_opening :
    matchingBrace? t first = (closing 0 rest).map fun block => first + (block.1.length + 1) := by
  rw [matchingBrace?, h]
  rfl

theorem nested_of_closing {inner tail : Text} (hclosing : closing 0 rest = some (inner, tail)) :
    Nested (segment t first (first + (inner.length + 1))) := by
  have hlevel : ∀ k ≤ inner.length + 1, -1 ≤ level 0 (rest.take k) := by
    intro k hk
    rcases Nat.lt_or_eq_of_le hk with hlt | rfl
    · have hnonneg : 0 ≤ level (0 : Nat) (rest.take k) := by
        refine level_nonneg fun inner' tail' hclosing' => ?_
        cases hclosing.symm.trans hclosing'
        exact Nat.le_of_lt_succ hlt
      rw [Int.natCast_zero] at hnonneg
      omega
    · exact Int.le_of_eq (level_of_closing hclosing).symm
  intro length
  rw [segment_of_opening h]
  cases length with
  | zero => exact Nat.le_refl _
  | succ length =>
    -- The opening brace makes up for the one that the content may have closed.
    have hopening := level_opening 0 (rest.take (min length (inner.length + 1)))
    have hcut := hlevel (min length (inner.length + 1)) (Nat.min_le_right _ _)
    rw [List.take_succ_cons, List.take_take]
    simp only [level] at hopening hcut
    omega

end Segment

theorem Closes.exists_drop_eq {t : Text} {first last : Nat} (h : Closes t first last) :
    ∃ rest length, t.drop first = '\x7b' :: rest ∧ last = first + length := by
  obtain ⟨hopens, hle, -, -⟩ := h
  rw [← List.head?_drop] at hopens
  obtain ⟨rest, hrest⟩ := List.head?_eq_some_iff.1 hopens
  exact ⟨rest, last - first, hrest, (Nat.add_sub_of_le hle).symm⟩

theorem closes_of_matchingBrace? {t : Text} {first last : Nat}
    (h : matchingBrace? t first = some last) :
    Closes t first last ∧ Nested (segment t first last) := by
  obtain ⟨⟨inner, tail⟩, hsplit, rfl⟩ := Option.map_eq_some_iff.1 h
  unfold split? at hsplit
  split at hsplit
  · next rest hdrop =>
    have hlength : rest.length = inner.length + 1 + tail.length := by
      rw [eq_append_of_closing hsplit, List.length_append, List.length_cons]
      omega
    exact ⟨(closes_iff hdrop).2 ⟨by omega, level_of_closing hsplit⟩, nested_of_closing hdrop hsplit⟩
  · cases hsplit

/-- No segment that is shorter than the block that is found is balanced, and none at all when no
block is found. -/
theorem not_closes {t : Text} {first k : Nat}
    (h : ∀ last, matchingBrace? t first = some last → k < last) : ¬ Closes t first k := by
  intro hcloses
  obtain ⟨rest, length, hdrop, rfl⟩ := hcloses.exists_drop_eq
  have hlevel := ((closes_iff hdrop).1 hcloses).2
  have hnonneg : 0 ≤ level (0 : Nat) (rest.take length) := by
    refine level_nonneg fun inner tail hclosing => ?_
    have hfound : matchingBrace? t first = some (first + (inner.length + 1)) := by
      rw [matchingBrace?_of_opening hdrop, hclosing]
      rfl
    have hlt := h _ hfound
    omega
  rw [Int.natCast_zero] at hnonneg
  omega

/-- The matching brace ends the shortest balanced segment, and is missing exactly when there is no
balanced segment. -/
theorem matchingBrace?_ends_shortest (t : Text) (first : Nat) :
    (∀ last, matchingBrace? t first = some last ↔
        Closes t first last ∧ ∀ k < last, ¬ Closes t first k) ∧
      (matchingBrace? t first = none ↔ ∀ last, ¬ Closes t first last) ∧
      ∀ last, matchingBrace? t first = some last → Nested (segment t first last) := by
  have hshortest {last : Nat} (hlast : matchingBrace? t first = some last) :
      ∀ k < last, ¬ Closes t first k := by
    intro k hk
    refine not_closes fun last' hlast' => ?_
    rw [hlast] at hlast'
    cases hlast'
    exact hk
  have hnone : matchingBrace? t first = none → ∀ last, ¬ Closes t first last := by
    intro hnone last
    refine not_closes fun last' hlast' => ?_
    rw [hnone] at hlast'
    cases hlast'
  refine ⟨fun last => ⟨fun h => ⟨(closes_of_matchingBrace? h).1, hshortest h⟩, ?_⟩,
    ⟨hnone, fun h => ?_⟩, fun last h => (closes_of_matchingBrace? h).2⟩
  · rintro ⟨hcloses, hleast⟩
    cases hfound : matchingBrace? t first with
    | none => exact absurd hcloses (hnone hfound last)
    | some found =>
      rcases Nat.lt_trichotomy last found with hlt | rfl | hlt
      · exact absurd hcloses (hshortest hfound last hlt)
      · rfl
      · exact absurd (closes_of_matchingBrace? hfound).1 (hleast found hlt)
  · refine Option.eq_none_iff_forall_ne_some.2 fun last hlast => ?_
    exact h last (closes_of_matchingBrace? hlast).1

/-- A hidden brace, a block in the block and a hidden backslash stand before the brace that
matches. -/
theorem matchingBrace?_ends_shortest_hidden :
    matchingBrace? "x\x7ba\\\x7d\x7bb\x7d\\\\\x7dc\x7d".toList 1 = some 10 ∧
      Closes "x\x7ba\\\x7d\x7bb\x7d\\\\\x7dc\x7d".toList 1 10 ∧
      Nested (segment "x\x7ba\\\x7d\x7bb\x7d\\\\\x7dc\x7d".toList 1 10) := by
  have hfound : matchingBrace? "x\x7ba\\\x7d\x7bb\x7d\\\\\x7dc\x7d".toList 1 = some 10 := by decide
  obtain ⟨hshortest, -, hnested⟩ :=
    matchingBrace?_ends_shortest "x\x7ba\\\x7d\x7bb\x7d\\\\\x7dc\x7d".toList 1
  exact ⟨hfound, ((hshortest 10).1 hfound).1, hnested 10 hfound⟩

end Redline.Block
