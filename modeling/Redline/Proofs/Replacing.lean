import Redline.Text.Basic

/-!
# Replacing in texts

What a replacement by a rule does at the start of a text: a character to which the rule does not
apply is kept, and one to which it applies takes those after it along.  Trimming takes nothing out
of the middle of a text, so a part without blanks is kept by it.
-/

namespace Redline

/-- What comes first and lacks an element ends before it. -/
theorem isPrefix_of_append_eq
    {α : Type} {xs xs' ys ys' : List α} {a : α} (h : xs ++ ys = xs' ++ a :: ys') (ha : a ∉ xs) :
    xs <+: xs' := by
  rcases List.append_eq_append_iff.1 h with ⟨more, hmore, -⟩ | ⟨more, hmore, hrest⟩
  · exact ⟨more, hmore.symm⟩
  · cases more with
    | nil => exact ⟨[], by simp [hmore]⟩
    | cons b more =>
      obtain ⟨rfl, -⟩ := List.cons.inj hrest
      exact absurd (hmore ▸ List.mem_append_right xs' List.mem_cons_self) ha

/-- What is taken from a list ends before the first item that fails, whatever follows. -/
theorem takeWhile_append_cons_of_neg
    {α : Type} {p : α → Bool} {a : α} (before rest : List α) (ha : ¬ p a = true) :
    (before ++ a :: rest).takeWhile p = before.takeWhile p := by
  rw [List.takeWhile_append, List.takeWhile_cons_of_neg ha]
  split
  next hall => rw [List.append_nil, (List.takeWhile_prefix p).eq_of_length hall]
  next => rfl

namespace Text

theorem startsWith_cons_of_ne
    {c d : Char} (h : c ≠ d) (piece rest : Text) :
    startsWith (c :: piece) (d :: rest) = false := by
  show (c == d && piece.isPrefixOf rest) = false
  rw [beq_false_of_ne h, Bool.false_and]

theorem eq_append_of_startsWith {piece t : Text} (h : startsWith piece t = true) :
    t = piece ++ t.drop piece.length := by
  obtain ⟨rest, rfl⟩ := List.isPrefixOf_iff_prefix.1 h
  rw [List.drop_left]

theorem eq_append_of_after? {piece t rest : Text} (h : after? piece t = some rest) :
    t = piece ++ rest := by
  unfold after? at h
  split at h
  next hstarts =>
    rw [← Option.some.inj h]
    exact eq_append_of_startsWith hstarts
  next => cases h

theorem after?_append (piece rest : Text) : after? piece (piece ++ rest) = some rest := by
  have hstarts : startsWith piece (piece ++ rest) = true :=
    List.isPrefixOf_iff_prefix.2 (List.prefix_append piece rest)
  rw [after?, if_pos hstarts, List.drop_left]

/-- A piece stands somewhere in a text exactly when it is a part of it. -/
theorem occursIn_iff {piece t : Text} : occursIn piece t = true ↔ piece <:+: t := by
  induction t with
  | nil => cases piece <;> simp [occursIn, cut?]
  | cons c rest ih =>
    rw [occursIn, cut?, List.infix_cons_iff, ← ih]
    split
    next hstarts => simp [List.isPrefixOf_iff_prefix.1 hstarts]
    next hstarts =>
      have hnot : ¬ piece <+: c :: rest := fun h => hstarts (List.isPrefixOf_iff_prefix.2 h)
      simp [hnot, occursIn]

theorem eq_append_of_cut?
    {piece t before behind : Text} (h : cut? piece t = some (before, behind)) :
    t = before ++ piece ++ behind := by
  induction t generalizing before with
  | nil =>
    rw [cut?] at h
    split at h
    next hempty =>
      cases h
      rw [List.isEmpty_iff.1 hempty]
      rfl
    next => cases h
  | cons c rest ih =>
    rw [cut?] at h
    split at h
    next hstarts =>
      cases h
      exact eq_append_of_startsWith hstarts
    next =>
      obtain ⟨⟨before', behind'⟩, hcut, heq⟩ := Option.map_eq_some_iff.1 h
      cases heq
      rw [ih hcut]
      rfl

/-- A text is cut at a piece where the piece does not end earlier. -/
theorem cut?_eq_some_iff {piece : Text} (hne : piece ≠ []) {t before behind : Text} :
    cut? piece t = some (before, behind) ↔
      t = before ++ piece ++ behind ∧ ¬ piece <:+: before ++ piece.dropLast := by
  have hshort : piece.dropLast.length < piece.length := by
    have hpos := List.length_pos_iff.2 hne
    rw [List.length_dropLast]
    omega
  induction t generalizing before with
  | nil =>
    rw [cut?, if_neg (by simpa using hne)]
    refine ⟨fun h => (by cases h), fun h => ?_⟩
    have hnil := h.1.symm
    simp [hne] at hnil
  | cons c rest ih =>
    rw [cut?]
    by_cases hstarts : startsWith piece (c :: rest) = true
    · rw [if_pos hstarts]
      have hlead := List.isPrefixOf_iff_prefix.1 hstarts
      constructor
      · intro h
        cases h
        refine ⟨eq_append_of_startsWith hstarts, fun hpart => ?_⟩
        exact absurd hpart.length_le (by simpa using hshort)
      · rintro ⟨heq, hfirst⟩
        cases before with
        | nil => rw [heq, List.nil_append, List.drop_left]
        | cons d before =>
          -- The piece at the start would end before the place of the cut.
          have hfront : d :: before ++ piece.dropLast <+: c :: rest := by
            rw [heq, List.append_assoc]
            exact (List.prefix_append_right_inj _).2
              ((List.dropLast_prefix piece).trans (List.prefix_append _ _))
          refine absurd (List.prefix_of_prefix_length_le hlead hfront ?_).isInfix hfirst
          rw [List.length_append, List.length_cons, List.length_dropLast]
          omega
    · rw [if_neg hstarts, Option.map_eq_some_iff]
      constructor
      · rintro ⟨⟨before', behind'⟩, hcut, heq⟩
        cases heq
        obtain ⟨rfl, hfirst⟩ := ih.1 hcut
        refine ⟨rfl, fun hpart => ?_⟩
        rw [List.cons_append, List.infix_cons_iff] at hpart
        rcases hpart with hlead | hpart
        · refine hstarts (List.isPrefixOf_iff_prefix.2 (hlead.trans ?_))
          rw [List.append_assoc, List.cons_prefix_cons]
          exact ⟨rfl, (List.prefix_append_right_inj _).2
            ((List.dropLast_prefix piece).trans (List.prefix_append _ _))⟩
        · exact hfirst hpart
      · rintro ⟨heq, hfirst⟩
        cases before with
        | nil =>
          refine absurd (List.isPrefixOf_iff_prefix.2 ?_) hstarts
          rw [heq]
          exact List.prefix_append _ _
        | cons d before =>
          obtain ⟨rfl, hrest⟩ := List.cons.inj heq
          refine ⟨(before, behind), ih.2 ⟨hrest, fun hpart => hfirst ?_⟩, rfl⟩
          exact List.infix_cons_iff.2 (.inr hpart)

theorem cut?_append_cons {c : Char} {before : Text} (h : c ∉ before) (behind : Text) :
    cut? [c] (before ++ c :: behind) = some (before, behind) := by
  induction before with
  | nil =>
    have hstarts : startsWith [c] (c :: behind) = true :=
      List.isPrefixOf_iff_prefix.2 ⟨behind, rfl⟩
    rw [List.nil_append, cut?, if_pos hstarts]
    rfl
  | cons d rest ih =>
    simp only [List.mem_cons, not_or] at h
    have hstarts := startsWith_cons_of_ne h.1 [] (rest ++ c :: behind)
    rw [List.cons_append, cut?, if_neg (by simp [hstarts]), ih h.2]
    rfl

theorem cut?_of_not_mem {c : Char} {piece t : Text} (hc : c ∈ piece) (h : c ∉ t) :
    cut? piece t = none := by
  cases hcut : cut? piece t with
  | none => rfl
  | some parts =>
    rw [eq_append_of_cut? hcut] at h
    exact absurd (List.mem_append_left _ (List.mem_append_right _ hc)) h

theorem after?_of_not_mem {c : Char} {piece t : Text} (hc : c ∈ piece) (h : c ∉ t) :
    after? piece t = none := by
  cases hafter : after? piece t with
  | none => rfl
  | some rest =>
    rw [eq_append_of_after? hafter] at h
    exact absurd (List.mem_append_left rest hc) h

section Trim

theorem trim_isInfix (t : Text) : trim t <:+: t := by
  have hend : (t.dropWhile isBlank).reverse.dropWhile isBlank <:+: (t.dropWhile isBlank).reverse :=
    (List.dropWhile_suffix isBlank).isInfix
  rw [← List.reverse_infix, List.reverse_reverse] at hend
  exact hend.trans (List.dropWhile_suffix isBlank).isInfix

theorem isInfix_dropWhile {piece t : Text} (h : ∀ c ∈ piece, isBlank c = false)
    (ht : piece <:+: t) : piece <:+: t.dropWhile isBlank := by
  obtain ⟨before, behind, rfl⟩ := ht
  cases piece with
  | nil => exact List.nil_infix
  | cons c rest =>
    rw [List.append_assoc, List.dropWhile_append]
    split
    · rw [List.cons_append, List.dropWhile_cons, if_neg (by simp [h c List.mem_cons_self])]
      exact (List.prefix_append (c :: rest) behind).isInfix
    · exact ⟨_, behind, List.append_assoc _ _ _⟩

/-- A part without blanks is in a text exactly when it is there after trimming. -/
theorem isInfix_trim_iff {piece t : Text} (h : ∀ c ∈ piece, isBlank c = false) :
    piece <:+: trim t ↔ piece <:+: t := by
  refine ⟨fun htrim => htrim.trans (trim_isInfix t), fun ht => ?_⟩
  have hstart := isInfix_dropWhile h ht
  have hend := isInfix_dropWhile (fun c hc => h c (List.mem_reverse.1 hc))
    (List.reverse_infix.2 hstart)
  rw [← List.reverse_infix, List.reverse_reverse] at hend
  exact hend

theorem mem_trim {c : Char} {t : Text} (hc : isBlank c = false) (h : c ∈ t) : c ∈ trim t := by
  obtain ⟨before, behind, rfl⟩ := List.append_of_mem h
  have hpart : [c] <:+: before ++ c :: behind := ⟨before, behind, by simp⟩
  have htrim := (isInfix_trim_iff fun d hd => List.mem_singleton.1 hd ▸ hc).2 hpart
  exact htrim.subset (List.mem_singleton_self c)

theorem dropWhile_of_forall_not {p : Char → Bool} {t : Text} (h : ∀ c ∈ t, p c = false) :
    t.dropWhile p = t := by
  cases t with
  | nil => rfl
  | cons c t => exact List.dropWhile_cons_of_neg (by simp [h c List.mem_cons_self])

/-- A text without characters of a class is left as it is when they are trimmed. -/
theorem trimWhere_of_forall_not {p : Char → Bool} {t : Text} (h : ∀ c ∈ t, p c = false) :
    trimWhere p t = t := by
  rw [trimWhere, dropStart, dropWhile_of_forall_not h, dropEnd,
    dropWhile_of_forall_not fun c hc => h c (List.mem_reverse.1 hc), List.reverse_reverse]

/-- A text without blanks is left as it is by trimming. -/
theorem trim_of_no_blank {t : Text} (h : ∀ c ∈ t, isBlank c = false) : trim t = t :=
  trimWhere_of_forall_not h

end Trim

section Rule

variable {rule : Text → Option (Nat × Text)}

theorem replaceBy_go_eq (rule : Text → Option (Nat × Text)) (n : Nat) (t : Text) :
    replaceBy.go rule n t = replaceBy rule (t.drop n) := by
  induction t generalizing n with
  | nil => simp [replaceBy, replaceBy.go]
  | cons c rest ih =>
    cases n with
    | zero => rfl
    | succ n => rw [replaceBy.go, ih, List.drop_succ_cons]

@[simp]
theorem replaceBy_nil (rule : Text → Option (Nat × Text)) : replaceBy rule [] = [] :=
  rfl

theorem replaceBy_of_none
    {c : Char} {rest : Text} (h : rule (c :: rest) = none) :
    replaceBy rule (c :: rest) = c :: replaceBy rule rest := by
  rw [replaceBy, replaceBy.go, h]
  rfl

theorem replaceBy_of_some
    {t : Text} {used : Nat} {new : Text} (hne : t ≠ []) (h : rule t = some (used, new))
    (hused : 0 < used) :
    replaceBy rule t = new ++ replaceBy rule (t.drop used) := by
  obtain ⟨c, rest, rfl⟩ := List.exists_cons_of_ne_nil hne
  obtain ⟨n, rfl⟩ := Nat.exists_eq_add_of_lt hused
  rw [replaceBy, replaceBy.go, h]
  simp only [replaceBy_go_eq, Nat.zero_add, Nat.add_sub_cancel, List.drop_succ_cons]

/-- What holds of a text by its first character, or by the part that the rule uses up, and of what
follows, holds of every text. -/
theorem induction_by_rule
    {motive : Text → Prop} (hused : ∀ t used new, rule t = some (used, new) → 0 < used)
    (nil : motive [])
    (keep : ∀ c rest, rule (c :: rest) = none → motive rest → motive (c :: rest))
    (use : ∀ c rest used new, rule (c :: rest) = some (used, new) →
      motive ((c :: rest).drop used) → motive (c :: rest))
    (t : Text) : motive t := by
  induction hn : t.length using Nat.strongRecOn generalizing t with
  | ind n ih =>
    subst hn
    cases t with
    | nil => exact nil
    | cons c rest =>
      cases h : rule (c :: rest) with
      | none => exact keep c rest h (ih rest.length (by simp) rest rfl)
      | some result =>
        obtain ⟨used, new⟩ := result
        have hpos := hused _ _ _ h
        refine use c rest used new h (ih _ ?_ _ rfl)
        rw [List.length_drop, List.length_cons]
        omega

/-- A rule that puts another character in the place of the first changes a text exactly when it
applies somewhere. -/
theorem replaceBy_eq_self_iff
    (hrule : ∀ c rest used new, rule (c :: rest) = some (used, new) →
      0 < used ∧ ∃ d tail, new = d :: tail ∧ d ≠ c)
    {t : Text} :
    replaceBy rule t = t ↔ ∀ c rest, (c :: rest) <:+ t → rule (c :: rest) = none := by
  induction t with
  | nil => simp
  | cons c rest ih =>
    cases h : rule (c :: rest) with
    | none =>
      rw [replaceBy_of_none h, List.cons_inj_right, ih]
      constructor
      · intro hrest d tail hsuffix
        rcases List.suffix_cons_iff.1 hsuffix with heq | hsuffix
        · rw [heq, h]
        · exact hrest d tail hsuffix
      · intro hall d tail hsuffix
        exact hall d tail (hsuffix.trans (List.suffix_cons c rest))
    | some result =>
      obtain ⟨used, new⟩ := result
      obtain ⟨hused, d, tail, rfl, hne⟩ := hrule c rest used new h
      rw [replaceBy_of_some (List.cons_ne_nil c rest) h hused]
      constructor
      · intro heq
        exact absurd (List.cons.inj heq).1 hne
      · intro hall
        have hnone := hall c rest (List.suffix_refl _)
        rw [h] at hnone
        cases hnone

end Rule

section All

variable {piece new : Text}

@[simp]
theorem replaceAll_nil (piece new : Text) : replaceAll piece new [] = [] :=
  rfl

theorem replaceAll_of_startsWith
    {t : Text} (hne : piece ≠ []) (rest : Text) (h : t = piece ++ rest) :
    replaceAll piece new t = new ++ replaceAll piece new rest := by
  have hstarts : startsWith piece t = true := by
    rw [startsWith, List.isPrefixOf_iff_prefix, h]
    exact List.prefix_append piece rest
  rw [replaceAll, replaceBy_of_some (by simp [h, hne]) (if_pos hstarts)
    (List.length_pos_iff.2 hne), h, List.drop_left]
  rfl

theorem replaceAll_of_not_startsWith
    {c : Char} {rest : Text} (h : startsWith piece (c :: rest) = false) :
    replaceAll piece new (c :: rest) = c :: replaceAll piece new rest :=
  replaceBy_of_none (if_neg (by simp [h]))

/-- What does not have the first character of the piece is kept. -/
theorem replaceAll_append {c : Char} {s : Text} (h : c ∉ s) (piece new t : Text) :
    replaceAll (c :: piece) new (s ++ t) = s ++ replaceAll (c :: piece) new t := by
  induction s with
  | nil => rfl
  | cons d s ih =>
    simp only [List.mem_cons, not_or] at h
    rw [List.cons_append, replaceAll_of_not_startsWith (startsWith_cons_of_ne h.1 _ _), ih h.2,
      List.cons_append]

/-- A character that is neither in the piece nor in what stands for it is in a text whether the piece
is replaced or not. -/
theorem mem_replaceAll_iff
    {c : Char} {piece new t : Text} (hne : piece ≠ []) (hpiece : c ∉ piece) (hnew : c ∉ new) :
    c ∈ replaceAll piece new t ↔ c ∈ t := by
  induction hn : t.length using Nat.strongRecOn generalizing t with
  | ind n ih =>
    subst hn
    cases t with
    | nil => simp
    | cons d rest =>
      by_cases hstarts : startsWith piece (d :: rest) = true
      · have heq := eq_append_of_startsWith hstarts
        have hlength := congrArg List.length heq
        have hpos := List.length_pos_iff.2 hne
        rw [List.length_append] at hlength
        rw [replaceAll_of_startsWith hne _ heq, List.mem_append, or_iff_right hnew,
          ih _ (by omega) rfl]
        constructor
        · intro hmem
          rw [heq]
          exact List.mem_append_right _ hmem
        · intro hmem
          rw [heq, List.mem_append, or_iff_right hpiece] at hmem
          exact hmem
      · rw [replaceAll_of_not_startsWith (Bool.eq_false_iff.2 hstarts), List.mem_cons, List.mem_cons,
          ih _ (by simp) rfl]

/-- One character is replaced wherever it stands. -/
theorem replaceAll_singleton (c : Char) (new t : Text) :
    replaceAll [c] new t = t.flatMap fun d => if d = c then new else [d] := by
  induction t with
  | nil => rfl
  | cons d rest ih =>
    rw [List.flatMap_cons, ← ih]
    by_cases hd : d = c
    · subst hd
      rw [if_pos rfl]
      exact replaceAll_of_startsWith (by simp) rest rfl
    · rw [if_neg hd]
      exact replaceAll_of_not_startsWith (startsWith_cons_of_ne (Ne.symm hd) [] rest)

end All

end Text

end Redline
