import Redline.Proofs.Fragments

/-!
# The places of blocks

Styles trust the places of blocks in the cleaned text.  This module says what the places are: the
blocks follow one another through the cleaned text, a block that puts text in its own place stands
at exactly that text and never reaches into the next block, and a brace behind a backslash opens no
block.
-/

namespace Redline

/-- The directive puts text in the place of its block: the texts of its flags, or else a text of its
own other than a reference to the whole match. -/
def Directive.inserts (d : Directive) : Bool :=
  !d.inline.isEmpty || (!d.text.isEmpty && d.text != "$0".toList)

namespace Block

/-! ## Where a block comes from -/

/-- Every block is left by a directive that can be read. -/
theorem exists_place_of_mem_extractFrom {before : Bool} {position : Nat} {t : Text} {b : Block}
    (hb : b ∈ (extractFrom before position t).2) :
    ∃ content d start between, Directive.read content = .ok d ∧
      b ∈ (place d ('\x7b' :: content ++ ['\x7d']) start between).2 := by
  induction t using fragments.induct generalizing before position with
  | case1 =>
    rw [extractFrom] at hb
    cases hb
  | case2 c rest hbrace ih =>
    rw [extractFrom, if_pos hbrace] at hb
    exact ih hb
  | case3 c rest hbrace ih =>
    rw [extractFrom, if_neg hbrace] at hb
    exact ih hb
  | case4 rest hclosing ih =>
    rw [extractFrom] at hb
    split at hb
    · exact ih hb
    · next hsome => cases hclosing.symm.trans hsome
  | case5 rest inner tail hclosing e hread ih =>
    rw [extractFrom] at hb
    split at hb
    · next hnone => cases hclosing.symm.trans hnone
    · next hsome =>
      cases hclosing.symm.trans hsome
      rw [hread] at hb
      exact ih hb
  | case6 rest inner tail hclosing d hread ih =>
    rw [extractFrom] at hb
    split at hb
    · next hnone => cases hclosing.symm.trans hnone
    · next hsome =>
      cases hclosing.symm.trans hsome
      rw [hread] at hb
      rcases List.mem_append.1 hb with hhere | hlater
      · exact ⟨inner, d, position, before && hasContent tail, hread, hhere⟩
      · exact ih hlater
  | case7 c rest hescape hopen ih =>
    rw [extractFrom] at hb
    · exact ih hb
    · exact hescape
    · exact hopen

theorem exists_place_of_mem_extract {t : Text} {b : Block} (hb : b ∈ (extract t).2) :
    ∃ content d start between, Directive.read content = .ok d ∧
      b ∈ (place d ('\x7b' :: content ++ ['\x7d']) start between).2 := by
  unfold extract at hb
  split at hb
  · exact exists_place_of_mem_extractFrom hb
  · cases hb

/-- What a directive leaves: blocks at the texts that it puts in, or else one block with all of the
directive. -/
theorem cases_of_mem_place
    {d : Directive} {raw : Text} {position : Nat} {between : Bool} {b : Block}
    (hb : b ∈ (place d raw position between).2) :
    b.raw = raw ∧ (d.inserts = true ∧ (∃ stop, b.extent = .inserted stop) ∨
      d.inserts = false ∧ d.inline = [] ∧ b.directive = d) := by
  unfold place at hb
  unfold Directive.inserts
  split at hb
  · next hinline =>
    have hall : ∀ c ∈ (d.inline.foldl
        (fun (r : Text × List Block) span =>
          (r.1 ++ span.text, r.2 ++ [⟨.ofFlag span.flag, position + r.1.length,
            .inserted (position + r.1.length + span.text.length), raw⟩]))
        ([], [])).2, c.raw = raw ∧ ∃ stop, c.extent = .inserted stop := by
      refine List.foldlRecOn (motive := fun r : Text × List Block =>
        ∀ c ∈ r.2, c.raw = raw ∧ ∃ stop, c.extent = .inserted stop) d.inline _ ?_ ?_
      · exact fun c hc => absurd hc List.not_mem_nil
      · intro r ih span _ c hc
        rcases List.mem_append.1 hc with hc | hc
        · exact ih c hc
        · rw [List.mem_singleton.1 hc]
          exact ⟨rfl, _, rfl⟩
    exact ⟨(hall b hb).1, .inl ⟨by rw [hinline, Bool.true_or], (hall b hb).2⟩⟩
  · next hinline =>
    split at hb
    · next htext =>
      rw [List.mem_singleton.1 hb]
      exact ⟨rfl, .inl ⟨by rw [htext, Bool.or_true], _, rfl⟩⟩
    · next htext =>
      rw [List.mem_singleton.1 hb]
      refine ⟨rfl, .inr ⟨?_, by simpa using hinline, rfl⟩⟩
      rw [Bool.eq_false_iff.2 hinline, Bool.eq_false_iff.2 htext, Bool.false_or]

/-- A text that is put in comes from a block that stands in the replacement as it is written. -/
theorem exists_of_mem_fragments {t raw : Text} {i : Insertion}
    (hi : .inserted raw i ∈ fragments t) :
    raw <:+: t ∧ ∃ content d, raw = '\x7b' :: content ++ ['\x7d'] ∧
      Directive.read content = .ok d ∧ i ∈ d.insertions := by
  have hbehind : ∀ {c : Char} {rest : Text}, raw <:+: rest → raw <:+: c :: rest :=
    fun hraw => hraw.trans (List.suffix_cons _ _).isInfix
  have hlater : ∀ {c : Char} {rest : List Fragment},
      .inserted raw i ∈ .char c :: rest → .inserted raw i ∈ rest := by
    intro c rest hmem
    rcases List.mem_cons.1 hmem with heq | hmem
    · cases heq
    · exact hmem
  induction t using fragments.induct with
  | case1 =>
    rw [fragments] at hi
    cases hi
  | case2 c rest hbrace ih =>
    rw [fragments, if_pos hbrace] at hi
    obtain ⟨hraw, hcontent⟩ := ih (hlater hi)
    exact ⟨hbehind (hbehind hraw), hcontent⟩
  | case3 c rest hbrace ih =>
    rw [fragments, if_neg hbrace] at hi
    obtain ⟨hraw, hcontent⟩ := ih (hlater hi)
    exact ⟨hbehind hraw, hcontent⟩
  | case4 rest hclosing ih =>
    rw [fragments_of_unclosed hclosing] at hi
    obtain ⟨hraw, hcontent⟩ := ih (hlater hi)
    exact ⟨hbehind hraw, hcontent⟩
  | case5 rest inner tail hclosing e hread ih =>
    rw [fragments_of_refused hclosing hread] at hi
    obtain ⟨hraw, hcontent⟩ := ih (hlater hi)
    exact ⟨hbehind hraw, hcontent⟩
  | case6 rest inner tail hclosing d hread ih =>
    have hwhole : '\x7b' :: rest = '\x7b' :: inner ++ ['\x7d'] ++ tail := by
      rw [eq_append_of_closing hclosing]
      simp
    rw [fragments_of_read hclosing hread] at hi
    rw [hwhole]
    rcases List.mem_append.1 hi with hi | hi
    · obtain ⟨j, hj, heq⟩ := List.mem_map.1 hi
      cases heq
      exact ⟨(List.prefix_append _ tail).isInfix, inner, d, rfl, hread, hj⟩
    · obtain ⟨hraw, hcontent⟩ := ih hi
      exact ⟨hraw.trans (List.suffix_append _ tail).isInfix, hcontent⟩
  | case7 c rest hescape hopen ih =>
    rw [fragments] at hi
    · obtain ⟨hraw, hcontent⟩ := ih (hlater hi)
      exact ⟨hbehind hraw, hcontent⟩
    · exact hescape
    · exact hopen

theorem insertions_of_not_mem {t : Text} (h : '\x7b' ∉ t) : insertions t = [] := by
  refine List.filterMap_eq_nil_iff.2 fun f hf => ?_
  cases f with
  | char c => rfl
  | inserted raw i =>
    obtain ⟨hraw, content, d, rfl, -⟩ := exists_of_mem_fragments hf
    exact absurd (hraw.subset List.mem_cons_self) h

/-! ## Positions -/

namespace Marks

variable {position : Nat} {fs : List Fragment} {blocks : List Block}

theorem le_start (h : Marks position fs blocks) : ∀ b ∈ blocks, position ≤ b.start := by
  induction h with
  | nil => exact fun b hb => absurd hb List.not_mem_nil
  | char _ ih => exact fun b hb => Nat.le_of_succ_le (ih b hb)
  | inserted _ _ ih =>
    intro b hb
    rcases List.mem_cons.1 hb with rfl | hb
    · exact Nat.le_refl _
    · exact Nat.le_trans (Nat.le_add_right _ _) (ih b hb)

theorem start_le (h : Marks position fs blocks) :
    ∀ b ∈ blocks, b.start ≤ position + (fs.flatMap Fragment.text).length := by
  induction h with
  | nil => exact fun b hb => absurd hb List.not_mem_nil
  | @char position c fs blocks _ ih =>
    intro b hb
    have hstart := ih b hb
    simp only [List.flatMap_cons, Fragment.text, List.length_append, List.length_singleton]
    omega
  | @inserted position raw i fs extent blocks _ _ ih =>
    intro b hb
    simp only [List.flatMap_cons, Fragment.text, List.length_append]
    rcases List.mem_cons.1 hb with rfl | hb
    · dsimp only
      omega
    · have hstart := ih b hb
      omega

/-- A block starts and ends before the blocks behind it start. -/
theorem pairwise_start (h : Marks position fs blocks) :
    blocks.Pairwise fun b c => b.start ≤ c.start ∧ b.stop ≤ c.start := by
  induction h with
  | nil => exact .nil
  | char _ ih => exact ih
  | @inserted position raw i fs extent blocks hextent hrest ih =>
    refine List.pairwise_cons.2 ⟨fun c hc => ?_, ih⟩
    have hstart := hrest.le_start c hc
    refine ⟨by dsimp only; omega, ?_⟩
    rcases hextent with rfl | ⟨-, hnone⟩
    · dsimp only [stop]
      omega
    · cases extent with
      | everything => dsimp only [stop]; omega
      | point => dsimp only [stop]; omega
      | inserted stop => exact absurd rfl (hnone stop)

/-- The part of the cleaned text where a block stands is the text that it has put in.  The text in
front of the fragments shifts their places. -/
theorem forall₂_slice (h : Marks position fs blocks) {before : Text}
    (hbefore : before.length = position) :
    List.Forall₂
      (fun i b => b ∈ blocks ∧ .inserted b.raw i ∈ fs ∧ b.directive = i.directive ∧
        ∀ stop, b.extent = .inserted stop →
          Text.slice b.start stop (before ++ fs.flatMap Fragment.text) = i.text)
      (fs.filterMap Fragment.insertion?) blocks := by
  induction h generalizing before with
  | nil => exact .nil
  | @char position c fs blocks _ ih =>
    have hrest := @ih (before ++ [c]) (by simp [hbefore])
    rw [List.append_assoc] at hrest
    refine hrest.imp fun i b hb => ?_
    exact ⟨hb.1, List.mem_cons_of_mem _ hb.2.1, hb.2.2⟩
  | @inserted position raw i fs extent blocks hextent _ ih =>
    refine .cons ⟨List.mem_cons_self, List.mem_cons_self, rfl, fun stop hstop => ?_⟩ ?_
    · rcases hextent with rfl | ⟨-, hnone⟩
      · cases hstop
        simp [Text.slice, Fragment.text, ← hbefore, List.take_append]
      · exact absurd hstop (hnone stop)
    · have hrest := @ih (before ++ i.text) (by simp [hbefore])
      rw [List.append_assoc] at hrest
      refine hrest.imp fun j b hb => ?_
      exact ⟨List.mem_cons_of_mem _ hb.1, List.mem_cons_of_mem _ hb.2.1, hb.2.2⟩

end Marks

/-! ## Braces behind backslashes -/

/-- The text with a backslash in front of each brace. -/
def escapeBraces (t : Text) : Text :=
  t.flatMap fun c => if c == '\x7b' || c == '\x7d' then ['\\', c] else [c]

theorem escapeBraces_cons (c : Char) (t : Text) :
    escapeBraces (c :: t) =
      (if c == '\x7b' || c == '\x7d' then ['\\', c] else [c]) ++ escapeBraces t :=
  List.flatMap_cons

theorem mem_escapeBraces {c : Char} {t : Text} (hc : c ∈ t) : c ∈ escapeBraces t := by
  refine List.mem_flatMap.2 ⟨c, hc, ?_⟩
  split
  · exact List.mem_cons_of_mem _ List.mem_cons_self
  · exact List.mem_cons_self

/-- No brace stands in front of an escaped text. -/
theorem not_brace_of_head?_escapeBraces {c : Char} {t : Text}
    (h : (escapeBraces t).head? = some c) : ¬ (c == '\x7b' || c == '\x7d') = true := by
  cases t with
  | nil => cases h
  | cons d t =>
    rw [escapeBraces_cons] at h
    split at h
    · cases h
      decide
    · next hbrace =>
      cases h
      exact hbrace

/-- A backslash stands for itself in front of anything but a brace. -/
theorem fragments_backslash {t : Text}
    (h : ∀ c, t.head? = some c → ¬ (c == '\x7b' || c == '\x7d') = true) :
    fragments ('\\' :: t) = .char '\\' :: fragments t := by
  cases t with
  | nil => simp [fragments]
  | cons c rest => rw [fragments, if_neg (h c rfl)]

theorem fragments_escapeBraces (u : Text) : fragments (escapeBraces u) = u.map .char := by
  induction u with
  | nil =>
    rw [escapeBraces, List.flatMap_nil, fragments]
    rfl
  | cons c u ih =>
    rw [escapeBraces_cons, List.map_cons, ← ih]
    split
    · next hbrace =>
      rw [List.cons_append, List.cons_append, List.nil_append, fragments, if_pos hbrace]
    · next hbrace =>
      by_cases hescape : c = '\\'
      · rw [hescape]
        exact fragments_backslash fun d => not_brace_of_head?_escapeBraces
      · have hopen : c ≠ '\x7b' := by
          rintro rfl
          exact hbrace rfl
        exact fragments_cons hopen hescape _

/-- Text whose braces all stand behind backslashes is read as it was before. -/
theorem extract_escapeBraces {u : Text} (hu : '\x7b' ∈ u) :
    extract (escapeBraces u) = (u, []) := by
  obtain ⟨htext, hmarks⟩ := marks_extractFrom false 0 (escapeBraces u)
  rw [fragments_escapeBraces] at htext hmarks
  have hblocks := hmarks.map_directive
  rw [Fragment.filterMap_insertion?_map_char, List.map_nil, List.map_eq_nil_iff] at hblocks
  rw [Fragment.flatMap_text_map_char] at htext
  rw [extract, if_pos (List.contains_iff_mem.2 (mem_escapeBraces hu))]
  exact Prod.ext htext hblocks

/-! ## Blocks in their places -/

/-- The block stands at a text that has been put in, and at nothing else. -/
structure Covers (cleaned text : Text) (b : Block) : Prop where
  isLocal : b.isGlobal = false
  exists_stop : ∃ stop : Nat, b.stop = stop ∧ Text.slice b.start stop cleaned = text

theorem covers_of_extent {cleaned text : Text} {b : Block} {stop : Nat}
    (hextent : b.extent = .inserted stop) (hslice : Text.slice b.start stop cleaned = text) :
    b.Covers cleaned text :=
  ⟨by rw [isGlobal, hextent]; rfl, stop, by rw [Block.stop, hextent], hslice⟩

/-- The block is there for one of the texts that a block of the replacement, as it is written, puts
in its place.  When its directive puts in text at all, the block stands at that text. -/
def StandsFor (replacement cleaned : Text) (i : Insertion) (b : Block) : Prop :=
  b.raw <:+: replacement ∧ b.directive = i.directive ∧
    ∃ content d, b.raw = '\x7b' :: content ++ ['\x7d'] ∧ Directive.read content = .ok d ∧
      i ∈ d.insertions ∧ (d.inserts = true → b.Covers cleaned i.text)

theorem forall₂_standsFor (t : Text) :
    List.Forall₂ (StandsFor t (extractFrom false 0 t).1) (insertions t)
      (extractFrom false 0 t).2 := by
  obtain ⟨htext, hmarks⟩ := marks_extractFrom false 0 t
  have hslices := @Marks.forall₂_slice _ _ _ hmarks [] rfl
  rw [List.nil_append, ← htext] at hslices
  refine hslices.imp fun i b hb => ?_
  obtain ⟨hmem, hfragment, hdirective, hslice⟩ := hb
  obtain ⟨hraw, content, d, hcontent, hread, hi⟩ := exists_of_mem_fragments hfragment
  refine ⟨hraw, hdirective, content, d, hcontent, hread, hi, fun hinserts => ?_⟩
  obtain ⟨content', d', start, between, hread', hplace⟩ := exists_place_of_mem_extractFrom hmem
  obtain ⟨hraw', hcases⟩ := cases_of_mem_place hplace
  -- The block as it is written determines its content, and so the directive that left it.
  have hsame : content' = content :=
    List.append_cancel_right (List.cons.inj (hraw'.symm.trans hcontent)).2
  rw [hsame, hread] at hread'
  cases hread'
  rcases hcases with ⟨-, stop, hextent⟩ | ⟨hnone, -⟩
  · exact covers_of_extent hextent (hslice stop hextent)
  · exact absurd (hinserts.symm.trans hnone) (by decide)

theorem stop_of_isGlobal {b : Block} (h : b.isGlobal = true) : b.stop = -1 := by
  rw [stop, eq_of_beq h]

/-- The blocks of any replacement are in their places: they follow one another through the cleaned
text, there is one for each text that is put in, at that text and at nothing else, the blocks over
all of the text have no end of their own, and no block opens behind a backslash. -/
theorem blocks_in_place (replacement : Text) :
    ((extract replacement).2.Pairwise fun b c => b.start ≤ c.start ∧ b.stop ≤ c.start) ∧
      (∀ b ∈ (extract replacement).2, b.start ≤ (extract replacement).1.length) ∧
      List.Forall₂ (StandsFor replacement (extract replacement).1) (insertions replacement)
        (extract replacement).2 ∧
      (∀ b ∈ (extract replacement).2, b.isGlobal = true → b.stop = -1) ∧
      ∀ u : Text, '\x7b' ∈ u → extract (escapeBraces u) = (u, []) := by
  by_cases hopen : '\x7b' ∈ replacement
  · obtain ⟨htext, hmarks⟩ := marks_extractFrom false 0 replacement
    have hstart := hmarks.start_le
    rw [← htext, Nat.zero_add] at hstart
    rw [extract, if_pos (List.contains_iff_mem.2 hopen)]
    exact ⟨hmarks.pairwise_start, hstart, forall₂_standsFor replacement,
      fun b _ => stop_of_isGlobal, fun u => extract_escapeBraces⟩
  · rw [extract, if_neg (mt List.contains_iff_mem.1 hopen), insertions_of_not_mem hopen]
    exact ⟨.nil, fun b hb => absurd hb List.not_mem_nil, .nil,
      fun b hb => absurd hb List.not_mem_nil, fun u => extract_escapeBraces⟩

/-- Two texts of flags, a text of a directive's own, and a block over all of the text. -/
def greeting : Text :=
  "Dear \x7bb=Ann i=e\x7d\x7bt=!\x7d \x7bc=red\x7d".toList

theorem blocks_in_place_greeting :
    (extract greeting).1 = "Dear Anne! ".toList ∧
      (extract greeting).2.map start = [5, 8, 9, 11] ∧
      (extract greeting).2.map stop = [8, 9, 10, -1] ∧
      (∃ b ∈ (extract greeting).2, b.isGlobal = true) ∧
      (insertions greeting).map Insertion.text = ["Ann".toList, ['e'], ['!'], []] ∧
      List.Forall₂ (StandsFor greeting (extract greeting).1) (insertions greeting)
        (extract greeting).2 ∧
      '\x7b' ∈ "\\\x7b\x7d".toList ∧
      extract (escapeBraces "\\\x7b\x7d".toList) = ("\\\x7b\x7d".toList, []) :=
  ⟨by decide +kernel, by decide +kernel, by decide +kernel, by decide +kernel, by decide +kernel,
    (blocks_in_place greeting).2.2.1, by decide, (blocks_in_place greeting).2.2.2.2 _ (by decide)⟩

end Block

end Redline
