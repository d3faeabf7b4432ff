import Redline.Directive.Block
import Redline.Proofs.Replacing
import Redline.Proofs.Run

/-!
# The fragments of a replacement

A replacement is read from left to right as characters that stand for themselves and blocks, and a
block puts texts in its place, each with a directive for its style.  Taking the blocks out of a
replacement leaves the characters and these texts, and places one block at each of the texts.  What
a block puts in its place is made of the characters of the block.
-/

namespace Redline

/-- A text that a block puts in its place, with the directive for its style. -/
structure Insertion where
  directive : Directive
  text : Text

/-- The texts that a directive puts in the place of its block: one for each flag with a value, or
else the text of the directive, where a reference to the whole match is no text. -/
def Directive.insertions (d : Directive) : List Insertion :=
  if d.inline.isEmpty then [⟨d, if d.text == "$0".toList then [] else d.text⟩]
  else d.inline.map fun span => ⟨.ofFlag span.flag, span.text⟩

theorem Directive.insertions_ne_nil (d : Directive) : d.insertions ≠ [] := by
  unfold insertions
  split
  · exact List.cons_ne_nil _ _
  · next hinline => simpa using hinline

/-- A part of a replacement. -/
inductive Fragment where
  /-- A character that stands for itself. -/
  | char (c : Char)
  /-- A text that a block puts in its place, and the block as it is written. -/
  | inserted (raw : Text) (i : Insertion)

namespace Fragment

def text : Fragment → Text
  | .char c => [c]
  | .inserted _ i => i.text

def insertion? : Fragment → Option Insertion
  | .char _ => none
  | .inserted _ i => some i

theorem flatMap_text_map_char (s : Text) : (s.map char).flatMap text = s := by
  rw [List.flatMap_map]
  exact List.flatMap_singleton' s

theorem filterMap_insertion?_map_char (s : Text) : (s.map char).filterMap insertion? = [] := by
  rw [List.filterMap_map, List.filterMap_eq_nil_iff]
  exact fun _ _ => rfl

end Fragment

namespace Block

/-- The parts of a replacement, from left to right. -/
def fragments (t : Text) : List Fragment :=
  match t with
  | [] => []
  | '\\' :: c :: rest =>
    if c == '\x7b' || c == '\x7d' then .char c :: fragments rest
    else .char '\\' :: fragments (c :: rest)
  | '\x7b' :: rest =>
    match _h : closing 0 rest with
    | none => .char '\x7b' :: fragments rest
    | some (inner, tail) =>
      match Directive.read inner with
      | .error _ => .char '\x7b' :: fragments rest
      | .ok d => d.insertions.map (.inserted ('\x7b' :: inner ++ ['\x7d'])) ++ fragments tail
  | c :: rest => .char c :: fragments rest
termination_by t.length
decreasing_by
  all_goals simp_wf
  all_goals first
    | omega
    | have := length_of_closing _h; omega

/-- The texts that the blocks of a replacement put in their places. -/
def insertions (t : Text) : List Insertion :=
  (fragments t).filterMap Fragment.insertion?

/-- The blocks stand at the texts that have been put in their places, which start at a position.
A block whose text is empty may stand for all of the text or for a point in it. -/
inductive Marks : Nat → List Fragment → List Block → Prop where
  | nil (position : Nat) : Marks position [] []
  | char {position : Nat} {c : Char} {fs : List Fragment} {blocks : List Block}
    (rest : Marks (position + 1) fs blocks) : Marks position (.char c :: fs) blocks
  | inserted {position : Nat} {raw : Text} {i : Insertion} {fs : List Fragment} {extent : Extent}
    {blocks : List Block}
    (hextent : extent = .inserted (position + i.text.length) ∨
      i.text = [] ∧ ∀ stop, extent ≠ .inserted stop)
    (rest : Marks (position + i.text.length) fs blocks) :
    Marks position (.inserted raw i :: fs) (⟨i.directive, position, extent, raw⟩ :: blocks)

theorem Marks.append {position : Nat} {fs gs : List Fragment} {blocks others : List Block}
    (hfs : Marks position fs blocks)
    (hgs : Marks (position + (fs.flatMap Fragment.text).length) gs others) :
    Marks position (fs ++ gs) (blocks ++ others) := by
  induction hfs with
  | nil position => exact hgs
  | @char position c fs blocks hrest ih =>
    apply Marks.char
    apply ih
    rw [List.flatMap_cons, List.length_append, ← Nat.add_assoc] at hgs
    exact hgs
  | @inserted position raw i fs extent blocks hextent hrest ih =>
    apply Marks.inserted hextent
    apply ih
    rw [List.flatMap_cons, List.length_append, ← Nat.add_assoc] at hgs
    exact hgs

theorem Marks.of_append {position : Nat} {s : Text} {fs : List Fragment} {blocks : List Block}
    (h : Marks position (s.map .char ++ fs) blocks) : Marks (position + s.length) fs blocks := by
  induction s generalizing position with
  | nil => exact h
  | cons c s ih =>
    cases h with
    | char rest =>
      have hrest := ih rest
      rw [Nat.add_assoc, Nat.add_comm 1] at hrest
      exact hrest

theorem Marks.map_directive {position : Nat} {fs : List Fragment} {blocks : List Block}
    (h : Marks position fs blocks) :
    blocks.map directive = (fs.filterMap Fragment.insertion?).map Insertion.directive := by
  induction h with
  | nil => rfl
  | char _ ih => exact ih
  | inserted _ _ ih => exact congrArg _ ih

theorem marks_map_char (position : Nat) (s : Text) : Marks position (s.map .char) [] := by
  induction s generalizing position with
  | nil => exact .nil position
  | cons c s ih => exact .char (ih (position + 1))

theorem Marks.exists_of_mem {position : Nat} {fs : List Fragment} {blocks : List Block}
    (h : Marks position fs blocks) {raw : Text} {i : Insertion} (hi : .inserted raw i ∈ fs) :
    ∃ b ∈ blocks, b.raw = raw := by
  induction h with
  | nil => cases hi
  | char _ ih =>
    rcases List.mem_cons.1 hi with hi | hi
    · cases hi
    · exact ih hi
  | inserted _ _ ih =>
    rcases List.mem_cons.1 hi with hi | hi
    · cases hi
      exact ⟨_, List.mem_cons_self, rfl⟩
    · obtain ⟨b, hb, hraw⟩ := ih hi
      exact ⟨b, List.mem_cons_of_mem _ hb, hraw⟩

/-- The texts of flags are put one behind the other. -/
theorem exists_foldl_inline
    {raw : Text} {position : Nat} {step : Text × List Block → InlineText → Text × List Block}
    (hstep : ∀ text blocks span, step (text, blocks) span =
      (text ++ span.text, blocks ++ [⟨.ofFlag span.flag, position + text.length,
        .inserted (position + text.length + span.text.length), raw⟩]))
    (spans : List InlineText) (text : Text) (blocks : List Block) :
    ∃ more, spans.foldl step (text, blocks) = (text ++ spans.flatMap (·.text), blocks ++ more) ∧
      Marks (position + text.length)
        (spans.map fun span => .inserted raw ⟨.ofFlag span.flag, span.text⟩) more := by
  induction spans generalizing text blocks with
  | nil => exact ⟨[], by simp, .nil _⟩
  | cons span spans ih =>
    let b : Block := ⟨.ofFlag span.flag, position + text.length,
      .inserted (position + text.length + span.text.length), raw⟩
    obtain ⟨more, hfold, hmarks⟩ := ih (text ++ span.text) (blocks ++ [b])
    refine ⟨b :: more, ?_, .inserted (.inl rfl) ?_⟩
    · rw [List.foldl_cons, hstep, hfold, List.flatMap_cons, List.append_assoc, List.append_assoc]
      rfl
    · rw [List.length_append, ← Nat.add_assoc] at hmarks
      exact hmarks

theorem marks_foldl_inline
    {raw : Text} {position : Nat} {step : Text × List Block → InlineText → Text × List Block}
    (hstep : ∀ text blocks span, step (text, blocks) span =
      (text ++ span.text, blocks ++ [⟨.ofFlag span.flag, position + text.length,
        .inserted (position + text.length + span.text.length), raw⟩]))
    (spans : List InlineText) :
    (spans.foldl step ([], [])).1 = spans.flatMap (·.text) ∧
      Marks position (spans.map fun span => .inserted raw ⟨.ofFlag span.flag, span.text⟩)
        (spans.foldl step ([], [])).2 := by
  obtain ⟨more, hfold, hmarks⟩ := exists_foldl_inline hstep spans [] []
  rw [hfold]
  exact ⟨rfl, hmarks⟩

/-- A directive leaves one block for each text that it puts in its place. -/
theorem marks_place (d : Directive) (raw : Text) (position : Nat) (between : Bool) :
    (place d raw position between).1 =
        (d.insertions.map (.inserted raw)).flatMap Fragment.text ∧
      Marks position (d.insertions.map (.inserted raw)) (place d raw position between).2 := by
  by_cases hinline : d.inline.isEmpty = true
  · rw [Directive.insertions, if_pos hinline, place, if_neg (by simp [hinline])]
    by_cases htext : (!d.text.isEmpty && d.text != "$0".toList) = true
    · have hother : ¬ (d.text == "$0".toList) = true := by
        simp only [Bool.and_eq_true, bne_iff_ne] at htext
        simpa using htext.2
      rw [if_pos htext, if_neg hother]
      exact ⟨(List.append_nil _).symm, .inserted (.inl rfl) (.nil _)⟩
    · have hnone : (if d.text == "$0".toList then [] else d.text) = [] := by
        split
        · rfl
        · next hother =>
          by_contra hne
          have heq : d.text = "$0".toList := by simpa [hne] using htext
          exact hother (beq_iff_eq.2 heq)
      rw [if_neg htext, hnone]
      refine ⟨rfl, .inserted (.inr ⟨rfl, fun stop => ?_⟩) (.nil _)⟩
      split
      · exact Extent.noConfusion
      · exact Extent.noConfusion
  · rw [Directive.insertions, if_neg hinline, place, if_pos (by simp [hinline]), List.map_map,
      List.flatMap_map]
    refine marks_foldl_inline ?_ d.inline
    intro text blocks span
    rfl

section Open

variable {rest inner tail : Text}

theorem fragments_of_unclosed (h : closing 0 rest = none) :
    fragments ('\x7b' :: rest) = .char '\x7b' :: fragments rest := by
  rw [fragments]
  split
  · rfl
  · next hsome => cases h.symm.trans hsome

theorem fragments_of_refused {e : Directive.Error} (h : closing 0 rest = some (inner, tail))
    (hread : Directive.read inner = .error e) :
    fragments ('\x7b' :: rest) = .char '\x7b' :: fragments rest := by
  rw [fragments]
  split
  · rfl
  · next hsome =>
    cases h.symm.trans hsome
    rw [hread]

theorem fragments_of_read {d : Directive} (h : closing 0 rest = some (inner, tail))
    (hread : Directive.read inner = .ok d) :
    fragments ('\x7b' :: rest) =
      d.insertions.map (.inserted ('\x7b' :: inner ++ ['\x7d'])) ++ fragments tail := by
  rw [fragments]
  split
  · next hnone => cases h.symm.trans hnone
  · next hsome =>
    cases h.symm.trans hsome
    rw [hread]

end Open

theorem fragments_cons {c : Char} (hopen : c ≠ '\x7b') (hescape : c ≠ '\\') (rest : Text) :
    fragments (c :: rest) = .char c :: fragments rest := by
  rw [fragments]
  · exact fun d tail hc => absurd hc hescape
  · exact fun hc => hopen hc

/-- Text without braces and backslashes stands for itself. -/
theorem fragments_append {s : Text} (h : ∀ c ∈ s, c ≠ '\x7b' ∧ c ≠ '\\') (t : Text) :
    fragments (s ++ t) = s.map .char ++ fragments t := by
  induction s with
  | nil => rfl
  | cons c s ih =>
    obtain ⟨hopen, hescape⟩ := h c List.mem_cons_self
    rw [List.cons_append, fragments_cons hopen hescape,
      ih fun d hd => h d (List.mem_cons_of_mem c hd), List.map_cons, List.cons_append]

/-- Taking the blocks out of a text leaves the texts of its parts, and a block at each text that has
been put in. -/
theorem marks_extractFrom (before : Bool) (position : Nat) (t : Text) :
    (extractFrom before position t).1 = (fragments t).flatMap Fragment.text ∧
      Marks position (fragments t) (extractFrom before position t).2 := by
  induction t using fragments.induct generalizing before position with
  | case1 =>
    rw [extractFrom, fragments]
    exact ⟨rfl, .nil _⟩
  | case2 c rest hbrace ih =>
    obtain ⟨htext, hmarks⟩ := ih true (position + 1)
    rw [extractFrom, if_pos hbrace, fragments, if_pos hbrace]
    exact ⟨congrArg (c :: ·) htext, .char hmarks⟩
  | case3 c rest hbrace ih =>
    obtain ⟨htext, hmarks⟩ := ih true (position + 1)
    rw [extractFrom, if_neg hbrace, fragments, if_neg hbrace]
    exact ⟨congrArg ('\\' :: ·) htext, .char hmarks⟩
  | case4 rest hclosing ih =>
    obtain ⟨htext, hmarks⟩ := ih true (position + 1)
    rw [fragments_of_unclosed hclosing, extractFrom]
    split
    · exact ⟨congrArg ('\x7b' :: ·) htext, .char hmarks⟩
    · next hsome => cases hclosing.symm.trans hsome
  | case5 rest inner tail hclosing e hread ih =>
    obtain ⟨htext, hmarks⟩ := ih true (position + 1)
    rw [fragments_of_refused hclosing hread, extractFrom]
    split
    · next hnone => cases hclosing.symm.trans hnone
    · next hsome =>
      cases hclosing.symm.trans hsome
      rw [hread]
      exact ⟨congrArg ('\x7b' :: ·) htext, .char hmarks⟩
  | case6 rest inner tail hclosing d hread ih =>
    rw [fragments_of_read hclosing hread, extractFrom]
    split
    · next hnone => cases hclosing.symm.trans hnone
    · next hsome =>
      cases hclosing.symm.trans hsome
      rw [hread]
      obtain ⟨hplace, hmarks⟩ :=
        marks_place d ('\x7b' :: inner ++ ['\x7d']) position (before && hasContent tail)
      obtain ⟨htext, hothers⟩ := ih true
        (position + (place d ('\x7b' :: inner ++ ['\x7d']) position
          (before && hasContent tail)).1.length)
      refine ⟨?_, hmarks.append ?_⟩
      · rw [List.flatMap_append, ← hplace, ← htext]
      · rw [← hplace]
        exact hothers
  | case7 c rest hescape hopen ih =>
    obtain ⟨htext, hmarks⟩ := ih (before || !isBlank c) (position + 1)
    rw [extractFrom, fragments]
    · exact ⟨congrArg (c :: ·) htext, .char hmarks⟩
    · exact hescape
    · exact hopen
    · exact hescape
    · exact hopen

/-- Without backslashes all blocks are taken out in the same way. -/
theorem marks_extract {t : Text} (h : '\\' ∉ t) :
    (extract t).1 = (fragments t).flatMap Fragment.text ∧
      Marks 0 (fragments t) (extract t).2 := by
  unfold extract
  split
  · exact marks_extractFrom false 0 t
  · next hopen =>
    have hplain : ∀ c ∈ t, c ≠ '\x7b' ∧ c ≠ '\\' := by
      intro c hc
      constructor
      · rintro rfl
        exact hopen (List.contains_iff_mem.2 hc)
      · rintro rfl
        exact h hc
    have hchars := fragments_append hplain []
    rw [List.append_nil] at hchars
    rw [hchars, fragments, List.append_nil, Fragment.flatMap_text_map_char]
    exact ⟨rfl, marks_map_char 0 t⟩

end Block

/-! ## Characters of what is put in -/

namespace Directive

/-- The texts that a directive puts in are made of the characters of a content. -/
structure DrawnFrom (content : Text) (d : Directive) : Prop where
  inline : ∀ span ∈ d.inline, span.text ⊆ content
  text : d.text = "$0".toList ∨ d.text ⊆ content

theorem subset_of_mem_tokens_go {quote : Option Char} {word rest token : Text}
    (h : token ∈ tokens.go quote word rest) : token ⊆ word ++ rest := by
  have hmoved : ∀ {c : Char} {word rest : Text}, token ⊆ c :: word ++ rest →
      token ⊆ word ++ c :: rest := by
    intro c word rest hsub d hd
    simpa [or_left_comm] using hsub hd
  have hword : ∀ {word rest : Text}, token = word.reverse → token ⊆ word ++ rest := by
    rintro word rest rfl d hd
    exact List.mem_append_left rest (List.mem_reverse.1 hd)
  have hlater : ∀ {word rest : Text} {c : Char}, token ⊆ [] ++ rest → token ⊆ word ++ c :: rest :=
    fun hsub d hd => List.mem_append_right _ (List.mem_cons_of_mem _ (hsub hd))
  fun_induction tokens.go quote word rest with
  | case1 => cases h
  | case2 quote word hne => exact hword (List.mem_singleton.1 h)
  | case3 quote word c rest ih => exact hmoved (ih h)
  | case4 word c rest hquote ih => exact hmoved (ih h)
  | case5 word c rest hquote hspace hempty ih => exact hlater (ih h)
  | case6 word c rest hquote hspace hne ih =>
    rcases List.mem_cons.1 h with h | h
    · exact hword h
    · exact hlater (ih h)
  | case7 word c rest hquote hspace ih => exact hmoved (ih h)

theorem subset_of_mem_tokens {content token : Text} (h : token ∈ tokens content) :
    token ⊆ content :=
  subset_of_mem_tokens_go h

theorem unquote_subset (value : Text) : unquote value ⊆ value := by
  unfold unquote
  split
  · split
    · exact fun c hc => List.mem_cons_of_mem _ (List.dropLast_subset _ hc)
    · exact List.Subset.refl _
  · exact List.Subset.refl _

namespace DrawnFrom

variable {content : Text} {d d' : Directive}

theorem addValue {key value : Text} (h : DrawnFrom content d) (hvalue : value ⊆ content)
    (hd : d.addValue key value = .ok d') : DrawnFrom content d' := by
  unfold Directive.addValue at hd
  split at hd
  · cases hd
    refine ⟨fun span hspan => ?_, h.text⟩
    rcases List.mem_append.1 hspan with hspan | hspan
    · exact h.inline span hspan
    · rw [List.mem_singleton.1 hspan]
      exact hvalue
  · split at hd
    · next k _ =>
      cases hd
      cases k with
      | text => exact ⟨h.inline, .inr hvalue⟩
      | _ => exact ⟨h.inline, h.text⟩
    · cases hd

theorem setFlag (h : DrawnFrom content d) (f : Flag) (on : Bool) :
    DrawnFrom content (d.setFlag f on) := by
  cases f <;> exact ⟨h.inline, h.text⟩

theorem addBare {token : Text} (h : DrawnFrom content d) (hd : d.addBare token = .ok d') :
    DrawnFrom content d' := by
  unfold Directive.addBare at hd
  split at hd
  · cases hd
    exact h.setFlag _ true
  · split at hd
    · next hbare =>
      cases hd
      obtain ⟨k, -, hk⟩ := Option.bind_eq_some_iff.1 hbare
      cases k <;> cases hk <;> first | exact ⟨h.inline, .inl rfl⟩ | exact ⟨h.inline, h.text⟩
    · cases hd

theorem addNegated {name : Text} (h : DrawnFrom content d) (hd : d.addNegated name = .ok d') :
    DrawnFrom content d' := by
  unfold Directive.addNegated at hd
  split at hd
  · cases hd
    exact ⟨h.inline, h.text⟩
  · split at hd
    · cases hd
      exact h.setFlag _ false
    · cases hd

theorem addToken {token : Text} (h : DrawnFrom content d) (htoken : token ⊆ content)
    (hd : d.addToken token = .ok d') : DrawnFrom content d' := by
  unfold Directive.addToken at hd
  split at hd
  · cases hd
    exact ⟨h.inline, h.text⟩
  · cases hd
    exact ⟨h.inline, h.text⟩
  · cases hd
    exact ⟨h.inline, h.text⟩
  · exact h.addNegated hd
  · split at hd
    · next key value hcut =>
      refine h.addValue (fun c hc => htoken ?_) hd
      rw [Text.eq_append_of_cut? hcut]
      exact List.mem_append_right _ (unquote_subset value hc)
    · exact h.addBare hd

theorem foldlM {words : List Text} (h : DrawnFrom content d)
    (hwords : ∀ token ∈ words, token ⊆ content) (hd : words.foldlM Directive.addToken d = .ok d') :
    DrawnFrom content d' := by
  induction words generalizing d with
  | nil =>
    cases hd
    exact h
  | cons token words ih =>
    rw [List.foldlM_cons] at hd
    obtain ⟨next, hnext, hd⟩ := exists_of_bind_eq_ok hd
    exact ih (h.addToken (hwords token List.mem_cons_self) hnext)
      (fun word hword => hwords word (List.mem_cons_of_mem token hword)) hd

end DrawnFrom

/-- The tokens of a directive are read off a part of the content of its block. -/
theorem exists_of_read {content : Text} {d : Directive} (h : read content = .ok d) :
    ∃ comment reset words, words ⊆ content ∧
      (tokens words).foldlM addToken { comment := comment, reset := reset } = .ok d := by
  have htrim : ∀ t : Text, Text.trim t ⊆ t := fun t => (Text.trim_isInfix t).subset
  have hbehind : ∀ {a b : Char} {words rest : Text}, words ⊆ content → words = a :: b :: rest →
      Text.trim rest ⊆ content := by
    rintro a b words rest hwords rfl c hc
    exact hwords (List.mem_cons_of_mem a (List.mem_cons_of_mem b (htrim rest hc)))
  unfold read at h
  dsimp only at h
  rcases hcut : Text.cut? "\"=".toList (Text.trim content) with _ | ⟨before, comment⟩
  · rw [hcut] at h
    have hwords := htrim content
    refine ⟨_, _, _, ?_, h⟩
    split
    · exact List.nil_subset content
    · next heq => exact hbehind hwords heq
    · next heq => exact hbehind hwords heq
    · exact hwords
  · rw [hcut] at h
    have hwords : Text.trim before ⊆ content := by
      intro c hc
      apply htrim content
      rw [Text.eq_append_of_cut? hcut]
      exact List.mem_append_left _ (List.mem_append_left _ (htrim before hc))
    refine ⟨_, _, _, ?_, h⟩
    split
    · exact List.nil_subset content
    · next heq => exact hbehind hwords heq
    · next heq => exact hbehind hwords heq
    · exact hwords

/-- Whatever a block puts in its place is made of its characters. -/
theorem drawnFrom_of_read {content : Text} {d : Directive} (h : read content = .ok d) :
    DrawnFrom content d := by
  obtain ⟨comment, reset, words, hwords, htokens⟩ := exists_of_read h
  have hinitial : DrawnFrom content { comment := comment, reset := reset } :=
    ⟨nofun, .inr (List.nil_subset content)⟩
  exact hinitial.foldlM
    (fun token htoken => List.Subset.trans (subset_of_mem_tokens htoken) hwords) htokens

theorem DrawnFrom.subset {content : Text} {d : Directive} {i : Insertion} (h : DrawnFrom content d)
    (hi : i ∈ d.insertions) : i.text ⊆ content := by
  unfold insertions at hi
  split at hi
  · rw [List.mem_singleton.1 hi]
    rcases h.text with htext | htext
    · rw [htext]
      exact List.nil_subset content
    · dsimp only
      split
      · exact List.nil_subset content
      · exact htext
  · obtain ⟨span, hspan, rfl⟩ := List.mem_map.1 hi
    exact h.inline span hspan

end Directive

end Redline
