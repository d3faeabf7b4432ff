import Mathlib.Data.List.TakeDrop
import Mathlib.Data.List.TakeWhile
import Redline.Markdown.Image
import Redline.Proofs.Numeral
import Redline.Proofs.PipeTable

/-!
# Images as they are written

An image is written with its alternative text in brackets, its address and its caption in
parentheses, and its size in braces.  The reader takes these parts off one after another, each up to
the first place of what ends it, so a part may hold anything but its own end: the alternative text
may have quotes and braces in it, and the caption brackets and parentheses.  This module shows that
an image that is written in this way is read back as it was.
-/

namespace Redline

namespace Text

theorem words_go_append {word : Text} (h : ∀ c ∈ word, isBlank c = false) (t open_ : Text) :
    words.go (word ++ t) open_ = words.go t (word.reverse ++ open_) := by
  induction word generalizing open_ with
  | nil => rfl
  | cons c word ih =>
    rw [List.cons_append, words.go, if_neg (by simp [h c List.mem_cons_self]),
      ih fun d hd => h d (List.mem_cons_of_mem c hd), List.reverse_cons, List.append_assoc]
    rfl

/-- A text without blanks is one word. -/
theorem words_of_no_blank {word : Text} (hne : word ≠ []) (h : ∀ c ∈ word, isBlank c = false) :
    words word = [word] := by
  have hgo := words_go_append h [] []
  rw [List.append_nil, List.append_nil] at hgo
  rw [words, hgo, words.go, if_neg (by simpa using hne), List.reverse_reverse]

/-- A word ends at a blank. -/
theorem words_append_cons
    {word : Text} {blank : Char} (hne : word ≠ []) (h : ∀ c ∈ word, isBlank c = false)
    (hblank : isBlank blank = true) (rest : Text) :
    words (word ++ blank :: rest) = word :: words rest := by
  rw [words, words_go_append h, List.append_nil, words.go, if_pos hblank,
    if_neg (by simpa using hne), List.reverse_reverse]
  rfl

theorem breakAt_append_cons
    {p : Char → Bool} {before : Text} {stop : Char} (h : ∀ c ∈ before, p c = false)
    (hstop : p stop = true) (rest : Text) :
    breakAt p (before ++ stop :: rest) = (before, stop :: rest) := by
  have hall : ∀ c ∈ before, (!p c) = true := fun c hc => by rw [h c hc]; rfl
  rw [breakAt, List.span_eq_takeWhile_dropWhile, List.takeWhile_append_of_pos hall,
    List.dropWhile_append_of_pos hall, List.takeWhile_cons_of_neg (by simp [hstop]),
    List.dropWhile_cons_of_neg (by simp [hstop]), List.append_nil]

end Text

namespace ImageSpec

/-! ## Sizes -/

theorem withoutEnding_of_not_mem {c : Char} {ending t : Text} (hc : c ∈ ending) (h : c ∉ t) :
    withoutEnding ending t = t := by
  have hends : Text.endsWith ending t = false := by
    rw [Text.endsWith, Bool.eq_false_iff]
    intro hends
    exact h ((List.isSuffixOf_iff_suffix.1 hends).subset hc)
  rw [withoutEnding, hends, if_neg Bool.false_ne_true]

theorem withoutUnit_text (n : Numeral) : withoutUnit n.text = n.text := by
  have hletter : 'x' ∉ n.text := n.not_mem_text (by decide) (by decide)
  have hpercent : '%' ∉ n.text := n.not_mem_text (by decide) (by decide)
  rw [withoutUnit, withoutEnding_of_not_mem (by decide : 'x' ∈ "px".toList) hletter,
    withoutEnding_of_not_mem (List.mem_singleton_self '%') hpercent]

/-- A setting of the size, as it is written. -/
def setting (key : Text) (value : Int) : Text :=
  key ++ '=' :: Text.ofInt value

theorem cut?_setting {key : Text} (h : '=' ∉ key) (value : Int) :
    Text.cut? ['='] (setting key value) = some (key, Text.ofInt value) :=
  Text.cut?_append_cons h _

theorem isBlank_of_mem_setting
    {key : Text} (h : key.all (fun c => !isBlank c) = true) {value : Int} :
    ∀ c ∈ setting key value, isBlank c = false := by
  intro c hc
  rw [setting, ← Numeral.text_ofInt] at hc
  rcases List.mem_append.1 hc with hc | hc
  · simpa using List.all_eq_true.1 h c hc
  · rcases List.mem_cons.1 hc with rfl | hc
    · decide
    · exact Numeral.isBlank_of_mem_text hc

theorem not_mem_setting
    {c : Char} {key : Text} (hkey : c ∉ key) (hequals : c ≠ '=') (hminus : c ≠ '-')
    (hdecimal : isDecimal c = false) (value : Int) : c ∉ setting key value := by
  have hvalue := (Numeral.ofInt value).not_mem_text hminus hdecimal
  rw [Numeral.text_ofInt] at hvalue
  rw [setting, List.mem_append, List.mem_cons, not_or, not_or]
  exact ⟨hkey, hequals, hvalue⟩

theorem readLenient?_withoutUnit {value : Int} (h : (Numeral.ofInt value).Fits) :
    Whole.readLenient? (withoutUnit (Text.ofInt value)) = some value := by
  rw [← Numeral.text_ofInt, withoutUnit_text, Numeral.readLenient?_text, Numeral.read_of_fits h,
    Numeral.value_ofInt]
  rfl

theorem addSetting_width {width : Int} (h : (Numeral.ofInt width).Fits) (spec : ImageSpec) :
    addSetting spec (setting "width".toList width) = { spec with width } := by
  rw [addSetting, cut?_setting (by decide), Option.getD_some]
  dsimp only
  rw [if_pos (by decide), readLenient?_withoutUnit h, Option.getD_some]

theorem addSetting_height {height : Int} (h : (Numeral.ofInt height).Fits) (spec : ImageSpec) :
    addSetting spec (setting "height".toList height) = { spec with height } := by
  rw [addSetting, cut?_setting (by decide), Option.getD_some]
  dsimp only
  rw [if_neg (by decide), if_neg (by decide), if_pos (by decide), readLenient?_withoutUnit h,
    Option.getD_some]

theorem words_settings (width height : Int) :
    Text.words (setting "width".toList width ++ ' ' :: setting "height".toList height) =
      [setting "width".toList width, setting "height".toList height] := by
  have hne : ∀ (key : Text) (value : Int), setting key value ≠ [] := fun key value =>
    List.append_ne_nil_of_right_ne_nil _ (List.cons_ne_nil _ _)
  rw [Text.words_append_cons (hne _ _) (isBlank_of_mem_setting (by decide)) (by decide),
    Text.words_of_no_blank (hne _ _) (isBlank_of_mem_setting (by decide))]

/-! ## The full form -/

/-- The size of an image in braces. -/
def writtenSize (width height : Int) : Text :=
  '\x7b' :: (setting "width".toList width ++ ' ' :: setting "height".toList height ++ ['\x7d'])

/-- An image in its full form. -/
def written (spec : ImageSpec) : Text :=
  "![".toList ++ spec.alt ++ "](".toList ++
    (spec.url ++ ' ' :: '"' :: (spec.caption ++ '"' :: ')' :: writtenSize spec.width spec.height))

example :
    written ⟨"u".toList, "a".toList, "c d".toList, 12, -3⟩ =
      "![a](u \"c d\")\x7bwidth=12 height=-3\x7d".toList := by
  decide

/-- No part of the image holds what ends it, the address has no blanks around it, and the size has
no more digits than are read. -/
structure Writable (spec : ImageSpec) : Prop where
  alt : Text.occursIn "](".toList spec.alt = false
  trimmed : Text.trim spec.url = spec.url
  url : ∀ c ∈ ['"', ')', '\x7b'], c ∉ spec.url
  caption : '"' ∉ spec.caption
  width : (Numeral.ofInt spec.width).Fits
  height : (Numeral.ofInt spec.height).Fits

/-- The alternative text ends at the first bracket with a parenthesis behind it. -/
theorem cut?_alt {alt : Text} (h : Text.occursIn "](".toList alt = false) (rest : Text) :
    Text.cut? "](".toList ("![".toList ++ alt ++ "](".toList ++ rest) =
      some ("![".toList ++ alt, rest) := by
  have halt : ¬ [']', '('] <:+: alt := fun hpart => by
    cases (Text.occursIn_iff.2 hpart).symm.trans h
  refine (Text.cut?_eq_some_iff (List.cons_ne_nil _ _)).2 ⟨rfl, fun hpart => ?_⟩
  have hsplit : [']', '('] <:+: '!' :: '[' :: (alt ++ [']']) := hpart
  rw [List.infix_cons_iff, List.infix_cons_iff, List.infix_concat_iff] at hsplit
  rcases hsplit with hlead | hlead | hend | hinside
  · exact absurd (List.cons_prefix_cons.1 hlead).1 (by decide)
  · exact absurd (List.cons_prefix_cons.1 hlead).1 (by decide)
  · have hlast := hend.getLast (List.cons_ne_nil _ _)
    rw [List.getLast_concat] at hlast
    exact absurd hlast (by decide)
  · exact halt hinside

/-- The address ends at the quote before the caption. -/
theorem breakAt_url {url : Text} (h : ∀ c ∈ ['"', ')', '\x7b'], c ∉ url) (rest : Text) :
    Text.breakAt endsAddress (url ++ ' ' :: '"' :: rest) = (url ++ [' '], '"' :: rest) := by
  have hurl : ∀ c ∈ url ++ [' '], endsAddress c = false := by
    intro c hc
    rcases List.mem_append.1 hc with hc | hc
    · have hne : ∀ d ∈ ['"', ')', '\x7b'], c ≠ d := fun d hd hcd => h d hd (hcd ▸ hc)
      simp only [List.mem_cons, List.not_mem_nil, or_false, forall_eq_or_imp, forall_eq] at hne
      simp [endsAddress, hne]
    · rw [List.mem_singleton.1 hc]
      decide
  rw [← Text.breakAt_append_cons hurl (by decide) rest, List.append_assoc]
  rfl

theorem splitCaption_written {caption : Text} (h : '"' ∉ caption) (rest : Text) :
    splitCaption ('"' :: (caption ++ '"' :: rest)) = (caption, rest) := by
  rw [splitCaption, Text.cut?_append_cons h, Option.getD_some]

/-- The size is read off its two settings. -/
theorem addSize_written
    {width height : Int} (hwidth : (Numeral.ofInt width).Fits)
    (hheight : (Numeral.ofInt height).Fits) (spec : ImageSpec) :
    addSize spec (writtenSize width height) = { spec with width, height } := by
  have hcut : Text.cut? ['\x7d']
      (setting "width".toList width ++ ' ' :: setting "height".toList height ++ ['\x7d']) =
        some (setting "width".toList width ++ ' ' :: setting "height".toList height, []) := by
    refine Text.cut?_append_cons ?_ []
    rw [List.mem_append, List.mem_cons, not_or, not_or]
    exact ⟨not_mem_setting (by decide) (by decide) (by decide) (by decide) width, by decide,
      not_mem_setting (by decide) (by decide) (by decide) (by decide) height⟩
  rw [writtenSize, addSize, hcut]
  dsimp only
  rw [words_settings, List.foldl_cons, List.foldl_cons, List.foldl_nil, addSetting_width hwidth,
    addSetting_height hheight]

/-- An image that is written in its full form is read back. -/
theorem read?_written {spec : ImageSpec} (h : spec.Writable) : read? spec.written = some spec := by
  have hafter : Text.after? "![".toList spec.written =
      some (spec.alt ++ "](".toList ++ _) := Text.after?_append _ _
  have hcut : Text.cut? "](".toList spec.written = some ("![".toList ++ spec.alt, _) :=
    cut?_alt h.alt _
  rw [read?, hafter, hcut]
  dsimp only [Option.bind_some, bind]
  rw [breakAt_url h.url]
  dsimp only
  rw [splitCaption_written h.caption, List.isEmpty_cons, if_neg Bool.false_ne_true,
    Text.trim_append_of_isBlank (by decide), h.trimmed]
  exact congrArg some (addSize_written h.width h.height
    { url := spec.url, alt := spec.alt, caption := spec.caption })

/-- A picture with brackets, quotes and braces where they do not end anything. -/
def harbour : ImageSpec where
  url := "https://a.b/c(d]".toList
  alt := "the \"old\" \x7bport\x7d]".toList
  caption := "seen](from) \x7bhere\x7d".toList
  width := 640
  height := -7

theorem read?_written_harbour :
    harbour.Writable ∧
      read? ("![the \"old\" \x7bport\x7d]](https://a.b/c(d] " ++
        "\"seen](from) \x7bhere\x7d\")\x7bwidth=640 height=-7\x7d").toList = some harbour := by
  have hwritable : harbour.Writable :=
    ⟨by decide, by decide, List.forall_mem_cons.2 ⟨by decide, List.forall_mem_cons.2 ⟨by decide,
      List.forall_mem_cons.2 ⟨by decide, List.forall_mem_nil _⟩⟩⟩, by decide, by decide, by decide⟩
  exact ⟨hwritable, read?_written hwritable⟩

end ImageSpec

end Redline
