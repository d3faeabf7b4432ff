import Redline.Proofs.WellFormed

/-!
# Quoting text in a replacement

A text is taken literally in a replacement when a backslash stands before each of its characters
that has a meaning there, and before each delimiter.  It then passes through the search for
delimiters, the conversion to a template, the search for formatting blocks, and the expansion, and
comes back as it was.  The one exception is a text that looks like a mark of the conversion between
two ampersands.

## Main results

* `Redline.Template.split_quoted`: the fields of a command with a quoted text.
* `Redline.Template.forge_escapedItems_iff`: the texts that are taken for a mark.
-/

namespace Redline

namespace Delimited

variable {delimiter : Char}

theorem split_cons {c : Char} {rest : Text} (hc : c ≠ delimiter)
    (hescape : c = '\\' → rest.head? ≠ some delimiter) :
    split delimiter (c :: rest) = prepend c (split delimiter rest) := by
  have hother : ¬ (c == delimiter) = true := by simpa using hc
  cases rest with
  | nil =>
    simp only [split]
    rw [if_neg hother]
    rfl
  | cons e rest =>
    have hpair : (c == '\\' && e == delimiter) = false := by
      rw [Bool.and_eq_false_iff, beq_eq_false_iff_ne, beq_eq_false_iff_ne]
      by_cases hslash : c = '\\'
      · exact .inr fun he => hescape hslash (congrArg some he)
      · exact .inl hslash
    rw [split, hpair, if_neg Bool.false_ne_true, if_neg hother]

theorem split_delimiter (hdelimiter : delimiter ≠ '\\') (rest : Text) :
    split delimiter (delimiter :: rest) = [] :: split delimiter rest := by
  have hsame : (delimiter == delimiter) = true := beq_self_eq_true delimiter
  cases rest with
  | nil =>
    simp only [split]
    rw [if_pos hsame]
  | cons e rest =>
    have hslash : (delimiter == '\\') = false := beq_false_of_ne hdelimiter
    rw [split, hslash, Bool.false_and, if_neg Bool.false_ne_true, if_pos hsame]

theorem split_escaped (rest : Text) :
    split delimiter ('\\' :: delimiter :: rest) = prepend delimiter (split delimiter rest) := by
  rw [split, if_pos (by simp)]

/-- A field without delimiters and backslashes ends at the first delimiter. -/
theorem split_append {field : Text} (hfield : delimiter ∉ field) (hslash : '\\' ∉ field)
    (hdelimiter : delimiter ≠ '\\') (rest : Text) :
    split delimiter (field ++ delimiter :: rest) = field :: split delimiter rest := by
  induction field with
  | nil => exact split_delimiter hdelimiter rest
  | cons c field ih =>
    simp only [List.mem_cons, not_or] at hfield hslash
    rw [List.cons_append, split_cons (Ne.symm hfield.1) (fun h => absurd h.symm hslash.1),
      ih hfield.2 hslash.2]
    rfl

end Delimited

namespace Template

/-- A character that has a meaning of its own in a replacement. -/
def isSpecial (c : Char) : Bool :=
  ['\\', '&', '$', '\x7b', '\x7d'].contains c

/-- A text with a backslash before each character that has a meaning in a replacement. -/
def escaped (t : Text) : Text :=
  t.flatMap fun c => if isSpecial c then ['\\', c] else [c]

/-- A text with a backslash before each character that has a meaning in a replacement and before
each delimiter. -/
def quoted (delimiter : Char) (t : Text) : Text :=
  t.flatMap fun c => if isSpecial c || c == delimiter then ['\\', c] else [c]

theorem escaped_cons_of_special {c : Char} (h : isSpecial c = true) (t : Text) :
    escaped (c :: t) = '\\' :: c :: escaped t := by
  rw [escaped, List.flatMap_cons, if_pos h]
  rfl

theorem escaped_cons_of_plain {c : Char} (h : isSpecial c = false) (t : Text) :
    escaped (c :: t) = c :: escaped t := by
  rw [escaped, List.flatMap_cons, h, if_neg Bool.false_ne_true]
  rfl

theorem ne_of_isSpecial {c e : Char} (hc : isSpecial c = false) (he : isSpecial e = true) :
    c ≠ e := by
  rintro rfl
  rw [he] at hc
  cases hc

section Delimiter

variable {delimiter : Char}

theorem quoted_cons_of_quoted {c : Char} (h : isSpecial c = true ∨ c = delimiter) (t : Text) :
    quoted delimiter (c :: t) = '\\' :: c :: quoted delimiter t := by
  rw [quoted, List.flatMap_cons, if_pos (by simpa using h)]
  rfl

theorem quoted_cons_of_plain {c : Char} (h : isSpecial c = false) (hc : c ≠ delimiter)
    (t : Text) : quoted delimiter (c :: t) = c :: quoted delimiter t := by
  rw [quoted, List.flatMap_cons, if_neg (by simp [h, hc])]
  rfl

/-- What is quoted never starts with a delimiter. -/
theorem head?_quoted_append (hdelimiter : isSpecial delimiter = false) {t : Text} (ht : t ≠ [])
    (rest : Text) : (quoted delimiter t ++ rest).head? ≠ some delimiter := by
  obtain ⟨c, t, rfl⟩ := List.exists_cons_of_ne_nil ht
  by_cases hc : isSpecial c = true ∨ c = delimiter
  · rw [quoted_cons_of_quoted hc]
    exact fun h => ne_of_isSpecial hdelimiter rfl (Option.some.inj h).symm
  · rw [not_or, Bool.not_eq_true] at hc
    rw [quoted_cons_of_plain hc.1 hc.2]
    exact fun h => hc.2 (Option.some.inj h)

/-- Finding the delimiters takes away the backslashes before them. -/
theorem split_quoted (hdelimiter : isSpecial delimiter = false) {t : Text}
    (ht : t.getLast? ≠ some '\\') :
    Delimited.split delimiter (quoted delimiter t ++ [delimiter]) = [escaped t, []] := by
  have hslash : delimiter ≠ '\\' := ne_of_isSpecial hdelimiter rfl
  induction t with
  | nil => exact Delimited.split_delimiter hslash []
  | cons c t ih =>
    have hrest : t.getLast? ≠ some '\\' := by
      intro h
      rw [List.getLast?_cons, h] at ht
      exact ht rfl
    replace ih := ih hrest
    by_cases hspecial : isSpecial c = true
    · -- The backslash is kept, and what comes behind it is no delimiter.
      have hc : c ≠ delimiter := (ne_of_isSpecial hdelimiter hspecial).symm
      have hnext : c = '\\' → (quoted delimiter t ++ [delimiter]).head? ≠ some delimiter := by
        rintro rfl
        have hne : t ≠ [] := by
          rintro rfl
          exact ht rfl
        exact head?_quoted_append hdelimiter hne _
      have hfirst : '\\' = '\\' →
          (c :: (quoted delimiter t ++ [delimiter])).head? ≠ some delimiter :=
        fun _ h => hc (Option.some.inj h)
      rw [quoted_cons_of_quoted (.inl hspecial), escaped_cons_of_special hspecial,
        List.cons_append, List.cons_append, Delimited.split_cons hslash.symm hfirst,
        Delimited.split_cons hc hnext, ih]
      rfl
    · rw [Bool.not_eq_true] at hspecial
      rw [escaped_cons_of_plain hspecial]
      by_cases hc : c = delimiter
      · subst hc
        rw [quoted_cons_of_quoted (.inr rfl), List.cons_append, List.cons_append,
          Delimited.split_escaped, ih]
        rfl
      · have hplain : c ≠ '\\' := ne_of_isSpecial hspecial rfl
        rw [quoted_cons_of_plain hspecial hc, List.cons_append,
          Delimited.split_cons hc (fun h => absurd h hplain), ih]
        rfl

end Delimiter

/-! ## Escaped text as a template -/

/-- The items of an escaped text: its characters, with a backslash still before each brace. -/
def escapedItems (t : Text) : List Item :=
  t.flatMap fun c => if c = '\x7b' ∨ c = '\x7d' then [.char '\\', .char c] else [.char c]

theorem escapedItems_cons_of_ne {c : Char} (hopen : c ≠ '\x7b') (hclose : c ≠ '\x7d') (t : Text) :
    escapedItems (c :: t) = .char c :: escapedItems t := by
  rw [escapedItems, List.flatMap_cons, if_neg (by simp [hopen, hclose])]
  rfl

theorem escapedItems_cons_of_eq {c : Char} (h : c = '\x7b' ∨ c = '\x7d') (t : Text) :
    escapedItems (c :: t) = .char '\\' :: .char c :: escapedItems t := by
  rw [escapedItems, List.flatMap_cons, if_pos h]
  rfl

theorem marked_escaped (t : Text) :
    marked (escaped t) =
      (escapedItems t).flatMap (Item.written ampersandMark ['&'] groupMark) := by
  induction t with
  | nil => rfl
  | cons c t ih =>
    by_cases hspecial : isSpecial c = true
    · have hitems : ∀ c ∈ ['\\', '&', '$', '\x7b', '\x7d'], escapeItems c = escapedItems [c] :=
        List.all_iff_forall_prop.1 (by decide)
      have hsplit : escapedItems (c :: t) = escapedItems [c] ++ escapedItems t := by
        simp [escapedItems]
      rw [escaped_cons_of_special hspecial, marked, ih, escapeMarked_eq,
        hitems c (List.contains_iff_mem.1 hspecial), hsplit, List.flatMap_append]
    · rw [Bool.not_eq_true] at hspecial
      have hslash : c ≠ '\\' := ne_of_isSpecial hspecial rfl
      have hdollar : c ≠ '$' := ne_of_isSpecial hspecial rfl
      rw [escaped_cons_of_plain hspecial, escapedItems_cons_of_ne (ne_of_isSpecial hspecial rfl)
        (ne_of_isSpecial hspecial rfl), List.flatMap_cons,
        Item.written_char_of_ne hdollar (ne_of_isSpecial hspecial rfl), ← ih, marked]
      · rfl
      · exact fun _ _ h => absurd h hslash
      · exact fun h => absurd h hdollar

theorem isSound_of_mem_escapedItems {t : Text} (h : '\x00' ∉ t) {i : Item}
    (hi : i ∈ escapedItems t) : i.IsSound := by
  obtain ⟨c, hc, hi⟩ := List.mem_flatMap.1 hi
  have hsound : (Item.char c).IsSound := by
    rintro rfl
    exact h hc
  split at hi
  · rcases List.mem_cons.1 hi with rfl | hi
    · exact (by decide : ('\\' : Char) ≠ '\x00')
    · rw [List.mem_singleton.1 hi]
      exact hsound
  · rw [List.mem_singleton.1 hi]
    exact hsound

/-! ## Forged marks -/

/-- The text that forges a mark when it is quoted: a word of marks between ampersands. -/
def forgery (digit : Char) : Text :=
  '&' :: ("BACKREF_".toList ++ [digit, '&'])

/-- Items of an escaped text that start with characters other than backslashes and braces. -/
theorem exists_of_escapedItems_eq_append {s t : Text} {rest : List Item}
    (hs : ∀ c ∈ s, isSpecial c = true → c = '&')
    (h : escapedItems t = s.map .char ++ rest) :
    ∃ u, t = s ++ u ∧ escapedItems u = rest := by
  induction s generalizing t with
  | nil => exact ⟨t, rfl, h⟩
  | cons c s ih =>
    have hslash : c ≠ '\\' := by
      rintro rfl
      exact absurd (hs _ List.mem_cons_self rfl) (by decide)
    cases t with
    | nil => cases h
    | cons e t =>
      by_cases he : e = '\x7b' ∨ e = '\x7d'
      · rw [escapedItems_cons_of_eq he] at h
        exact absurd (Item.char.inj (List.cons.inj h).1).symm hslash
      · rw [not_or] at he
        rw [escapedItems_cons_of_ne he.1 he.2] at h
        obtain ⟨hhead, htail⟩ := List.cons.inj h
        obtain ⟨u, rfl, hu⟩ := ih (fun d hd => hs d (List.mem_cons_of_mem c hd)) htail
        rw [Item.char.inj hhead]
        exact ⟨u, rfl, hu⟩

theorem escapedItems_append {s : Text} (hs : ∀ c ∈ s, isSpecial c = true → c = '&') (t : Text) :
    escapedItems (s ++ t) = s.map .char ++ escapedItems t := by
  induction s with
  | nil => rfl
  | cons c s ih =>
    have hbrace : ∀ b ∈ ['\x7b', '\x7d'], c ≠ b := by
      rintro b hb rfl
      have hspecial : ∀ b ∈ ['\x7b', '\x7d'], isSpecial b = true ∧ b ≠ '&' :=
        List.all_iff_forall_prop.1 (by decide)
      exact (hspecial c hb).2 (hs c List.mem_cons_self (hspecial c hb).1)
    rw [List.cons_append, escapedItems_cons_of_ne (hbrace _ (by simp)) (hbrace _ (by simp)),
      ih fun d hd => hs d (List.mem_cons_of_mem c hd)]
    rfl

theorem exists_char_of_mem_escapedItems {t : Text} {i : Item} (hi : i ∈ escapedItems t) :
    ∃ c, i = .char c := by
  obtain ⟨c, -, hi⟩ := List.mem_flatMap.1 hi
  split at hi
  · rcases List.mem_cons.1 hi with rfl | hi
    · exact ⟨_, rfl⟩
    · exact ⟨c, List.mem_singleton.1 hi⟩
  · exact ⟨c, List.mem_singleton.1 hi⟩

theorem eq_ampersand_of_mem_forgery {digit c : Char} (hdigit : isDecimal digit = true)
    (hc : c ∈ forgery digit) (hspecial : isSpecial c = true) : c = '&' := by
  have hletters : ∀ c ∈ "BACKREF_".toList, isSpecial c = false :=
    List.all_iff_forall_prop.1 (by decide)
  simp only [forgery, List.mem_cons, List.mem_append, List.not_mem_nil, or_false] at hc
  rcases hc with hc | hc | rfl | hc
  · exact hc
  · rw [hletters c hc] at hspecial
    cases hspecial
  · have hdecimal : ∀ e ∈ ['\\', '&', '$', '\x7b', '\x7d'], isDecimal e = false :=
      List.all_iff_forall_prop.1 (by decide)
    rw [hdecimal c (List.contains_iff_mem.1 hspecial)] at hdigit
    cases hdigit
  · exact hc

theorem forgeMark_escapedItems_iff {t : Text} :
    Item.forgeMark (escapedItems t) = true ↔
      ∃ digit, isDecimal digit = true ∧ forgery digit <+: '&' :: t := by
  rw [forgeMark_iff]
  constructor
  · rintro ⟨digit, i, rest, hitems, hdigit, hmarked⟩
    have hi : i = .char '&' := by
      obtain ⟨c, rfl⟩ := exists_char_of_mem_escapedItems (t := t) (i := i) (by simp [hitems])
      rw [eq_of_beq hmarked]
    have hwhole : escapedItems ('&' :: t) = (forgery digit).map .char ++ rest := by
      rw [escapedItems_cons_of_ne (by decide) (by decide), hitems, hi]
      simp [forgery]
    obtain ⟨u, hu, -⟩ := exists_of_escapedItems_eq_append
      (fun c => eq_ampersand_of_mem_forgery hdigit) hwhole
    exact ⟨digit, hdigit, u, hu.symm⟩
  · rintro ⟨digit, hdigit, u, hu⟩
    have hwhole := escapedItems_append (fun c => eq_ampersand_of_mem_forgery hdigit) u
    rw [hu, escapedItems_cons_of_ne (by decide) (by decide)] at hwhole
    refine ⟨digit, .char '&', escapedItems u, ?_, hdigit, rfl⟩
    rw [(List.cons.inj hwhole).2]
    simp

/-- A quoted text forges a mark exactly when it has one of the forging texts in it. -/
theorem forge_escapedItems_iff {t : Text} :
    Item.forge (escapedItems t) = true ↔
      ∃ digit, isDecimal digit = true ∧ forgery digit <:+: t := by
  induction t with
  | nil =>
    constructor
    · exact fun h => absurd h Bool.false_ne_true
    · rintro ⟨digit, -, h⟩
      exact absurd (List.infix_nil.1 h) (List.cons_ne_nil _ _)
  | cons c t ih =>
    simp only [List.infix_cons_iff, and_or_left, exists_or]
    rw [← ih]
    by_cases hc : c = '&'
    · subst hc
      rw [escapedItems_cons_of_ne (by decide) (by decide), Item.forge, Bool.or_eq_true,
        Bool.and_eq_true, forgeMark_escapedItems_iff]
      simp
    · have hstart : ¬ ∃ digit, isDecimal digit = true ∧ forgery digit <+: c :: t := by
        rintro ⟨digit, -, u, hu⟩
        exact hc (List.cons.inj hu).1.symm
      rw [or_iff_right hstart]
      have hother : (Item.char c == .char '&') = false := by simp [hc]
      by_cases hbrace : c = '\x7b' ∨ c = '\x7d'
      · rw [escapedItems_cons_of_eq hbrace, Item.forge, Item.forge, hother]
        simp
      · rw [not_or] at hbrace
        rw [escapedItems_cons_of_ne hbrace.1 hbrace.2, Item.forge, hother, Bool.false_and,
          Bool.false_or]

/-! ## Braces -/

/-- A text as a template, by what stands for an opening and for a closing brace. -/
def withBraces (opening closing : Text) (t : Text) : Text :=
  t.flatMap fun c =>
    if c = '\x7b' then opening else if c = '\x7d' then closing else (Item.char c).template

theorem flatMap_template_escapedItems (t : Text) :
    (escapedItems t).flatMap Item.template =
      withBraces ['\\', '\x7b'] ['\\', '\x7d'] t := by
  rw [escapedItems, List.flatMap_assoc, withBraces]
  apply List.flatMap_congr
  intro c _
  by_cases hopen : c = '\x7b'
  · subst hopen
    rfl
  · by_cases hclose : c = '\x7d'
    · subst hclose
      rfl
    · rw [if_neg (by simp [hopen, hclose]), if_neg hopen, if_neg hclose, List.flatMap_singleton]

theorem withBraces_plain (t : Text) :
    withBraces ['\x7b'] ['\x7d'] t = (t.map Item.char).flatMap Item.template := by
  rw [List.flatMap_map, withBraces]
  apply List.flatMap_congr
  intro c _
  by_cases hopen : c = '\x7b'
  · subst hopen
    rfl
  · by_cases hclose : c = '\x7d'
    · subst hclose
      rfl
    · rw [if_neg hopen, if_neg hclose]

theorem anyDirective_append {s rest : Text} (hs : '\x7b' ∉ s)
    (hrest : ∀ last, Block.anyDirective last rest = false) (last : Option Char) :
    Block.anyDirective last (s ++ rest) = false := by
  induction s generalizing last with
  | nil => exact hrest last
  | cons c s ih =>
    simp only [List.mem_cons, not_or] at hs
    rw [List.cons_append, Block.anyDirective, Woven.split?_of_ne (Ne.symm hs.1), ih hs.2]
    simp

theorem brace_not_mem_template {b c : Char} (hb : b = '\x7b' ∨ b = '\x7d') (hc : c ≠ b) :
    b ∉ (Item.char c).template := by
  have hdollar : b ≠ '$' ∧ b ≠ '&' := by rcases hb with rfl | rfl <;> decide
  rw [Item.template, Item.written]
  split
  · simp [hdollar.1]
  · split
    · simp [hdollar.2]
    · simpa using hc.symm

/-- Behind backslashes no brace opens a block. -/
theorem occursIn_withBraces (t : Text) :
    Block.occursIn (withBraces ['\\', '\x7b'] ['\\', '\x7d'] t) = false := by
  have hnone : ∀ last,
      Block.anyDirective last (withBraces ['\\', '\x7b'] ['\\', '\x7d'] t) = false := by
    induction t with
    | nil => exact fun _ => rfl
    | cons c t ih =>
      intro last
      have hcons : withBraces ['\\', '\x7b'] ['\\', '\x7d'] (c :: t) =
          (if c = '\x7b' then ['\\', '\x7b'] else if c = '\x7d' then ['\\', '\x7d']
            else (Item.char c).template) ++ withBraces ['\\', '\x7b'] ['\\', '\x7d'] t :=
        List.flatMap_cons
      rw [hcons]
      by_cases hopen : c = '\x7b'
      · rw [if_pos hopen, List.cons_append, Block.anyDirective, Woven.split?_of_ne (by decide),
          List.cons_append, Block.anyDirective]
        simpa using ih (some '\x7b')
      · rw [if_neg hopen]
        by_cases hclose : c = '\x7d'
        · rw [if_pos hclose]
          exact anyDirective_append (by decide) ih last
        · rw [if_neg hclose]
          exact anyDirective_append (brace_not_mem_template (.inl rfl) hopen) ih last
  exact hnone none

theorem replaceAll_append_of_not_mem {b : Char} {s rest : Text} (hs : b ∉ s)
    (hrest : rest.head? ≠ some b) :
    Text.replaceAll ['\\', b] [b] (s ++ rest) =
      s ++ Text.replaceAll ['\\', b] [b] rest := by
  induction s with
  | nil => rfl
  | cons c s ih =>
    simp only [List.mem_cons, not_or] at hs
    have hnext : (s ++ rest).head? ≠ some b := by
      cases s with
      | nil => exact hrest
      | cons d s => exact fun h => hs.2 (Option.some.inj h ▸ List.mem_cons_self)
    have hstarts : Text.startsWith ['\\', b] (c :: (s ++ rest)) = false := by
      refine Bool.eq_false_iff.2 fun h => ?_
      have heq := Text.eq_append_of_startsWith h
      rw [(List.cons.inj heq).2] at hnext
      exact hnext rfl
    rw [List.cons_append, Text.replaceAll_of_not_startsWith hstarts, ih hs.2, List.cons_append]

/-- A brace that is written with a backslash loses it, if it is written nowhere else. -/
theorem replaceAll_flatMap {b : Char} (hb : b ≠ '\\') {write : Char → Text}
    (hself : write b = ['\\', b]) (hother : ∀ c ≠ b, b ∉ write c) (hne : ∀ c, write c ≠ [])
    (t : Text) :
    Text.replaceAll ['\\', b] [b] (t.flatMap write) =
      t.flatMap fun c => if c = b then [b] else write c := by
  have hhead : ∀ t : Text, (t.flatMap write).head? ≠ some b := by
    intro t
    cases t with
    | nil => nofun
    | cons c t =>
      obtain ⟨d, rest, hwrite⟩ := List.exists_cons_of_ne_nil (hne c)
      rw [List.flatMap_cons, hwrite]
      intro h
      by_cases hc : c = b
      · rw [hc, hself] at hwrite
        exact hb ((Option.some.inj h).symm.trans (List.cons.inj hwrite).1.symm)
      · exact hother c hc (hwrite ▸ Option.some.inj h ▸ List.mem_cons_self)
  induction t with
  | nil => rfl
  | cons c t ih =>
    rw [List.flatMap_cons, List.flatMap_cons, ← ih]
    by_cases hc : c = b
    · rw [if_pos hc, hc, hself]
      exact Text.replaceAll_of_startsWith (by simp) _ rfl
    · rw [if_neg hc]
      exact replaceAll_append_of_not_mem (hother c hc) (hhead t)

theorem template_ne_nil (c : Char) : (Item.char c).template ≠ [] := by
  rw [Item.template, Item.written]
  split
  · simp
  · split <;> simp

/-- Taking out the backslashes before braces leaves the text as a template. -/
theorem plainBraces_withBraces (t : Text) :
    Expression.plainBraces (withBraces ['\\', '\x7b'] ['\\', '\x7d'] t) =
      withBraces ['\x7b'] ['\x7d'] t := by
  have hopen : Text.replaceAll "\\\x7b".toList ['\x7b']
      (withBraces ['\\', '\x7b'] ['\\', '\x7d'] t) =
        withBraces ['\x7b'] ['\\', '\x7d'] t := by
    refine (replaceAll_flatMap (b := '\x7b') (by decide) (if_pos rfl) ?_ ?_ t).trans ?_
    · intro c hc
      rw [if_neg hc]
      split
      · decide
      · exact brace_not_mem_template (.inl rfl) hc
    · intro c
      split
      · decide
      · split
        · decide
        · exact template_ne_nil c
    · apply List.flatMap_congr
      intro c _
      split
      · rfl
      · rfl
  have hclose : Text.replaceAll "\\\x7d".toList ['\x7d']
      (withBraces ['\x7b'] ['\\', '\x7d'] t) = withBraces ['\x7b'] ['\x7d'] t := by
    refine (replaceAll_flatMap (b := '\x7d') (by decide) rfl ?_ ?_ t).trans ?_
    · intro c hc
      rw [if_neg hc]
      split
      · decide
      · exact brace_not_mem_template (.inr rfl) hc
    · intro c
      split
      · decide
      · split
        · decide
        · exact template_ne_nil c
    · apply List.flatMap_congr
      intro c _
      by_cases hc : c = '\x7d'
      · subst hc
        rfl
      · rw [if_neg hc, if_neg hc, if_neg hc]
  rw [Expression.plainBraces, hopen, hclose]

/-- An escaped text that forges no mark is kept as a template of its characters. -/
theorem plainBraces_convert_escaped {t : Text} (hnul : '\x00' ∉ t)
    (hforge : Item.forge (escapedItems t) = false) :
    Block.occursIn (convert (escaped t)) = false ∧
      Expression.plainBraces (convert (escaped t)) =
        (t.map Item.char).flatMap Item.template := by
  have hconvert : convert (escaped t) = withBraces ['\\', '\x7b'] ['\\', '\x7d'] t := by
    rw [← flatMap_template_escapedItems]
    exact convert_of_not_forge (marked_escaped t) (fun i => isSound_of_mem_escapedItems hnul) hforge
  rw [hconvert, ← withBraces_plain]
  exact ⟨occursIn_withBraces t, plainBraces_withBraces t⟩

/-- The characters of a text expand to the text. -/
theorem expand_chars {t : Text} (hnul : '\x00' ∉ t) (m : Match) :
    expand (some m) ((t.map Item.char).flatMap Item.template) = .ok t := by
  have hsound : ∀ i ∈ t.map Item.char, i.IsSound := by
    intro i hi
    obtain ⟨c, hc, rfl⟩ := List.mem_map.1 hi
    rintro rfl
    exact hnul hc
  have htext : (t.map Item.char).flatMap (Item.text m) = t := by
    rw [List.flatMap_map]
    exact List.flatMap_singleton' t
  rw [expand_flatMap_template hsound, htext]

/-- A text without dollars is the template of its characters. -/
theorem chars_eq_self {t : Text} (h : '$' ∉ t) : (t.map Item.char).flatMap Item.template = t := by
  rw [List.flatMap_map]
  refine Eq.trans (List.flatMap_congr fun c hc => ?_) (List.flatMap_singleton' t)
  have hdollar : c ≠ '$' := by
    rintro rfl
    exact h hc
  rw [Item.template, Item.written, if_neg hdollar]
  split
  · next hampersand => rw [hampersand]
  · rfl

/-! ## What is left of a forged mark -/

theorem mem_replaceAll {c : Char} {piece new t : Text} (hpiece : piece ≠ []) (hc : c ∉ piece)
    (h : c ∈ t) : c ∈ Text.replaceAll piece new t := by
  induction hn : t.length using Nat.strongRecOn generalizing t with
  | ind n ih =>
    subst hn
    cases t with
    | nil => cases h
    | cons d rest =>
      by_cases hstarts : Text.startsWith piece (d :: rest) = true
      · have heq := Text.eq_append_of_startsWith hstarts
        have hlength : ((d :: rest).drop piece.length).length < (d :: rest).length := by
          have := List.length_pos_iff.2 hpiece
          rw [List.length_drop, List.length_cons]
          omega
        rw [heq] at h
        have hrest := (List.mem_append.1 h).resolve_left hc
        rw [Text.replaceAll_of_startsWith hpiece _ heq]
        exact List.mem_append_right new (ih _ hlength hrest rfl)
      · rw [Text.replaceAll_of_not_startsWith (Bool.not_eq_true _ |>.mp hstarts)]
        rcases List.mem_cons.1 h with rfl | h
        · exact List.mem_cons_self
        · exact List.mem_cons_of_mem d (ih _ (Nat.lt_succ_self _) h rfl)

/-- A character that references are not written with is a piece of its own. -/
theorem char_mem_pieces {c : Char} {t : Text} (hplain : IsPlain c) (hdecimal : isDecimal c = false)
    (h : c ∈ t) : Piece.char c ∈ pieces t := by
  induction t using induction_by_piece with
  | nil => cases h
  | dollar rest ih =>
    have hrest : c ∈ rest := by simpa [hplain.1] using h
    rw [pieces_dollar_dollar]
    exact List.mem_cons_of_mem _ (ih hrest)
  | reference rest digits tail hrefers ih =>
    have hdigits : c ∉ digits := by
      intro hmem
      rw [hrefers.decimal c hmem] at hdecimal
      cases hdecimal
    have htail : c ∈ tail := by
      simpa [hrefers.eq, hplain.1, hplain.2.1, hplain.2.2, hdigits] using h
    rw [hrefers.pieces]
    exact List.mem_cons_of_mem _ (ih htail)
  | char d rest halone ih =>
    rw [halone.pieces]
    rcases List.mem_cons.1 h with rfl | h
    · exact List.mem_cons_self
    · exact List.mem_cons_of_mem _ (ih h)

theorem mem_expand {c : Char} {template t : Text} {m : Option Match} (hplain : IsPlain c)
    (hdecimal : isDecimal c = false) (h : c ∈ template) (hexpand : expand m template = .ok t) :
    c ∈ t := by
  obtain ⟨texts, htexts, ht⟩ := exists_of_bind_eq_ok hexpand
  have hpieces := (forall₂_of_mapM_eq_ok htexts).flip
  obtain ⟨text, htext, ⟨⟩⟩ := exists_of_mem_forall₂ hpieces (char_mem_pieces hplain hdecimal h)
  cases ht
  exact List.mem_flatten.2 ⟨[c], htext, List.mem_singleton_self c⟩

end Template

/-- The size of a table is written with digits and few other characters. -/
theorem TableSize.not_mem_piped (size : TableSize) {c : Char} (hdigit : c.isDigit = false)
    (hmark : c ∉ "|x:header".toList) : c ∉ size.piped := by
  have hnumber : ∀ n, c ∉ Text.ofNat n := by
    intro n hmem
    rw [Nat.isDigit_of_mem_toDigits (by decide) (by decide) hmem] at hdigit
    cases hdigit
  have hheader : ∀ c ∈ ":header|".toList, c ∈ "|x:header".toList :=
    List.all_iff_forall_prop.1 (by decide)
  intro h
  simp only [piped, List.cons_append, List.mem_cons, List.mem_append] at h
  rcases h with rfl | (h | rfl | h) | h
  · exact hmark (by decide)
  · exact hnumber size.rows h
  · exact hmark (by decide)
  · exact hnumber size.columns h
  · split at h
    · exact hmark (hheader c h)
    · rw [List.mem_singleton.1 h] at hmark
      exact hmark (by decide)

namespace Expression

open Template

theorem readSubstitute_of_no_flags [CharNames] {pattern replacement raw : Text}
    {more : List Text}
    (hreference : NoReference pattern) (hflags : fieldAt more 0 = []) :
    readSubstitute (pattern :: replacement :: more) raw =
      (do return { ← addReplacement { pattern, raw } (convert replacement) with nth := 0 }) := by
  have hpattern : Delimited.withFlags pattern [] = pattern := rfl
  have hnth : Delimited.nth [] = .ok 0 := rfl
  simp only [readSubstitute, hflags, hpattern, aim_of_noReference hreference, hnth]
  show (addReplacement { pattern, raw } (convert replacement) >>= _) = _
  cases addReplacement { pattern, raw } (convert replacement) <;> rfl

/-- A forged mark is not expanded to the text that was quoted. -/
theorem expand_ne_of_forgery {t pattern raw : Text} {e : Expression} (hnul : '\x00' ∉ t)
    (hforgery : ∃ digit, isDecimal digit = true ∧ forgery digit <:+: t)
    (he : addReplacement { pattern, raw } (convert (escaped t)) = .ok e) (hblocks : e.blocks = [])
    (m : Match) : expand (some m) e.replacement ≠ .ok t := by
  intro hexpand
  have hsound : ∀ i ∈ escapedItems t, i.IsSound := fun i => isSound_of_mem_escapedItems hnul
  obtain ⟨text, blocks, rfl, hplain⟩ := exists_of_addReplacement he
  rcases hplain hblocks with rfl | ⟨size, rfl⟩
  · have hconvert := nul_mem_convert_of_forge (marked_escaped t) hsound
      (forge_escapedItems_iff.2 hforgery)
    have hbraces : '\x00' ∈ plainBraces (convert (escaped t)) :=
      mem_replaceAll (by decide) (by decide) (mem_replaceAll (by decide) (by decide) hconvert)
    exact hnul (mem_expand ⟨by decide, by decide, by decide⟩ (by decide) hbraces hexpand)
  · obtain ⟨digit, -, hinfix⟩ := hforgery
    have hsize : expand (some m) size.piped = .ok size.piped := by
      have hchars := expand_chars (size.not_mem_piped (c := '\x00') (by decide) (by decide)) m
      rwa [chars_eq_self (size.not_mem_piped (by decide) (by decide))] at hchars
    have heq : size.piped = t := Except.ok.inj (hsize.symm.trans hexpand)
    exact size.not_mem_piped (c := '&') (by decide) (by decide)
      (heq ▸ hinfix.subset List.mem_cons_self)

theorem noReference_of_no_pipe [CharNames] {pattern : Text} (hpipe : '|' ∉ pattern)
    (hbrace : pattern.head? ≠ some '\x7b') : NoReference pattern := by
  constructor
  · unfold CellRef.readPiped?
    split
    · exact absurd List.mem_cons_self hpipe
    · rfl
  · have htrim : '|' ∉ Text.trim pattern := fun h => hpipe ((Text.trim_isInfix pattern).subset h)
    unfold TableSelector.readPiped?
    split
    · next heq => exact absurd (heq ▸ List.mem_cons_self) htrim
    · rfl
  · intro hstarts
    rw [Text.eq_append_of_startsWith hstarts] at hbrace
    exact absurd rfl hbrace

/-- An escaped text that forges no mark is a replacement without formatting. -/
theorem addReplacement_escaped {t : Text} (hnul : '\x00' ∉ t)
    (hforgery : ¬ ∃ digit, isDecimal digit = true ∧ forgery digit <:+: t) (e : Expression) :
    addReplacement e (convert (escaped t)) =
      .ok { e with replacement := (t.map Item.char).flatMap Item.template } := by
  have hforge : Item.forge (escapedItems t) = false :=
    Bool.eq_false_iff.2 fun h => hforgery (forge_escapedItems_iff.1 h)
  obtain ⟨hblock, hbraces⟩ := plainBraces_convert_escaped hnul hforge
  unfold addReplacement
  rw [hblock, hbraces]
  rfl

/-- The command that puts a text, taken literally, in the place of a pattern. -/
def quotedCommand (delimiter : Char) (pattern t : Text) : Text :=
  's' :: delimiter :: (pattern ++ delimiter :: (quoted delimiter t ++ [delimiter]))

/-- A quoted text comes back verbatim, from a command without references and formatting, exactly
when no part of it forges a mark. -/
theorem read_quotedCommand_iff [CharNames] {t pattern : Text} {delimiter : Char}
    (hdelimiter : isSpecial delimiter = false) (hnul : '\x00' ∉ t)
    (hlast : t.getLast? ≠ some '\\') (hfree : delimiter ∉ pattern) (hslash : '\\' ∉ pattern)
    (hpipe : '|' ∉ pattern) (hbrace : pattern.head? ≠ some '\x7b') :
    (∃ e, read (quotedCommand delimiter pattern t) = .ok e ∧ e.command = .substitute ∧
        e.pattern = pattern ∧ e.target = .text ∧ e.directive? = none ∧ e.blocks = [] ∧
        ∀ m, expand (some m) e.replacement = .ok t) ↔
      ¬ ∃ digit, isDecimal digit = true ∧ forgery digit <:+: t := by
  have hsplit : Delimited.split delimiter
      (pattern ++ delimiter :: (quoted delimiter t ++ [delimiter])) = [pattern, escaped t, []] := by
    rw [Delimited.split_append hfree hslash (ne_of_isSpecial hdelimiter rfl),
      split_quoted hdelimiter hlast]
  have hlength :
      2 ≤ (pattern ++ delimiter :: (quoted delimiter t ++ [delimiter])).length := by
    simp only [List.length_append, List.length_cons, List.length_nil]
    omega
  have hfields : HasFields (quotedCommand delimiter pattern t) pattern (escaped t) [] :=
    ⟨delimiter, _, [[]], rfl, hlength, hsplit, rfl⟩
  obtain ⟨more, hmore, hread⟩ := read_of_hasFields hfields
  rw [hread, readSubstitute_of_no_flags (noReference_of_no_pipe hpipe hbrace) hmore.symm]
  constructor
  · rintro ⟨e, he, -, -, -, -, hblocks, hexpand⟩ hforgery
    obtain ⟨e, hadd, ⟨⟩⟩ := exists_of_bind_eq_ok he
    exact expand_ne_of_forgery hnul hforgery hadd hblocks ⟨[], 0, 0, [], 0⟩ (hexpand _)
  · intro hforgery
    rw [addReplacement_escaped hnul hforgery]
    exact ⟨_, rfl, rfl, rfl, rfl, rfl, rfl, expand_chars hnul⟩

attribute [local instance] CharNames.none

/-- A text with every character that has a meaning in a replacement, and with the delimiter. -/
theorem read_quotedCommand_allMarks :
    quotedCommand '/' ['x'] "\\\x7b$1\x7d&1/2".toList =
        "s/x/\\\\\\\x7b\\$1\\\x7d\\&1\\/2/".toList ∧
      ∃ e, read "s/x/\\\\\\\x7b\\$1\\\x7d\\&1\\/2/".toList = .ok e ∧
        e.command = .substitute ∧ e.pattern = ['x'] ∧ e.target = .text ∧ e.directive? = none ∧
        e.blocks = [] ∧
        ∀ m, expand (some m) e.replacement = .ok "\\\x7b$1\x7d&1/2".toList := by
  have hcommand : quotedCommand '/' ['x'] "\\\x7b$1\x7d&1/2".toList =
      "s/x/\\\\\\\x7b\\$1\\\x7d\\&1\\/2/".toList := rfl
  have hforgery : ¬ ∃ digit, isDecimal digit = true ∧
      forgery digit <:+: "\\\x7b$1\x7d&1/2".toList := by
    rintro ⟨digit, -, h⟩
    have hlength : 11 ≤ 9 := h.length_le
    omega
  refine ⟨hcommand, ?_⟩
  rw [← hcommand]
  exact (read_quotedCommand_iff (by decide) (by decide) (by decide) (by decide) (by decide)
    (by decide) (by decide)).2 hforgery

/-- A word of marks between two quoted ampersands comes back with the remains of their marks. -/
theorem read_quotedCommand_forgery :
    quotedCommand '/' ['x'] "&BACKREF_1&".toList = "s/x/\\&BACKREF_1\\&/".toList ∧
      read "s/x/\\&BACKREF_1\\&/".toList =
        .ok { pattern := ['x'], replacement := "\x00LITAMP$\x7b1\x7dLITAMP\x00".toList
              raw := "s/x/\\&BACKREF_1\\&/".toList } ∧
      ∀ m, expand (some m) "\x00LITAMP$\x7b1\x7dLITAMP\x00".toList ≠
        .ok "&BACKREF_1&".toList := by
  refine ⟨rfl, rfl, fun m hexpand => ?_⟩
  have hnul := mem_expand (c := '\x00') ⟨by decide, by decide, by decide⟩ (by decide)
    (by decide) hexpand
  exact absurd hnul (by decide)

end Expression

end Redline
