import Redline.Expression.Reader
import Redline.Proofs.Marks

/-!
# Replacements without braces

A replacement without braces still gets braces when it is converted to a template, around the digits
of its references.  When the template is then searched for formatting blocks, a reference to a
numbered group is no block, but a reference to the whole match is one: its zero reads as the
directive that resets the style.
-/

namespace Redline

open Template (Woven BraceFree Piece Item pieces items convert)

/-! ## Digits in braces -/

theorem exists_of_inRanges
    {ranges : List (Nat × Nat)} {n : Nat} (h : inRanges ranges n = true) :
    ∃ range ∈ ranges, range.1 ≤ n ∧ n ≤ range.2 := by
  induction ranges with
  | nil => exact absurd h Bool.false_ne_true
  | cons range rest ih =>
    rw [inRanges] at h
    split at h
    · exact absurd h Bool.false_ne_true
    · split at h
      · exact ⟨range, List.mem_cons_self, by omega, by omega⟩
      · obtain ⟨other, hmem, hbounds⟩ := ih h
        exact ⟨other, List.mem_cons_of_mem range hmem, hbounds⟩

theorem isBlank_eq_false_of_isDecimal {d : Char} (h : isDecimal d = true) : isBlank d = false := by
  have hnone : ∀ range ∈ blanks, ∀ n ∈ List.range' range.1 (range.2 + 1 - range.1),
      (digitValueIn digitZeros n).isSome = false := by
    decide
  cases hblank : isBlank d with
  | false => rfl
  | true =>
    obtain ⟨range, hmem, hlo, hhi⟩ := exists_of_inRanges hblank
    have hdigit := hnone range hmem d.toNat (by rw [List.mem_range'_1]; omega)
    exact h.symm.trans hdigit

theorem trim_digits {digits : Text} (h : ∀ d ∈ digits, isDecimal d = true) :
    Text.trim digits = digits :=
  Text.trim_of_no_blank fun d hd => isBlank_eq_false_of_isDecimal (h d hd)

theorem startsWith_digit
    {d : Char} {piece : Text} (h : 2 ≤ piece.length) : Text.startsWith piece [d] = false := by
  cases hstarts : Text.startsWith piece [d] with
  | false => rfl
  | true =>
    have hle := (List.isPrefixOf_iff_prefix.1 hstarts).length_le
    rw [List.length_singleton] at hle
    omega

theorem cut?_digit
    {d : Char} {piece : Text} (h : 2 ≤ piece.length) : Text.cut? piece [d] = none := by
  have hempty : piece.isEmpty = false := by
    cases piece with
    | nil => simp at h
    | cons c rest => rfl
  simp [Text.cut?, hempty, startsWith_digit h]

/-- No name of a flag or a key is a number. -/
theorem ne_digits_of_mem_names
    {digits : Text} (h : ∀ d ∈ digits, isDecimal d = true) {names : List Text}
    (hnames : ∀ name ∈ names, name ≠ [] ∧ name.head?.any isDecimal = false) {name : Text}
    (hname : name ∈ names) :
    name ≠ digits := by
  rintro rfl
  obtain ⟨hne, hhead⟩ := hnames name hname
  obtain ⟨d, rest, rfl⟩ := List.exists_cons_of_ne_nil hne
  have hdigit : isDecimal d = false := hhead
  rw [h d List.mem_cons_self] at hdigit
  exact Bool.false_ne_true hdigit.symm

theorem flagNames_no_digit : ∀ name ∈ Flag.names.map (·.1.toList),
    name ≠ [] ∧ name.head?.any isDecimal = false := by
  decide +kernel

theorem keyNames_no_digit : ∀ name ∈ Directive.Key.names.map (·.1.toList),
    name ≠ [] ∧ name.head?.any isDecimal = false := by
  decide +kernel

/-- A digit in braces looks like a directive only if it is a zero. -/
theorem looksLikeDirective_digit
    {d : Char} (h : isDecimal d = true) :
    Block.looksLikeDirective [d] = (d == '0') := by
  have hdigits : ∀ c ∈ [d], isDecimal c = true := List.forall_mem_singleton.2 h
  have hmarks : Block.keyMarks.any (fun mark => Text.occursIn mark.toList [d]) = false := by
    rw [List.any_eq_false]
    intro mark hmark
    have hlength : ∀ mark ∈ Block.keyMarks, 2 ≤ mark.toList.length := by
      decide +kernel
    simp [Text.occursIn, cut?_digit (hlength mark hmark)]
  have hflags : Flag.names.any (fun entry =>
      let flag := entry.1.toList
      [d] == flag || Text.startsWith (flag ++ [' ']) [d] || Text.startsWith (flag ++ ['=']) [d] ||
        [d] == '!' :: flag || Text.startsWith ('!' :: flag ++ [' ']) [d]) = false := by
    rw [List.any_eq_false]
    rintro ⟨name, flag⟩ hentry
    have hmem : name.toList ∈ Flag.names.map (·.1.toList) := List.mem_map_of_mem hentry
    have hne := ne_digits_of_mem_names hdigits flagNames_no_digit hmem
    have hlength := List.length_pos_iff.2 (flagNames_no_digit _ hmem).1
    have hsame : ([d] == name.toList) = false := beq_false_of_ne (Ne.symm hne)
    have hspaced : ∀ c, Text.startsWith (name.toList ++ [c]) [d] = false := fun c =>
      startsWith_digit (by rw [List.length_append, List.length_singleton]; omega)
    have hbang : ([d] == '!' :: name.toList) = false := by
      apply beq_false_of_ne
      intro heq
      have hrest := (List.cons.inj heq).2
      rw [← hrest] at hlength
      exact absurd hlength (by simp)
    have hbanged : Text.startsWith ('!' :: name.toList ++ [' ']) [d] = false :=
      startsWith_digit (by simp)
    simp only [hsame, hspaced, hbang, hbanged, Bool.or_false, Bool.false_eq_true, not_false_eq_true]
  have hplus : d ≠ '+' := Template.ne_of_isDecimal h (by decide)
  simp only [Block.looksLikeDirective, trim_digits hdigits]
  rw [hflags, hmarks]
  simp [startsWith_digit, hplus]

theorem find?_digits
    {α : Type} {digits : Text} (h : ∀ d ∈ digits, isDecimal d = true) {names : List (String × α)}
    (hnames : ∀ name ∈ names.map (·.1.toList),
      name ≠ [] ∧ name.head?.any isDecimal = false) :
    names.find? (·.1.toList == digits) = none := by
  rw [List.find?_eq_none]
  intro entry hentry heq
  exact ne_digits_of_mem_names h hnames (List.mem_map_of_mem hentry) (eq_of_beq heq)

/-- Digits are one token. -/
theorem tokens_digits {digits : Text} (h : ∀ d ∈ digits, isDecimal d = true) (hne : digits ≠ []) :
    Directive.tokens digits = [digits] := by
  have hgo : ∀ word rest : Text, (∀ d ∈ rest, isDecimal d = true) → word ++ rest ≠ [] →
      Directive.tokens.go none word rest = [word.reverse ++ rest] := by
    intro word rest hrest hne
    induction rest generalizing word with
    | nil =>
      rw [List.append_nil] at hne
      rw [Directive.tokens.go, if_neg (by simpa using hne), List.append_nil]
    | cons d rest ih =>
      have hother : ∀ c, isDecimal c = false → d ≠ c := fun c hc =>
        Template.ne_of_isDecimal (hrest d List.mem_cons_self) hc
      have hplain : ¬ (d == '"' || d == '\'') = true := by
        simp [hother '"' (by decide), hother '\'' (by decide)]
      have hspace : ¬ (d == ' ' || d == '\t') = true := by
        simp [hother ' ' (by decide), hother '\t' (by decide)]
      rw [Directive.tokens.go, if_neg hplain, if_neg hspace,
        ih (d :: word) (fun c hc => hrest c (List.mem_cons_of_mem d hc)) (by simp)]
      simp
  exact hgo [] digits h hne

/-- No directive is a number, except for a zero. -/
theorem read_digits
    {digits : Text} (h : ∀ d ∈ digits, isDecimal d = true) (hne : digits ≠ [])
    (hzero : digits ≠ ['0']) :
    Directive.read digits = .error (.unknownFlag digits) := by
  have hother : ∀ c, isDecimal c = false → c ∉ digits := by
    intro c hc hmem
    rw [h c hmem] at hc
    cases hc
  have hhead : ∀ c rest, isDecimal c = false → digits ≠ c :: rest := by
    rintro c rest hc rfl
    exact hother c hc List.mem_cons_self
  have hflag : Flag.ofName? digits = none := by
    rw [Flag.ofName?, find?_digits h flagNames_no_digit]
    rfl
  have hkey : Directive.Key.ofName? digits = none := by
    rw [Directive.Key.ofName?, find?_digits h keyNames_no_digit]
    rfl
  have hequals : Text.cut? ['='] digits = none :=
    Text.cut?_of_not_mem (List.mem_singleton_self '=') (hother '=' (by decide))
  have htoken : Directive.addToken { comment := [], reset := false } digits =
      .error (.unknownFlag digits) := by
    have hbare : Directive.addBare { comment := [], reset := false } digits =
        .error (.unknownFlag digits) := by
      simp only [Directive.addBare, hflag, hkey]
      rfl
    rw [Directive.addToken, hequals]
    · exact hbare
    · exact fun heq => hhead '+' [] (by decide) heq
    · exact fun kind heq => hhead '+' _ (by decide) heq
    · exact fun name heq => hhead '@' _ (by decide) heq
    · exact fun name heq => hhead '!' _ (by decide) heq
  have hcomment : Text.cut? "\"=".toList digits = none :=
    Text.cut?_of_not_mem (by decide : '=' ∈ "\"=".toList) (hother '=' (by decide))
  simp only [Directive.read, trim_digits h, hcomment]
  split
  next => exact absurd rfl hzero
  next => exact absurd (by simp) (hother ' ' (by decide))
  next => exact absurd (by simp) (hother '\t' (by decide))
  next =>
    show (Directive.tokens digits).foldlM Directive.addToken {} = _
    rw [tokens_digits h hne, List.foldlM_cons, htoken]
    rfl

theorem read_zero : Directive.read ['0'] = .ok { reset := true } := by
  rfl

namespace Template.Woven

variable {t : Text}

theorem replaceAll_escaped
    (h : Woven t) {b : Char} (hb : b = '\x7b' ∨ b = '\x7d') (new : Text) :
    Text.replaceAll ['\\', b] new t = t := by
  induction h with
  | nil => rfl
  | @plain c t hc ht ih =>
    have hstarts : Text.startsWith ['\\', b] (c :: t) = false := by
      by_cases hbackslash : '\\' = c
      · subst hbackslash
        cases t with
        | nil => rfl
        | cons e rest =>
          have hhead := ht.head_ne rfl
          have hne : b ≠ e := by
            rcases hb with rfl | rfl
            · exact Ne.symm hhead.1
            · exact Ne.symm hhead.2
          exact Text.startsWith_cons_of_ne hne [] rest
      · exact Text.startsWith_cons_of_ne hbackslash [b] t
    rw [Text.replaceAll_of_not_startsWith hstarts, ih]
  | @dollar t ht ih =>
    rw [Text.replaceAll_of_not_startsWith (Text.startsWith_cons_of_ne (by decide) _ _),
      Text.replaceAll_of_not_startsWith (Text.startsWith_cons_of_ne (by decide) _ _), ih]
  | @reference d t hd ht ih =>
    have hne : '\\' ≠ d := Ne.symm (ne_of_isDecimal hd (by decide))
    simp only [Template.reference, List.cons_append, List.nil_append]
    rw [Text.replaceAll_of_not_startsWith (Text.startsWith_cons_of_ne (by decide) _ _),
      Text.replaceAll_of_not_startsWith (Text.startsWith_cons_of_ne (by decide) _ _),
      Text.replaceAll_of_not_startsWith (Text.startsWith_cons_of_ne hne _ _),
      Text.replaceAll_of_not_startsWith (Text.startsWith_cons_of_ne (by decide) _ _), ih]

/-- No brace of such a template is escaped. -/
theorem plainBraces_eq (h : Woven t) : Expression.plainBraces t = t := by
  have hopen : Text.replaceAll "\\\x7b".toList ['\x7b'] t = t :=
    h.replaceAll_escaped (.inl rfl) _
  have hclose : Text.replaceAll "\\\x7d".toList ['\x7d'] t = t :=
    h.replaceAll_escaped (.inr rfl) _
  rw [Expression.plainBraces, hopen, hclose]

theorem closing_digits
    {digits : Text} (h : ∀ d ∈ digits, isDecimal d = true) (rest : Text) :
    Block.closing 0 (digits ++ '\x7d' :: rest) = some (digits, rest) := by
  induction digits with
  | nil => rfl
  | cons d digits ih =>
    have hd := h d List.mem_cons_self
    have hplain := isPlain_of_isDecimal hd
    have hbackslash : d ≠ '\\' := ne_of_isDecimal hd (by decide)
    rw [List.cons_append, Block.closing, ih fun c hc => h c (List.mem_cons_of_mem d hc)]
    · rfl
    · exact fun hc => absurd hc hbackslash
    · exact fun c tail hc => absurd hc hbackslash
    · exact fun hc => hplain.2.1 hc
    · exact fun hc => hplain.2.2 hc

theorem closing_digit
    {d : Char} (hd : isDecimal d = true) (rest : Text) :
    Block.closing 0 (d :: '\x7d' :: rest) = some ([d], rest) :=
  closing_digits (List.forall_mem_singleton.2 hd) rest

theorem split?_of_ne {c : Char} (h : c ≠ '\x7b') (rest : Text) :
    Block.split? (c :: rest) = none := by
  rw [Block.split?]
  exact fun tail heq => h (List.cons.inj heq).1

/-- Such a template has a block exactly when it refers to the whole match. -/
theorem anyDirective_iff (h : Woven t) (last : Option Char) :
    Block.anyDirective last t = true ↔ Piece.group ['0'] ∈ pieces t := by
  induction h generalizing last with
  | nil => simp [Block.anyDirective]
  | @plain c t hc ht ih =>
    rw [Block.anyDirective, split?_of_ne hc.2.1, pieces_plain hc]
    simp [ih]
  | @dollar t ht ih =>
    rw [Block.anyDirective, split?_of_ne (by decide), Block.anyDirective,
      split?_of_ne (by decide), pieces_dollar_dollar]
    simp [ih]
  | @reference d t hd ht ih =>
    have hplain := isPlain_of_isDecimal hd
    rw [pieces_reference hd]
    simp only [Template.reference, List.cons_append, List.nil_append]
    rw [Block.anyDirective, split?_of_ne (by decide), Block.anyDirective, Block.split?,
      closing_digit hd, Block.anyDirective, split?_of_ne hplain.2.1, Block.anyDirective,
      split?_of_ne (by decide)]
    simp only [looksLikeDirective_digit hd, List.mem_cons, ← ih (some '\x7d')]
    by_cases hzero : d = '0'
    · simp [hzero]
    · simp [hzero, Ne.symm hzero]

/-- A character that opens no block and escapes no brace is kept. -/
theorem exists_extractFrom_cons
    {c : Char} {rest : Text} (hc : c ≠ '\x7b')
    (hrest : c = '\\' → ∀ d tail, rest = d :: tail → d ≠ '\x7b' ∧ d ≠ '\x7d')
    (before : Bool) (position : Nat) :
    ∃ before', Block.extractFrom before position (c :: rest) =
      (c :: (Block.extractFrom before' (position + 1) rest).1,
        (Block.extractFrom before' (position + 1) rest).2) := by
  by_cases hescape : c = '\\' ∧ rest ≠ []
  · obtain ⟨rfl, hne⟩ := hescape
    obtain ⟨d, tail, rfl⟩ := List.exists_cons_of_ne_nil hne
    obtain ⟨hopen, hclose⟩ := hrest rfl d tail rfl
    refine ⟨true, ?_⟩
    rw [Block.extractFrom, if_neg (by simp [hopen, hclose])]
  · refine ⟨before || !isBlank c, ?_⟩
    rw [Block.extractFrom]
    · exact fun d tail hc htail => hescape ⟨hc, by simp [htail]⟩
    · exact fun h => hc h

theorem exists_extractFrom_dollar (rest : Text) (before : Bool) (position : Nat) :
    ∃ before', Block.extractFrom before position ('$' :: rest) =
      ('$' :: (Block.extractFrom before' (position + 1) rest).1,
        (Block.extractFrom before' (position + 1) rest).2) :=
  exists_extractFrom_cons (by decide) (fun h => absurd h (by decide)) before position

/-- A digit other than zero in braces is kept with them. -/
theorem exists_extractFrom_digit
    {d : Char} (hd : isDecimal d = true) (hzero : d ≠ '0') (rest : Text) (before : Bool)
    (position : Nat) :
    ∃ before' position', Block.extractFrom before position ('\x7b' :: d :: '\x7d' :: rest) =
      ('\x7b' :: d :: '\x7d' :: (Block.extractFrom before' position' rest).1,
        (Block.extractFrom before' position' rest).2) := by
  have hbackslash : d ≠ '\\' := ne_of_isDecimal hd (by decide)
  obtain ⟨before', hdigit⟩ := @exists_extractFrom_cons d ('\x7d' :: rest)
    (isPlain_of_isDecimal hd).2.1 (fun h => absurd h hbackslash) true (position + 1)
  obtain ⟨before'', hclose⟩ := @exists_extractFrom_cons '\x7d' rest (by decide)
    (fun h => absurd h (by decide)) before' (position + 1 + 1)
  refine ⟨before'', position + 1 + 1 + 1, ?_⟩
  rw [Block.extractFrom]
  split
  next hnone =>
    rw [closing_digit hd] at hnone
    cases hnone
  next inner tail hsome =>
    rw [closing_digit hd] at hsome
    obtain ⟨rfl, rfl⟩ := Prod.mk.inj (Option.some.inj hsome)
    rw [read_digits (List.forall_mem_singleton.2 hd) (List.cons_ne_nil d []) (by simpa using hzero)]
    simp only [hdigit, hclose]

/-- A zero in braces is a block that resets the style. -/
theorem exists_extractFrom_zero (rest : Text) (before : Bool) (position : Nat) :
    ∃ extent raw, Block.extractFrom before position ('\x7b' :: '0' :: '\x7d' :: rest) =
      ((Block.extractFrom true position rest).1,
        ⟨{ reset := true }, position, extent, raw⟩ ::
          (Block.extractFrom true position rest).2) := by
  rw [Block.extractFrom]
  split
  next hnone =>
    rw [closing_digit isDecimal_zero] at hnone
    cases hnone
  next inner tail hsome =>
    rw [closing_digit isDecimal_zero] at hsome
    obtain ⟨rfl, rfl⟩ := Prod.mk.inj (Option.some.inj hsome)
    rw [read_zero]
    exact ⟨_, _, rfl⟩

theorem replaceAll_zero_cons
    {c : Char} (hc : c ≠ '\x7b') (rest : Text) :
    Text.replaceAll ['\x7b', '0', '\x7d'] [] (c :: rest) =
      c :: Text.replaceAll ['\x7b', '0', '\x7d'] [] rest :=
  Text.replaceAll_of_not_startsWith (Text.startsWith_cons_of_ne (Ne.symm hc) _ _)

/-- Of a reference to the whole match the text of a template keeps the dollar only.  Its blocks all
reset the style, and there is one exactly when the template refers to the whole match. -/
theorem exists_extractFrom (h : Woven t) (before : Bool) (position : Nat) :
    ∃ blocks, Block.extractFrom before position t =
        (Text.replaceAll ['\x7b', '0', '\x7d'] [] t, blocks) ∧
      (∀ b ∈ blocks, b.directive = { reset := true }) ∧
      (blocks ≠ [] ↔ Piece.group ['0'] ∈ pieces t) := by
  induction h generalizing before position with
  | nil => exact ⟨[], by simp [Block.extractFrom, Text.replaceAll_nil], by simp, by simp⟩
  | @plain c t hc ht ih =>
    obtain ⟨before', heq⟩ :=
      exists_extractFrom_cons hc.2.1 (fun _ d tail htail => ht.head_ne htail) before position
    obtain ⟨blocks, hrest, hreset, hblocks⟩ := ih before' (position + 1)
    refine ⟨blocks, ?_, hreset, ?_⟩
    · rw [heq, hrest, replaceAll_zero_cons hc.2.1]
    · rw [pieces_plain hc]
      exact hblocks.trans (by simp)
  | @dollar t ht ih =>
    obtain ⟨before', heq⟩ := exists_extractFrom_dollar ('$' :: t) before position
    obtain ⟨before'', heq'⟩ := exists_extractFrom_dollar t before' (position + 1)
    obtain ⟨blocks, hrest, hreset, hblocks⟩ := ih before'' (position + 1 + 1)
    refine ⟨blocks, ?_, hreset, ?_⟩
    · rw [heq, heq', hrest, replaceAll_zero_cons (by decide), replaceAll_zero_cons (by decide)]
    · rw [pieces_dollar_dollar]
      exact hblocks.trans (by simp)
  | @reference d t hd ht ih =>
    rw [pieces_reference hd]
    simp only [Template.reference, List.cons_append, List.nil_append]
    obtain ⟨before', heq⟩ :=
      exists_extractFrom_dollar ('\x7b' :: d :: '\x7d' :: t) before position
    rw [heq, replaceAll_zero_cons (by decide)]
    by_cases hzero : d = '0'
    · subst hzero
      obtain ⟨extent, raw, hblock⟩ := exists_extractFrom_zero t before' (position + 1)
      obtain ⟨blocks, hrest, hreset, -⟩ := ih true (position + 1)
      have hdropped : Text.replaceAll ['\x7b', '0', '\x7d'] [] ('\x7b' :: '0' :: '\x7d' :: t) =
          Text.replaceAll ['\x7b', '0', '\x7d'] [] t :=
        Text.replaceAll_of_startsWith (List.cons_ne_nil _ _) t rfl
      refine ⟨⟨{ reset := true }, position + 1, extent, raw⟩ :: blocks, ?_, ?_, by simp⟩
      · rw [hblock, hrest, hdropped]
      · intro b hb
        rcases List.mem_cons.1 hb with rfl | hb
        · rfl
        · exact hreset b hb
    · obtain ⟨before'', position', hkept⟩ :=
        exists_extractFrom_digit hd hzero t before' (position + 1)
      obtain ⟨blocks, hrest, hreset, hblocks⟩ := ih before'' position'
      have hstarts : Text.startsWith ['\x7b', '0', '\x7d'] ('\x7b' :: d :: '\x7d' :: t) = false :=
        Text.startsWith_cons_of_ne (Ne.symm hzero) ['\x7d'] ('\x7d' :: t)
      refine ⟨blocks, ?_, hreset, hblocks.trans (by simp [Ne.symm hzero])⟩
      rw [hkept, hrest, Text.replaceAll_of_not_startsWith hstarts,
        replaceAll_zero_cons (isPlain_of_isDecimal hd).2.1, replaceAll_zero_cons (by decide)]

theorem open_mem_of_group_mem
    (h : Woven t) {digits : Text} (hgroup : Piece.group digits ∈ pieces t) : '\x7b' ∈ t := by
  induction h with
  | nil => simp at hgroup
  | @plain c t hc ht ih =>
    rw [pieces_plain hc] at hgroup
    exact List.mem_cons_of_mem c (ih (by simpa using hgroup))
  | @dollar t ht ih =>
    rw [pieces_dollar_dollar] at hgroup
    exact List.mem_cons_of_mem _ (List.mem_cons_of_mem _ (ih (by simpa using hgroup)))
  | @reference d t hd ht ih => simp [Template.reference]

/-- The zero of a reference to the whole match is taken out of the template as a block. -/
theorem extract_of_group_mem (h : Woven t) (hzero : Piece.group ['0'] ∈ pieces t) :
    (Block.extract t).1 = Text.replaceAll ['\x7b', '0', '\x7d'] [] t ∧
      (∀ b ∈ (Block.extract t).2, b.directive = { reset := true }) ∧ (Block.extract t).2 ≠ [] := by
  have hopen := List.contains_iff_mem.2 (h.open_mem_of_group_mem hzero)
  obtain ⟨blocks, heq, hreset, hblocks⟩ := h.exists_extractFrom false 0
  rw [Block.extract, if_pos hopen, heq]
  exact ⟨rfl, hreset, hblocks.2 hzero⟩

end Template.Woven

/-! ## Blocks of a replacement -/

theorem Directive.table_foldl_merge
    {blocks : List Block} (h : ∀ b ∈ blocks, b.directive = { reset := true }) {d : Directive}
    (hd : d.table = []) :
    (blocks.foldl (fun d b => d.merge b.directive) d).table = [] := by
  induction blocks generalizing d with
  | nil => exact hd
  | cons b rest ih =>
    have hmerge : (d.merge b.directive).table = [] := by
      rw [h b List.mem_cons_self]
      exact hd
    exact ih (fun c hc => h c (List.mem_cons_of_mem b hc)) hmerge

theorem Directive.table_ofBlocks
    {blocks : List Block} (h : ∀ b ∈ blocks, b.directive = { reset := true }) :
    (Directive.ofBlocks blocks).table = [] :=
  Directive.table_foldl_merge (fun b hb => h b (List.mem_filter.1 hb).1) rfl

namespace Expression

/-- Blocks that only reset the style ask for no table. -/
theorem exists_directive?_of_reset
    {e : Expression} (hne : e.blocks ≠ [])
    (h : ∀ b ∈ e.blocks, b.directive = { reset := true }) :
    ∃ d, e.directive? = some d ∧ d.table = [] := by
  unfold directive?
  split
  next hnil => exact absurd hnil hne
  next b hsingle =>
    rw [hsingle] at h
    split
    · exact ⟨_, rfl, by rw [h b List.mem_cons_self]⟩
    · exact ⟨_, rfl, Directive.table_ofBlocks h⟩
  next => exact ⟨_, rfl, Directive.table_ofBlocks h⟩

/-- A template without a reference to the whole match is kept as it is. -/
theorem addReplacement_of_not_mem
    {t : Text} (h : Woven t) (hzero : Piece.group ['0'] ∉ pieces t) (e : Expression) :
    addReplacement e t = .ok { e with replacement := t } := by
  have hblock : Block.occursIn t = false := by
    rw [← Bool.not_eq_true]
    exact fun hany => hzero ((h.anyDirective_iff none).1 hany)
  simp only [addReplacement, hblock, h.plainBraces_eq]
  rfl

/-- The expression with the blocks of a template that refers to the whole match asks for no
table. -/
theorem exists_directive?_of_group_mem
    {t : Text} (h : Woven t) (hzero : Piece.group ['0'] ∈ pieces t) (e : Expression) :
    ∃ d, { e with replacement := (Block.extract t).1, blocks := (Block.extract t).2 }.directive? =
      some d ∧ d.table = [] := by
  obtain ⟨-, hreset, hne⟩ := h.extract_of_group_mem hzero
  exact exists_directive?_of_reset hne hreset

theorem addReplacement_of_mem
    {t : Text} (h : Woven t) (hzero : Piece.group ['0'] ∈ pieces t) (e : Expression) :
    addReplacement e t =
      .ok { e with replacement := (Block.extract t).1, blocks := (Block.extract t).2 } := by
  have hblock : Block.occursIn t = true := (h.anyDirective_iff none).2 hzero
  obtain ⟨d, hd, htable⟩ := exists_directive?_of_group_mem h hzero e
  have hsize : sizeOfDirective d = .ok none := by
    simp only [sizeOfDirective, htable]
    rfl
  simp only [addReplacement, hblock, hd, hsize]
  rfl

/-! ## Expressions without braces in the replacement -/

/-- The text is a substitute command with a pattern, a replacement and flags, which are empty when
the last field is left out. -/
def HasFields (raw pattern replacement flags : Text) : Prop :=
  ∃ delimiter rest more, raw = 's' :: delimiter :: rest ∧ 2 ≤ rest.length ∧
    Delimited.split delimiter rest = pattern :: replacement :: more ∧ flags = fieldAt more 0

/-- No reference to cells, tables or images is read off the pattern, and none is refused. -/
structure NoReference [CharNames] (pattern : Text) : Prop where
  cells : CellRef.readPiped? pattern = .ok none
  tables : TableSelector.readPiped? pattern = .ok none
  lead : Text.startsWith ['\x7b'] pattern = true →
    ∃ rest, LeadingRef.detect pattern = .ok (rest, none)

theorem aim_of_noReference [CharNames]
    {pattern : Text} (h : NoReference pattern) (replacement : Text) :
    aim pattern replacement = .ok { target := .text, pattern, replacement } := by
  have hlead : aimOfLead pattern replacement = .ok { target := .text, pattern, replacement } := by
    by_cases hbrace : Text.startsWith ['\x7b'] pattern = true
    · obtain ⟨rest, hdetect⟩ := h.lead hbrace
      simp only [aimOfLead, hbrace, hdetect]
      rfl
    · simp only [aimOfLead, Bool.not_eq_true _ |>.mp hbrace]
      rfl
  simp only [aim, h.cells, hlead, h.tables, Refusal.ofNumber, bind, Except.bind, if_true]
  rfl

theorem readSubstitute_of_noReference [CharNames]
    {pattern replacement : Text} {more : List Text} {raw : Text} {e : Expression}
    (hreference : NoReference (Delimited.withFlags pattern (fieldAt more 0)))
    (he : addReplacement
      { pattern := Delimited.withFlags pattern (fieldAt more 0)
        isGlobal := (fieldAt more 0).contains 'g', raw } (convert replacement) = .ok e) :
    readSubstitute (pattern :: replacement :: more) raw =
      (Refusal.ofNumber (Delimited.nth (fieldAt more 0))).map fun n => { e with nth := n } := by
  simp only [readSubstitute, aim_of_noReference hreference, he, bind, Except.bind]
  cases Refusal.ofNumber (Delimited.nth (fieldAt more 0)) with
  | ok n => rfl
  | error r => rfl

theorem read_of_hasFields [CharNames]
    {raw pattern replacement flags : Text} (hfields : HasFields raw pattern replacement flags) :
    ∃ more, flags = fieldAt more 0 ∧
      read raw = readSubstitute (pattern :: replacement :: more) raw := by
  obtain ⟨delimiter, rest, more, rfl, hlength, hsplit, hflags⟩ := hfields
  have hletter : (if isAlnum delimiter then none else Command.ofLetter? 's') = none := by
    split
    · rfl
    · rfl
  have hlong : ¬ ('s' ≠ 's' ∨ rest.length < 2) := by
    simp only [ne_eq, not_true_eq_false, false_or]
    omega
  refine ⟨more, hflags, ?_⟩
  simp only [read, hletter, hsplit]
  rw [if_neg hlong]

/-- Reading a substitute command whose replacement has no braces.  Up to the number in its flags the
command is read.  Its replacement is the template, without formatting, exactly when the template
does not refer to the whole match; a reference to the whole match becomes a block that resets the
style.  Without the character that marks are made with, the template keeps every reference, and
expands to the match and its groups, exactly when no mark is forged. -/
theorem read_braceFree [CharNames]
    {raw pattern replacement flags : Text} (hfields : HasFields raw pattern replacement flags)
    (hreference : NoReference (Delimited.withFlags pattern flags))
    (hbraces : BraceFree replacement) :
    ∃ e : Expression,
      read raw = (Refusal.ofNumber (Delimited.nth flags)).map (fun n => { e with nth := n }) ∧
      e.command = .substitute ∧ e.target = .text ∧ e.pattern = Delimited.withFlags pattern flags ∧
      (Piece.group ['0'] ∉ pieces (convert replacement) →
        e.replacement = convert replacement ∧ e.blocks = [] ∧ e.directive? = none) ∧
      (Piece.group ['0'] ∈ pieces (convert replacement) →
        e.replacement = Text.replaceAll ['\x7b', '0', '\x7d'] [] (convert replacement) ∧
          (∃ d, e.directive? = some d) ∧ e.blocks ≠ [] ∧
          ∀ b ∈ e.blocks, b.directive = { reset := true }) ∧
      ('\x00' ∉ replacement →
        (convert replacement = (items replacement).flatMap Item.template ↔
          Item.forge (items replacement) = false) ∧
        (Item.forge (items replacement) = false →
          (Piece.group ['0'] ∈ pieces (convert replacement) ↔ Item.whole ∈ items replacement) ∧
          ∀ m, Template.expand (some m) (convert replacement) =
            .ok ((items replacement).flatMap (Item.text m)))) := by
  obtain ⟨more, rfl, hread⟩ := read_of_hasFields hfields
  have hwoven := Template.woven_convert hbraces
  have hitems : '\x00' ∉ replacement → Item.forge (items replacement) = false →
      (Piece.group ['0'] ∈ pieces (convert replacement) ↔ Item.whole ∈ items replacement) ∧
      ∀ m, Template.expand (some m) (convert replacement) =
        .ok ((items replacement).flatMap (Item.text m)) := by
    intro hnul hforge
    have hsound : ∀ i ∈ items replacement, i.IsSound := fun i hi =>
      Template.isSound_of_mem_items hnul hi
    rw [(Template.convert_eq_iff hbraces hnul).2 hforge]
    exact ⟨Template.group_zero_mem_pieces_iff hsound, Template.expand_flatMap_template hsound⟩
  rw [hread]
  by_cases hzero : Piece.group ['0'] ∈ pieces (convert replacement)
  · obtain ⟨htext, hreset, hne⟩ := hwoven.extract_of_group_mem hzero
    refine ⟨_, readSubstitute_of_noReference hreference (addReplacement_of_mem hwoven hzero _),
      rfl, rfl, rfl, fun h => absurd hzero h, fun _ => ⟨htext, ?_, hne, hreset⟩,
      fun hnul => ⟨Template.convert_eq_iff hbraces hnul, hitems hnul⟩⟩
    obtain ⟨d, hd, -⟩ := exists_directive?_of_group_mem hwoven hzero _
    exact ⟨d, hd⟩
  · exact ⟨_, readSubstitute_of_noReference hreference (addReplacement_of_not_mem hwoven hzero _),
      rfl, rfl, rfl, fun _ => ⟨rfl, rfl, rfl⟩, fun h => absurd h hzero,
      fun hnul => ⟨Template.convert_eq_iff hbraces hnul, hitems hnul⟩⟩

attribute [local instance] CharNames.none

/-- The groups of a pattern and a literal ampersand are kept. -/
theorem read_braceFree_groups :
    HasFields "s/(a)/\\1$\\&/g".toList "(a)".toList "\\1$\\&".toList ['g'] ∧
      NoReference "(a)".toList ∧ BraceFree "\\1$\\&".toList ∧
      ∃ e, read "s/(a)/\\1$\\&/g".toList = .ok e ∧ e.replacement = "$\x7b1\x7d$$&".toList ∧
        e.directive? = none ∧
        ∀ m, Template.expand (some m) e.replacement =
          .ok ((Item.group '1').text m ++ ['$', '&']) := by
  have hfields : HasFields "s/(a)/\\1$\\&/g".toList "(a)".toList "\\1$\\&".toList ['g'] :=
    ⟨'/', "(a)/\\1$\\&/g".toList, [['g']], rfl, by decide, by decide, rfl⟩
  have hreference : NoReference "(a)".toList :=
    ⟨rfl, rfl, fun h => absurd h (by decide)⟩
  have hbraces : BraceFree "\\1$\\&".toList := ⟨by decide, by decide⟩
  have hconvert : convert "\\1$\\&".toList = "$\x7b1\x7d$$&".toList := by
    rfl
  have hitems : items "\\1$\\&".toList = [.group '1', .char '$', .char '&'] := by
    rfl
  have hforge : Item.forge (items "\\1$\\&".toList) = false := by
    decide
  obtain ⟨e, hread, -, -, -, hkept, -, hexpand⟩ := read_braceFree hfields hreference hbraces
  obtain ⟨hwhole, htext⟩ := (hexpand (by decide)).2 hforge
  have hzero : Piece.group ['0'] ∉ pieces (convert "\\1$\\&".toList) := by
    rw [hwhole, hitems]
    decide
  obtain ⟨hreplacement, -, hdirective⟩ := hkept hzero
  refine ⟨hfields, hreference, hbraces, _, hread, hreplacement.trans hconvert, hdirective, ?_⟩
  intro m
  rw [hitems] at htext
  exact (congrArg _ hreplacement).trans (htext m)

/-- A reference to the whole match is lost: a dollar is left in its place, and a block. -/
theorem read_ampersand :
    BraceFree ['&'] ∧ ∃ e, read "s/a/&/".toList = .ok e ∧ e.replacement = ['$'] ∧
      e.directive? ≠ none := by
  have hreference : NoReference (Delimited.withFlags ['a'] (fieldAt [[]] 0)) :=
    ⟨rfl, rfl, fun h => absurd h (by decide)⟩
  have hbraces : BraceFree ['&'] := ⟨by decide, by decide⟩
  have hwoven := Template.woven_convert hbraces
  have hzero : Piece.group ['0'] ∈ pieces (convert ['&']) := by
    have hconvert : convert ['&'] = Template.reference ['0'] ++ [] := rfl
    rw [hconvert, Woven.pieces_reference Template.isDecimal_zero]
    exact List.mem_cons_self
  have hread : read "s/a/&/".toList = readSubstitute [['a'], ['&'], []] "s/a/&/".toList := rfl
  rw [hread, readSubstitute_of_noReference hreference (addReplacement_of_mem hwoven hzero _)]
  refine ⟨hbraces, _, rfl, (hwoven.extract_of_group_mem hzero).1.trans rfl, ?_⟩
  obtain ⟨d, hd, -⟩ := exists_directive?_of_group_mem hwoven hzero _
  intro hnone
  exact Option.some_ne_none d (hd.symm.trans hnone)

end Expression

end Redline
