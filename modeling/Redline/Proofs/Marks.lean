import Redline.Proofs.Conversion

/-!
# Marks of a conversion

A replacement is made of parts, most of which are items: a character, the whole match, or a group by
one digit.  While it is converted, marks hold the places of groups and of literal ampersands.  The
template has just the parts of the replacement unless the end of one mark and the start of another
one take a text between them for a mark of their own.
-/

namespace Redline.Template

/-! ## The items of a replacement -/

/-- What a part of a replacement stands for: a character, the whole match, or a group by its
digit. -/
inductive Item where
  | char (c : Char)
  | whole
  | group (digit : Char)
deriving Repr, DecidableEq

/-- What an escaped character stands for. -/
def escapeItems (c : Char) : List Item :=
  if isGroupDigit c then [.group c]
  else if c == '$' || plainEscapes.contains c || c == '&' || c == '\\' then [.char c]
  else [.char '\\', .char c]

/-- A replacement without braces, read from left to right. -/
def items : Text → List Item
  | [] => []
  | '\\' :: c :: rest => escapeItems c ++ items rest
  | '$' :: rest =>
    match rest with
    | '$' :: tail => .char '$' :: items tail
    | c :: tail => if isGroupDigit c then .group c :: items tail else .char '$' :: items (c :: tail)
    | [] => [.char '$']
  | '&' :: rest => .whole :: items rest
  | c :: rest => .char c :: items rest

namespace Item

/-- An item in writing, by what stands for a literal ampersand, the whole match, and a group. -/
def written (ampersand whole : Text) (group : Char → Text) : Item → Text
  | .char c => if c = '$' then ['$', '$'] else if c = '&' then ampersand else [c]
  | .whole => whole
  | .group d => group d

/-- An item as a template writes it. -/
def template : Item → Text :=
  written ['&'] (reference ['0']) fun d => reference [d]

/-- The text of an item in a match. A group that the pattern does not have, or that has not matched,
is empty. -/
def text (m : Match) : Item → Text
  | .char c => [c]
  | .whole => m.whole
  | .group d =>
    let number := (digitValue? d).getD 0
    if m.groups < number then [] else (m.group? number).getD []

/-- The item is written with a mark while a replacement is converted. -/
def isMarked : Item → Bool
  | .char c => c == '&'
  | .whole => false
  | .group _ => true

/-- Behind the mark of a literal ampersand these items look like another mark. -/
def forgeMark (items : List Item) : Bool :=
  ("BACKREF_".toList.map Item.char).isPrefixOf items &&
    match items.drop 8 with
    | .char d :: next :: _ => isDecimal d && next.isMarked
    | _ => false

/-- Some literal ampersand stands before items that look like a mark behind it. -/
def forge : List Item → Bool
  | [] => false
  | i :: rest => i == .char '&' && forgeMark rest || forge rest

/-- The item has neither the character that marks are made with nor a digit that names no group. -/
def IsSound : Item → Prop
  | .char c => c ≠ '\x00'
  | .whole => True
  | .group d => isGroupDigit d = true

end Item

theorem Item.written_char_of_ne
    {c : Char} (hdollar : c ≠ '$') (hampersand : c ≠ '&') (ampersand whole : Text)
    (group : Char → Text) : (Item.char c).written ampersand whole group = [c] := by
  rw [Item.written, if_neg hdollar, if_neg hampersand]

theorem ampersand_not_mem_plainEscapes : '&' ∉ plainEscapes := by
  rw [show plainEscapes = ['.', '^', '[', ']', '(', ')', '+', '?', '|'] from rfl]
  decide

theorem escapeMarked_eq (c : Char) :
    escapeMarked c =
      (escapeItems c).flatMap (Item.written ampersandMark ['&'] groupMark) := by
  unfold escapeMarked escapeItems
  by_cases hdigit : isGroupDigit c = true
  · rw [if_pos hdigit, if_pos hdigit, List.flatMap_singleton, Item.written]
  rw [if_neg hdigit, if_neg hdigit]
  by_cases hdollar : c = '$'
  · rw [if_pos (by simp [hdollar]), if_pos (by simp [hdollar]), List.flatMap_singleton,
      Item.written, if_pos hdollar]
  rw [if_neg (by simpa using hdollar)]
  by_cases hplain : plainEscapes.contains c = true
  · have hampersand : c ≠ '&' := fun hc =>
      ampersand_not_mem_plainEscapes (hc ▸ List.contains_iff_mem.1 hplain)
    rw [if_pos hplain, if_pos (by simp only [hplain, Bool.or_true, Bool.true_or]),
      List.flatMap_singleton, Item.written_char_of_ne hdollar hampersand]
  rw [if_neg hplain]
  by_cases hampersand : c = '&'
  · rw [if_pos (by simp [hampersand]), if_pos (by simp [hampersand]), List.flatMap_singleton,
      Item.written, if_neg hdollar, if_pos hampersand]
  rw [if_neg (by simpa using hampersand)]
  have hchar := Item.written_char_of_ne hdollar hampersand ampersandMark ['&'] groupMark
  by_cases hbackslash : c = '\\'
  · rw [if_pos (by simp [hbackslash]), if_pos (by simp [hbackslash]), List.flatMap_singleton, hchar,
      hbackslash]
  · have hfirst := Item.written_char_of_ne (by decide : '\\' ≠ '$') (by decide) ampersandMark ['&']
      groupMark
    rw [if_neg (by simpa using hbackslash), if_neg (by simp_all), List.flatMap_cons,
      List.flatMap_singleton, hchar, hfirst]
    rfl

/-- With marks in the places of references a replacement is its items one after the other. -/
theorem marked_eq
    {r : Text} (h : BraceFree r) :
    marked r = (items r).flatMap (Item.written ampersandMark ['&'] groupMark) := by
  fun_induction marked r with
  | case1 => rfl
  | case2 c rest ih =>
    rw [items, List.flatMap_append, ← ih h.of_cons.of_cons, escapeMarked_eq]
  | case3 tail ih =>
    rw [items, List.flatMap_cons, ← ih h.of_cons.of_cons]
    rfl
  | case4 tail ih => exact absurd rfl h.of_cons.head.1
  | case5 c tail hdollar _ hdigit ih =>
    rw [items, if_pos hdigit, List.flatMap_cons, ← ih h.of_cons.of_cons]
    · rfl
    · exact hdollar
  | case6 c tail hdollar _ hdigit ih =>
    rw [items, if_neg hdigit, List.flatMap_cons, ← ih h.of_cons]
    · rfl
    · exact hdollar
  | case7 => rfl
  | case8 c rest hescape hdollar ih =>
    have hrest := ih h.of_cons
    by_cases hampersand : c = '&'
    · subst hampersand
      rw [items, List.flatMap_cons, ← hrest]
      rfl
    · rw [items, List.flatMap_cons, ← hrest,
        Item.written_char_of_ne (fun hc => hdollar hc) hampersand]
      · rfl
      · exact fun d tail hc htail => hescape d tail hc htail
      · exact fun hc => hdollar hc
      · exact fun hc => hampersand hc

theorem isSound_of_mem_escapeItems
    {c : Char} (hc : c ≠ '\x00') {i : Item} (hi : i ∈ escapeItems c) : i.IsSound := by
  unfold escapeItems at hi
  split at hi
  next hdigit =>
    rw [List.mem_singleton.1 hi]
    exact hdigit
  next =>
    split at hi
    · rw [List.mem_singleton.1 hi]
      exact hc
    · rcases List.mem_cons.1 hi with rfl | hi
      · exact (by decide : ('\\' : Char) ≠ '\x00')
      · rw [List.mem_singleton.1 hi]
        exact hc

/-- Without the character that marks are made with all items are sound. -/
theorem isSound_of_mem_items
    {r : Text} (h : '\x00' ∉ r) {i : Item} (hi : i ∈ items r) : i.IsSound := by
  have hdollar : (Item.char '$').IsSound := (by decide : ('$' : Char) ≠ '\x00')
  fun_induction items r with
  | case1 => simp at hi
  | case2 c rest ih =>
    simp only [List.mem_cons, not_or] at h
    rcases List.mem_append.1 hi with hi | hi
    · exact isSound_of_mem_escapeItems (Ne.symm h.2.1) hi
    · exact ih h.2.2 hi
  | case3 tail ih =>
    simp only [List.mem_cons, not_or] at h
    rcases List.mem_cons.1 hi with rfl | hi
    · exact hdollar
    · exact ih h.2.2 hi
  | case4 c tail _ hdigit ih =>
    simp only [List.mem_cons, not_or] at h
    rcases List.mem_cons.1 hi with rfl | hi
    · exact hdigit
    · exact ih h.2.2 hi
  | case5 c tail _ _ ih =>
    rcases List.mem_cons.1 hi with rfl | hi
    · exact hdollar
    · exact ih (fun hmem => h (List.mem_cons_of_mem _ hmem)) hi
  | case6 =>
    rw [List.mem_singleton.1 hi]
    exact hdollar
  | case7 rest ih =>
    rcases List.mem_cons.1 hi with rfl | hi
    · trivial
    · exact ih (fun hmem => h (List.mem_cons_of_mem _ hmem)) hi
  | case8 c rest _ _ _ ih =>
    simp only [List.mem_cons, not_or] at h
    rcases List.mem_cons.1 hi with rfl | hi
    · exact Ne.symm h.1
    · exact ih h.2 hi

/-! ## Parts of a replacement -/

/-- A part of a replacement: an item, a group by a number in braces, or a dollar before a brace that
opens no such number. -/
inductive Part where
  | item (i : Item)
  | reference (digits : Text)
  | opening
deriving Repr, DecidableEq

namespace Part

/-- The items that a part looks like when braces have no meaning. -/
def items : Part → List Item
  | .item i => [i]
  | .reference digits => (Template.reference digits).map .char
  | .opening => [.char '$']

/-- A part in writing, by what stands for a literal ampersand, the whole match, and a group. -/
def written (ampersand whole : Text) (group : Char → Text) : Part → Text
  | .item i => i.written ampersand whole group
  | .reference digits => Template.reference digits
  | .opening => ['$']

/-- A part as a template writes it. -/
def template : Part → Text :=
  written ['&'] (Template.reference ['0']) fun d => Template.reference [d]

/-- The part has neither the character that marks are made with nor a number without digits. -/
def IsSound : Part → Prop
  | .item i => i.IsSound
  | .reference digits => (∀ d ∈ digits, isDecimal d = true) ∧ digits ≠ []
  | .opening => True

end Part

/-! ## One item through the passes -/

section Passes

variable {is : List Item}

theorem groupMark?_of_ne {c : Char} (h : c ≠ '\x00') (rest : Text) :
    groupMark? (c :: rest) = none := by
  cases hmark : groupMark? (c :: rest) with
  | none => rfl
  | some result =>
    obtain ⟨d, tail, heq, -⟩ := groupMark?_eq_some hmark
    rw [groupMark_eq] at heq
    exact absurd (List.cons.inj heq).1 h

/-- Text without the character that marks are made with passes through. -/
theorem replaceBy_groupMark?_append
    {s : Text} (h : '\x00' ∉ s) (rest : Text) :
    Text.replaceBy groupMark? (s ++ rest) = s ++ Text.replaceBy groupMark? rest := by
  induction s with
  | nil => rfl
  | cons c s ih =>
    simp only [List.mem_cons, not_or] at h
    rw [List.cons_append, Text.replaceBy_of_none (groupMark?_of_ne (Ne.symm h.1) _), ih h.2,
      List.cons_append]

theorem replaceAll_ampersandMark_append
    {s : Text} (h : '\x00' ∉ s) (rest : Text) :
    Text.replaceAll ampersandMark ['&'] (s ++ rest) =
      s ++ Text.replaceAll ampersandMark ['&'] rest := by
  rw [ampersandMark_eq]
  exact Text.replaceAll_append h _ _ rest

/-- The first items of marked text that starts with characters of no mark. -/
theorem exists_of_flatMap_eq_append
    {s u : Text} (hs : ∀ c ∈ s, c ≠ '\x00' ∧ c ≠ '$' ∧ c ≠ '&')
    (h : is.flatMap (Item.written ampersandMark ['&'] groupMark) = s ++ u) :
    ∃ rest, is = s.map .char ++ rest ∧
      rest.flatMap (Item.written ampersandMark ['&'] groupMark) = u := by
  induction s generalizing is with
  | nil => exact ⟨is, rfl, h⟩
  | cons c s ih =>
    obtain ⟨hnul, hdollar, hampersand⟩ := hs c List.mem_cons_self
    cases is with
    | nil => simp at h
    | cons i rest =>
      rw [List.flatMap_cons] at h
      have hi : i = .char c ∧
          rest.flatMap (Item.written ampersandMark ['&'] groupMark) = s ++ u := by
        cases i with
        | whole => exact absurd (List.cons.inj h).1.symm hampersand
        | group d =>
          rw [Item.written, groupMark_eq] at h
          exact absurd (List.cons.inj h).1.symm hnul
        | char e =>
          rw [Item.written] at h
          split at h
          · exact absurd (List.cons.inj h).1.symm hdollar
          · split at h
            · rw [ampersandMark_eq] at h
              exact absurd (List.cons.inj h).1.symm hnul
            · obtain ⟨rfl, hrest⟩ := List.cons.inj h
              exact ⟨rfl, hrest⟩
      obtain ⟨rfl, hrest⟩ := hi
      obtain ⟨rest', rfl, hu⟩ := ih (fun d hd => hs d (List.mem_cons_of_mem c hd)) hrest
      exact ⟨rest', rfl, hu⟩

/-- Marked text starts with the character of marks only where a marked item stands. -/
theorem exists_isMarked_iff
    (hsound : ∀ i ∈ is, i.IsSound) :
    (∃ u, is.flatMap (Item.written ampersandMark ['&'] groupMark) = '\x00' :: u) ↔
      ∃ i rest, is = i :: rest ∧ i.isMarked = true := by
  constructor
  · rintro ⟨u, h⟩
    cases is with
    | nil => simp at h
    | cons i rest =>
      refine ⟨i, rest, rfl, ?_⟩
      rw [List.flatMap_cons] at h
      cases i with
      | whole => exact absurd (List.cons.inj h).1 (by decide)
      | group d => rfl
      | char e =>
        rw [Item.written] at h
        split at h
        · exact absurd (List.cons.inj h).1 (by decide)
        · split at h
          next hampersand => simp [Item.isMarked, hampersand]
          next => exact absurd (List.cons.inj h).1 (hsound _ List.mem_cons_self)
  · rintro ⟨i, rest, rfl, hmarked⟩
    rw [List.flatMap_cons]
    cases i with
    | whole => exact absurd hmarked Bool.false_ne_true
    | group d =>
      rw [Item.written, groupMark_eq]
      exact ⟨_, rfl⟩
    | char e =>
      rw [eq_of_beq hmarked, Item.written, if_neg (by decide), if_pos rfl, ampersandMark_eq]
      exact ⟨_, rfl⟩

theorem forgeMark_iff :
    Item.forgeMark is = true ↔
      ∃ d i rest, is = "BACKREF_".toList.map .char ++ .char d :: i :: rest ∧
        isDecimal d = true ∧ i.isMarked = true := by
  have hlength : ("BACKREF_".toList.map Item.char).length = 8 := rfl
  rw [Item.forgeMark, Bool.and_eq_true, List.isPrefixOf_iff_prefix]
  constructor
  · rintro ⟨⟨tail, rfl⟩, hnext⟩
    rw [List.drop_left' hlength] at hnext
    split at hnext
    next d i rest =>
      obtain ⟨hd, hi⟩ := Bool.and_eq_true_iff.1 hnext
      exact ⟨d, i, rest, rfl, hd, hi⟩
    next => exact absurd hnext Bool.false_ne_true
  · rintro ⟨d, i, rest, rfl, hd, hi⟩
    refine ⟨List.prefix_append _ _, ?_⟩
    rw [List.drop_left' hlength]
    simp only [hd, hi, Bool.and_true]

theorem ne_special_of_isDecimal {d : Char} (h : isDecimal d = true) :
    d ≠ '\x00' ∧ d ≠ '$' ∧ d ≠ '&' :=
  ⟨ne_of_isDecimal h (by decide), ne_of_isDecimal h (by decide), ne_of_isDecimal h (by decide)⟩

/-- The end of a mark reads as the start of another mark exactly before items that look like the
rest of one. -/
theorem isSome_groupMark?_nul
    (hsound : ∀ i ∈ is, i.IsSound) :
    (∃ d, groupMark? ('\x00' :: is.flatMap (Item.written ampersandMark ['&'] groupMark)) =
      some (11, reference [d])) ↔ Item.forgeMark is = true := by
  have hlead : ∀ c ∈ ['B', 'A', 'C', 'K', 'R', 'E', 'F', '_'], c ≠ '\x00' ∧ c ≠ '$' ∧ c ≠ '&' :=
    List.all_iff_forall_prop.1 (by decide)
  rw [forgeMark_iff]
  constructor
  · rintro ⟨d, h⟩
    obtain ⟨d, tail, heq, hd, -⟩ := groupMark?_eq_some h
    rw [groupMark_eq] at heq
    have hword : ∀ c ∈ ['B', 'A', 'C', 'K', 'R', 'E', 'F', '_'] ++ [d],
        c ≠ '\x00' ∧ c ≠ '$' ∧ c ≠ '&' := by
      intro c hc
      rcases List.mem_append.1 hc with hc | hc
      · exact hlead c hc
      · rw [List.mem_singleton.1 hc]
        exact ne_special_of_isDecimal hd
    obtain ⟨rest, rfl, hrest⟩ := exists_of_flatMap_eq_append (u := '\x00' :: tail) hword
      (List.cons.inj heq).2
    obtain ⟨i, rest, rfl, hi⟩ := (exists_isMarked_iff fun i hi =>
      hsound i (List.mem_append.2 (.inr hi))).1 ⟨tail, hrest⟩
    exact ⟨d, i, rest, rfl, hd, hi⟩
  · rintro ⟨d, i, rest, rfl, hd, hi⟩
    have hrest : ∀ j ∈ i :: rest, j.IsSound := fun j hj =>
      hsound j (List.mem_append.2 (.inr (List.mem_cons_of_mem _ hj)))
    obtain ⟨u, hu⟩ := (exists_isMarked_iff hrest).2 ⟨i, rest, rfl, hi⟩
    obtain ⟨-, hdollar, hampersand⟩ := ne_special_of_isDecimal hd
    refine ⟨d, ?_⟩
    rw [List.flatMap_append, List.flatMap_cons, hu, Item.written_char_of_ne hdollar hampersand]
    exact groupMark?_append hd u

theorem groupMark?_eq_none
    {t : Text} (h : ¬ ∃ d, groupMark? t = some (11, reference [d])) : groupMark? t = none := by
  cases hmark : groupMark? t with
  | none => rfl
  | some result =>
    obtain ⟨used, new⟩ := result
    obtain ⟨d, -, -, -, rfl, rfl⟩ := groupMark?_eq_some hmark
    exact absurd ⟨d, hmark⟩ h

/-- The mark of a literal ampersand passes through up to its end. -/
theorem replaceBy_groupMark?_ampersandMark (rest : Text) :
    Text.replaceBy groupMark? (ampersandMark ++ rest) =
      '\x00' :: 'L' :: 'I' :: 'T' :: 'A' :: 'M' :: 'P' ::
        Text.replaceBy groupMark? ('\x00' :: rest) := by
  have hstart : groupMark? (ampersandMark ++ rest) = none := by
    apply groupMark?_eq_none
    rintro ⟨d, h⟩
    obtain ⟨d, tail, heq, -⟩ := groupMark?_eq_some h
    rw [groupMark_eq, ampersandMark_eq] at heq
    exact absurd (List.cons.inj (List.cons.inj heq).2).1 (by decide)
  rw [ampersandMark_eq, List.cons_append] at hstart ⊢
  rw [Text.replaceBy_of_none hstart]
  exact congrArg _ (replaceBy_groupMark?_append (s := ['L', 'I', 'T', 'A', 'M', 'P']) (by decide) _)

/-- The first pass takes an item for what it is, unless a mark seems to start at its end. -/
theorem replaceBy_groupMark?_written_append
    {i : Item} (hi : i.IsSound) {rest : Text}
    (hnone : i = .char '&' → groupMark? ('\x00' :: rest) = none) :
    Text.replaceBy groupMark? (i.written ampersandMark ['&'] groupMark ++ rest) =
      i.written ampersandMark ['&'] (fun d => reference [d]) ++
        Text.replaceBy groupMark? rest := by
  cases i with
  | whole => exact replaceBy_groupMark?_append (s := ['&']) (by decide) _
  | group d =>
    have hmark := groupMark?_append (isDecimal_of_isGroupDigit hi) rest
    simp only [Item.written]
    rw [Text.replaceBy_of_some (by rw [groupMark_eq]; simp) hmark (by decide),
      List.drop_left' (by rw [groupMark_eq]; rfl)]
  | char e =>
    simp only [Item.written]
    split
    next => exact replaceBy_groupMark?_append (s := ['$', '$']) (by decide) _
    next =>
      split
      next hampersand =>
        rw [replaceBy_groupMark?_ampersandMark, Text.replaceBy_of_none (hnone (hampersand ▸ rfl)),
          ampersandMark_eq]
        rfl
      next =>
        exact replaceBy_groupMark?_append (s := [e])
          (fun h => hi (List.mem_singleton.1 h).symm) _

/-- A mark that seems to start at the end of the mark of a literal ampersand cuts off that end. -/
theorem exists_replaceBy_groupMark?_ampersandMark
    {d : Char} {rest : Text} (h : groupMark? ('\x00' :: rest) = some (11, reference [d])) :
    ∃ tail, Text.replaceBy groupMark? (ampersandMark ++ rest) =
      '\x00' :: 'L' :: 'I' :: 'T' :: 'A' :: 'M' :: 'P' :: (reference [d] ++ tail) := by
  have hcut := Text.replaceBy_of_some (List.cons_ne_nil _ _) h (by decide)
  have hmarks := replaceBy_groupMark?_ampersandMark rest
  rw [hcut] at hmarks
  exact ⟨_, hmarks⟩

theorem flatMap_ampersand_of_not_mem {s : Text} (h : '&' ∉ s) :
    (s.flatMap fun d => if d = '&' then reference ['0'] else [d]) = s := by
  induction s with
  | nil => rfl
  | cons c s ih =>
    simp only [List.mem_cons, not_or] at h
    rw [List.flatMap_cons, if_neg (Ne.symm h.1), ih h.2]
    rfl

/-- The second pass writes out the whole match. -/
theorem replaceAll_ampersand_written_append {i : Item} (hi : i.IsSound) (rest : Text) :
    Text.replaceAll ['&'] (reference ['0'])
        (i.written ampersandMark ['&'] (fun d => reference [d]) ++ rest) =
      i.written ampersandMark (reference ['0']) (fun d => reference [d]) ++
        Text.replaceAll ['&'] (reference ['0']) rest := by
  simp only [Text.replaceAll_singleton, List.flatMap_append]
  congr 1
  cases i with
  | whole => rfl
  | group d =>
    apply flatMap_ampersand_of_not_mem
    have hd := (ne_special_of_isDecimal (isDecimal_of_isGroupDigit hi)).2.2
    simp [Item.written, reference, Ne.symm hd]
  | char c =>
    simp only [Item.written]
    split
    next => exact flatMap_ampersand_of_not_mem (by decide)
    next =>
      split
      next =>
        rw [ampersandMark_eq]
        exact flatMap_ampersand_of_not_mem (by decide)
      next hne => exact flatMap_ampersand_of_not_mem fun h => hne (List.mem_singleton.1 h).symm

/-- The third pass writes out literal ampersands. -/
theorem replaceAll_ampersandMark_written_append {i : Item} (hi : i.IsSound) (rest : Text) :
    Text.replaceAll ampersandMark ['&']
        (i.written ampersandMark (reference ['0']) (fun d => reference [d]) ++ rest) =
      i.template ++ Text.replaceAll ampersandMark ['&'] rest := by
  cases i with
  | whole => exact replaceAll_ampersandMark_append (s := reference ['0']) (by decide) _
  | group d =>
    have hd := (ne_special_of_isDecimal (isDecimal_of_isGroupDigit hi)).1
    exact replaceAll_ampersandMark_append (s := reference [d]) (by simp [reference, Ne.symm hd]) _
  | char c =>
    simp only [Item.template, Item.written]
    split
    next => exact replaceAll_ampersandMark_append (s := ['$', '$']) (by decide) _
    next =>
      split
      next => exact Text.replaceAll_of_startsWith (by rw [ampersandMark_eq]; simp) _ rfl
      next =>
        exact replaceAll_ampersandMark_append (s := [c])
          (fun h => hi (List.mem_singleton.1 h).symm) _

/-- The start of a mark of an ampersand is left over when a reference has cut off its end. -/
theorem exists_replaceAll_ampersandMark {d : Char} (hd : isDecimal d = true) (tail : Text) :
    ∃ tail', Text.replaceAll ampersandMark ['&'] (Text.replaceAll ['&'] (reference ['0'])
        ('\x00' :: 'L' :: 'I' :: 'T' :: 'A' :: 'M' :: 'P' :: (reference [d] ++ tail))) =
      '\x00' :: 'L' :: 'I' :: 'T' :: 'A' :: 'M' :: 'P' :: (reference [d] ++ tail') := by
  obtain ⟨hnul, -, hampersand⟩ := ne_special_of_isDecimal hd
  have hsecond : Text.replaceAll ['&'] (reference ['0'])
      ('\x00' :: 'L' :: 'I' :: 'T' :: 'A' :: 'M' :: 'P' :: (reference [d] ++ tail)) =
        '\x00' :: 'L' :: 'I' :: 'T' :: 'A' :: 'M' :: 'P' ::
          (reference [d] ++ Text.replaceAll ['&'] (reference ['0']) tail) := by
    have hplain : '&' ∉ "\x00LITAMP".toList ++ reference [d] := by
      simp [reference, Ne.symm hampersand]
    have happend := flatMap_ampersand_of_not_mem hplain
    rw [Text.replaceAll_singleton, Text.replaceAll_singleton]
    exact (@List.flatMap_append _ _ ("\x00LITAMP".toList ++ reference [d]) _ _).trans
      (congrArg (· ++ _) happend)
  have hthird : Text.startsWith ampersandMark
      ('\x00' :: 'L' :: 'I' :: 'T' :: 'A' :: 'M' :: 'P' ::
        (reference [d] ++ Text.replaceAll ['&'] (reference ['0']) tail)) = false := by
    rw [ampersandMark_eq]
    rfl
  rw [hsecond, Text.replaceAll_of_not_startsWith hthird]
  have hrest := replaceAll_ampersandMark_append
    (s := ['L', 'I', 'T', 'A', 'M', 'P'] ++ reference [d]) (by simp [reference, Ne.symm hnul])
    (Text.replaceAll ['&'] (reference ['0']) tail)
  exact ⟨_, congrArg _ hrest⟩

end Passes

/-! ## Parts through the passes -/

section Parts

variable {ps : List Part}

/-- A reference in braces has neither an ampersand nor the character that marks are made with. -/
theorem ne_special_of_mem_reference
    {digits : Text} (h : ∀ d ∈ digits, isDecimal d = true) {c : Char} (hc : c ∈ reference digits) :
    c ≠ '\x00' ∧ c ≠ '&' := by
  simp only [reference, List.cons_append, List.mem_cons, List.mem_append, List.not_mem_nil,
    or_false] at hc
  rcases hc with rfl | rfl | hc | rfl
  · decide
  · decide
  · exact ⟨(ne_special_of_isDecimal (h c hc)).1, (ne_special_of_isDecimal (h c hc)).2.2⟩
  · decide

theorem isSound_of_mem_flatMap_items
    (hsound : ∀ p ∈ ps, p.IsSound) {i : Item} (hi : i ∈ ps.flatMap Part.items) : i.IsSound := by
  obtain ⟨p, hp, hi⟩ := List.mem_flatMap.1 hi
  have hp := hsound p hp
  cases p with
  | item j =>
    rw [List.mem_singleton.1 hi]
    exact hp
  | reference digits =>
    obtain ⟨c, hc, rfl⟩ := List.mem_map.1 hi
    exact (ne_special_of_mem_reference hp.1 hc).1
  | opening =>
    rw [List.mem_singleton.1 hi]
    exact (by decide : ('$' : Char) ≠ '\x00')

/-- No mark has a dollar in it, so only what stands before the first dollar counts. -/
theorem groupMark?_takeWhile (t : Text) : groupMark? (t.takeWhile (· != '$')) = groupMark? t := by
  have hmark : ∀ d, isDecimal d = true → ∀ c ∈ groupMark d, (c != '$') = true := fun d hd c hc =>
    bne_iff_ne.2 (isPlain_of_mem_groupMark hd hc).1
  cases hleft : groupMark? (t.takeWhile (· != '$')) with
  | some result =>
    obtain ⟨d, rest, heq, hd, hused, hnew⟩ := groupMark?_eq_some hleft
    rw [← List.takeWhile_append_dropWhile (p := (· != '$')) (l := t), heq, List.append_assoc,
      groupMark?_append hd, ← hused, ← hnew]
  | none =>
    cases hright : groupMark? t with
    | none => rfl
    | some result =>
      obtain ⟨d, rest, rfl, hd, -⟩ := groupMark?_eq_some hright
      rw [List.takeWhile_append_of_pos (hmark d hd), groupMark?_append hd] at hleft
      cases hleft

/-- Up to the first dollar parts are written as the items that they look like. -/
theorem takeWhile_written (ampersand whole : Text) (group : Char → Text) (ps : List Part) :
    (ps.flatMap (Part.written ampersand whole group)).takeWhile (· != '$') =
      ((ps.flatMap Part.items).flatMap (Item.written ampersand whole group)).takeWhile
        (· != '$') := by
  induction ps with
  | nil => rfl
  | cons p rest ih =>
    rw [List.flatMap_cons, List.flatMap_cons, List.flatMap_append]
    cases p with
    | item i =>
      rw [Part.written, Part.items, List.flatMap_singleton, List.takeWhile_append,
        List.takeWhile_append, ih]
    | reference digits => rfl
    | opening => rfl

theorem groupMark?_nul_parts (ps : List Part) :
    groupMark? ('\x00' :: ps.flatMap (Part.written ampersandMark ['&'] groupMark)) =
      groupMark? ('\x00' ::
        (ps.flatMap Part.items).flatMap (Item.written ampersandMark ['&'] groupMark)) := by
  rw [← groupMark?_takeWhile, ← groupMark?_takeWhile ('\x00' :: List.flatMap _ (List.flatMap _ _)),
    List.takeWhile_cons_of_pos (by decide), List.takeWhile_cons_of_pos (by decide),
    takeWhile_written]

theorem forge_append_of_ne
    {front : List Item} (h : ∀ i ∈ front, i ≠ .char '&') (is : List Item) :
    Item.forge (front ++ is) = Item.forge is := by
  induction front with
  | nil => rfl
  | cons i front ih =>
    rw [List.cons_append, Item.forge, ih fun j hj => h j (List.mem_cons_of_mem i hj),
      beq_false_of_ne (h i List.mem_cons_self), Bool.false_and, Bool.false_or]

/-- A part other than an item forges nothing and passes through the first pass. -/
theorem Part.cases_of_isSound
    {p : Part} (h : p.IsSound) :
    (∃ i, p = .item i ∧ i.IsSound) ∨
      (∀ i ∈ p.items, i ≠ .char '&') ∧ ∃ t, (∀ ampersand whole group,
        p.written ampersand whole group = t) ∧ '\x00' ∉ t ∧ '&' ∉ t := by
  cases p with
  | item i => exact .inl ⟨i, rfl, h⟩
  | reference digits =>
    refine .inr ⟨?_, Template.reference digits, fun _ _ _ => rfl, ?_, ?_⟩
    · intro i hi
      obtain ⟨c, hc, rfl⟩ := List.mem_map.1 hi
      exact fun heq => (ne_special_of_mem_reference h.1 hc).2 (Item.char.inj heq)
    · exact fun hmem => (ne_special_of_mem_reference h.1 hmem).1 rfl
    · exact fun hmem => (ne_special_of_mem_reference h.1 hmem).2 rfl
  | opening => exact .inr ⟨by simp [items], ['$'], fun _ _ _ => rfl, by decide, by decide⟩

/-- A mark is forged at the first part, if that is a literal ampersand, or behind it. -/
theorem forge_parts_cons {p : Part} (hp : p.IsSound) (ps : List Part) :
    Item.forge ((p :: ps).flatMap Part.items) = true ↔
      (p = .item (.char '&') ∧ Item.forgeMark (ps.flatMap Part.items) = true) ∨
        Item.forge (ps.flatMap Part.items) = true := by
  rw [List.flatMap_cons]
  rcases Part.cases_of_isSound hp with ⟨i, rfl, -⟩ | ⟨hitems, t, hwritten, -, -⟩
  · simp [Part.items, Item.forge]
  · rw [forge_append_of_ne hitems]
    refine ⟨.inr, fun h => h.resolve_left ?_⟩
    rintro ⟨rfl, -⟩
    exact hitems _ (List.mem_singleton_self _) rfl

/-- The first pass takes a part for what it is, unless a mark is forged right behind it. -/
theorem replaceBy_groupMark?_parts_cons
    {p : Part} (hp : p.IsSound) (hsound : ∀ q ∈ ps, q.IsSound)
    (hforge : p = .item (.char '&') → Item.forgeMark (ps.flatMap Part.items) = false) :
    Text.replaceBy groupMark? ((p :: ps).flatMap (Part.written ampersandMark ['&'] groupMark)) =
      p.written ampersandMark ['&'] (fun d => reference [d]) ++
        Text.replaceBy groupMark?
          (ps.flatMap (Part.written ampersandMark ['&'] groupMark)) := by
  rw [List.flatMap_cons]
  rcases Part.cases_of_isSound hp with ⟨i, rfl, hi⟩ | ⟨-, t, hwritten, hnul, -⟩
  · refine replaceBy_groupMark?_written_append hi fun hampersand => ?_
    rw [groupMark?_nul_parts]
    refine groupMark?_eq_none fun h => Bool.false_ne_true ?_
    rw [← hforge (congrArg Part.item hampersand)]
    exact (isSome_groupMark?_nul fun j hj => isSound_of_mem_flatMap_items hsound hj).1 h
  · rw [hwritten, hwritten, replaceBy_groupMark?_append hnul]

theorem replaceBy_groupMark?_parts_of_not_forge
    (hsound : ∀ p ∈ ps, p.IsSound) (hforge : ¬ Item.forge (ps.flatMap Part.items) = true) :
    Text.replaceBy groupMark? (ps.flatMap (Part.written ampersandMark ['&'] groupMark)) =
      ps.flatMap (Part.written ampersandMark ['&'] fun d => reference [d]) := by
  induction ps with
  | nil => rfl
  | cons p rest ih =>
    have hp := hsound p List.mem_cons_self
    have hrest := fun q hq => hsound q (List.mem_cons_of_mem p hq)
    rw [forge_parts_cons hp, not_or, not_and] at hforge
    rw [replaceBy_groupMark?_parts_cons hp hrest, ih hrest hforge.2, List.flatMap_cons]
    exact fun hampersand => Bool.eq_false_iff.2 (hforge.1 hampersand)

/-- A forged mark leaves the mark of a literal ampersand without its end, and a reference there. -/
theorem replaceBy_groupMark?_parts_of_forge
    (hsound : ∀ p ∈ ps, p.IsSound) (hforge : Item.forge (ps.flatMap Part.items) = true) :
    ∃ before after d tail, ps = before ++ .item (.char '&') :: after ∧ isDecimal d = true ∧
      Text.replaceBy groupMark? (ps.flatMap (Part.written ampersandMark ['&'] groupMark)) =
        before.flatMap (Part.written ampersandMark ['&'] fun d => reference [d]) ++
          '\x00' :: 'L' :: 'I' :: 'T' :: 'A' :: 'M' :: 'P' :: (reference [d] ++ tail) := by
  induction ps with
  | nil => cases hforge
  | cons p rest ih =>
    have hp := hsound p List.mem_cons_self
    have hrest := fun q hq => hsound q (List.mem_cons_of_mem p hq)
    by_cases hhere : p = .item (.char '&') ∧ Item.forgeMark (rest.flatMap Part.items) = true
    · obtain ⟨rfl, hmark⟩ := hhere
      obtain ⟨d, happly⟩ := (isSome_groupMark?_nul fun j hj =>
        isSound_of_mem_flatMap_items hrest hj).2 hmark
      rw [← groupMark?_nul_parts] at happly
      obtain ⟨d', -, -, hd, -, hreference⟩ := groupMark?_eq_some happly
      have hsame : d = d' := by
        simpa [reference] using hreference
      obtain ⟨tail, htail⟩ := exists_replaceBy_groupMark?_ampersandMark happly
      exact ⟨[], rest, d, tail, rfl, hsame ▸ hd, htail⟩
    · have hlater := ((forge_parts_cons hp rest).1 hforge).resolve_left hhere
      obtain ⟨before, after, d, tail, hsplit, hd, heq⟩ := ih hrest hlater
      refine ⟨p :: before, after, d, tail, by rw [hsplit, List.cons_append], hd, ?_⟩
      rw [replaceBy_groupMark?_parts_cons hp hrest, heq, List.flatMap_cons, List.append_assoc]
      exact fun hampersand => Bool.eq_false_iff.2 fun hmark => hhere ⟨hampersand, hmark⟩

/-- The second and the third pass write out the whole match and literal ampersands. -/
theorem replaceAll_parts (hsound : ∀ p ∈ ps, p.IsSound) (rest : Text) :
    Text.replaceAll ampersandMark ['&'] (Text.replaceAll ['&'] (reference ['0'])
        (ps.flatMap (Part.written ampersandMark ['&'] fun d => reference [d]) ++ rest)) =
      ps.flatMap Part.template ++
        Text.replaceAll ampersandMark ['&'] (Text.replaceAll ['&'] (reference ['0']) rest) := by
  induction ps with
  | nil => rfl
  | cons p ps ih =>
    have hrest := ih fun q hq => hsound q (List.mem_cons_of_mem p hq)
    rw [List.flatMap_cons, List.append_assoc, List.flatMap_cons, List.append_assoc, ← hrest]
    rcases Part.cases_of_isSound (hsound p List.mem_cons_self) with
      ⟨i, rfl, hi⟩ | ⟨-, t, hwritten, hnul, hampersand⟩
    · rw [Part.written, replaceAll_ampersand_written_append hi,
        replaceAll_ampersandMark_written_append hi]
      rfl
    · have hsecond : ∀ u, Text.replaceAll ['&'] (reference ['0']) (t ++ u) =
          t ++ Text.replaceAll ['&'] (reference ['0']) u := by
        intro u
        rw [Text.replaceAll_singleton, List.flatMap_append, flatMap_ampersand_of_not_mem hampersand,
          ← Text.replaceAll_singleton]
      rw [hwritten, hsecond, replaceAll_ampersandMark_append hnul, Part.template, hwritten]

/-- Parts that forge no mark are converted to themselves. -/
theorem convert_parts_of_not_forge
    {r : Text} (hmarked : marked r = ps.flatMap (Part.written ampersandMark ['&'] groupMark))
    (hsound : ∀ p ∈ ps, p.IsSound) (hforge : Item.forge (ps.flatMap Part.items) = false) :
    convert r = ps.flatMap Part.template := by
  have hpasses := replaceAll_parts hsound []
  rw [List.append_nil, Text.replaceAll_nil, Text.replaceAll_nil, List.append_nil] at hpasses
  simp only [convert]
  rw [hmarked, replaceBy_groupMark?_parts_of_not_forge hsound (Bool.eq_false_iff.1 hforge), hpasses]

/-- A forged mark leaves a reference and the start of another mark where a literal ampersand should
be. -/
theorem exists_convert_reference_of_forge
    {r : Text} (hmarked : marked r = ps.flatMap (Part.written ampersandMark ['&'] groupMark))
    (hsound : ∀ p ∈ ps, p.IsSound) (hforge : Item.forge (ps.flatMap Part.items) = true) :
    ∃ before after d tail, ps = before ++ .item (.char '&') :: after ∧ isDecimal d = true ∧
      convert r = before.flatMap Part.template ++
        '\x00' :: 'L' :: 'I' :: 'T' :: 'A' :: 'M' :: 'P' :: (reference [d] ++ tail) := by
  obtain ⟨before, after, d, tail, rfl, hd, hpass⟩ :=
    replaceBy_groupMark?_parts_of_forge hsound hforge
  obtain ⟨tail', htail⟩ := exists_replaceAll_ampersandMark hd tail
  refine ⟨before, after, d, tail', rfl, hd, ?_⟩
  simp only [convert]
  rw [hmarked, hpass, replaceAll_parts fun p hp => hsound p (List.mem_append_left _ hp), htail]

/-- A forged mark leaves the character of marks where a literal ampersand should be. -/
theorem exists_convert_parts_of_forge
    {r : Text} (hmarked : marked r = ps.flatMap (Part.written ampersandMark ['&'] groupMark))
    (hsound : ∀ p ∈ ps, p.IsSound) (hforge : Item.forge (ps.flatMap Part.items) = true) :
    ∃ before after tail, ps = before ++ .item (.char '&') :: after ∧
      convert r = before.flatMap Part.template ++ '\x00' :: tail := by
  obtain ⟨before, after, d, tail, hsplit, -, hconvert⟩ :=
    exists_convert_reference_of_forge hmarked hsound hforge
  exact ⟨before, after, _, hsplit, hconvert⟩

end Parts

/-! ## Replacements of items -/

section Items

variable {is : List Item}

theorem flatMap_written_item (ampersand whole : Text) (group : Char → Text) (is : List Item) :
    (is.map Part.item).flatMap (Part.written ampersand whole group) =
      is.flatMap (Item.written ampersand whole group) :=
  List.flatMap_map _ _ is

theorem flatMap_items_item (is : List Item) : (is.map Part.item).flatMap Part.items = is := by
  rw [List.flatMap_map]
  exact List.flatMap_singleton' is

theorem isSound_of_mem_map_item (hsound : ∀ i ∈ is, i.IsSound) :
    ∀ p ∈ is.map Part.item, p.IsSound := by
  intro p hp
  obtain ⟨i, hi, rfl⟩ := List.mem_map.1 hp
  exact hsound i hi

theorem nul_not_mem_template
    (hsound : ∀ i ∈ is, i.IsSound) : '\x00' ∉ is.flatMap Item.template := by
  intro hmem
  obtain ⟨i, hi, hmem⟩ := List.mem_flatMap.1 hmem
  cases i with
  | whole => exact absurd hmem (by decide)
  | group d =>
    have hd := (ne_special_of_isDecimal (isDecimal_of_isGroupDigit (hsound _ hi))).1
    simp [Item.template, Item.written, reference, Ne.symm hd] at hmem
  | char c =>
    have hc : c ≠ '\x00' := hsound _ hi
    simp only [Item.template, Item.written] at hmem
    split at hmem
    next => exact absurd hmem (by decide)
    next =>
      split at hmem
      next => exact absurd hmem (by decide)
      next => exact hc (List.mem_singleton.1 hmem).symm

/-- Marked items that forge no mark are converted to themselves. -/
theorem convert_of_not_forge
    {r : Text} (hmarked : marked r = is.flatMap (Item.written ampersandMark ['&'] groupMark))
    (hsound : ∀ i ∈ is, i.IsSound) (hforge : Item.forge is = false) :
    convert r = is.flatMap Item.template := by
  rw [← flatMap_written_item] at hmarked
  rw [← flatMap_items_item is] at hforge
  rw [convert_parts_of_not_forge hmarked (isSound_of_mem_map_item hsound) hforge]
  exact flatMap_written_item _ _ _ is

/-- A forged mark leaves the character that marks are made with in the template. -/
theorem nul_mem_convert_of_forge
    {r : Text} (hmarked : marked r = is.flatMap (Item.written ampersandMark ['&'] groupMark))
    (hsound : ∀ i ∈ is, i.IsSound) (hforge : Item.forge is = true) : '\x00' ∈ convert r := by
  rw [← flatMap_written_item] at hmarked
  rw [← flatMap_items_item is] at hforge
  obtain ⟨before, after, tail, -, hconvert⟩ :=
    exists_convert_parts_of_forge hmarked (isSound_of_mem_map_item hsound) hforge
  rw [hconvert]
  simp

end Items

/-- A replacement without braces is converted to its own items exactly when no mark is forged. -/
theorem convert_eq_iff
    {r : Text} (hbraces : BraceFree r) (hnul : '\x00' ∉ r) :
    convert r = (items r).flatMap Item.template ↔ Item.forge (items r) = false := by
  have hsound : ∀ i ∈ items r, i.IsSound := fun i hi => isSound_of_mem_items hnul hi
  constructor
  · intro heq
    by_contra hforge
    have hmem := nul_mem_convert_of_forge (marked_eq hbraces) hsound (by simpa using hforge)
    rw [heq] at hmem
    exact nul_not_mem_template hsound hmem
  · exact convert_of_not_forge (marked_eq hbraces) hsound

/-! ## Items of a template -/

/-- An item as a piece of a template. -/
def Item.piece : Item → Piece
  | .char c => .char c
  | .whole => .group ['0']
  | .group d => .group [d]

/-- An item is a piece of its own, whatever follows it. -/
theorem pieces_template_append {i : Item} (hi : i.IsSound) (t : Text) :
    pieces (i.template ++ t) = i.piece :: pieces t := by
  cases i with
  | whole => exact Woven.pieces_reference isDecimal_zero _
  | group d => exact Woven.pieces_reference (isDecimal_of_isGroupDigit hi) _
  | char c =>
    simp only [Item.template, Item.written]
    split
    next hdollar =>
      subst hdollar
      exact pieces_dollar_dollar _
    next hdollar =>
      split
      next hampersand =>
        subst hampersand
        exact (standsAlone_of_ne hdollar _).pieces
      next => exact (standsAlone_of_ne hdollar _).pieces

theorem pieces_flatMap_template
    {is : List Item} (hsound : ∀ i ∈ is, i.IsSound) :
    pieces (is.flatMap Item.template) = is.map Item.piece := by
  induction is with
  | nil => simp
  | cons i rest ih =>
    rw [List.flatMap_cons, pieces_template_append (hsound i List.mem_cons_self), List.map_cons,
      ih fun j hj => hsound j (List.mem_cons_of_mem i hj)]

/-- A template refers to the whole match exactly where an item does. -/
theorem group_zero_mem_pieces_iff
    {is : List Item} (hsound : ∀ i ∈ is, i.IsSound) :
    Piece.group ['0'] ∈ pieces (is.flatMap Item.template) ↔ Item.whole ∈ is := by
  rw [pieces_flatMap_template hsound, List.mem_map]
  constructor
  · rintro ⟨i, hi, hpiece⟩
    cases i with
    | char c => cases hpiece
    | whole => exact hi
    | group d =>
      -- A zero names no group of its own.
      cases hpiece
      exact absurd (hsound _ hi) (by decide : ¬ isGroupDigit '0' = true)
  · intro hi
    exact ⟨.whole, hi, rfl⟩

theorem Piece.expand_group_digit
    {d : Char} (hd : isDecimal d = true) (m : Match) :
    (Piece.group [d]).expand (some m) = .ok ((Item.group d).text m) := by
  obtain ⟨v, hv⟩ := Option.isSome_iff_exists.1 hd
  have hdigits : Whole.digitValues? [d] = some [v] := by
    simp [Whole.digitValues?, hv]
  have hnumber : Whole.ofDigits [v] = .ok v := by
    simp [Whole.ofDigits, Whole.value, TooManyDigits.limit]
  rw [Piece.expand, hdigits, Option.getD_some, hnumber, Item.text, hv, Option.getD_some]
  rfl

/-- Pieces with a text each expand to these texts one after the other. -/
theorem mapM_expand
    {α : Type} {m : Option Match} {piece : α → Piece} {text : α → Text} {xs : List α}
    (h : ∀ x ∈ xs, (piece x).expand m = .ok (text x)) :
    (xs.map piece).mapM (Piece.expand m) = .ok (xs.map text) := by
  induction xs with
  | nil => rfl
  | cons x rest ih =>
    rw [List.map_cons, List.mapM_cons, h x List.mem_cons_self,
      ih fun y hy => h y (List.mem_cons_of_mem x hy)]
    rfl

theorem Item.expand_piece {i : Item} (hi : i.IsSound) (m : Match) :
    i.piece.expand (some m) = .ok (i.text m) := by
  cases i with
  | char c => rfl
  | whole => exact Piece.expand_group_digit isDecimal_zero m
  | group d => exact Piece.expand_group_digit (isDecimal_of_isGroupDigit hi) m

/-- The items of a template expand to their texts. -/
theorem expand_flatMap_template
    {is : List Item} (hsound : ∀ i ∈ is, i.IsSound) (m : Match) :
    expand (some m) (is.flatMap Item.template) = .ok (is.flatMap (Item.text m)) := by
  rw [expand, pieces_flatMap_template hsound,
    mapM_expand fun i hi => Item.expand_piece (hsound i hi) m]
  rfl

end Redline.Template
