import Redline.Proofs.Numeral
import Redline.Proofs.Quoting

/-!
# The reading of a replacement

A replacement can be read from left to right: an escape, a dollar with a digit or with a number in
braces, an ampersand, or a character that stands for itself.  Such a reading needs no marks.  This
module shows that converting a replacement and expanding its template gives the text of the reading
against every match, unless a mark is forged, and that it gives another text against every match if
one is.
-/

namespace Redline.Template

/-! ## Reading from left to right -/

/-- The number of a reference that is closed by a brace, and what follows it. -/
def number? (t : Text) : Option (Text × Text) :=
  match t.dropWhile isDecimal with
  | '\x7d' :: tail =>
    if (t.takeWhile isDecimal).isEmpty then none else some (t.takeWhile isDecimal, tail)
  | _ => none

theorem number?_eq_some_iff {t digits tail : Text} :
    number? t = some (digits, tail) ↔ Refers t digits tail := by
  constructor
  · intro h
    unfold number? at h
    split at h
    next tail' hdrop =>
      split at h
      next => cases h
      next hne =>
        cases h
        refine ⟨?_, List.all_eq_true.1 List.all_takeWhile, by simpa using hne⟩
        rw [← hdrop, List.takeWhile_append_dropWhile]
    next => cases h
  · intro h
    rw [number?, h.dropWhile, h.takeWhile]
    simp [h.ne_nil]

theorem length_of_number? {t digits tail : Text} (h : number? t = some (digits, tail)) :
    tail.length < t.length := by
  rw [(number?_eq_some_iff.1 h).eq, List.length_append, List.length_cons]
  omega

/-- A replacement, read from left to right. -/
def parts (r : Text) : List Part :=
  match r with
  | [] => []
  | '\\' :: c :: rest => (escapeItems c).map .item ++ parts rest
  | '$' :: '$' :: rest => .item (.char '$') :: parts rest
  | '$' :: '\x7b' :: rest =>
    match _h : number? rest with
    | some (digits, tail) => .reference digits :: parts tail
    | none => .opening :: parts ('\x7b' :: rest)
  | '$' :: c :: rest =>
    if isGroupDigit c then .item (.group c) :: parts rest
    else .item (.char '$') :: parts (c :: rest)
  | '&' :: rest => .item .whole :: parts rest
  | c :: rest => .item (.char c) :: parts rest
termination_by r.length
decreasing_by
  all_goals simp only [List.length_cons]
  all_goals first
    | omega
    | exact Nat.lt_add_right 2 (length_of_number? _h)

namespace Part

/-- The text of a part in a match. A group that the pattern does not have, or that has not matched,
is empty. -/
def text (m : Match) : Part → Text
  | .item i => i.text m
  | .reference digits =>
    let number := Whole.value 10 ((Whole.digitValues? digits).getD [])
    if m.groups < number then [] else (m.group? number).getD []
  | .opening => ['$']

/-- A part as a piece of a template. -/
def piece : Part → Piece
  | .item i => i.piece
  | .reference digits => .group digits
  | .opening => .char '$'

end Part

/-- The text that a replacement stands for in a match. -/
def reading (m : Match) (r : Text) : Text :=
  (parts r).flatMap (Part.text m)

/-- A literal ampersand of the replacement stands before parts that look like a mark behind it. -/
def forges (r : Text) : Bool :=
  Item.forge ((parts r).flatMap Part.items)

section Parts

variable {ps : List Part} {r : Text}

/-- Text without escapes and dollars is left as it is by the marks. -/
theorem marked_append
    {s : Text} (h : ∀ c ∈ s, c ≠ '\\' ∧ c ≠ '$') (t : Text) : marked (s ++ t) = s ++ marked t := by
  induction s with
  | nil => rfl
  | cons c s ih =>
    obtain ⟨hbackslash, hdollar⟩ := h c List.mem_cons_self
    rw [List.cons_append, marked, ih fun d hd => h d (List.mem_cons_of_mem c hd), List.cons_append]
    · exact fun d tail hc _ => hbackslash hc
    · exact hdollar

/-- With marks in the places of references a replacement is its parts one after the other. -/
theorem marked_eq_parts (r : Text) :
    marked r = (parts r).flatMap (Part.written ampersandMark ['&'] groupMark) := by
  fun_induction parts r with
  | case1 => rfl
  | case2 c rest ih =>
    rw [marked, List.flatMap_append, ← ih, escapeMarked_eq, List.flatMap_map]
    rfl
  | case3 rest ih =>
    rw [marked, List.flatMap_cons, ← ih]
    rfl
  | case4 rest digits tail hnumber ih =>
    have hrefers := number?_eq_some_iff.1 hnumber
    have hplain : ∀ c ∈ '\x7b' :: (digits ++ ['\x7d']), c ≠ '\\' ∧ c ≠ '$' := by
      intro c hc
      rcases List.mem_cons.1 hc with rfl | hc
      · decide
      · rcases List.mem_append.1 hc with hc | hc
        · exact ⟨ne_of_isDecimal (hrefers.decimal c hc) (by decide),
            ne_of_isDecimal (hrefers.decimal c hc) (by decide)⟩
        · rw [List.mem_singleton.1 hc]
          decide
    have hrest := marked_append hplain tail
    simp only [List.cons_append, List.append_assoc, List.nil_append] at hrest
    rw [marked, hrefers.eq, hrest, List.flatMap_cons, ← ih]
    simp [Part.written, reference]
  | case5 rest _ ih =>
    rw [marked, ih, List.flatMap_cons]
    rfl
  | case6 c rest hdollar hbrace hdigit ih =>
    rw [marked, if_pos hdigit, List.flatMap_cons, ← ih]
    · rfl
    · exact hdollar
    · exact hbrace
  | case7 c rest hdollar hbrace hdigit ih =>
    rw [marked, if_neg hdigit, List.flatMap_cons, ih]
    · rfl
    · exact hdollar
    · exact hbrace
  | case8 rest ih =>
    rw [marked, ih, List.flatMap_cons]
    · rfl
    · simp
    · simp
  | case9 c rest hescape hdouble hbrace hdollar hampersand ih =>
    rw [List.flatMap_cons, ← ih]
    by_cases hc : c = '$'
    · -- A dollar comes here only at the end.
      subst hc
      cases rest with
      | nil => rfl
      | cons d rest => exact absurd rfl (hdollar d rest rfl)
    · rw [marked, Part.written, Item.written_char_of_ne hc hampersand]
      · rfl
      · exact hescape
      · exact hc

/-- Without the character that marks are made with all parts are sound. -/
theorem isSound_of_mem_parts (h : '\x00' ∉ r) {p : Part} (hp : p ∈ parts r) : p.IsSound := by
  have hdollar : (Part.item (.char '$')).IsSound := (by decide : ('$' : Char) ≠ '\x00')
  fun_induction parts r with
  | case1 => cases hp
  | case2 c rest ih =>
    simp only [List.mem_cons, not_or] at h
    rcases List.mem_append.1 hp with hp | hp
    · obtain ⟨i, hi, rfl⟩ := List.mem_map.1 hp
      exact isSound_of_mem_escapeItems (Ne.symm h.2.1) hi
    · exact ih h.2.2 hp
  | case3 rest ih =>
    simp only [List.mem_cons, not_or] at h
    rcases List.mem_cons.1 hp with rfl | hp
    · exact hdollar
    · exact ih h.2.2 hp
  | case4 rest digits tail hnumber ih =>
    have hrefers := number?_eq_some_iff.1 hnumber
    rcases List.mem_cons.1 hp with rfl | hp
    · exact ⟨hrefers.decimal, hrefers.ne_nil⟩
    · refine ih (fun hmem => h ?_) hp
      rw [hrefers.eq]
      simp [hmem]
  | case5 rest _ ih =>
    simp only [List.mem_cons, not_or] at h ih
    rcases List.mem_cons.1 hp with rfl | hp
    · trivial
    · exact ih h.2 hp
  | case6 c rest _ _ hdigit ih =>
    simp only [List.mem_cons, not_or] at h
    rcases List.mem_cons.1 hp with rfl | hp
    · exact hdigit
    · exact ih h.2.2 hp
  | case7 c rest _ _ _ ih =>
    simp only [List.mem_cons, not_or] at h ih
    rcases List.mem_cons.1 hp with rfl | hp
    · exact hdollar
    · exact ih h.2 hp
  | case8 rest ih =>
    simp only [List.mem_cons, not_or] at h
    rcases List.mem_cons.1 hp with rfl | hp
    · trivial
    · exact ih h.2 hp
  | case9 c rest _ _ _ _ _ ih =>
    simp only [List.mem_cons, not_or] at h
    rcases List.mem_cons.1 hp with rfl | hp
    · exact Ne.symm h.1
    · exact ih h.2 hp

/-! ## Parts as pieces -/

/-- A character that stands in the number of a reference, or closes it. -/
def endsReference (c : Char) : Bool :=
  isDecimal c || c == '\x7d'

/-- What follows a dollar is a brace, and behind it no number that is closed by a brace. -/
def OpenEnded (ps : List Part) : Prop :=
  ∃ rest, ps = .item (.char '\x7b') :: rest ∧ ∀ digits tail, digits ≠ [] →
    (∀ d ∈ digits, isDecimal d = true) →
    rest ≠ (digits ++ ['\x7d']).map (fun c => .item (.char c)) ++ tail

/-- Every dollar before a brace is one that opens no reference. -/
def Settled : List Part → Prop
  | [] => True
  | p :: rest => (p = .opening → OpenEnded rest) ∧ Settled rest

/-- An escape starts with no character of a number in braces. -/
theorem exists_escapeItems_eq_cons (c : Char) :
    ∃ i rest, escapeItems c = i :: rest ∧ ∀ d, i = .char d → endsReference d = false := by
  unfold escapeItems
  split
  next => exact ⟨.group c, [], rfl, by simp⟩
  next =>
    split
    next hplain =>
      refine ⟨.char c, [], rfl, ?_⟩
      rintro d ⟨⟩
      have hescapes : ∀ c ∈ plainEscapes, endsReference c = false :=
        List.all_iff_forall_prop.1 (by decide)
      simp only [Bool.or_eq_true, beq_iff_eq, List.contains_iff_mem] at hplain
      rcases hplain with ((rfl | hplain) | rfl) | rfl
      · decide
      · exact hescapes c hplain
      · decide
      · decide
    next =>
      refine ⟨.char '\\', [.char c], rfl, ?_⟩
      rintro d ⟨⟩
      decide

/-- A part that is a character of a number in braces is written as that character. -/
theorem exists_of_parts_eq_cons
    {c : Char} (hc : endsReference c = true) (h : parts r = .item (.char c) :: ps) :
    ∃ rest, r = c :: rest ∧ parts rest = ps := by
  have hne : ∀ d, endsReference d = false → d ≠ c := by
    rintro d hd rfl
    rw [hc] at hd
    cases hd
  revert h
  fun_cases parts r with
  | case1 =>
    intro h
    cases h
  | case2 d rest =>
    obtain ⟨i, is, hitems, hend⟩ := exists_escapeItems_eq_cons d
    rw [hitems]
    rintro ⟨⟩
    exact absurd rfl (hne c (hend c rfl))
  | case3 rest =>
    rintro ⟨⟩
    exact absurd rfl (hne '$' (by decide))
  | case4 rest digits tail _ =>
    intro h
    cases h
  | case5 rest _ =>
    intro h
    cases h
  | case6 d rest _ _ _ =>
    intro h
    cases h
  | case7 d rest _ _ _ =>
    rintro ⟨⟩
    exact absurd rfl (hne '$' (by decide))
  | case8 rest =>
    intro h
    cases h
  | case9 d rest _ _ _ _ _ =>
    rintro ⟨⟩
    exact ⟨rest, rfl, rfl⟩

/-- Parts that are the characters of a number in braces are written as these characters. -/
theorem exists_of_parts_eq_append
    {t : Text} (ht : ∀ c ∈ t, endsReference c = true)
    (h : parts r = t.map (fun c => .item (.char c)) ++ ps) :
    ∃ rest, r = t ++ rest ∧ parts rest = ps := by
  induction t generalizing r with
  | nil => exact ⟨r, rfl, h⟩
  | cons c t ih =>
    obtain ⟨rest, rfl, hrest⟩ := exists_of_parts_eq_cons (ht c List.mem_cons_self) h
    obtain ⟨rest, rfl, hps⟩ := ih (fun d hd => ht d (List.mem_cons_of_mem c hd)) hrest
    exact ⟨rest, rfl, hps⟩

theorem endsReference_of_mem
    {digits : Text} (h : ∀ d ∈ digits, isDecimal d = true) {c : Char}
    (hc : c ∈ digits ++ ['\x7d']) : endsReference c = true := by
  rw [endsReference, Bool.or_eq_true, beq_iff_eq]
  rcases List.mem_append.1 hc with hc | hc
  · exact .inl (h c hc)
  · exact .inr (List.mem_singleton.1 hc)

theorem Settled.append_items {is : List Item} (h : Settled ps) : Settled (is.map .item ++ ps) := by
  induction is with
  | nil => exact h
  | cons i is ih =>
    refine ⟨?_, ih⟩
    intro hopening
    cases hopening

/-- In a replacement the dollars before braces are just those that open no reference. -/
theorem settled_parts (r : Text) : Settled (parts r) := by
  fun_induction parts r with
  | case1 => trivial
  | case2 c rest ih => exact ih.append_items
  | case3 rest ih => exact ⟨by simp, ih⟩
  | case4 rest digits tail hnumber ih => exact ⟨by simp, ih⟩
  | case5 rest hnumber ih =>
    refine ⟨fun _ => ?_, ih⟩
    have hbrace : parts ('\x7b' :: rest) = .item (.char '\x7b') :: parts rest := by
      rw [parts] <;> simp
    refine ⟨parts rest, hbrace, fun digits tail hne hdigits heq => ?_⟩
    obtain ⟨behind, hrest, -⟩ :=
      exists_of_parts_eq_append (fun c hc => endsReference_of_mem hdigits hc) heq
    have hrefers : Refers rest digits behind := by
      refine ⟨?_, hdigits, hne⟩
      rw [hrest, List.append_assoc, List.singleton_append]
    rw [number?_eq_some_iff.2 hrefers] at hnumber
    cases hnumber
  | case6 c rest _ _ _ ih => exact ⟨by simp, ih⟩
  | case7 c rest _ _ _ ih => exact ⟨by simp, ih⟩
  | case8 rest ih => exact ⟨by simp, ih⟩
  | case9 c rest _ _ _ _ _ ih => exact ⟨by simp, ih⟩

/-- A template that starts with a character of a number in braces starts with the part of that
character. -/
theorem exists_of_template_eq_cons
    {c : Char} {t u : Text} (hc : endsReference c = true)
    (hu : ∀ d ∈ u.head?, endsReference d = false)
    (h : ps.flatMap Part.template ++ u = c :: t) :
    ∃ rest, ps = .item (.char c) :: rest ∧ rest.flatMap Part.template ++ u = t := by
  have hdollar : c ≠ '$' := by
    rintro rfl
    exact absurd hc (by decide)
  cases ps with
  | nil =>
    rw [List.flatMap_nil, List.nil_append] at h
    rw [hu c (by rw [h, List.head?_cons]; rfl)] at hc
    cases hc
  | cons p rest =>
    rw [List.flatMap_cons, List.append_assoc] at h
    cases p with
    | reference digits => exact absurd (List.cons.inj h).1.symm hdollar
    | opening => exact absurd (List.cons.inj h).1.symm hdollar
    | item i =>
      cases i with
      | whole => exact absurd (List.cons.inj h).1.symm hdollar
      | group d => exact absurd (List.cons.inj h).1.symm hdollar
      | char d =>
        simp only [Part.template, Part.written, Item.written] at h
        split at h
        next => exact absurd (List.cons.inj h).1.symm hdollar
        next =>
          split at h
          next =>
            rw [← (List.cons.inj h).1] at hc
            exact absurd hc (by decide)
          next =>
            obtain ⟨rfl, hrest⟩ := List.cons.inj h
            exact ⟨rest, rfl, hrest⟩

theorem exists_of_template_eq_append
    {s t u : Text} (hs : ∀ c ∈ s, endsReference c = true)
    (hu : ∀ d ∈ u.head?, endsReference d = false)
    (h : ps.flatMap Part.template ++ u = s ++ t) :
    ∃ rest, ps = s.map (fun c => .item (.char c)) ++ rest := by
  induction s generalizing ps with
  | nil => exact ⟨ps, rfl⟩
  | cons c s ih =>
    obtain ⟨rest, rfl, hrest⟩ := exists_of_template_eq_cons (hs c List.mem_cons_self) hu h
    obtain ⟨rest, rfl⟩ := ih (fun d hd => hs d (List.mem_cons_of_mem c hd)) hrest
    exact ⟨rest, rfl⟩

/-- The parts of a template are its pieces, also when the template goes on in another way behind
them. -/
theorem pieces_parts_append
    (after : List Part) (u : Text) (hsound : ∀ p ∈ ps, p.IsSound) (hsettled : Settled (ps ++ after))
    (hafter : ∀ p ∈ after.head?, p ≠ .item (.char '\x7b'))
    (hu : ∀ c ∈ u.head?, endsReference c = false) :
    pieces (ps.flatMap Part.template ++ u) = ps.map Part.piece ++ pieces u := by
  induction ps with
  | nil => rfl
  | cons p rest ih =>
    have hp := hsound p List.mem_cons_self
    rw [List.flatMap_cons, List.append_assoc, List.map_cons, List.cons_append,
      ← ih (fun q hq => hsound q (List.mem_cons_of_mem p hq)) hsettled.2]
    cases p with
    | item i => exact pieces_template_append hp _
    | reference digits =>
      have hrefers : Refers (digits ++ '\x7d' :: (rest.flatMap Part.template ++ u)) digits
          (rest.flatMap Part.template ++ u) := ⟨rfl, hp.1, hp.2⟩
      rw [Part.piece, ← hrefers.pieces]
      simp [Part.template, Part.written, reference]
    | opening =>
      obtain ⟨behind, hbehind, hopen⟩ := hsettled.1 rfl
      cases rest with
      | nil =>
        have hhead : after = .item (.char '\x7b') :: behind := hbehind
        refine absurd rfl (hafter (.item (.char '\x7b')) ?_)
        rw [hhead]
        rfl
      | cons q rest =>
        obtain ⟨rfl, rfl⟩ := List.cons.inj hbehind
        have halone : StandsAlone '$' ('\x7b' :: (rest.flatMap Part.template ++ u)) := by
          rintro - d tail ⟨⟩
          refine ⟨by decide, fun _ digits tail' hrefers => ?_⟩
          have hsplit : rest.flatMap Part.template ++ u = (digits ++ ['\x7d']) ++ tail' := by
            rw [hrefers.eq, List.append_assoc, List.singleton_append]
          obtain ⟨rest', rfl⟩ := exists_of_template_eq_append
            (fun c hc => endsReference_of_mem hrefers.decimal hc) hu hsplit
          exact hopen digits (rest' ++ after) hrefers.ne_nil hrefers.decimal (by simp)
        exact halone.pieces

/-! ## Texts of parts -/

theorem Part.expand_piece
    {p : Part} (hp : p.IsSound)
    (hlimit : ∀ digits, p = .reference digits → digits.length ≤ TooManyDigits.limit) (m : Match) :
    p.piece.expand (some m) = .ok (p.text m) := by
  cases p with
  | item i => exact Item.expand_piece hp m
  | opening => rfl
  | reference digits =>
    obtain ⟨values, hvalues, hlength⟩ := exists_digitValues? hp.1
    have hnumber : Whole.ofDigits values = .ok (Whole.value 10 values) := by
      rw [Whole.ofDigits, if_neg (by have := hlimit digits rfl; omega)]
    rw [piece, Piece.expand, text, hvalues, Option.getD_some, hnumber]
    rfl

/-- A template whose pieces start with some that have a text and with a character expands to a text
that starts with both. -/
theorem exists_expand_append
    {α : Type} {m : Option Match} {piece : α → Piece} {text : α → Text} {xs : List α}
    (h : ∀ x ∈ xs, (piece x).expand m = .ok (text x)) {c : Char} {rest : List Piece} {t new : Text}
    (hpieces : pieces t = xs.map piece ++ .char c :: rest) (hexpand : expand m t = .ok new) :
    ∃ behind, new = xs.flatMap text ++ c :: behind := by
  obtain ⟨texts, htexts, hnew⟩ := exists_of_bind_eq_ok hexpand
  rw [hpieces, List.mapM_append, mapM_expand h] at htexts
  obtain ⟨_, ⟨⟩, htexts⟩ := exists_of_bind_eq_ok htexts
  obtain ⟨behind, hbehind, htexts⟩ := exists_of_bind_eq_ok htexts
  rw [List.mapM_cons] at hbehind
  obtain ⟨_, ⟨⟩, hbehind⟩ := exists_of_bind_eq_ok hbehind
  obtain ⟨others, -, hothers⟩ := exists_of_bind_eq_ok hbehind
  cases hothers
  cases htexts
  cases hnew
  exact ⟨others.flatten, by simp [List.flatMap_def]⟩

/-- Converting a replacement and expanding its template gives the text of the reading exactly when
no mark is forged. -/
theorem expand_convert_eq_reading_iff
    {r : Text} (hnul : '\x00' ∉ r)
    (hlimit : ∀ digits, .reference digits ∈ parts r → digits.length ≤ TooManyDigits.limit)
    (m : Match) :
    expand (some m) (convert r) = .ok (reading m r) ↔ forges r = false := by
  have hsound : ∀ p ∈ parts r, p.IsSound := fun p hp => isSound_of_mem_parts hnul hp
  have htext : ∀ p ∈ parts r, p.piece.expand (some m) = .ok (p.text m) := fun p hp =>
    Part.expand_piece (hsound p hp) (fun digits hreference => hlimit digits (hreference ▸ hp)) m
  constructor
  · intro hexpand
    by_contra hforge
    rw [Bool.not_eq_false] at hforge
    obtain ⟨before, after, tail, hsplit, hconvert⟩ :=
      exists_convert_parts_of_forge (marked_eq_parts r) hsound hforge
    have hmem : ∀ p ∈ before, p ∈ parts r := fun p hp => hsplit ▸ List.mem_append_left _ hp
    have hpieces := pieces_parts_append (.item (.char '&') :: after) ('\x00' :: tail)
      (fun p hp => hsound p (hmem p hp)) (hsplit ▸ settled_parts r)
      (by rintro p ⟨⟩; simp) (by rintro c ⟨⟩; decide)
    rw [← hconvert, (standsAlone_of_ne (by decide) tail).pieces] at hpieces
    obtain ⟨behind, hbehind⟩ :=
      exists_expand_append (fun p hp => htext p (hmem p hp)) hpieces hexpand
    rw [reading, hsplit, List.flatMap_append] at hbehind
    -- The texts agree up to the ampersand.
    have hfirst := (List.cons.inj (List.append_cancel_left hbehind)).1
    exact absurd hfirst (by decide)
  · intro hforge
    have hpieces := pieces_parts_append [] [] hsound
      (by rw [List.append_nil]; exact settled_parts r) (by simp) (by simp)
    rw [List.append_nil, pieces_nil, List.append_nil] at hpieces
    rw [convert_parts_of_not_forge (marked_eq_parts r) hsound hforge, expand, hpieces,
      mapM_expand htext]
    rfl

end Parts

/-- Every form of a replacement: groups by an escape, a dollar and braces, the whole match, escapes,
and dollars that refer to nothing. -/
def allForms : Text :=
  "\\1$2$\x7b03\x7d&\\&\\$$$$\x7bx\\.\\\x7b\\q$".toList

theorem expand_convert_allForms :
    '\x00' ∉ allForms ∧
      (∀ digits, Part.reference digits ∈ parts allForms → digits.length ≤ TooManyDigits.limit) ∧
      ∀ m, expand (some m) (convert allForms) = .ok ((Item.group '1').text m ++
        (Item.group '2').text m ++ (Part.reference ['0', '3']).text m ++ m.whole ++
        "&$$$\x7bx.\\\x7b\\q$".toList) := by
  have hnul : '\x00' ∉ allForms := by decide
  have hparts : parts allForms =
      [.item (.group '1'), .item (.group '2'), .reference ['0', '3'], .item .whole,
        .item (.char '&'), .item (.char '$'), .item (.char '$'), .opening, .item (.char '\x7b'),
        .item (.char 'x'), .item (.char '.'), .item (.char '\\'), .item (.char '\x7b'),
        .item (.char '\\'), .item (.char 'q'), .item (.char '$')] := by
    decide +kernel
  have hlimit : ∀ digits, Part.reference digits ∈ parts allForms →
      digits.length ≤ TooManyDigits.limit := by
    intro digits hmem
    rw [hparts] at hmem
    simp only [List.mem_cons, reduceCtorEq, Part.reference.injEq, false_or, or_false,
      List.not_mem_nil] at hmem
    rw [hmem]
    decide
  have hforge : forges allForms = false := by
    rw [forges, hparts]
    decide
  refine ⟨hnul, hlimit, fun m => ?_⟩
  rw [(expand_convert_eq_reading_iff hnul hlimit m).2 hforge, reading, hparts]
  simp [Part.text, Item.text]

/-- A word of marks between two escaped ampersands is taken for a reference. -/
theorem expand_convert_forgery :
    (∀ m, reading m "\\&BACKREF_1\\&".toList = "&BACKREF_1&".toList) ∧
      ∀ m, expand (some m) (convert "\\&BACKREF_1\\&".toList) ≠ .ok "&BACKREF_1&".toList := by
  have hparts : parts "\\&BACKREF_1\\&".toList =
      "&BACKREF_1&".toList.map fun c => .item (.char c) := by
    decide +kernel
  refine ⟨fun m => ?_, fun m hexpand => ?_⟩
  · rw [reading, hparts]
    rfl
  · have hnul := mem_expand (c := '\x00') ⟨by decide, by decide, by decide⟩ (by decide) (by decide)
      hexpand
    exact absurd hnul (by decide)

end Redline.Template
