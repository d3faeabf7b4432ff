import Redline.Proofs.Fragments
import Redline.Proofs.Numeral
import Redline.Proofs.Rounds
import Redline.Proofs.Template

/-!
# Styles land on the texts of their blocks

The places of blocks count characters of the template, and the styles of their texts count units of
the text that the template expands to.  A place is carried over by expanding the part of the
template before it.  This module says when that is right: in a replacement whose dollars are all
parts of complete references outside of blocks, no reference crosses the place of a block, so the
parts of the template expand to the parts of the text, and each style covers exactly the text that
its block has put in.
-/

namespace Redline

namespace Template

/-- The number that the digits of a reference write. -/
def groupNumber (digits : Text) : Nat :=
  Whole.value 10 ((Whole.digitValues? digits).getD [])

theorem reference_append (digits t : Text) :
    reference digits ++ t = '$' :: '\x7b' :: (digits ++ '\x7d' :: t) := by
  simp [reference]

theorem ne_nil_of_groupNumber {digits : Text} (h : groupNumber digits ≠ 0) : digits ≠ [] := by
  rintro rfl
  exact h rfl

/-- The text is made of characters other than the dollar, and of complete references to groups other
than the whole match. -/
inductive RefersOnly : Text → Prop where
  | nil : RefersOnly []
  | char {c : Char} {t : Text} (hc : c ≠ '$') (ht : RefersOnly t) : RefersOnly (c :: t)
  | reference {digits t : Text} (hdigits : ∀ d ∈ digits, isDecimal d = true)
    (hnumber : groupNumber digits ≠ 0) (ht : RefersOnly t) : RefersOnly (reference digits ++ t)

namespace RefersOnly

theorem append {s t : Text} (hs : '$' ∉ s) (ht : RefersOnly t) : RefersOnly (s ++ t) := by
  induction s with
  | nil => exact ht
  | cons c s ih =>
    simp only [List.mem_cons, not_or] at hs
    exact .char (Ne.symm hs.1) (ih hs.2)

theorem of_cons {c : Char} {t : Text} (h : RefersOnly (c :: t)) (hc : c ≠ '$') : RefersOnly t := by
  generalize hwhole : c :: t = whole at h
  cases h with
  | nil => cases hwhole
  | char _ ht =>
    cases hwhole
    exact ht
  | reference =>
    cases hwhole
    exact absurd rfl hc

theorem of_append {s t : Text} (h : RefersOnly (s ++ t)) (hs : '$' ∉ s) : RefersOnly t := by
  induction s with
  | nil => exact h
  | cons c s ih =>
    simp only [List.mem_cons, not_or] at hs
    exact ih (h.of_cons (Ne.symm hs.1)) hs.2

theorem exists_of_dollar {t : Text} (h : RefersOnly ('$' :: t)) :
    ∃ digits tail, (∀ d ∈ digits, isDecimal d = true) ∧ groupNumber digits ≠ 0 ∧
      t = '\x7b' :: (digits ++ '\x7d' :: tail) ∧ RefersOnly tail := by
  generalize hwhole : '$' :: t = whole at h
  cases h with
  | nil => cases hwhole
  | char hc =>
    cases hwhole
    exact absurd rfl hc
  | @reference digits tail hdigits hnumber htail =>
    rw [reference_append] at hwhole
    exact ⟨digits, tail, hdigits, hnumber, (List.cons.inj hwhole).2, htail⟩

end RefersOnly

variable {m : Option Match} {s t : Text}

/-- A template that is cut between its pieces expands part by part. -/
theorem expand_append (h : pieces (s ++ t) = pieces s ++ pieces t) :
    expand m (s ++ t) = (do
      let before ← expand m s
      let behind ← expand m t
      return before ++ behind) := by
  simp only [expand, h, List.mapM_append, bind_assoc, pure_bind, List.flatten_append]

theorem pieces_of_not_mem (h : '$' ∉ s) : pieces s = s.map .char := by
  have hend := pieces_append h []
  rwa [List.append_nil, pieces_nil, List.append_nil] at hend

theorem expand_of_not_mem (h : '$' ∉ s) : expand m s = .ok s := by
  have htexts := @mapM_expand Char m .char (fun c => [c]) s fun _ _ => rfl
  rw [expand, pieces_of_not_mem h, htexts]
  exact congrArg Except.ok (List.flatMap_singleton' s)

theorem expand_plain_append (h : '$' ∉ s) (t : Text) :
    expand m (s ++ t) = (do
      let behind ← expand m t
      return s ++ behind) := by
  have hcut : pieces (s ++ t) = pieces s ++ pieces t := by
    rw [pieces_append h, pieces_of_not_mem h]
  rw [expand_append hcut, expand_of_not_mem h]
  rfl

theorem pieces_reference_append {digits : Text} (hdigits : ∀ d ∈ digits, isDecimal d = true)
    (hnumber : groupNumber digits ≠ 0) (t : Text) :
    pieces (reference digits ++ t) = .group digits :: pieces t := by
  rw [reference_append]
  exact Refers.pieces ⟨rfl, hdigits, ne_nil_of_groupNumber hnumber⟩

theorem pieces_numbered {digits : Text} (hdigits : ∀ d ∈ digits, isDecimal d = true)
    (hnumber : groupNumber digits ≠ 0) : pieces (reference digits) = [.group digits] := by
  have hend := pieces_reference_append hdigits hnumber []
  rwa [List.append_nil, pieces_nil] at hend

theorem eq_of_expand_group {found : Match} {digits text : Text}
    (h : Piece.expand (some found) (.group digits) = .ok text) :
    text = if groupNumber digits > found.groups then []
      else (found.group? (groupNumber digits)).getD [] := by
  obtain ⟨index, hindex, h⟩ := exists_of_bind_eq_ok h
  unfold Whole.ofDigits at hindex
  split at hindex
  · cases hindex
  · cases hindex
    cases h
    rfl

theorem isDecimal_of_mem_pieces {digits : Text} (h : Piece.group digits ∈ pieces t) :
    ∀ d ∈ digits, isDecimal d = true := by
  induction t using induction_by_piece with
  | nil => simp at h
  | dollar rest ih => exact ih (by simpa using h)
  | reference rest number tail hrefers ih =>
    rw [hrefers.pieces] at h
    rcases List.mem_cons.1 h with h | h
    · cases h
      exact hrefers.decimal
    · exact ih h
  | char c rest halone ih =>
    rw [halone.pieces] at h
    exact ih (by simpa using h)

theorem exists_expand_group_iff
    {found : Match} {digits : Text} (h : ∀ d ∈ digits, isDecimal d = true) :
    (∃ text, Piece.expand (some found) (.group digits) = .ok text) ↔
      digits.length ≤ TooManyDigits.limit := by
  obtain ⟨values, hvalues, hlength⟩ := exists_digitValues? h
  rw [Piece.expand, hvalues, Option.getD_some, ← hlength]
  constructor
  · rintro ⟨text, htext⟩
    obtain ⟨index, hindex, -⟩ := exists_of_bind_eq_ok htext
    unfold Whole.ofDigits at hindex
    split at hindex
    · cases hindex
    · next hlimit => exact Nat.le_of_not_lt hlimit
  · intro hlimit
    rw [Whole.ofDigits, if_neg (Nat.not_lt.2 hlimit)]
    exact ⟨_, rfl⟩

/-- A template has a text for a match unless the number of a group has too many digits. -/
theorem exists_render_iff :
    (∃ text, render m t = .ok text) ↔
      ∀ found ∈ m, ∀ digits, Piece.group digits ∈ pieces t →
        digits.length ≤ TooManyDigits.limit := by
  constructor
  · rintro ⟨text, htext⟩ found rfl digits hmem
    obtain ⟨_, hexpand, -⟩ := exists_of_bind_eq_ok htext
    obtain ⟨texts, htexts, -⟩ := exists_of_bind_eq_ok hexpand
    obtain ⟨part, -, hpart⟩ := exists_of_mem_forall₂ (forall₂_of_mapM_eq_ok htexts).flip hmem
    exact (exists_expand_group_iff (isDecimal_of_mem_pieces hmem)).1 ⟨part, hpart⟩
  · intro hlimit
    have hpieces : ∀ p ∈ pieces t, ∃ text, p.expand m = .ok text := by
      intro p hp
      cases p with
      | char c => exact ⟨[c], rfl⟩
      | group digits =>
        cases m with
        | none => exact ⟨[], rfl⟩
        | some found =>
          have hlength := hlimit found rfl digits hp
          exact (exists_expand_group_iff (isDecimal_of_mem_pieces hp)).2 hlength
    obtain ⟨texts, htexts⟩ := exists_mapM_eq_ok hpieces
    refine ⟨Text.replaceAll "\\n".toList ['\n'] texts.flatten, ?_⟩
    rw [render, expand, htexts]
    rfl

/-- No group of the match that has a number of its own has a backslash in it. -/
def GroupsUnescaped (m : Option Match) : Prop :=
  ∀ found ∈ m, ∀ n, n ≠ 0 → ∀ text ∈ found.group? n, '\\' ∉ text

theorem groupsUnescaped_of_subject {found : Match} (h : '\\' ∉ found.subject) :
    GroupsUnescaped (some found) := by
  rintro _ ⟨⟩ n hn text htext hmem
  rw [Option.mem_def, Match.group?, if_neg (by simpa using hn)] at htext
  obtain ⟨span, -, rfl⟩ := Option.map_eq_some_iff.1 htext
  exact h (List.mem_of_mem_take (List.mem_of_mem_drop hmem))

theorem GroupsUnescaped.not_mem_reference {digits text : Text} (hm : GroupsUnescaped m)
    (hdigits : ∀ d ∈ digits, isDecimal d = true) (hnumber : groupNumber digits ≠ 0)
    (h : expand m (reference digits) = .ok text) : '\\' ∉ text := by
  rw [expand, pieces_numbered hdigits hnumber] at h
  obtain ⟨texts, htexts, h⟩ := exists_of_bind_eq_ok h
  rw [List.mapM_cons, List.mapM_nil] at htexts
  obtain ⟨part, hpart, htexts⟩ := exists_of_bind_eq_ok htexts
  cases htexts
  cases h
  rw [List.flatten_singleton]
  cases m with
  | none =>
    cases hpart
    exact List.not_mem_nil
  | some found =>
    rw [eq_of_expand_group hpart]
    split
    · exact List.not_mem_nil
    · cases hgroup : found.group? (groupNumber digits) with
      | none => exact List.not_mem_nil
      | some text => exact hm found rfl (groupNumber digits) hnumber text hgroup

end Template

/-! ## Fragments between which templates can be cut -/

namespace Fragment

/-- The fragments make up whole references, and there are no other dollars and no backslashes in
them. -/
inductive Complete : List Fragment → Prop where
  | nil : Complete []
  | cons {f : Fragment} {fs : List Fragment} (hdollar : '$' ∉ f.text) (hescape : '\\' ∉ f.text)
    (hfs : Complete fs) : Complete (f :: fs)
  | reference {digits : Text} {fs : List Fragment} (hdigits : ∀ d ∈ digits, isDecimal d = true)
    (hnumber : Template.groupNumber digits ≠ 0) (hfs : Complete fs) :
    Complete ((Template.reference digits).map .char ++ fs)

namespace Complete

variable {fs gs : List Fragment} {m : Option Match}

theorem of_forall (h : ∀ f ∈ fs, '$' ∉ f.text ∧ '\\' ∉ f.text) : Complete fs := by
  induction fs with
  | nil => exact .nil
  | cons f fs ih =>
    obtain ⟨hdollar, hescape⟩ := h f List.mem_cons_self
    exact .cons hdollar hescape (ih fun g hg => h g (List.mem_cons_of_mem f hg))

theorem append (hfs : Complete fs) (hgs : Complete gs) : Complete (fs ++ gs) := by
  induction hfs with
  | nil => exact hgs
  | cons hdollar hescape _ ih => exact .cons hdollar hescape ih
  | reference hdigits hnumber _ ih =>
    rw [List.append_assoc]
    exact .reference hdigits hnumber ih

theorem of_cons {c : Char} (h : Complete (.char c :: fs)) (hc : c ≠ '$') : Complete fs := by
  generalize hwhole : Fragment.char c :: fs = whole at h
  cases h with
  | nil => cases hwhole
  | cons _ _ hfs =>
    cases hwhole
    exact hfs
  | reference =>
    cases hwhole
    exact absurd rfl hc

theorem of_append {s : Text} (h : Complete (s.map .char ++ fs)) (hs : '$' ∉ s) : Complete fs := by
  induction s with
  | nil => exact h
  | cons c s ih =>
    simp only [List.mem_cons, not_or] at hs
    exact ih (h.of_cons (Ne.symm hs.1)) hs.2

/-- A template can be cut behind complete fragments. -/
theorem pieces_append (h : Complete fs) (u : Text) :
    Template.pieces (fs.flatMap text ++ u) =
      Template.pieces (fs.flatMap text) ++ Template.pieces u := by
  induction h with
  | nil => rw [List.flatMap_nil, Template.pieces_nil, List.nil_append, List.nil_append]
  | @cons f fs hdollar hescape hfs ih =>
    rw [List.flatMap_cons, List.append_assoc, Template.pieces_append hdollar,
      Template.pieces_append hdollar, ih, List.append_assoc]
  | @reference digits fs hdigits hnumber hfs ih =>
    rw [List.flatMap_append, flatMap_text_map_char, List.append_assoc,
      Template.pieces_reference_append hdigits hnumber,
      Template.pieces_reference_append hdigits hnumber, ih, List.cons_append]

theorem not_mem_of_expand (h : Complete fs) (hm : Template.GroupsUnescaped m) {x : Text}
    (hx : Template.expand m (fs.flatMap text) = .ok x) : '\\' ∉ x := by
  induction h generalizing x with
  | nil =>
    rw [List.flatMap_nil, Template.expand, Template.pieces_nil] at hx
    cases hx
    exact List.not_mem_nil
  | @cons f fs hdollar hescape hfs ih =>
    rw [List.flatMap_cons, Template.expand_plain_append hdollar] at hx
    obtain ⟨behind, hbehind, hx⟩ := exists_of_bind_eq_ok hx
    cases hx
    rw [List.mem_append, not_or]
    exact ⟨hescape, ih hbehind⟩
  | @reference digits fs hdigits hnumber hfs ih =>
    have hcut : Template.pieces (Template.reference digits ++ fs.flatMap text) =
        Template.pieces (Template.reference digits) ++ Template.pieces (fs.flatMap text) := by
      rw [Template.pieces_reference_append hdigits hnumber,
        Template.pieces_numbered hdigits hnumber]
      rfl
    rw [List.flatMap_append, flatMap_text_map_char, Template.expand_append hcut] at hx
    obtain ⟨before, hbefore, hx⟩ := exists_of_bind_eq_ok hx
    obtain ⟨behind, hbehind, hx⟩ := exists_of_bind_eq_ok hx
    cases hx
    rw [List.mem_append, not_or]
    exact ⟨hm.not_mem_reference hdigits hnumber hbefore, ih hbehind⟩

/-- Without backslashes there is no newline to decode. -/
theorem render_eq (h : Complete fs) (hm : Template.GroupsUnescaped m) :
    Template.render m (fs.flatMap text) = Template.expand m (fs.flatMap text) := by
  cases hx : Template.expand m (fs.flatMap text) with
  | error e =>
    rw [Template.render, hx]
    rfl
  | ok x =>
    have hkept := Text.replaceAll_append (h.not_mem_of_expand hm hx) ['n'] ['\n'] []
    rw [List.append_nil, Text.replaceAll_nil, List.append_nil] at hkept
    rw [Template.render, hx]
    exact congrArg Except.ok hkept

end Complete

end Fragment

/-! ## Styles of inserted texts -/

theorem Text.units_pos {t : Text} (h : t ≠ []) : 0 < t.units := by
  obtain ⟨c, rest, rfl⟩ := List.exists_cons_of_ne_nil h
  have hc : 0 < charUnits c := by
    unfold charUnits
    split
    · exact Nat.one_pos
    · exact Nat.two_pos
  rw [Text.units_cons]
  omega

/-- The requests for the style of an inserted text cover it in the text that is written at a base
index: all of them have one range, which holds the units of the inserted text.  A text that is
inserted for a flag is styled unless it is empty. -/
structure Insertion.Lands (i : Insertion) (base : Int) (text : Text) (requests : List Request) :
    Prop where
  range : requests ≠ [] → ∃ start stop : Int, base ≤ start ∧ start < stop ∧
    stop ≤ base + text.units ∧ requests = Request.styleByDirective i.directive ⟨start, stop⟩ ∧
    (∀ r ∈ requests, ∃ settings mask, r = .styleText ⟨start, stop⟩ settings mask) ∧
    ((Body.ofText text).drop (start - base).toNat).take (stop - start).toNat = Body.ofText i.text
  styled : (∃ flag, i.directive = .ofFlag flag) → i.text ≠ [] → requests ≠ []

namespace Insertion

variable {i : Insertion} {base : Int}

theorem lands_nil (h : i.text = []) (text : Text) : i.Lands base text [] :=
  ⟨fun hne => absurd rfl hne, fun _ hne => absurd h hne⟩

theorem lands_between (h : i.text ≠ []) (before behind : Text) :
    i.Lands base (before ++ i.text ++ behind) (Request.styleByDirective i.directive
      ⟨base + before.units, base + (before ++ i.text).units⟩) := by
  have hpos := Text.units_pos h
  constructor
  · intro _
    refine ⟨_, _, ?_, ?_, ?_, rfl, fun r hr => Request.exists_of_mem_styleByDirective hr, ?_⟩
    · omega
    · rw [Text.units_append]
      omega
    · rw [Text.units_append (before ++ i.text)]
      omega
    · have hstart : (base + before.units - base).toNat = (Body.ofText before).length := by
        rw [Body.length_ofText]
        omega
      have hlength : (base + (before ++ i.text).units - (base + before.units)).toNat =
          (Body.ofText i.text).length := by
        rw [Body.length_ofText, Text.units_append]
        omega
      rw [hstart, hlength, Body.ofText_append, Body.ofText_append, List.append_assoc,
        List.drop_left, List.take_left]
  · rintro ⟨flag, hflag⟩ -
    have hclear : (i.directive.reset || !i.directive.keepStyle) = true := by
      rw [hflag]
      cases flag <;> rfl
    rw [Request.styleByDirective, if_pos hclear]
    exact List.cons_ne_nil _ _

end Insertion

namespace Fragment.Complete

variable {fs before : List Fragment} {m : Option Match} {i : Insertion}

/-- A place behind complete fragments is carried over to the end of what they expand to. -/
theorem offsetOf_eq (h : Complete fs) (hm : Template.GroupsUnescaped m) {x : Text}
    (hx : Template.expand m (fs.flatMap text) = .ok x) (rest : Text) :
    Request.offsetOf m (fs.flatMap text ++ rest) (fs.flatMap text).length = .ok x.units := by
  rw [Request.offsetOf, List.take_left, h.render_eq hm, hx]
  rfl

/-- The style of one block lands on its text. -/
theorem exists_styleInserted (hbefore : Complete before) (hdollar : '$' ∉ i.text)
    (hescape : '\\' ∉ i.text) (hm : Template.GroupsUnescaped m) {rest whole : Text}
    (hwhole : Template.expand m (before.flatMap text ++ (i.text ++ rest)) = .ok whole)
    {raw : Text} {extent : Extent}
    (hextent : extent = .inserted ((before.flatMap text).length + i.text.length) ∨
      i.text = [] ∧ ∀ stop, extent ≠ .inserted stop) (base : Int) :
    ∃ requests, Request.styleInserted base (before.flatMap text ++ (i.text ++ rest)) m
        ⟨i.directive, (before.flatMap text).length, extent, raw⟩ = .ok requests ∧
      i.Lands base whole requests := by
  rcases hextent with rfl | ⟨hempty, hother⟩
  · -- The template is cut at both ends of the text that the block has put in.
    rw [Template.expand_append (hbefore.pieces_append _), Template.expand_plain_append hdollar]
      at hwhole
    obtain ⟨start, hstart, hwhole⟩ := exists_of_bind_eq_ok hwhole
    obtain ⟨behind, hbehind, hwhole⟩ := exists_of_bind_eq_ok hwhole
    obtain ⟨last, -, hbehind⟩ := exists_of_bind_eq_ok hbehind
    cases hbehind
    cases hwhole
    have hfirst : Request.offsetOf m (before.flatMap text ++ (i.text ++ rest))
        (before.flatMap text).length = .ok start.units :=
      hbefore.offsetOf_eq hm hstart _
    have hsecond : Request.offsetOf m (before.flatMap text ++ (i.text ++ rest))
        ((before.flatMap text).length + i.text.length) = .ok (start ++ i.text).units := by
      have hupto : Complete (before ++ [.inserted raw i]) :=
        hbefore.append (.cons hdollar hescape .nil)
      have htext : (before ++ [inserted raw i]).flatMap text = before.flatMap text ++ i.text := by
        rw [List.flatMap_append, List.flatMap_singleton]
        rfl
      rw [← List.append_assoc, ← List.length_append, ← htext]
      apply hupto.offsetOf_eq hm
      rw [htext, Template.expand_append (hbefore.pieces_append _), hstart,
        Template.expand_of_not_mem hdollar]
      rfl
    have hstyle : Request.styleInserted base (before.flatMap text ++ (i.text ++ rest)) m
        ⟨i.directive, (before.flatMap text).length,
          .inserted ((before.flatMap text).length + i.text.length), raw⟩ =
        .ok (if start.units < (start ++ i.text).units then
          Request.styleByDirective i.directive
            ⟨base + start.units, base + (start ++ i.text).units⟩ else []) := by
      simp only [Request.styleInserted, hfirst, hsecond]
      rfl
    refine ⟨_, hstyle, ?_⟩
    rw [← List.append_assoc]
    by_cases hempty : i.text = []
    · rw [if_neg (by simp [hempty])]
      exact Insertion.lands_nil hempty _
    · have hpos := Text.units_pos hempty
      rw [if_pos (by rw [Text.units_append]; omega)]
      exact Insertion.lands_between hempty start last
  · have hnone : Request.styleInserted base (before.flatMap text ++ (i.text ++ rest)) m
        ⟨i.directive, (before.flatMap text).length, extent, raw⟩ = .ok [] := by
      cases extent with
      | everything => rfl
      | inserted stop => exact absurd rfl (hother stop)
      | point => rfl
    exact ⟨[], hnone, Insertion.lands_nil hempty whole⟩

/-- The styles of all blocks behind complete fragments land on their texts. -/
theorem exists_styles (hfs : Complete fs) (hbefore : Complete before)
    (hm : Template.GroupsUnescaped m) {template whole : Text}
    (htemplate : template = before.flatMap text ++ fs.flatMap text)
    (hwhole : Template.expand m template = .ok whole) {blocks : List Block}
    (hmarks : Block.Marks (before.flatMap text).length fs blocks) (base : Int) :
    ∃ styles,
      List.Forall₂ (fun b requests => Request.styleInserted base template m b = .ok requests)
        blocks styles ∧
      List.Forall₂ (fun i requests => i.Lands base whole requests) (fs.filterMap insertion?)
        styles := by
  induction hfs generalizing before blocks with
  | nil =>
    cases hmarks
    exact ⟨[], .nil, .nil⟩
  | @cons f fs hdollar hescape hfs ih =>
    have hupto : Complete (before ++ [f]) := hbefore.append (.cons hdollar hescape .nil)
    have htext : (before ++ [f]).flatMap text = before.flatMap text ++ f.text := by
      rw [List.flatMap_append, List.flatMap_singleton]
    have hrest : template = (before ++ [f]).flatMap text ++ fs.flatMap text := by
      rw [htemplate, htext, List.flatMap_cons, List.append_assoc]
    cases f with
    | char c =>
      cases hmarks with
      | char hmarks =>
        refine ih hupto hrest ?_
        rw [htext, List.length_append]
        exact hmarks
    | inserted raw i =>
      cases hmarks with
      | inserted hextent hmarks =>
        have hsplit : template = before.flatMap text ++ (i.text ++ fs.flatMap text) := htemplate
        rw [hsplit] at hwhole
        obtain ⟨requests, hstyle, hlands⟩ :=
          hbefore.exists_styleInserted hdollar hescape hm hwhole hextent base
        rw [← hsplit] at hwhole hstyle
        rw [← List.length_append] at hmarks
        obtain ⟨styles, hstyles, hothers⟩ := ih hupto hrest (htext ▸ hmarks)
        exact ⟨requests :: styles, .cons hstyle hstyles, .cons hlands hothers⟩
  | @reference digits fs hdigits hnumber hfs ih =>
    have hchars : (before ++ (Template.reference digits).map Fragment.char).flatMap text =
        before.flatMap text ++ Template.reference digits := by
      rw [List.flatMap_append, flatMap_text_map_char]
    have hupto : Complete (before ++ (Template.reference digits).map .char) := by
      refine hbefore.append ?_
      have hone := Complete.reference hdigits hnumber .nil
      rwa [List.append_nil] at hone
    have hmarks := hmarks.of_append
    rw [← List.length_append, ← hchars] at hmarks
    rw [List.filterMap_append, filterMap_insertion?_map_char, List.nil_append]
    refine ih hupto ?_ hmarks
    rw [htemplate, hchars, List.flatMap_append, flatMap_text_map_char, List.append_assoc]

end Fragment.Complete

/-! ## Replacements with blocks -/

namespace Block

/-- The number of a group in braces is no block. -/
theorem fragments_reference {digits : Text} (hdigits : ∀ d ∈ digits, isDecimal d = true)
    (hnumber : Template.groupNumber digits ≠ 0) (t : Text) :
    fragments (Template.reference digits ++ t) =
      (Template.reference digits).map .char ++ fragments t := by
  have hzero : digits ≠ ['0'] := by
    rintro rfl
    exact hnumber (by decide)
  have hrefused := read_digits hdigits (Template.ne_nil_of_groupNumber hnumber) hzero
  have hplain : ∀ c ∈ digits ++ ['\x7d'], c ≠ '\x7b' ∧ c ≠ '\\' := by
    intro c hc
    rcases List.mem_append.1 hc with hc | hc
    · have hother := fun d => @Template.ne_of_isDecimal d c (hdigits c hc)
      exact ⟨hother '\x7b' (by decide), hother '\\' (by decide)⟩
    · rw [List.mem_singleton.1 hc]
      decide
  rw [Template.reference_append, fragments_cons (by decide) (by decide),
    fragments_of_refused (Template.Woven.closing_digits hdigits t) hrefused,
    List.append_cons, fragments_append hplain]
  rfl

/-- A replacement without backslashes whose dollars are all parts of complete references outside of
blocks has complete fragments. -/
theorem complete_fragments {t : Text} (hescape : '\\' ∉ t) (hrefers : Template.RefersOnly t)
    (hblocks : ∀ raw i, .inserted raw i ∈ fragments t → '$' ∉ raw) :
    Fragment.Complete (fragments t) := by
  induction t using fragments.induct with
  | case1 =>
    rw [fragments]
    exact .nil
  | case2 c rest _ _ => exact absurd List.mem_cons_self hescape
  | case3 c rest _ _ => exact absurd List.mem_cons_self hescape
  | case4 rest hclosing ih =>
    rw [fragments_of_unclosed hclosing] at hblocks ⊢
    refine .cons (by decide) (by decide) (ih ?_ (hrefers.of_cons (by decide)) ?_)
    · exact fun hmem => hescape (List.mem_cons_of_mem _ hmem)
    · exact fun raw i hi => hblocks raw i (List.mem_cons_of_mem _ hi)
  | case5 rest inner tail hclosing e hread ih =>
    rw [fragments_of_refused hclosing hread] at hblocks ⊢
    refine .cons (by decide) (by decide) (ih ?_ (hrefers.of_cons (by decide)) ?_)
    · exact fun hmem => hescape (List.mem_cons_of_mem _ hmem)
    · exact fun raw i hi => hblocks raw i (List.mem_cons_of_mem _ hi)
  | case6 rest inner tail hclosing d hread ih =>
    have hsplit : '\x7b' :: rest = ('\x7b' :: inner ++ ['\x7d']) ++ tail := by
      rw [eq_append_of_closing hclosing, ← List.cons_append, List.append_assoc,
        List.singleton_append]
    rw [fragments_of_read hclosing hread] at hblocks ⊢
    rw [hsplit] at hescape hrefers
    -- A block puts in at least one text, so it is one of the blocks without dollars.
    have hraw : '$' ∉ '\x7b' :: inner ++ ['\x7d'] := by
      obtain ⟨i, others, hi⟩ := List.exists_cons_of_ne_nil d.insertions_ne_nil
      apply hblocks _ i
      rw [hi]
      exact List.mem_cons_self
    have hchars : ∀ i ∈ d.insertions, i.text ⊆ '\x7b' :: inner ++ ['\x7d'] := by
      intro i hi c hc
      have hinner := (Directive.drawnFrom_of_read hread).subset hi hc
      exact List.mem_append_left _ (List.mem_cons_of_mem _ hinner)
    refine Fragment.Complete.append (.of_forall ?_) (ih ?_ (hrefers.of_append hraw) ?_)
    · intro f hf
      obtain ⟨i, hi, rfl⟩ := List.mem_map.1 hf
      exact ⟨fun hmem => hraw (hchars i hi hmem),
        fun hmem => hescape (List.mem_append_left tail (hchars i hi hmem))⟩
    · exact fun hmem => hescape (List.mem_append_right _ hmem)
    · exact fun raw i hi => hblocks raw i (List.mem_append_right _ hi)
  | case7 c rest _ hopen ih =>
    have hother : c ≠ '\\' := by
      rintro rfl
      exact hescape List.mem_cons_self
    rw [fragments_cons hopen hother] at hblocks
    have hrest : Template.RefersOnly rest → Fragment.Complete (fragments rest) := fun h =>
      ih (fun hmem => hescape (List.mem_cons_of_mem c hmem)) h
        fun raw i hi => hblocks raw i (List.mem_cons_of_mem _ hi)
    by_cases hc : c = '$'
    · subst hc
      obtain ⟨digits, tail, hdigits, hnumber, rfl, htail⟩ := hrefers.exists_of_dollar
      have hnumeral : '$' ∉ '\x7b' :: digits ++ ['\x7d'] := by
        simp only [List.cons_append, List.mem_cons, List.mem_append, not_or]
        exact ⟨by decide, fun hmem => absurd (hdigits _ hmem) (by decide), by decide⟩
      have hreference := fragments_reference hdigits hnumber tail
      rw [Template.reference_append] at hreference
      rw [hreference]
      refine .reference hdigits hnumber (.of_append ?_ hnumeral)
      rw [fragments_cons hopen hother] at hreference
      have hbehind : fragments ('\x7b' :: (digits ++ '\x7d' :: tail)) =
          ('\x7b' :: digits ++ ['\x7d']).map .char ++ fragments tail := (List.cons.inj hreference).2
      rw [← hbehind]
      apply hrest
      rw [List.append_cons, ← List.cons_append]
      exact htail.append hnumeral
    · rw [fragments_cons hopen hother]
      refine .cons ?_ ?_ (hrest (hrefers.of_cons hc))
      · exact fun hmem => hc (List.mem_singleton.1 hmem).symm
      · exact fun hmem => hother (List.mem_singleton.1 hmem).symm

/-- In a replacement without backslashes whose dollars are all parts of complete references outside
of blocks, the style of each block covers exactly the text that the block has put in, and texts of
flags are styled. -/
theorem styles_land
    {r : Text} (hescape : '\\' ∉ r) (hrefers : Template.RefersOnly r)
    (hblocks : ∀ b ∈ (extract r).2, '$' ∉ b.raw) {m : Option Match}
    (hm : Template.GroupsUnescaped m) (base : Int) :
    ((∃ text, Template.render m (extract r).1 = .ok text) ↔
        ∀ found ∈ m, ∀ digits, Template.Piece.group digits ∈ Template.pieces (extract r).1 →
          digits.length ≤ TooManyDigits.limit) ∧
      (extract r).1 = (fragments r).flatMap Fragment.text ∧
      (extract r).2.map directive = (insertions r).map Insertion.directive ∧
      ∀ text, Template.render m (extract r).1 = .ok text →
        ∃ styles, Request.styleBlocks (extract r).2 base (extract r).1 m = .ok styles.flatten ∧
          List.Forall₂
            (fun b requests => Request.styleInserted base (extract r).1 m b = .ok requests)
            (extract r).2 styles ∧
          List.Forall₂ (fun i requests => i.Lands base text requests) (insertions r) styles := by
  obtain ⟨htemplate, hmarks⟩ := marks_extract hescape
  have hcomplete : Fragment.Complete (fragments r) := by
    refine complete_fragments hescape hrefers fun raw i hi => ?_
    obtain ⟨b, hb, rfl⟩ := hmarks.exists_of_mem hi
    exact hblocks b hb
  refine ⟨Template.exists_render_iff, htemplate, hmarks.map_directive, fun text htext => ?_⟩
  rw [htemplate, hcomplete.render_eq hm, ← htemplate] at htext
  obtain ⟨styles, hstyles, hlands⟩ :=
    hcomplete.exists_styles .nil hm htemplate htext hmarks base
  refine ⟨styles, ?_, hstyles, hlands⟩
  rw [Request.styleBlocks, mapM_eq_ok_of_forall₂ hstyles]
  rfl

/-- Two flags with texts behind a reference and a character of two units. -/
def twoFlags : Text :=
  "x$\x7b1\x7d😀\x7bb=y\x7dz\x7bi=w\x7d".toList

/-- The letters behind the first one, as the match of a group. -/
def doubled : Match :=
  ⟨"baa".toList, 1, 3, [(1, 1, 3)], 1⟩

theorem styles_land_twoFlags :
    '\\' ∉ twoFlags ∧ Template.RefersOnly twoFlags ∧
      (∀ b ∈ (extract twoFlags).2, '$' ∉ b.raw) ∧ Template.GroupsUnescaped (some doubled) ∧
      Template.render (some doubled) (extract twoFlags).1 = .ok "xaa😀yzw".toList ∧
      (insertions twoFlags).map Insertion.text = [['y'], ['w']] ∧
      (Request.styleBlocks (extract twoFlags).2 5 (extract twoFlags).1 (some doubled)).map
        (List.map Request.start?) = .ok [some 10, some 10, some 12, some 12] ∧
      ∃ styles, Request.styleBlocks (extract twoFlags).2 5 (extract twoFlags).1 (some doubled) =
          .ok styles.flatten ∧
        List.Forall₂ (fun i requests => i.Lands 5 "xaa😀yzw".toList requests)
          (insertions twoFlags) styles := by
  have hescape : '\\' ∉ twoFlags := by decide
  have hrefers : Template.RefersOnly twoFlags := by
    have hsplit : twoFlags =
        'x' :: (Template.reference ['1'] ++ ("😀\x7bb=y\x7dz\x7bi=w\x7d".toList ++ [])) := by
      decide
    have hnumber : ∀ d ∈ ['1'], isDecimal d = true := List.forall_mem_singleton.2 (by decide)
    rw [hsplit]
    exact .char (by decide) (.reference hnumber (by decide) (.append (by decide) .nil))
  have hblocks : ∀ b ∈ (extract twoFlags).2, '$' ∉ b.raw := by decide +kernel
  have hm : Template.GroupsUnescaped (some doubled) :=
    Template.groupsUnescaped_of_subject (by decide)
  have htext : Template.render (some doubled) (extract twoFlags).1 = .ok "xaa😀yzw".toList := by
    decide +kernel
  obtain ⟨styles, hstyles, -, hlands⟩ :=
    (styles_land hescape hrefers hblocks hm 5).2.2.2 _ htext
  exact ⟨hescape, hrefers, hblocks, hm, htext, by decide +kernel, by decide +kernel, styles,
    hstyles, hlands⟩

end Block

end Redline
