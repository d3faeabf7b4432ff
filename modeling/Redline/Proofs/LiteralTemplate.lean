import Redline.Proofs.Falling
import Redline.Proofs.Reading
import Redline.Session.Images
import Redline.Session.Insert

/-!
# Templates without a match

Text that is inserted at a place, or put in the place of an image, comes from a template with no
match to expand it with.  The template is then written out as it stands, with single dollars for
doubled ones, and not expanded.  This module shows that both give the same text exactly when the
template has no reference: a reference stays in the text in the form that templates write it in,
where its expansion would be empty.
-/

namespace Redline.Template

/-! ## Two readings of a template -/

namespace Piece

/-- A piece of a template that is written out. -/
def literal : Piece → Text
  | .char c => [c]
  | .group digits => reference digits

/-- A piece of a template that is expanded without a match. -/
def unmatched : Piece → Text
  | .char c => [c]
  | .group _ => []

/-- The piece refers to a group. -/
def isGroup : Piece → Bool
  | .char _ => false
  | .group _ => true

end Piece

/-- The template has no reference. -/
def IsConstant (t : Text) : Prop :=
  ∀ p ∈ pieces t, p.isGroup = false

instance (t : Text) : Decidable (IsConstant t) :=
  inferInstanceAs (Decidable (∀ p ∈ pieces t, p.isGroup = false))

theorem literal_append {s : Text} (h : '$' ∉ s) (t : Text) : literal (s ++ t) = s ++ literal t :=
  Text.replaceAll_append h ['$'] ['$'] t

theorem Refers.literal {rest digits tail : Text} (h : Refers rest digits tail) :
    literal ('$' :: '\x7b' :: rest) = reference digits ++ literal tail := by
  have hdigits : '$' ∉ digits := fun hmem => absurd (h.decimal '$' hmem) (by decide)
  have hplain : '$' ∉ '\x7b' :: (digits ++ ['\x7d']) := by
    simp [hdigits]
  have hopen : Template.literal ('$' :: '\x7b' :: rest) =
      '$' :: Template.literal ('\x7b' :: rest) :=
    Text.replaceAll_of_not_startsWith rfl
  have hrest := literal_append hplain tail
  simp only [List.cons_append, List.append_assoc, List.nil_append] at hrest
  rw [hopen, h.eq, hrest, reference]
  simp

/-- A template that is written out keeps its references. -/
theorem literal_eq_flatMap (t : Text) : literal t = (pieces t).flatMap Piece.literal := by
  induction t using induction_by_piece with
  | nil => simp [literal, Text.replaceAll_nil]
  | dollar rest ih =>
    rw [literal_dollar_dollar, pieces_dollar_dollar, List.flatMap_cons, ← ih]
    rfl
  | reference rest digits tail hrefers ih =>
    rw [hrefers.literal, hrefers.pieces, List.flatMap_cons, ← ih]
    rfl
  | char c rest halone ih =>
    rw [halone.literal, halone.pieces, List.flatMap_cons, ← ih]
    rfl

/-- A template that is expanded without a match loses its references. -/
theorem expand_none (t : Text) : expand none t = .ok ((pieces t).flatMap Piece.unmatched) := by
  have hpieces : ∀ p ∈ pieces t, Piece.expand none (id p) = .ok p.unmatched := by
    intro p _
    cases p with
    | char c => rfl
    | group digits => rfl
  have hmap := mapM_expand hpieces
  rw [List.map_id] at hmap
  rw [expand, hmap]
  rfl

theorem length_unmatched_le (ps : List Piece) :
    (ps.flatMap Piece.unmatched).length ≤ (ps.flatMap Piece.literal).length := by
  induction ps with
  | nil => exact Nat.le_refl 0
  | cons p ps ih =>
    rw [List.flatMap_cons, List.flatMap_cons, List.length_append, List.length_append]
    cases p with
    | char c => exact Nat.add_le_add_left ih 1
    | group digits => exact Nat.add_le_add (Nat.zero_le _) ih

theorem flatMap_unmatched_eq_iff (ps : List Piece) :
    ps.flatMap Piece.unmatched = ps.flatMap Piece.literal ↔ ∀ p ∈ ps, p.isGroup = false := by
  induction ps with
  | nil => simp
  | cons p ps ih =>
    rw [List.flatMap_cons, List.flatMap_cons, List.forall_mem_cons, ← ih]
    cases p with
    | char c => simp [Piece.unmatched, Piece.literal, Piece.isGroup]
    | group digits =>
      refine iff_of_false (fun heq => ?_) (fun h => Bool.false_ne_true h.1.symm)
      -- The reference makes the text longer than all of the expansion.
      have hlength := congrArg List.length heq
      have hle := length_unmatched_le ps
      simp only [Piece.unmatched, Piece.literal, reference, List.length_append, List.length_cons,
        List.length_nil] at hlength
      omega

/-- A template is written out as it is expanded without a match exactly when it has no reference. -/
theorem expand_none_eq_literal_iff (t : Text) :
    expand none t = .ok (literal t) ↔ IsConstant t := by
  rw [expand_none, literal_eq_flatMap, Except.ok.injEq, flatMap_unmatched_eq_iff, IsConstant]

/-! ## References of a replacement -/

/-- The part refers to the whole match or to a group. -/
def Part.refers (p : Part) : Bool :=
  p.piece.isGroup

theorem pieces_convert
    {r : Text} (hnul : '\x00' ∉ r) (hforge : forges r = false) :
    pieces (convert r) = (parts r).map Part.piece := by
  have hsound : ∀ p ∈ parts r, p.IsSound := fun p hp => isSound_of_mem_parts hnul hp
  have hpieces := pieces_parts_append [] [] hsound
    (by rw [List.append_nil]; exact settled_parts r) (by simp) (by simp)
  rw [List.append_nil, pieces_nil, List.append_nil] at hpieces
  rw [convert_parts_of_not_forge (marked_eq_parts r) hsound hforge, hpieces]

/-- A forged mark is a reference. -/
theorem exists_group_of_forges {r : Text} (hnul : '\x00' ∉ r) (hforge : forges r = true) :
    ∃ d, Piece.group [d] ∈ pieces (convert r) := by
  have hsound : ∀ p ∈ parts r, p.IsSound := fun p hp => isSound_of_mem_parts hnul hp
  obtain ⟨before, after, d, tail, hsplit, hd, hconvert⟩ :=
    exists_convert_reference_of_forge (marked_eq_parts r) hsound hforge
  have hmark : pieces (['\x00', 'L', 'I', 'T', 'A', 'M', 'P'] ++ (reference [d] ++ tail)) =
      ['\x00', 'L', 'I', 'T', 'A', 'M', 'P'].map .char ++ .group [d] :: pieces tail := by
    rw [pieces_append (by decide), Woven.pieces_reference hd]
  have hpieces := pieces_parts_append (.item (.char '&') :: after)
    (['\x00', 'L', 'I', 'T', 'A', 'M', 'P'] ++ (reference [d] ++ tail))
    (fun p hp => hsound p (hsplit ▸ List.mem_append_left _ hp)) (hsplit ▸ settled_parts r)
    (by rintro p ⟨⟩; simp) (by rintro c ⟨⟩; decide)
  refine ⟨d, ?_⟩
  rw [hconvert]
  refine (congrArg (Piece.group [d] ∈ ·) hpieces).mpr ?_
  rw [hmark]
  simp

/-- The template of a replacement has no reference exactly when the replacement has none and forges
none. -/
theorem isConstant_convert_iff {r : Text} (hnul : '\x00' ∉ r) :
    IsConstant (convert r) ↔ forges r = false ∧ ∀ p ∈ parts r, p.refers = false := by
  cases hforge : forges r with
  | true =>
    obtain ⟨d, hmem⟩ := exists_group_of_forges hnul hforge
    exact iff_of_false (fun h => Bool.false_ne_true (h _ hmem).symm) (fun h => Bool.noConfusion h.1)
  | false =>
    rw [IsConstant, pieces_convert hnul hforge, List.forall_mem_map]
    exact ⟨fun h => ⟨rfl, h⟩, fun h => h.2⟩

end Redline.Template

namespace Redline

/-! ## Text without a match in the document -/

namespace Request

/-- The text that a request puts into the body, with its place. -/
def insertion? : Request → Option (Int × Text)
  | .insertText index text [] => some (index, text)
  | _ => none

theorem KeepLength.insertions {requests : List Request} (h : KeepLength requests) :
    requests.filterMap insertion? = [] := by
  refine List.filterMap_eq_nil_iff.2 fun r hr => ?_
  have hplace := h r hr
  cases r with
  | insertText index text segment =>
    cases segment with
    | nil => cases hplace
    | cons c segment => rfl
  | _ => rfl

end Request

/-- Text takes the place of every image in the text, and of no other. -/
theorem DocImage.insertions_replaceAll
    {t : Text} (hread : ImageSpec.read? t = none) (hshort : ImageSpec.readShort? t = none)
    (images : List DocImage) :
    (replaceAll images t).filterMap Request.insertion? =
      ((sortFalling (images.filter (!·.isPositioned))).map fun image =>
        (image.index, Template.literal t)).filter (!·.2.isEmpty) := by
  have hinline : ∀ image : DocImage,
      (replaceInline none (Template.literal t) image).filterMap Request.insertion? =
        [(image.index, Template.literal t)].filter (!·.2.isEmpty) := by
    intro image
    cases Template.literal t with
    | nil => rfl
    | cons c text => rfl
  have hpositioned : ((images.filter (·.isPositioned)).map fun image =>
      Request.deletePositioned image.id).filterMap Request.insertion? = [] := by
    simp [Request.insertion?]
  simp only [replaceAll, hread, hshort, Option.or_none, List.filterMap_append, hpositioned,
    List.append_nil, List.filterMap_flatMap, hinline]
  rw [← List.filter_flatMap, ← List.map_eq_flatMap]

namespace Session

open Template (convert literal expand pieces parts forges IsConstant)

variable {σ : Type}

/-- The text of a template that is written out, without the marks of its formats. -/
def writtenText (t : Text) : Text :=
  (Markdown.read (literal t)).1

/-- Text is inserted once at its place, unless it is empty. -/
theorem exists_insertAt
    {t : Text} (htable : TableSpec.read? t = .ok none) (himage : ImageSpec.read? t = none)
    (index : Int) :
    ∃ requests, requests.filterMap Request.insertion? =
        [(index, writtenText t)].filter (!·.2.isEmpty) ∧
      (insertAt index t : Run σ Text) = do
        discard <| Run.update requests
        return Text.ofNat (writtenText t).length ++ " chars".toList := by
  rw [insertAt, htable, himage, writtenText]
  rcases Markdown.read (literal t) with ⟨text, formats⟩
  cases text with
  | nil =>
    have hnone : Text.ofNat 0 ++ " chars".toList = "0 chars".toList := by decide
    refine ⟨[], rfl, ?_⟩
    show _ = (do discard <| Run.update []; return Text.ofNat 0 ++ " chars".toList)
    rw [hnone]
    rfl
  | cons c text =>
    have hbatch : ∀ span, (Request.insert index (c :: text) ::
        Request.styleByFormats formats span ++ Request.resetParagraphs span ++
          Request.styleParagraphsByFormats formats span).filterMap Request.insertion? =
            [(index, c :: text)] := by
      intro span
      have hinsert : (Request.insert index (c :: text)).insertion? = some (index, c :: text) := rfl
      rw [List.filterMap_append, List.filterMap_append, List.filterMap_cons_some hinsert,
        (Request.keepLength_styleByFormats formats span).insertions,
        (Request.keepLength_resetParagraphs span).insertions,
        (Request.keepLength_styleParagraphsByFormats formats span).insertions]
      rfl
    exact ⟨_, hbatch ⟨index, index + Text.units (c :: text)⟩, rfl⟩

/-- Text that is inserted at a place or put in the place of images is the template written out, and
that is the template expanded without a match exactly when it has no reference.  A replacement that
does not hold the character of marks has such a template exactly when it refers to nothing, neither
to the whole match nor to a group, and forges no mark. -/
theorem unmatched_text_iff (r : Text) :
    (∀ index, TableSpec.read? (convert r) = .ok none → ImageSpec.read? (convert r) = none →
        ∃ requests, requests.filterMap Request.insertion? =
            [(index, writtenText (convert r))].filter (!·.2.isEmpty) ∧
          (insertAt index (convert r) : Run σ Text) = do
            discard <| Run.update requests
            return Text.ofNat (writtenText (convert r)).length ++ " chars".toList) ∧
      (∀ images, ImageSpec.read? (convert r) = none → ImageSpec.readShort? (convert r) = none →
        (DocImage.replaceAll images (convert r)).filterMap Request.insertion? =
          ((DocImage.sortFalling (images.filter (!·.isPositioned))).map fun image =>
            (image.index, literal (convert r))).filter (!·.2.isEmpty)) ∧
      (expand none (convert r) = .ok (literal (convert r)) ↔ IsConstant (convert r)) ∧
      ('\x00' ∉ r →
        (IsConstant (convert r) ↔ forges r = false ∧ ∀ p ∈ parts r, p.refers = false)) :=
  ⟨fun index htable himage => exists_insertAt htable himage index,
    fun images hread hshort => DocImage.insertions_replaceAll hread hshort images,
    Template.expand_none_eq_literal_iff _, Template.isConstant_convert_iff⟩

/-- Prices and a literal ampersand. -/
def priceTag : Text :=
  "\\$5 \\& $$6 $".toList

theorem unmatched_text_priceTag :
    '\x00' ∉ priceTag ∧ literal (convert priceTag) = "$5 & $6 $".toList ∧
      expand none (convert priceTag) = .ok "$5 & $6 $".toList ∧
      (∃ requests, requests.filterMap Request.insertion? = [(1, "$5 & $6 $".toList)] ∧
        (insertAt 1 (convert priceTag) : Run Unit Text) = do
          discard <| Run.update requests
          return "9 chars".toList) ∧
      (DocImage.replaceAll [⟨['i'], 1, [], false⟩, ⟨['j'], 4, [], false⟩]
        (convert priceTag)).filterMap Request.insertion? =
          [(4, "$5 & $6 $".toList), (1, "$5 & $6 $".toList)] := by
  have hnul : '\x00' ∉ priceTag := by decide
  have hparts : forges priceTag = false ∧ ∀ p ∈ parts priceTag, p.refers = false := by
    decide +kernel
  have hliteral : literal (convert priceTag) = "$5 & $6 $".toList := rfl
  obtain ⟨hinsert, himages, hexpand, hconstant⟩ := @unmatched_text_iff Unit priceTag
  refine ⟨hnul, hliteral, ?_, ?_, ?_⟩
  · rw [← hliteral]
    exact hexpand.2 ((hconstant hnul).2 hparts)
  · exact hinsert 1 rfl rfl
  · exact himages _ rfl rfl

/-- A reference is left in the text in the form that templates write it in. -/
theorem unmatched_text_keeps_reference :
    literal (convert "a\\1b".toList) = "a$\x7b1\x7db".toList ∧
      expand none (convert "a\\1b".toList) = .ok "ab".toList ∧
      DocImage.replaceAll [⟨['i'], 1, [], false⟩] (convert "a\\1b".toList) =
        [Request.delete 1 2, Request.insert 1 "a$\x7b1\x7db".toList] := by
  have hpieces : pieces (convert "a\\1b".toList) = [.char 'a', .group ['1'], .char 'b'] := by
    decide +kernel
  refine ⟨rfl, ?_, rfl⟩
  rw [Template.expand_none, hpieces]
  rfl

end Session

end Redline
