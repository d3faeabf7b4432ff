import Redline.Proofs.Page

/-!
# Services that keep a page

Every page is displayed by a document: the characters up to a newline are one paragraph, those of a
paragraph without an object between them are one run, and the places are counted through.  So there
is a faithful service for pages, one that keeps a page and carries out each batch to the letter.
-/

namespace Redline

namespace Piece

/-- A piece of some content that starts at a place. -/
def ofContent (place : Nat) (content : Content) : Piece :=
  ⟨.cover place (Atom.unitsOf (atoms ⟨{}, content⟩)).length, content⟩

/-- Put content before pieces; text before a run is part of it. -/
def join (place : Nat) (content : Content) (pieces : List Piece) : List Piece :=
  match content, pieces with
  | .run text, ⟨_, .run more⟩ :: rest => ofContent place (.run (text ++ more)) :: rest
  | _, _ => ofContent place content :: pieces

variable {place : Nat} {content : Content} {pieces : List Piece}

theorem atoms_join (place : Nat) (content : Content) (pieces : List Piece) :
    (join place content pieces).flatMap atoms =
      atoms (ofContent place content) ++ pieces.flatMap atoms := by
  unfold join
  split
  next text b more rest =>
    rw [List.flatMap_cons, List.flatMap_cons, ← List.append_assoc]
    exact congrArg (· ++ _) List.map_append
  next => rfl

theorem placed_join
    (hcontent : content ≠ .run [])
    (h : Placed (place + (Atom.unitsOf (ofContent place content).atoms).length) pieces) :
    Placed place (join place content pieces) := by
  unfold join
  split
  next text b more rest =>
    obtain ⟨-, -, hrest⟩ := h
    refine ⟨rfl, ?_, ?_⟩
    · intro hempty
      have hboth := List.append_eq_nil_iff.1 (Content.run.inj hempty)
      exact hcontent (congrArg Content.run hboth.1)
    · have hlength : (Atom.unitsOf (ofContent place (.run (text ++ more))).atoms).length =
          (Atom.unitsOf (ofContent place (.run text)).atoms).length +
            (Atom.unitsOf (atoms ⟨b, .run more⟩)).length := by
        simp only [atoms, ofContent, Atom.unitsOf_map_char, Body.ofText_append, List.length_append]
      rwa [hlength, ← Nat.add_assoc]
  next => exact ⟨rfl, hcontent, h⟩

end Piece

namespace Element

/-- A paragraph of pieces that starts at a place. -/
def ofPieces (place : Nat) (pieces : List Piece) : Element :=
  .paragraph (.cover place (Atom.unitsOf (pieces.flatMap Piece.atoms)).length) { pieces }

/-- Put content before elements; content before a paragraph is part of it. -/
def join (place : Nat) (content : Content) (es : List Element) : List Element :=
  match es with
  | .paragraph _ p :: rest => ofPieces place (Piece.join place content p.pieces) :: rest
  | _ => ofPieces place [Piece.ofContent place content] :: es

theorem atoms_join (place : Nat) (content : Content) (es : List Element) :
    atomsOf (join place content es) = (Piece.ofContent place content).atoms ++ atomsOf es := by
  unfold join
  split
  next b p rest =>
    rw [atomsOf, ofPieces, atoms, Piece.atoms_join, List.append_assoc, atomsOf, atoms]
  next => rw [atomsOf, ofPieces, atoms, List.flatMap_singleton]

theorem placed_join
    {place : Nat} {content : Content} {es : List Element} (hcontent : content ≠ .run [])
    (h : PlacedOf (place + (Atom.unitsOf (Piece.ofContent place content).atoms).length) es) :
    PlacedOf place (join place content es) := by
  unfold join
  split
  next b p rest =>
    rw [PlacedOf, Placed] at h
    obtain ⟨⟨-, hpieces⟩, hrest⟩ := h
    rw [PlacedOf, ofPieces, Placed, atoms]
    refine ⟨⟨rfl, Piece.placed_join hcontent hpieces⟩, ?_⟩
    rwa [Piece.atoms_join, Atom.unitsOf_append, List.length_append, ← Nat.add_assoc]
  next =>
    rw [PlacedOf, ofPieces, Placed, atoms]
    refine ⟨⟨rfl, rfl, hcontent, trivial⟩, ?_⟩
    rwa [List.flatMap_singleton]

mutual

/-- Put an atom that starts at a place before elements.  A newline ends its paragraph. -/
def ofAtom (place : Nat) : Atom → List Element → List Element
  | .char c, es =>
    if c = '\n' then ofPieces place [Piece.ofContent place (.run [c])] :: es
    else join place (.run [c]) es
  | .object name, es => join place (.image name) es
  | .table rows, es =>
    .table (.cover place (Atom.units (.table rows)).length) (ofRows (place + 1) rows) :: es

/-- The elements of a page that starts at a place. -/
def ofPage (place : Nat) : List Atom → List Element
  | [] => []
  | a :: rest => ofAtom place a (ofPage (place + (Atom.units a).length) rest)

def ofRow (place : Nat) : List (List Atom) → List (List Element)
  | [] => []
  | cell :: cells => ofPage (place + 1) cell :: ofRow (place + 1 + (Atom.unitsOf cell).length) cells

def ofRows (place : Nat) : List (List (List Atom)) → List (List (List Element))
  | [] => []
  | row :: rows => ofRow (place + 1) row :: ofRows (place + 1 + (Atom.unitsOfRow row).length) rows

end

mutual

theorem atomsOf_ofAtom : ∀ (a : Atom) (place : Nat) (es : List Element),
    atomsOf (ofAtom place a es) = a :: atomsOf es
  | .char c, place, es => by
    rw [ofAtom]
    split
    · rfl
    · exact atoms_join place _ es
  | .object name, place, es => by
    rw [ofAtom]
    exact atoms_join place _ es
  | .table rows, place, es => by
    rw [ofAtom, atomsOf, atoms, atomsOfRows_ofRows rows]
    rfl

theorem atomsOf_ofPage : ∀ (page : Page) (place : Nat), atomsOf (ofPage place page) = page
  | [], _ => rfl
  | a :: rest, place => by
    rw [ofPage, atomsOf_ofAtom a, atomsOf_ofPage rest]

theorem atomsOfRow_ofRow : ∀ (cells : List Page) (place : Nat),
    atomsOfRow (ofRow place cells) = cells
  | [], _ => rfl
  | cell :: cells, place => by
    rw [ofRow, atomsOfRow, atomsOf_ofPage cell, atomsOfRow_ofRow cells]

theorem atomsOfRows_ofRows : ∀ (rows : Grid) (place : Nat), atomsOfRows (ofRows place rows) = rows
  | [], _ => rfl
  | row :: rows, place => by
    rw [ofRows, atomsOfRows, atomsOfRow_ofRow row, atomsOfRows_ofRows rows]

end

mutual

theorem placed_ofAtom : ∀ (a : Atom) {place : Nat} {es : List Element},
    PlacedOf (place + (Atom.units a).length) es → PlacedOf place (ofAtom place a es)
  | .char c, place, es, h => by
    have hunits : Atom.unitsOf (Piece.ofContent place (.run [c])).atoms = Atom.units (.char c) :=
      List.append_nil _
    rw [← hunits] at h
    rw [ofAtom]
    split
    · rw [PlacedOf, ofPieces, Placed, atoms]
      exact ⟨⟨rfl, rfl, by simp [Piece.ofContent], trivial⟩, h⟩
    · exact placed_join (by simp) h
  | .object name, place, es, h => by
    rw [ofAtom]
    exact placed_join (by simp) h
  | .table rows, place, es, h => by
    rw [ofAtom, PlacedOf, Placed, atoms, atomsOfRows_ofRows]
    refine ⟨⟨rfl, placedRows_ofRows rows⟩, ?_⟩
    rwa [Atom.unitsOf, Atom.unitsOf, List.append_nil]

theorem placedOf_ofPage : ∀ (page : Page) {place : Nat}, PlacedOf place (ofPage place page)
  | [], _ => trivial
  | a :: rest, place => by
    rw [ofPage]
    exact placed_ofAtom a (placedOf_ofPage rest)

theorem placedRow_ofRow : ∀ (cells : List Page) {place : Nat}, PlacedRow place (ofRow place cells)
  | [], _ => trivial
  | cell :: cells, place => by
    rw [ofRow, PlacedRow, atomsOf_ofPage]
    exact ⟨placedOf_ofPage cell, placedRow_ofRow cells⟩

theorem placedRows_ofRows : ∀ (rows : Grid) {place : Nat}, PlacedRows place (ofRows place rows)
  | [], _ => trivial
  | row :: rows, place => by
    rw [ofRows, PlacedRows, atomsOfRow_ofRow]
    exact ⟨placedRow_ofRow row, placedRows_ofRows rows⟩

end

end Element

namespace Document

/-- The document of a page that starts at a place. -/
def ofPage (place : Nat) (page : Page) : Document where
  body := Element.ofPage place page

theorem displays_ofPage (place : Nat) (page : Page) : (ofPage place page).Displays place page :=
  ⟨Element.atomsOf_ofPage page place, Element.placedOf_ofPage page⟩

end Document

namespace Service

open Classical in
/-- A service that keeps a page behind some units.  It takes the batches that leave a page there. -/
noncomputable def ofPage (front : Body) : Service Page where
  fetch page := (.ok (.ofPage front.length page), page)
  update requests page :=
    if h : ∃ page', Request.carryOutAll? requests (front ++ Atom.unitsOf page) =
        some (front ++ Atom.unitsOf page') then
      (.ok {}, h.choose)
    else (.error (.http (some 400) []), page)

/-- The units tell the page, so the service has no choice which page a batch leaves. -/
theorem faithful_ofPage (front : Body) : (ofPage front).Faithful front id := by
  refine ⟨fun page => ⟨_, page, rfl, rfl, Document.displays_ofPage _ page⟩, ?_⟩
  intro requests page page' hcarry
  have hexists : ∃ page', Request.carryOutAll? requests (front ++ Atom.unitsOf page) =
      some (front ++ Atom.unitsOf page') := ⟨page', hcarry⟩
  refine ⟨{}, hexists.choose, dif_pos hexists, ?_⟩
  have hsame := Option.some.inj (hexists.choose_spec.symm.trans hcarry)
  exact Atom.unitsOf_injective (List.append_cancel_left hsame)

end Service

end Redline
