import Redline.Document.Basic
import Redline.Markdown.Image
import Redline.Pattern.Search
import Redline.Reference.Image
import Redline.Request.Basic
import Redline.Request.Order
import Redline.Template

/-!
# Images in a document

The images that stand in the text come first, in order; then those that are placed on the page, by
their names.
-/

namespace Redline

/-- An image of a document. -/
structure DocImage where
  id : Text
  /-- Its position in the text, zero when it is placed on the page. -/
  index : Int
  alt : Text
  isPositioned : Bool := false
deriving Repr, DecidableEq

namespace Document

/-- The value for a name, if there is one. -/
def lookup? {α : Type} (name : Text) (entries : List (Text × α)) : Option α :=
  (entries.find? (·.1 == name)).map (·.2)

/-- The image that a piece of a paragraph is. -/
def imageOf? (d : Document) (p : Piece) : Option DocImage :=
  match p.content with
  | .image id => some ⟨id, p.bounds.start, (lookup? id d.inlineObjects).getD [], false⟩
  | _ => none

/-- The images that stand in the text. Without any objects there are none. -/
def inlineImages (d : Document) : List DocImage :=
  if d.inlineObjects.isEmpty then []
  else d.paragraphs.flatMap fun p => p.paragraph.pieces.filterMap d.imageOf?

/-- Put an entry before the first one with a larger name. -/
def placeByName {α : Type} (entry : Text × α) : List (Text × α) → List (Text × α)
  | [] => [entry]
  | e :: rest => if e.1 < entry.1 then e :: placeByName entry rest else entry :: e :: rest

/-- The images that are placed on the page, by their names. -/
def positionedImages (d : Document) : List DocImage :=
  (d.positionedObjects.foldr placeByName []).map fun (id, alt) => ⟨id, 0, alt, true⟩

/-- All images. -/
def images (d : Document) : List DocImage :=
  d.inlineImages ++ d.positionedImages

end Document

namespace ImageRef

/-- The image at a position from one on, negative ones from the end. -/
def pick (images : List DocImage) (i : Int) : List DocImage :=
  if 0 < i then (images[(i - 1).toNat]?).toList
  else if i < 0 ∧ -i ≤ images.length then (images[(images.length + i).toNat]?).toList
  else []

/-- The images that a reference selects. -/
def select (ref : ImageRef) (images : List DocImage) : List DocImage :=
  match ref with
  | .all => images
  | .alt _ pattern => images.filter fun image => pattern.occursIn image.alt
  | .position i => pick images i

end ImageRef

namespace DocImage

/-- Images by falling position; images at one position keep their order. -/
def sortFalling (images : List DocImage) : List DocImage :=
  EditGroup.order (images.map fun i => ⟨i.index, [i]⟩)

/-- The requests for an image in the text: a new source, or text in its place. -/
def replaceInline (source : Option ImageSpec) (text : Text) (image : DocImage) :
    List Request :=
  match source with
  | some spec => [.replaceImage image.id spec.url]
  | none =>
    Request.delete image.index (image.index + 1) ::
      (if text.isEmpty then [] else [Request.insert image.index text])

/-- The requests that put a replacement in the place of images. An image on the page can only be
deleted. -/
def replaceAll (images : List DocImage) (replacement : Text) : List Request :=
  let source := (ImageSpec.read? replacement).or (ImageSpec.readShort? replacement)
  let text := Template.literal replacement
  (sortFalling (images.filter (!·.isPositioned))).flatMap (replaceInline source text) ++
    (images.filter (·.isPositioned)).map fun image => .deletePositioned image.id

end DocImage

end Redline
