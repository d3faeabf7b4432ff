import Redline.Document.Image
import Redline.Session.Basic

/-!
# Replacing images
-/

namespace Redline.Session

variable {σ : Type}

/-- Put a replacement in the place of the images that a reference selects: all of them, or the
first. -/
def replaceImages (ref : ImageRef) (replacement : Text) (isGlobal : Bool) : Run σ Outcome := do
  let doc ← Run.fetch
  let images := doc.images
  if images.isEmpty then
    return [("replaced", .count 0), ("message", .text "no images found in document".toList)]
  let selected := ref.select images
  if selected.isEmpty then
    return [("replaced", .count 0), ("message", .text "no images matched pattern".toList)]
  let chosen := if isGlobal then selected else selected.take 1
  discard <| Run.update (DocImage.replaceAll chosen replacement)
  return [("replaced", .count chosen.length)]

end Redline.Session
