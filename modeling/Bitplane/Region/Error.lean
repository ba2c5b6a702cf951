import Bitplane.Morphology.Cross

/-! # What can go wrong with regions -/

namespace Bitplane.Region

/-- What can go wrong in labeling a picture or in cutting out its components. -/
inductive Error
  /-- The picture is at fault. -/
  | raster (e : Raster.Error)
  /-- An operator refused the picture. -/
  | morphology (e : Morphology.Error)
  /-- The picture has more runs than there are labels. -/
  | imageTooLarge (width height : Nat)
  /-- A label is above the number of components. -/
  | labelOutOfRange (label count : Nat)
  deriving DecidableEq

/-- The text of an error. -/
def Error.message : Error → String
  | raster e => s!"core error: {e.message}"
  | morphology e => s!"morphology error: {e.message}"
  | imageTooLarge w h => s!"image too large to label: {w}x{h}"
  | labelOutOfRange l n => s!"label {l} out of range for {n} components"

end Bitplane.Region
