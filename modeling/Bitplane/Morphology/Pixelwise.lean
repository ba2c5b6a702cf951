import Bitplane.Connectivity
import Bitplane.Raster.Bits

/-! # The operators pixel by pixel

What dilation, erosion and the removal of isolated pixels do to a single pixel, said of the pixel
and its four neighbours; a pixel outside the picture is clear. These take pictures of any size. -/

namespace Bitplane.Raster

/-- The four neighbours of `(x, y)`, as pixels of the plane. -/
def besides (r : Raster) (x y : Nat) : List Bool :=
  cross.map fun d => r.isSetAt (x + d.1) (y + d.2)

/-- A pixel is set if it or a neighbour is. -/
def dilatePixelwise (r : Raster) : Raster :=
  r.tabulate fun x y => r.isSet x y || (r.besides x y).any id

/-- A pixel stays if all its neighbours are set. -/
def erodePixelwise (r : Raster) : Raster :=
  r.tabulate fun x y => r.isSet x y && (r.besides x y).all id

/-- A pixel stays if some neighbour is set. -/
def filterIsolatedPixelwise (r : Raster) : Raster :=
  r.tabulate fun x y => r.isSet x y && (r.besides x y).any id

end Bitplane.Raster
