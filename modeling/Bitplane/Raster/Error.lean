import Bitplane.Text.Quoted

/-! # What can be wrong with a raster, or with the text of one

Every operation returns a whole result or one of these. `message` is the text of each. -/

namespace Bitplane

/-- What is wrong with the text of a picture, or with another parameter. -/
inductive Problem
  /-- A line has a character that marks no pixel. -/
  | strayMark (mark : Char) (line : Nat)
  /-- A line is longer or shorter than the first. -/
  | unevenRow (line pixels expected : Nat)
  /-- The first row has more pixels than a width can count. -/
  | tooWide
  /-- Any other problem, in words. -/
  | other (text : String)
  deriving DecidableEq

/-- The text of a problem. -/
def Problem.message : Problem → String
  | strayMark c n => s!"unexpected character {Quoted.char c} on line {n}"
  | unevenRow n k w => s!"line {n} has {k} pixels, expected {w}"
  | tooWide => "picture too wide"
  | other t => t

namespace Raster

/-- What can be wrong with a raster. -/
inductive Error
  /-- A width or height is zero. -/
  | invalidDimension (width height : Nat)
  /-- A width or height is below the least that the operators take. -/
  | tooSmall (width height least : Nat)
  /-- Two operands differ in size. -/
  | dimensionMismatch (expected actual : Nat × Nat)
  /-- A buffer has the wrong length for its width and height. -/
  | bufferSize (expected actual : Nat)
  /-- A coordinate is not below its bound. -/
  | indexOutOfBounds (index bound : Nat)
  /-- Anything else. -/
  | invalidParameter (problem : Problem)
  deriving DecidableEq

/-- The text of an error. -/
def Error.message : Error → String
  | invalidDimension w h => s!"invalid image dimensions: {w}x{h}"
  | tooSmall w h m => s!"image too small: {w}x{h}, minimum is {m}x{m}"
  | dimensionMismatch e a =>
    s!"dimension mismatch: expected {e.1}x{e.2}, got {a.1}x{a.2}"
  | bufferSize e a => s!"buffer size mismatch: expected {e} elements, got {a}"
  | indexOutOfBounds i n => s!"index out of bounds: {i} >= {n}"
  | invalidParameter p => s!"invalid parameter: {p.message}"

end Raster

end Bitplane
