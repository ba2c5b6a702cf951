import Bitplane.Raster.Bits

/-! # Rasters as text

A *picture* is drawn with marks: `#`, `1`, `x` and `X` stand for a set pixel, `.` and `0` for a
clear one. White space is ignored inside a line, and a line that holds nothing else is skipped, so
a picture may be indented; every other line is a row.

* `ofPicture?` reads a picture. The first faulty line decides the error, and in it an unknown mark
  goes before a wrong length; lines count from 1, skipped ones included.
* `numberedText` draws every pixel twice as wide as high, each row behind its number.
* `bitText` writes the bytes in binary, padding included; its digits are marks too. -/

namespace Bitplane

namespace Picture

/-- The pixel that a mark stands for. -/
def ofMark? (c : Char) : Option Bool :=
  if c = '#' ∨ c = '1' ∨ c = 'x' ∨ c = 'X' then some true
  else if c = '.' ∨ c = '0' then some false
  else none

/-- The lines of a text, split at every newline. -/
def lines : List Char → List (List Char)
  | [] => [[]]
  | c :: r =>
    if c = '\n' then [] :: lines r
    else
      match lines r with
      | [] => [[c]]
      | l :: ls => (c :: l) :: ls

/-- The marks of a line: what is not white space. -/
def marks (line : List Char) : List Char := line.filter fun c => !CharClass.isBlank c

/-- The pixels of a row of marks; the leftmost unknown mark is an error on line `n`. -/
def readMarks (n : Nat) : List Char → Except Problem (List Bool)
  | [] => .ok []
  | c :: r => do
    match ofMark? c with
    | none => .error (.strayMark c n)
    | some v =>
      let vs ← readMarks n r
      return v :: vs

/-- The rows of the lines from line `n` on, all as long as `expected` if that is known. -/
def readRows (n : Nat) (expected : Option Nat) :
    List (List Char) → Except Problem (List (List Bool))
  | [] => .ok []
  | l :: ls => do
    let row ← readMarks n (marks l)
    if row.isEmpty then readRows (n + 1) expected ls
    else if row.length ≠ expected.getD row.length then
      .error (.unevenRow n row.length (expected.getD row.length))
    else
      let rows ← readRows (n + 1) (some row.length) ls
      return row :: rows

/-- One more than the greatest width that a picture can have. -/
def widthLimit : Nat := 0x100000000

/-! ## Drawing -/

/-- The two characters of a pixel. -/
def wide (v : Bool) : List Char := if v then ['#', '#'] else ['.', '.']

/-- A number to the right of a column `k` characters wide. -/
def column (k n : Nat) : List Char :=
  let ds := Nat.toDigits 10 n
  List.replicate (k - ds.length) ' ' ++ ds

/-- The binary digits of a byte. -/
def binary (b : UInt8) : List Char := (Byte.pixels b).map fun v => if v then '1' else '0'

end Picture

namespace Raster

/-- **The raster that a text draws.** -/
def ofPicture? (text : String) : Except Error Raster := do
  let rows ← (Picture.readRows 1 none (Picture.lines text.toList)).mapError .invalidParameter
  let width := (rows.headD []).length
  if Picture.widthLimit ≤ width then .error (.invalidParameter .tooWide)
  ofBits? rows.flatten.toArray width rows.length

/-- Row `y` behind its number, which takes `k` characters. -/
def numberedLine (r : Raster) (k y : Nat) : List Char :=
  Picture.column k y ++ ' ' ::
    ((List.range r.width).flatMap fun x => Picture.wide (r.isSet x y)) ++ ['\n']

/-- **Every pixel as two characters**, each row behind its number. -/
def numberedText (r : Raster) : String :=
  let k := (Nat.toDigits 10 (r.height - 1)).length
  String.ofList ((List.range r.height).flatMap (r.numberedLine k))

/-- A row of bytes in binary, with blanks between them. -/
def bitLine (row : List UInt8) : List Char :=
  [' '].intercalate (row.map Picture.binary) ++ ['\n']

/-- **Every byte in binary**, a line for every row. -/
def bitText (r : Raster) : String := String.ofList (r.rows.flatMap bitLine)

end Raster

end Bitplane
