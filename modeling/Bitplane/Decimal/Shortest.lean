/-! # Shortest decimal text of a double

A finite double is `m · 2^e`. The decimals that read back to it are those between the midpoints to
its two neighbours, ends included iff `m` is even. `digits` looks on the grids of 1, 2, …, 17
significant digits for the first with a point in that interval, of two such points takes the nearer,
and of two equally near the larger. `text` writes the digits in positional notation.

Everything is exact arithmetic on `Nat`; a double enters through its bits only. -/

namespace Bitplane.Decimal

/-- A positive double `m · 2^e`, with `narrow` where the neighbour below is half as far as the
one above. -/
structure Binary where
  m : Nat
  e : Int
  narrow : Bool

/-- A decimal `d · 10^k`. -/
structure Point where
  d : Nat
  k : Int
  deriving DecidableEq

/-- `2^e` as numerator and denominator. -/
def powTwo (e : Int) : Nat × Nat := (Nat.pow 2 e.toNat, Nat.pow 2 (-e).toNat)

/-- `10^k` as numerator and denominator. -/
def powTen (k : Int) : Nat × Nat := (Nat.pow 10 k.toNat, Nat.pow 10 (-k).toNat)

namespace Binary

/-- The value times four, as numerator and denominator: half and quarter steps are whole there. -/
def value (b : Binary) : Nat × Nat := (4 * b.m * (powTwo b.e).1, (powTwo b.e).2)

/-- Four times the lower end of the interval that reads back, over the denominator of `value`. -/
def lower (b : Binary) : Nat :=
  (4 * b.m - if b.narrow then 1 else 2) * (powTwo b.e).1

/-- Four times the upper end of the interval that reads back, over the denominator of `value`. -/
def upper (b : Binary) : Nat := (4 * b.m + 2) * (powTwo b.e).1

/-- The decimal lies in the interval that reads back. -/
def reads (b : Binary) (p : Point) : Bool :=
  let q := powTen p.k
  let x := 4 * p.d * q.1 * b.value.2
  let lo := b.lower * q.2
  let hi := b.upper * q.2
  if b.m % 2 = 0 then lo ≤ x && x ≤ hi else lo < x && x < hi

/-- The greatest point of the grid `10^k` that is not above the value. -/
def floorAt (b : Binary) (k : Int) : Point :=
  let q := powTen k
  ⟨b.value.1 * q.2 / (4 * q.1 * b.value.2), k⟩

/-- The point of the grid `10^k` beside the value that reads back, if one does: of two the nearer,
of two equally near the larger. -/
def nearest? (b : Binary) (k : Int) : Option Point :=
  let below := b.floorAt k
  let above : Point := ⟨below.d + 1, k⟩
  match b.reads below, b.reads above with
  | false, false => none
  | true, false => some below
  | false, true => some above
  | true, true =>
    let q := powTen k
    let v := b.value.1 * q.2
    let step := 4 * q.1 * b.value.2
    if v - below.d * step < above.d * step - v then some below else some above

/-- The value is at least `10^k`. -/
def atLeast (b : Binary) (k : Int) : Bool :=
  let q := powTen k
  4 * q.1 * b.value.2 ≤ b.value.1 * q.2

/-- The greatest `k ≤ top` with `10^k` not above the value, `fuel` powers tried. -/
def magnitude (b : Binary) (top : Int) : Nat → Int
  | 0 => top
  | fuel + 1 => if b.atLeast top then top else b.magnitude (top - 1) fuel

/-- The shortest decimal among the grids whose finest digit is `10^k`, `10^(k-1)`, …; the floor of
the last grid if none has a point that reads back. -/
def shortestFrom (b : Binary) (k : Int) : Nat → Point
  | 0 => b.floorAt k
  | fuel + 1 => (b.nearest? k).getD (b.shortestFrom (k - 1) fuel)

/-- **The shortest decimal that reads back.** Doubles lie below `10^309` and above `10^(-324)`, and
seventeen digits always suffice. -/
def shortest (b : Binary) : Point := b.shortestFrom (b.magnitude 308 633) 17

end Binary

/-- The number of values of the fraction field. -/
def fractionSize : Nat := 0x10000000000000

/-- The number of values of the exponent field. -/
def exponentSize : Nat := 0x800

/-- The positive finite double with exponent field `ex` and fraction field `fr`. -/
def ofFields (ex fr : Nat) : Binary :=
  if ex = 0 then ⟨fr, -1074, false⟩
  else ⟨fr + fractionSize, (ex : Int) - 1075, fr = 0 && ex > 1⟩

/-- A decimal in positional notation, without a point where no digit follows it. -/
def positional (p : Point) : String :=
  let ds := Nat.toDigits 10 p.d
  if 0 ≤ p.k then String.ofList (ds ++ List.replicate p.k.toNat '0')
  else
    let places := (-p.k).toNat
    let padded := List.replicate (places + 1 - ds.length) '0' ++ ds
    let whole := padded.take (padded.length - places)
    let fraction := ((padded.drop (padded.length - places)).reverse.dropWhile (· = '0')).reverse
    if fraction.isEmpty then String.ofList whole
    else String.ofList (whole ++ '.' :: fraction)

/-- **The text of a double**: its shortest digits in positional notation, a minus sign before a
negative one and before the negative zero, and words for what is no number. -/
def text (x : Float) : String :=
  let bits := x.toBits.toNat
  let ex := bits / fractionSize % exponentSize
  let fr := bits % fractionSize
  let sign := if bits / (fractionSize * exponentSize) = 1 then "-" else ""
  if ex + 1 = exponentSize then
    if fr = 0 then sign ++ "inf" else "NaN"
  else if ex = 0 ∧ fr = 0 then sign ++ "0"
  else sign ++ positional (ofFields ex fr).shortest

end Bitplane.Decimal
