import Bitplane.Byte.Basic

/-! # Growing and shrinking inside a byte

Two tables, indexed by byte, hold what the horizontal neighbours inside the byte do to it.

* `grow`: every pixel with its left and right neighbour.
* `shrink`: the pixels both of whose neighbours are set; the two at the ends count their missing
  neighbour as set, which leaves the decision to whoever knows the next byte. -/

namespace Bitplane.Morphology

/-- A result for every byte. -/
abbrev ByteTable := Vector UInt8 256

/-- The table of a function. -/
def ByteTable.of (f : UInt8 → UInt8) : ByteTable := Vector.ofFn fun i => f (UInt8.ofNat i)

/-- The entry for a byte. -/
def ByteTable.entry (t : ByteTable) (b : UInt8) : UInt8 :=
  have : b.toNat < 256 := b.toNat_lt
  t[b.toNat]

/-- Every pixel of a byte with its neighbours. -/
def growByte (v : UInt8) : UInt8 := v ||| v <<< 1 ||| v >>> 1

/-- The pixels of a byte whose neighbours are set. -/
def shrinkByte (v : UInt8) : UInt8 :=
  v &&& (v <<< 1 ||| (0x01 : UInt8)) &&& (v >>> 1 ||| (0x80 : UInt8))

/-- The table of `growByte`. -/
def grow : ByteTable := ByteTable.of growByte

/-- The table of `shrinkByte`. -/
def shrink : ByteTable := ByteTable.of shrinkByte

@[simp] theorem entry_of (f : UInt8 → UInt8) (b : UInt8) : (ByteTable.of f).entry b = f b := by
  simp [ByteTable.of, ByteTable.entry]

@[simp] theorem entry_grow (b : UInt8) : grow.entry b = growByte b := entry_of growByte b

@[simp] theorem entry_shrink (b : UInt8) : shrink.entry b = shrinkByte b := entry_of shrinkByte b

end Bitplane.Morphology
