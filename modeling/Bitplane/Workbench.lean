import Bitplane.Source
import Bitplane.Region.Box
import Bitplane.Morphology.Pixelwise

/-! # A workbench: rasters in numbered registers

An action reads rasters from registers and puts one raster into a register, or changes one in place.
It works on a bench that it holds: what it has written stays written if it fails.

* `Operator`: what makes a raster from one.
* `Edit`: what changes a raster in place; `Edit.Guarded` singles out those that cannot set padding.
* `Action`, `Action.perform`: what is done at the bench, and how.
* `step`, `run`: the bench after single actions and after sequences of them. -/

namespace Bitplane

namespace Workbench

/-- What makes a raster from one. -/
inductive Operator
  | dilate (s : Strategy)
  | erode (s : Strategy)
  | filterIsolated (s : Strategy)
  | opening
  | closing
  | gradient
  | topHat
  | dilatePixelwise
  | erodePixelwise
  | filterIsolatedPixelwise
  | invert
  | copy
  | template
  /-- Unpacked to pixels and packed again. -/
  | repack
  /-- The mask of a component, by its place in the list of components. -/
  | mask (o : Region.Options) (i : Nat)

/-- What changes a raster in place. -/
inductive Edit
  | setPixel (x y : Nat) (v : Bool)
  /-- The pixel at the place that `(x, y)` computes to, inside the picture or not. -/
  | putPixel (x y : Nat) (v : Bool)
  | clearPadding
  | writeBytes (i : Nat) (bs : List UInt8)
  | writeRow (y : Nat) (bs : List UInt8)

/-- What is done at the workbench. -/
inductive Action
  /-- A raster made from a source. -/
  | load (dst : Nat) (s : Source)
  /-- A raster made from the one in `a`. -/
  | operate (op : Operator) (a dst : Nat)
  /-- A raster made from those in `a` and `b`. -/
  | combine (op : Combination) (a b dst : Nat)
  /-- The raster in `a` changed. -/
  | edit (e : Edit) (a : Nat)

/-- Why an action fails. -/
inductive Fault
  | source (e : Source.Error)
  | raster (e : Raster.Error)
  | morphology (e : Morphology.Error)
  | region (e : Region.Error)
  /-- A place lies outside the buffer. -/
  | outside
  /-- A register holds no raster. -/
  | vacant (register : Nat)
  /-- There is no component of this place in the list. -/
  | noComponent (i : Nat)

/-- The raster that an operator makes. -/
def Operator.apply (r : Raster) : Operator → Except Fault Raster
  | dilate s => (r.dilateWith s).mapError .morphology
  | erode s => (r.erodeWith s).mapError .morphology
  | filterIsolated s => (r.filterIsolatedWith s).mapError .morphology
  | opening => r.opening.mapError .morphology
  | closing => r.closing.mapError .morphology
  | gradient => r.gradient.mapError .morphology
  | topHat => r.topHat.mapError .morphology
  | dilatePixelwise => .ok r.dilatePixelwise
  | erodePixelwise => .ok r.erodePixelwise
  | filterIsolatedPixelwise => .ok r.filterIsolatedPixelwise
  | invert => .ok r.invert
  | copy => .ok r
  | template => .ok r.template
  | repack => (Raster.ofBits? r.toBits r.width r.height).mapError .raster
  | mask o i => do
    let bs ← (r.components o).mapError .region
    match bs[i]? with
    | some b => return b.mask
    | none => .error (.noComponent i)

/-- What becomes of the raster that is held, if anything does. -/
def overwrite (f : Raster → Option Raster) : Held Fault Raster Unit := do
  match f (← get) with
  | some r => set r
  | none => throw .outside

/-- **What an edit does to the raster that is held.** -/
def Edit.perform : Edit → Held Fault Raster Unit
  | setPixel x y v => (Raster.write x y v).adapt .raster
  | putPixel x y v => overwrite fun r => r.put? x y v
  | clearPadding => overwrite fun r => some r.clearPadding
  | writeBytes i bs => overwrite fun r => r.writeBytes? i bs
  | writeRow y bs => overwrite fun r => r.writeRow? y bs

/-- The edit writes no pixel outside the picture. -/
def Edit.Guarded (r : Raster) : Edit → Prop
  | setPixel _ _ _ => True
  | putPixel x y _ => r.Inside x y
  | clearPadding => True
  | writeBytes _ _ => False
  | writeRow _ _ => False

end Workbench

/-- **Rasters in numbered registers**, at most one in each. -/
structure Workbench where
  registers : Nat → Option Raster

namespace Workbench

/-- No register holds a raster. -/
def vacant : Workbench := ⟨fun _ => none⟩

/-- The raster in a register. -/
def get (w : Workbench) (i : Nat) : Except Fault Raster :=
  (w.registers i).elim (.error (.vacant i)) .ok

/-- A raster put into a register, in place of what was there. -/
def put (w : Workbench) (i : Nat) (r : Raster) : Workbench :=
  ⟨fun j => if i = j then some r else w.registers j⟩

/-! ## Actions on a bench that is held -/

/-- The raster in a register is looked up. -/
def fetch (i : Nat) : Held Fault Workbench Raster := do
  let w ← getThe Workbench
  Held.aside (w.get i)

/-- A raster put into a register is the answer. -/
def store (i : Nat) (r : Raster) : Held Fault Workbench Raster := do
  modify fun w => w.put i r
  return r

/-- The raster in a register changed where it lies: what the edit has written of it is there
afterwards, whether it fails or not. -/
def change (e : Edit) (i : Nat) : Held Fault Workbench Raster := do
  let r ← fetch i
  let edited := e.perform.runOn r
  modify fun w => w.put i edited.2
  Held.aside edited.1
  return edited.2

/-- **What an action does to the bench that is held**; the answer is the raster that it makes. -/
def Action.perform : Action → Held Fault Workbench Raster
  | load dst s => do
    let r ← Held.aside (s.build.mapError .source)
    store dst r
  | operate op a dst => do
    let p ← fetch a
    let r ← Held.aside (op.apply p)
    store dst r
  | combine op a b dst => do
    let p ← fetch a
    let q ← fetch b
    let r ← Held.aside ((p.combine op q).mapError .raster)
    store dst r
  | edit e a => change e a

/-- The register that an action changes. -/
def Action.target : Action → Nat
  | load dst _ => dst
  | operate _ _ dst => dst
  | combine _ _ _ dst => dst
  | edit _ a => a

/-- **The workbench after an action**, with the raster that it made or why it failed. -/
def step (w : Workbench) (a : Action) : Workbench × Except Fault Raster :=
  let out := a.perform.runOn w
  (out.2, out.1)

/-- The workbench after a sequence of actions, failing ones passed over. -/
def run (w : Workbench) (as : List Action) : Workbench := as.foldl (fun w a => (w.step a).1) w

end Workbench

end Bitplane
