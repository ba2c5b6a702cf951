import Bitplane.CheckLog

/-! # What a check finds

The four checks end in different places, but all of them do one of two things to a log: where
nothing is found the check is counted and passes, and where something is found it is counted, fails,
and the finding is noted with its number.

* `check`: that step, given what was found; `check_passes_iff`, `failures_check_eq_iff`.
* `findValues`, `findRasters`, `findLabels`, `findFlag`: what each check finds.
* `checkValues_eq`, `checkRasters_eq`, `checkLabels_eq`, `checkFlag_eq`: each check is that step. -/

namespace Bitplane.CheckLog

variable {l : CheckLog} {found : Option Finding}

/-! ## The step -/

/-- **One more check**, with what it found. -/
def check (l : CheckLog) : Option Finding → Bool × CheckLog
  | none => (true, l.next)
  | some f => (false, l.next.fail f)

@[simp] theorem check_none (l : CheckLog) : l.check none = (true, l.next) := rfl

@[simp] theorem check_some (l : CheckLog) (f : Finding) :
    l.check (some f) = (false, l.next.fail f) := rfl

theorem check_passes_iff : (l.check found).1 = true ↔ found = none := by
  cases found <;> simp

theorem failures_check_eq_iff : (l.check found).2.failures = l.failures ↔ found = none := by
  cases found <;> simp [next, fail]

/-! ## Findings -/

/-- Two numbers that differ by more than `delta`. -/
def findValues (expected actual delta : Float) : Option Finding :=
  if (expected - actual).abs > delta then some (.values expected actual delta) else none

/-- The first way in which two rasters differ: in size, at a pixel, in padding. -/
def findRasters (expected actual : Raster) : Option Finding :=
  if expected.sameSize actual then
    match firstDifference? expected actual with
    | some (x, y) => some (.pixel x y expected actual)
    | none => if expected.bytes = actual.bytes then none else some (.padding actual)
  else some (.sizes expected.size actual.size)

/-- A wrong number of components, or a largest label that differs from it. -/
def findLabels (expected actual : Nat) (g : LabelGrid) : Option Finding :=
  if expected ≠ actual then some (.count expected actual)
  else if g.maxLabel ≠ actual then some (.labels g.maxLabel actual)
  else none

/-- A wrong flag. -/
def findFlag (expected actual : Bool) (what : String) : Option Finding :=
  if expected = actual then none else some (.flag what expected actual)

theorem checkValues_eq (l : CheckLog) (expected actual delta : Float) :
    l.checkValues expected actual delta = l.check (findValues expected actual delta) := by
  unfold checkValues findValues
  split <;> rfl

theorem checkRasters_eq (l : CheckLog) (expected actual : Raster) :
    l.checkRasters expected actual = l.check (findRasters expected actual) := by
  unfold checkRasters findRasters
  cases expected.sameSize actual with
  | false => rfl
  | true =>
    simp only [Bool.not_true, Bool.false_eq_true, if_false, if_true]
    cases firstDifference? expected actual with
    | some p => rfl
    | none =>
      by_cases hb : expected.bytes = actual.bytes
      · simp only [hb, ne_eq, not_true_eq_false, if_false, if_true]
        rfl
      · simp only [hb, ne_eq, not_false_eq_true, if_true, if_false]
        rfl

theorem checkLabels_eq (l : CheckLog) (expected actual : Nat) (g : LabelGrid) :
    l.checkLabels expected actual g = l.check (findLabels expected actual g) := by
  unfold checkLabels findLabels
  split
  · rfl
  · split <;> rfl

theorem checkFlag_eq (l : CheckLog) (expected actual : Bool) (what : String) :
    l.checkFlag expected actual what = l.check (findFlag expected actual what) := by
  unfold checkFlag findFlag
  by_cases h : expected = actual
  · rw [if_neg (not_not_intro h), if_pos h]
    rfl
  · rw [if_pos h, if_neg h]
    rfl

end Bitplane.CheckLog
