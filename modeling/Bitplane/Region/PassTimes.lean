/-! # The times of the passes of a labeling

A span of time is a number of seconds below `2^64` and of nanoseconds below `10^9`. Sums carry from
the nanoseconds to the seconds; there is none where the seconds do not fit. -/

namespace Bitplane

/-- One more than the greatest number of seconds in a span. -/
def secondsLimit : Nat := 0x10000000000000000

/-- The number of nanoseconds in a second. -/
def nanosPerSecond : Nat := 1000000000

/-- **A span of time.** -/
structure Span where
  seconds : Nat
  nanos : Nat
  seconds_lt : seconds < secondsLimit
  nanos_lt : nanos < nanosPerSecond

namespace Span

/-- The span of the given seconds and nanoseconds, whole seconds among the latter carried over. -/
def of? (seconds nanos : Nat) : Option Span :=
  if h : seconds + nanos / nanosPerSecond < secondsLimit then
    some ⟨seconds + nanos / nanosPerSecond, nanos % nanosPerSecond, h, Nat.mod_lt _ (by decide)⟩
  else none

/-- The sum of two spans. -/
def add? (a b : Span) : Option Span := of? (a.seconds + b.seconds) (a.nanos + b.nanos)

end Span

namespace Region

/-- The times of the three passes. -/
structure PassTimes where
  seed : Span
  merge : Span
  resolve : Span

/-- The time of all passes together. -/
def PassTimes.total? (t : PassTimes) : Option Span := do
  let s ← t.seed.add? t.merge
  s.add? t.resolve

end Region

end Bitplane
