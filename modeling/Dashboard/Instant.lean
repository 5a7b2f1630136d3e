/-!
# Instants

An instant is a number of seconds since the beginning of 1970 and a number of nanoseconds.
The nanoseconds of a leap second count on from those of the second before it, so they go
up to two seconds. Instants are ordered by their seconds and then by their nanoseconds.
-/

namespace Dashboard

/-- The number of nanoseconds in a second. -/
def nanosPerSecond : Int := 1000000000

/-- A point of time. -/
structure Instant where
  seconds : Int
  nanos : Int
  deriving DecidableEq, Repr

namespace Instant

instance : Ord Instant :=
  ⟨compareLex (compareOn Instant.seconds) (compareOn Instant.nanos)⟩

/-- Whether an instant lies within a leap second. -/
def isLeap (t : Instant) : Bool :=
  nanosPerSecond ≤ t.nanos

/-- The instant a number of nanoseconds after a second. -/
def ofNanos (seconds nanos : Int) : Instant :=
  ⟨seconds + nanos / nanosPerSecond, nanos % nanosPerSecond⟩

/-- The instant that is a duration later. The duration is given in nanoseconds and may be
negative. Within a leap second only a fraction of a second can be added; whatever leads out
of it is counted from the second before the leap second or from the second after it. -/
def plus (t : Instant) (duration : Int) : Instant :=
  if t.isLeap then
    let seconds := duration.tdiv nanosPerSecond
    let fraction := duration.tmod nanosPerSecond
    if 0 < seconds ∨ (0 < fraction ∧ 2 * nanosPerSecond ≤ t.nanos + fraction) then
      ofNanos t.seconds (t.nanos - nanosPerSecond + duration)
    else if seconds < 0 then ofNanos (t.seconds + 1) (t.nanos - nanosPerSecond + duration)
    else ⟨t.seconds, t.nanos + fraction⟩
  else ofNanos t.seconds (t.nanos + duration)

/-- The instant that is a duration earlier. -/
def minus (t : Instant) (duration : Int) : Instant :=
  t.plus (-duration)

end Instant

end Dashboard
