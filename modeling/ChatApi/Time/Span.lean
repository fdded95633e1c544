import ChatApi.Decimal.Binary

/-!
# Spans of time

A span is a whole number of nanoseconds, and so is an instant, counted from when the clock
started.
-/

namespace ChatApi

/-- A length of time in nanoseconds. -/
abbrev Span := Nat

/-- A moment, in nanoseconds since the clock started. -/
abbrev Instant := Nat

namespace Span

def ofMillis (ms : Nat) : Span := ms * 1000000

def second : Span := 1000000000

/-- A day. -/
def day : Span := 86400 * second

/-- The nanosecond nearest to `seconds`, a half to the even one. Negative values, infinity and what
is no number have none; a negative zero is zero. -/
def ofSeconds? (seconds : Float) : Option Span :=
  if seconds < 0 || seconds.isNaN || seconds.isInf then none
  else
    let (m, q) := Decimal.parts seconds
    if q ≥ 0 then some ((m <<< q.toNat) * second)
    else some (Decimal.roundHalfEven (m * second) (1 <<< (-q).toNat))

end Span

end ChatApi
