import ChatApi.Decimal.Numeral
import ChatApi.Http.Header
import ChatApi.Text.Blank
import ChatApi.Time.Span

/-!
# What a response says about its limits

`Report.ofHeaders` reads the rate limit fields of a response. A value that cannot be read counts
as absent; a wait of more than a day counts as unreadable.
-/

namespace ChatApi.Limit

/-- The longest wait that is believed. -/
def longestWait : Span := Span.day

/-- A wait given in seconds, unless it is negative or absurdly long. -/
def readWait? (seconds : Float) : Option Span :=
  (Span.ofSeconds? seconds).filter (· ≤ longestWait)

theorem readWait?_le {x : Float} {d : Span} (h : readWait? x = some d) : d ≤ longestWait := by
  simp only [readWait?, Option.filter_eq_some_iff, decide_eq_true_eq] at h
  exact h.2

/-- One more than the greatest count that a field can give. -/
def countBound : Nat := UInt32.size

/-- The rate limit information of one response. -/
structure Report where
  /-- Requests allowed in a window. -/
  limit : Option Nat := none
  /-- Requests left in the window. -/
  remaining : Option Nat := none
  /-- How long the window goes on. -/
  resetAfter : Option Span := none
  /-- The name that the service has for the bucket. -/
  bucket : Option String := none
  /-- Whether the limit of the whole account was hit. -/
  isGlobal : Bool := false
  /-- Whose limit was hit. -/
  scope : Option String := none
  /-- How long to wait before another try. -/
  retryAfter : Option Span := none
  deriving DecidableEq, Repr, Inhabited

namespace Report

def count? (hs : Http.Headers) (name : String) : Option Nat := do
  Text.readNatBelow? countBound (Text.dropAround Text.isBlank (← hs.text? name).toList)

def number? (hs : Http.Headers) (name : String) : Option Float := do
  Decimal.readFloat? (Text.dropAround Text.isBlank (← hs.text? name).toList)

/-- How long is left until `moment`, which is not before `now`; both in seconds. -/
def untilMoment? (now moment : Float) : Option Span :=
  let left := moment - now
  readWait? (if left > 0 then left else 0)

/-- The report in the header fields of a response that came in at `now`, in milliseconds of the
calendar's epoch. The moment of the reset is only looked at where no time until then is given. -/
def ofHeaders (now : Int) (hs : Http.Headers) : Report where
  limit := count? hs "x-ratelimit-limit"
  remaining := count? hs "x-ratelimit-remaining"
  resetAfter := ((number? hs "x-ratelimit-reset-after").bind readWait?).or
    ((number? hs "x-ratelimit-reset").bind (untilMoment? (Float.ofInt now / 1000)))
  bucket := hs.text? "x-ratelimit-bucket"
  isGlobal := (hs.text? "x-ratelimit-global").any fun v => v.map Char.toLower == "true"
  scope := hs.text? "x-ratelimit-scope"
  retryAfter := (number? hs "retry-after").bind readWait?

/-- Whether the response says anything about a bucket's budget. -/
def isTracked (r : Report) : Bool := r.remaining.isSome || r.limit.isSome || r.resetAfter.isSome

/-- When the window ends, for a response seen at `now`. -/
def resetAt (r : Report) (now : Instant) : Option Instant := r.resetAfter.map (now + ·)

end Report

end ChatApi.Limit
