import ChatApi.Time.Span

/-!
# The limit of the account

Requests of the whole account are counted in windows of a second, each of which begins with the
first request after the one before it has ended. When the service says that the account is over its
limit, all requests are held back for as long as it says.
-/

namespace ChatApi.Limit

structure Ceiling where
  /-- Requests allowed in a window; zero stands for any number. -/
  limit : Nat
  /-- Requests left in the current window. -/
  remaining : Nat
  /-- When the current window ends. -/
  windowEnds : Option Instant := none
  /-- Until when all requests are held back. -/
  blockedUntil : Option Instant := none
  deriving DecidableEq, Repr, Inhabited

namespace Ceiling

/-- The length of a window. -/
def window : Span := Span.second

/-- A ceiling of `limit` requests per second. -/
def ofLimit (limit : Nat) : Ceiling := { limit, remaining := limit }

/-- Until when requests are held back at `now`, if they are. -/
def blocked? (c : Ceiling) (now : Instant) : Option Instant := c.blockedUntil.filter (now < ·)

/-- Begins a window if the last one has ended. -/
def refresh (c : Ceiling) (now : Instant) : Ceiling :=
  if c.windowEnds.any (now < ·) then c
  else { c with remaining := c.limit, windowEnds := some (now + window) }

/-- Takes a slot, or says until when there is none. -/
def reserve (c : Ceiling) (now : Instant) : Ceiling × Option Instant :=
  match c.blocked? now with
  | some till => (c, some till)
  | none =>
    let c := { c with blockedUntil := none }
    if c.limit = 0 then (c, none)
    else
      let c := c.refresh now
      if c.remaining = 0 then (c, c.windowEnds)
      else ({ c with remaining := c.remaining - 1 }, none)

/-- Holds all requests back for a while. A longer block stays in force. -/
def block (c : Ceiling) (now : Instant) (wait : Span) : Ceiling :=
  { c with blockedUntil := some (max (c.blockedUntil.getD 0) (now + wait)) }

end Ceiling

end ChatApi.Limit
