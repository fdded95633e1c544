import ChatApi.Time.Span

/-!
# Gates

Callers that want a slot pass a gate one after another, in the order in which they came. The first
in line owns the gate: it looks at the budget, sleeps until there may be some, or, while it probes,
keeps the others back until its response is there.
-/

namespace ChatApi.Limit

/-- Whoever waits for a slot or holds one. -/
abbrev Caller := Nat

/-- What the first in line does. -/
inductive Hold
  /-- It is about to look at the budget. -/
  | turn
  /-- It found none, and looks again at the given moment or when the budget changes. -/
  | asleep (till : Instant)
  /-- It was let through and keeps the gate closed behind itself. -/
  | probing
  deriving DecidableEq, Repr, Inhabited

structure Gate where
  /-- The callers in the order in which they came. -/
  line : List Caller := []
  /-- What the first of them does. -/
  hold : Hold := .turn
  deriving DecidableEq, Repr, Inhabited

namespace Gate

/-- The caller that owns the gate. -/
def owner? (g : Gate) : Option Caller := g.line.head?

/-- Gets in line. Nobody before it means that it is its turn. -/
def join (g : Gate) (c : Caller) : Gate :=
  { line := g.line ++ [c], hold := if g.line.isEmpty then .turn else g.hold }

/-- Gets out of line. Where that frees the gate, the next in line gets its turn. -/
def leave (g : Gate) (c : Caller) : Gate × Option Caller :=
  match g.line with
  | [] => (g, none)
  | owner :: behind =>
    if owner = c then ({ line := behind, hold := .turn }, behind.head?)
    else ({ g with line := owner :: behind.erase c }, none)

/-- Gives a sleeping owner another turn. -/
def rouse (g : Gate) : Gate × Option Caller :=
  match g.hold with
  | .asleep _ => ({ g with hold := .turn }, g.owner?)
  | _ => (g, none)

/-- Whether it is the turn of a caller to look at the budget. -/
def isUp (g : Gate) (c : Caller) (now : Instant) : Bool :=
  g.owner? = some c && match g.hold with
    | .turn => true
    | .asleep till => till ≤ now
    | .probing => false

end Gate

end ChatApi.Limit
