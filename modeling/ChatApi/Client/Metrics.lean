import ChatApi.Http.Status

/-!
# Counts of attempts

Every attempt counts once in the total and once in its class. The counts since the last time they
were asked for are kept beside those of the whole lifetime.
-/

namespace ChatApi.Client

structure Counters where
  total : Nat := 0
  successful : Nat := 0
  rateLimited : Nat := 0
  badRequest : Nat := 0
  forbidden : Nat := 0
  notFound : Nat := 0
  otherClientErrors : Nat := 0
  serverErrors : Nat := 0
  transportFailures : Nat := 0
  deriving DecidableEq, Repr, Inhabited

namespace Counters

/-- Counts an attempt, which got no response if it has no status. -/
def record (c : Counters) (status : Option Http.Status) : Counters :=
  let c := { c with total := c.total + 1 }
  match status with
  | none => { c with transportFailures := c.transportFailures + 1 }
  | some s =>
    if s.isSuccess then { c with successful := c.successful + 1 }
    else if s = .tooManyRequests then { c with rateLimited := c.rateLimited + 1 }
    else if s = .badRequest then { c with badRequest := c.badRequest + 1 }
    else if s = .forbidden then { c with forbidden := c.forbidden + 1 }
    else if s = .notFound then { c with notFound := c.notFound + 1 }
    else if s.isServerError then { c with serverErrors := c.serverErrors + 1 }
    else { c with otherClientErrors := c.otherClientErrors + 1 }

/-- The counts of the classes. -/
def classes (c : Counters) : List Nat :=
  [c.successful, c.rateLimited, c.badRequest, c.forbidden, c.notFound, c.otherClientErrors,
    c.serverErrors, c.transportFailures]

end Counters

structure Metrics where
  lifetime : Counters := {}
  interval : Counters := {}
  deriving DecidableEq, Repr, Inhabited

namespace Metrics

def record (m : Metrics) (status : Option Http.Status) : Metrics :=
  ⟨m.lifetime.record status, m.interval.record status⟩

/-- The counts since the last call, which start again from zero. -/
def takeInterval (m : Metrics) : Counters × Metrics := (m.interval, { m with interval := {} })

end Metrics

end ChatApi.Client
