import ChatApi.Limit.Ceiling
import ChatApi.Limit.Gate
import ChatApi.Limit.Refusal
import ChatApi.Limit.Scope
import ChatApi.Limit.Route
import ChatApi.Limit.Window
import ChatApi.Table

/-!
# All limits of a client

A request waits at the gate of the account, if it is subject to that limit, and then at the gate of its
route's bucket, until it has a ticket for both. What callers do to the limits, one act after another, is
in `Limits.act`. Here is what they act on.

Routes whose responses name one bucket for the same major parameters are folded onto the bucket that
was first named so. Whoever is given a turn is added to `Limits.woken`.
-/

namespace ChatApi.Limit

structure Bucket where
  /-- The route that the bucket was made for. -/
  key : RouteKey
  window : Window := {}
  gate : Gate := {}
  deriving Inhabited

/-- Changes the gate of a bucket, which may wake a caller. -/
def Bucket.changeGate (b : Bucket) (f : Gate → Gate × Option Caller) : Bucket × Option Caller :=
  let (gate, woken) := f b.gate
  ({ b with gate }, woken)

def Bucket.leave (b : Bucket) (c : Caller) : Bucket × Option Caller := b.changeGate (·.leave c)

/-- What a caller wants a slot of. -/
inductive Wanted
  /-- The limit of the account alone. -/
  | account
  /-- The limits that a request on a route is subject to. -/
  | route (key : RouteKey) (scope : Scope)
  deriving DecidableEq, Inhabited

/-- Where a caller waits. -/
inductive Stage
  | ceiling
  | bucket (index : Nat)
  deriving DecidableEq, Repr, Inhabited

/-- A caller that waits. -/
structure Pending where
  caller : Caller
  wanted : Wanted
  stage : Stage
  deriving DecidableEq, Inhabited

/-- The entry of `c` says that it waits at bucket `i` now; any other stays as it is. -/
def Pending.goTo (p : Pending) (c : Caller) (i : Nat) : Pending :=
  if p.caller = c then { p with stage := .bucket i } else p

/-- The slots that a caller holds. -/
structure Ticket where
  caller : Caller
  wanted : Wanted
  /-- The bucket that it has a slot of. -/
  bucket : Option Nat
  deriving DecidableEq, Inhabited

structure Limits where
  ceiling : Ceiling
  ceilingGate : Gate := {}
  buckets : List Bucket := []
  /-- The bucket of each route that was used. -/
  routes : Table RouteKey Nat := .empty
  /-- The bucket first seen under each of the service's names and major parameters. -/
  shared : Table String Nat := .empty
  /-- The callers that wait, in the order in which they came. -/
  pending : List Pending := []
  tickets : List Ticket := []
  /-- The callers that were given a turn, the first one first. -/
  woken : List Caller := []
  deriving Inhabited

/-- What came of asking. -/
inductive Turn
  | granted
  /-- The caller owns a gate and sleeps until the given moment or a change. -/
  | asleep (till : Instant)
  /-- The caller got in line behind others. -/
  | queued
  /-- It was not the caller's turn. -/
  | unchanged
  deriving DecidableEq, Repr, Inhabited

/-- What came of it last, if anything did. -/
def Turn.or : Turn → Turn → Turn
  | .unchanged, before => before
  | turn, _ => turn

namespace Limits

/-- The limits of a client that has sent nothing yet. -/
def ofLimit (globalLimit : Nat) : Limits := { ceiling := .ofLimit globalLimit }

/-! ### Gates and buckets -/

def wake (s : Limits) (c : Option Caller) : Limits := { s with woken := s.woken ++ c.toList }

/-- Changes a bucket, which may wake a caller. -/
def changeBucket (s : Limits) (i : Nat) (f : Bucket → Bucket × Option Caller) : Limits :=
  match s.buckets[i]? with
  | none => s
  | some b =>
    let (b, woken) := f b
    { s with buckets := s.buckets.set i b }.wake woken

/-- The gate at which callers wait for a limit. -/
def gate (s : Limits) : Stage → Gate
  | .ceiling => s.ceilingGate
  | .bucket i => (s.buckets[i]?.map Bucket.gate).getD {}

/-- Changes a gate, which may wake a caller. -/
def changeGate (s : Limits) (g : Stage) (f : Gate → Gate × Option Caller) : Limits :=
  match g with
  | .ceiling =>
    let (gate, woken) := f s.ceilingGate
    { s with ceilingGate := gate }.wake woken
  | .bucket i => s.changeBucket i (·.changeGate f)

/-- The bucket of a route, which is made when the route is first used. -/
def bucketFor (s : Limits) (key : RouteKey) : Nat × Limits :=
  match s.routes.get? key with
  | some i => (i, s)
  | none =>
    let i := s.buckets.length
    (i, { s with buckets := s.buckets ++ [{ key }], routes := s.routes.put key i })

/-- What a bucket goes by among all that have the same major parameters. -/
def sharedName (hash : String) (key : RouteKey) : String := hash ++ " " ++ key.majors

/-! ### Tickets -/

/-- Gives a waiting caller its ticket. -/
def grant (s : Limits) (p : Pending) (bucket : Option Nat) : Limits :=
  { s with
    pending := s.pending.filter (·.caller ≠ p.caller)
    tickets := s.tickets ++ [⟨p.caller, p.wanted, bucket⟩] }

/-- The ticket of a caller. -/
def ticket? (s : Limits) (c : Caller) : Option Ticket := s.tickets.find? (·.caller = c)

/-- Gives a ticket back. One of a probe opens the gate. -/
def release (s : Limits) (t : Ticket) : Limits :=
  let s := { s with tickets := s.tickets.filter (·.caller ≠ t.caller) }
  match t.bucket with
  | some i => s.changeBucket i (·.leave t.caller)
  | none => s

/-! ### Refusals -/

/-- How long to wait after a refusal: what its body says, or else its header fields, or a second. -/
def refusalWait (r : Report) (body : Option Refusal) : Span :=
  (((body.bind Refusal.wait?).or r.retryAfter).or r.resetAfter).getD Span.second

/-- Whether a refusal is for the whole account. -/
def isGlobalRefusal (r : Report) (body : Option Refusal) : Bool :=
  body.any Refusal.isGlobal || r.isGlobal || r.scope == some "global"

/-! ### Views -/

/-- What is known of the bucket of a route, if the route was used. -/
def view? (s : Limits) (now : Instant) (key : RouteKey) : Option Window := do
  let b ← s.buckets[← s.routes.get? key]?
  return b.window.view now

/-- How many routes have a bucket. -/
def bucketCount (s : Limits) : Nat := s.routes.size

/-- The callers that were given a turn since they were last asked for. -/
def takeWoken (s : Limits) : List Caller × Limits := (s.woken, { s with woken := [] })

end Limits

end ChatApi.Limit
