import ChatApi.Client.Config
import ChatApi.Client.Endpoint
import ChatApi.Client.Metrics
import ChatApi.Client.Progress
import ChatApi.Limit.Event
import ChatApi.Time.Agenda

/-!
# Calls on a clock

A session is a client whose calls run side by side over time, and the service that answers them.
`Session.stepCall` takes one call one step further; a call that has to wait is left alone until it
is woken. A call can be cancelled, or run out of time, at any point at which it waits: it then gives
back what it holds.
-/

namespace ChatApi.Client

/-- What a client keeps between calls. -/
structure State where
  account : Account
  limits : Limit.Limits
  cache : Cache := {}
  metrics : Metrics := {}
  draws : Draws := []

/-- A client that has sent nothing yet. -/
def State.ofAccount (account : Account) (draws : Draws) : State :=
  { account, limits := .ofLimit account.globalLimit, draws }

/-- What the service does with an attempt: after a while it responds, or the connection fails. -/
structure Reply where
  latency : Span
  response : Option Http.Response
  deriving Inhabited

/-- Where a call is. -/
inductive CallStage
  /-- It has not begun yet. -/
  | due (start : Instant)
  /-- It is about to ask for its slots. -/
  | asking
  /-- It waits for its slots. -/
  | waiting
  /-- It waits for the end of an attempt. -/
  | inFlight (till : Instant) (response : Option Http.Response)
  /-- It waits before another attempt. -/
  | resting (till : Instant)
  /-- It is over. The cache is kept as the call left it. -/
  | ended (moment : Instant) (result : Except ApiError Answer) (cache : Cache)

structure Call where
  endpoint : Endpoint
  /-- How long after its beginning it is cancelled. -/
  cancelAfter : Option Span
  stage : CallStage
  /-- The request, and what it is limited by, once it has begun. -/
  request : Request := default
  key : Limit.RouteKey := default
  /-- When the caller's patience ends. -/
  deadline : Option Instant := none
  isCancelled : Bool := false
  progress : Progress := {}

def Call.isOver (c : Call) : Bool :=
  match c.stage with
  | .ended _ _ _ => true
  | _ => false

/-- What takes turns. -/
inductive Task
  | call (i : Nat)
  /-- Whoever cancels a call. -/
  | canceller (i : Nat)
  deriving DecidableEq, Repr, Inhabited

/-- An attempt that was sent. -/
structure Sent where
  moment : Instant
  outgoing : Outgoing

/-- Attempts are listed by moment, method and address. -/
def Sent.le (a b : Sent) : Bool :=
  let line (s : Sent) := s.outgoing.method.name ++ " " ++ s.outgoing.url.text
  a.moment < b.moment || (a.moment = b.moment && decide (line a ≤ line b))

structure Session where
  /-- When the clock started, in milliseconds of the calendar's epoch. -/
  epoch : Int
  client : State
  /-- The replies still to come under each method and path. -/
  replies : List (String × List Reply)
  /-- The line that separates the parts of a form. -/
  boundary : String
  agenda : Agenda Task := {}
  calls : List Call := []
  /-- The attempts sent, the first one first. -/
  sent : List Sent := []

namespace Session

def now (x : Session) : Instant := x.agenda.now

/-- The milliseconds of the calendar's epoch. -/
def calendarMillis (x : Session) : Int := x.epoch + x.now / 1000000

def setCall (x : Session) (i : Nat) (c : Call) : Session := { x with calls := x.calls.set i c }

/-- An event happens to the limits. Those that it gives a turn are made ready. -/
def happen (x : Session) (e : Limit.Event) : Session × Limit.Turn :=
  let (limits, turn) := x.client.limits.step x.now e
  let (woken, limits) := limits.takeWoken
  ({ x with
    client := { x.client with limits }
    agenda := x.agenda.wakeAll (woken.map .call) }, turn)

/-- Ends a call, which gives back all that it holds. -/
def finish (x : Session) (i : Nat) (c : Call) (result : Except ApiError Answer) : Session :=
  let x := (x.happen (.withdraw i)).1
  let x := x.setCall i { c with stage := .ended x.now result x.client.cache }
  { x with agenda := (x.agenda.forget (.call i)).forget (.canceller i) }

/-- Lets a call wait until a moment. -/
def waitTill (x : Session) (i : Nat) (till : Instant) : Session :=
  { x with agenda := x.agenda.set (.call i) .step till }

/-! ### The steps of a call -/

/-- Begins a call: its request is made, and its time starts to run. -/
def begin (x : Session) (i : Nat) (c : Call) : Session :=
  let x := match c.cancelAfter with
    | some time => { x with agenda := x.agenda.set (.canceller i) .step (x.now + time) }
    | none => x
  match c.endpoint.request with
  | .error e => x.finish i c (.error e)
  | .ok request =>
    match Limit.RouteKey.resolve request.method request.route with
    | .error e => x.finish i c (.error (.badRoute e))
    | .ok key =>
      let deadline := request.timeout.map (x.now + ·)
      let x := match deadline with
        | some till => { x with agenda := x.agenda.set (.call i) .deadline till }
        | none => x
      x.setCall i { c with request, key, deadline, stage := .asking }

/-- Takes the end of an attempt into account. -/
def settleAttempt (x : Session) (i : Nat) (c : Call) (e : AttemptEnd) : Session :=
  let (verdict, draws) := c.progress.after x.client.account.retry c.request.route e x.client.draws
  let x := { x with client := { x.client with draws } }
  match verdict with
  | .again delay progress =>
    (x.setCall i { c with progress, stage := .resting (x.now + delay) }).waitTill i (x.now + delay)
  | .finished (.error e) => x.finish i c (.error e)
  | .finished (.ok r) =>
    let (result, cache) := c.endpoint.conclude x.client.cache r
    { x with client := { x.client with cache } }.finish i c result

/-- Ends an attempt that got no response. -/
def endWithout (x : Session) (i : Nat) (c : Call) : Session :=
  let x := (x.happen (.withdraw i)).1
  let x := { x with client := { x.client with metrics := x.client.metrics.record none } }
  x.settleAttempt i c .noResponse

/-- Ends an attempt with a response, which the limits see first. -/
def endWith (x : Session) (i : Nat) (c : Call) (r : Http.Response) : Session :=
  let x := { x with client := { x.client with metrics := x.client.metrics.record (some r.status) } }
  let report := Limit.Report.ofHeaders x.calendarMillis r.headers
  if r.status = .tooManyRequests then
    let refusal := Limit.Refusal.ofBody? r.body
    let limited :=
      (Limit.Limits.refusalWait report refusal, Limit.Limits.isGlobalRefusal report refusal)
    (x.happen (.refuse i report refusal)).1.settleAttempt i c (.response r (some limited))
  else (x.happen (.record i report)).1.settleAttempt i c (.response r none)

/-- The next reply to an attempt, if any is left. -/
def takeReply (x : Session) (o : Outgoing) : Option Reply × Session :=
  let key := o.method.name ++ " " ++ o.url.pathText
  match x.replies.lookup key with
  | some (reply :: rest) =>
    let used (e : String × List Reply) : String × List Reply :=
      if e.1 = key then (e.1, rest) else e
    (some reply, { x with replies := x.replies.map used })
  | _ => (none, x)

/-- Sends an attempt of a call that has its slots. -/
def send (x : Session) (i : Nat) (c : Call) : Session :=
  match c.request.body.content? with
  | none => x.finish i c (.error .unsendable)
  | some content =>
    let c := { c with progress := c.progress.attempt }
    let account := x.client.account
    match c.request.outgoing? x.boundary account.apiBase account.token content with
    | none => x.endWithout i c
    | some outgoing =>
      let x := { x with sent := x.sent ++ [Sent.mk x.now outgoing] }
      match x.takeReply outgoing with
      | (none, x) => x.endWithout i c
      | (some reply, x) =>
        let till := x.now + reply.latency
        (x.setCall i { c with stage := .inFlight till reply.response }).waitTill i till

/-- Asks for slots. A call that gets them sends its attempt. Nothing comes back if it is not the
call's turn. -/
def ask (x : Session) (i : Nat) (c : Call) (e : Limit.Event) : Option Session :=
  let (x, turn) := x.happen e
  let waiting := x.setCall i { c with stage := .waiting }
  match turn with
  | .granted => some ({ x with agenda := x.agenda.unset (.call i) .step }.send i c)
  | .asleep till => some (waiting.waitTill i till)
  | .queued => some { waiting with agenda := x.agenda.unset (.call i) .step }
  | .unchanged => none

/-- Takes a call one step further. Nothing comes back if it has to wait. -/
def advanceCall (x : Session) (i : Nat) (c : Call) : Option Session :=
  match c.stage with
  | .due start => if start ≤ x.now then some (x.begin i c) else none
  | .asking => x.ask i c (.arrive i (.route c.key c.request.scope))
  | .waiting => x.ask i c (.poll i)
  | .inFlight till response =>
    if x.now < till then none
    else some (match response with
      | some r => x.endWith i c r
      | none => x.endWithout i c)
  | .resting till => if x.now < till then none else some (x.setCall i { c with stage := .asking })
  | .ended _ _ _ => none

/-- Takes a call one step further, or ends it: a cancelled call at once, one that is out of time
when it would have to wait. -/
def stepCall (x : Session) (i : Nat) : Option Session :=
  match x.calls[i]? with
  | none => none
  | some c =>
    if c.isOver then none
    else if c.isCancelled then some (x.finish i c (.error .cancelled))
    else match x.advanceCall i c with
      | some x => some x
      | none =>
        if c.deadline.any (· ≤ x.now) then some (x.finish i c (.error .timedOut)) else none

/-- Takes a call as far as it can go, with at most `fuel` steps. -/
def runCall : (fuel : Nat) → Session → Nat → Session
  | 0, x, _ => x
  | fuel + 1, x, i =>
    match x.stepCall i with
    | none => x
    | some x => runCall fuel x i

/-- Cancels a call. -/
def cancel (x : Session) (i : Nat) : Session :=
  match x.calls[i]? with
  | none => x
  | some c =>
    let x := x.setCall i { c with isCancelled := true }
    { x with agenda := x.agenda.wake (.call i) }

/-! ### All calls together -/

/-- A bound on the attempts still to come: each uses up a reply or one of the retries of its
call. -/
def attemptsLeft (x : Session) : Nat :=
  x.replies.foldl (fun n e => n + e.2.length) 0 +
    x.calls.length * (x.client.account.retry.maxRetries + 1)

/-- A bound on the steps still to come. An attempt takes a few steps of its call, and wakes a few
others. -/
def stepsLeft (x : Session) : Nat := 64 * (x.attemptsLeft + x.calls.length + 1)

/-- Runs until all calls are over, with at most `fuel` turns: a ready task has its turn, or else the
clock moves to the next alarm. -/
def runWith : (fuel : Nat) → Session → Session
  | 0, x => x
  | fuel + 1, x =>
    if x.calls.all Call.isOver then x
    else match x.agenda.pop? with
      | some (.call i, agenda) =>
        let x := { x with agenda }
        runWith fuel (runCall x.stepsLeft x i)
      | some (.canceller i, agenda) => runWith fuel ({ x with agenda }.cancel i)
      | none =>
        match x.agenda.next? with
        | some due => runWith fuel { x with agenda := x.agenda.ring due }
        | none => x

/-- Adds a call that begins after a while. -/
def start (x : Session) (endpoint : Endpoint) (delay : Span) (cancelAfter : Option Span) :
    Session :=
  let i := x.calls.length
  let x := { x with
    calls := x.calls ++ [{ endpoint, cancelAfter, stage := .due (x.now + delay) }]
    agenda := x.agenda.wake (.call i) }
  if delay = 0 then x else x.waitTill i (x.now + delay)

/-- Runs until all calls are over. -/
def run (x : Session) : Session := runWith x.stepsLeft x

/-- The attempts sent since they were last asked for, as they are listed. -/
def takeSent (x : Session) : List Sent × Session :=
  (x.sent.mergeSort Sent.le, { x with sent := [] })

end Session

end ChatApi.Client
