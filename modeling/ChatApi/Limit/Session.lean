import ChatApi.Limit.Event
import ChatApi.Time.Agenda

/-!
# Callers on a clock

A session is a set of limits that callers use over time. Between two steps everything that can go on
without time passing does; `Session.advance` lets time pass.
-/

namespace ChatApi.Limit

/-- That a caller got its slots. -/
structure Grant where
  caller : Caller
  moment : Instant
  /-- The route key that grants of one moment are listed by; empty for slots of the account. -/
  key : String
  deriving DecidableEq, Repr, Inhabited

/-- Grants are listed by moment and key. -/
def Grant.le (a b : Grant) : Bool :=
  a.moment < b.moment || (a.moment = b.moment && decide (a.key ≤ b.key))

structure Session where
  /-- When the clock started, in milliseconds of the calendar's epoch. -/
  epoch : Int
  limits : Limits
  agenda : Agenda Caller := {}
  /-- The grants since they were last asked for. -/
  grants : List Grant := []
  /-- The routes asked for, the first one first. -/
  keys : List RouteKey := []

/-- The route key that a caller's grant is listed by. -/
def Wanted.key : Wanted → String
  | .account => ""
  | .route key _ => key.text

/-- What came of giving slots back. -/
inductive Returned
  /-- They were held. -/
  | released
  /-- They were still waited for. -/
  | cancelled
  | notHeld
  deriving DecidableEq, Repr, Inhabited

/-- What came of recording a response. -/
inductive Recorded (α : Type)
  | done (a : α)
  | notHeld
  /-- The caller holds no more than a slot of the account, which it gives back. -/
  | notTicket
  deriving DecidableEq, Repr, Inhabited

namespace Session

def now (x : Session) : Instant := x.agenda.now

/-- The milliseconds of the calendar's epoch. -/
def calendarMillis (x : Session) : Int := x.epoch + x.now / 1000000

/-- Takes changed limits over, and makes those ready that were given a turn. -/
def withLimits (x : Session) (limits : Limits) : Session :=
  let (woken, limits) := limits.takeWoken
  { x with limits, agenda := x.agenda.wakeAll woken }

/-- A caller asks, and its alarm is set or taken back as the outcome demands. -/
def ask (x : Session) (c : Caller) (wanted : Wanted) (e : Event) : Session :=
  let (limits, turn) := x.limits.step x.now e
  let x := x.withLimits limits
  match turn with
  | .granted =>
    { x with
      agenda := x.agenda.unset c .step
      grants := x.grants ++ [⟨c, x.now, wanted.key⟩] }
  | .asleep till => { x with agenda := x.agenda.set c .step till }
  | .queued => { x with agenda := x.agenda.unset c .step }
  | .unchanged => x

/-- Lets a caller go on. -/
def poll (x : Session) (c : Caller) : Session :=
  match x.limits.pending.find? (·.caller = c) with
  | none => x
  | some p => x.ask c p.wanted (.poll c)

/-- Lets callers go on until none can, or `fuel` of them have. -/
def settleWith : (fuel : Nat) → Session → Session
  | 0, x => x
  | fuel + 1, x =>
    match x.agenda.pop? with
    | none => x
    | some (c, agenda) => settleWith fuel ({ x with agenda }.poll c)

/-- Lets callers go on until none can. A caller gives others a turn at most twice: when it leaves
the gate of the account and when it leaves that of its bucket. -/
def settle (x : Session) : Session :=
  settleWith (x.agenda.ready.length + 2 * x.limits.pending.length) x

/-- An event happens, and those go on that it gave a turn. -/
def happen (x : Session) (e : Event) : Session :=
  (x.withLimits (x.limits.step x.now e).1).settle

/-- Notes which route is asked for. -/
def note (x : Session) : Wanted → Session
  | .route key _ => if key ∈ x.keys then x else { x with keys := x.keys ++ [key] }
  | .account => x

/-- A caller asks for slots. -/
def acquire (x : Session) (c : Caller) (wanted : Wanted) : Session :=
  ((x.note wanted).ask c wanted (.arrive c wanted)).settle

/-- A caller gives its slots back, or asks no more. -/
def drop (x : Session) (c : Caller) : Session × Returned :=
  let returned :=
    if (x.limits.ticket? c).isSome then .released
    else if x.limits.pending.any (·.caller = c) then .cancelled
    else .notHeld
  ({ x with agenda := x.agenda.forget c }.happen (.withdraw c), returned)

/-- Lets `e` happen, which uses up the ticket of a caller, and gives `a`. -/
def useTicket {α : Type} (x : Session) (c : Caller) (e : Event) (a : α) : Session × Recorded α :=
  match x.limits.ticket? c with
  | none => (x, .notHeld)
  | some t =>
    match t.wanted with
    | .account => (x.happen (.withdraw c), .notTicket)
    | .route _ _ => (x.happen e, .done a)

/-- The response to a caller's request comes in. -/
def record (x : Session) (c : Caller) (headers : Http.Headers) : Session × Recorded Unit :=
  x.useTicket c (.record c (.ofHeaders x.calendarMillis headers)) ()

/-- The refusal of a caller's request comes in. Gives how long to wait and whether the refusal is
for the whole account. -/
def refuse (x : Session) (c : Caller) (headers : Http.Headers) (body : ByteArray) :
    Session × Recorded (Span × Bool) :=
  let r := Report.ofHeaders x.calendarMillis headers
  let refusal := Refusal.ofBody? body
  x.useTicket c (.refuse c r refusal)
    (Limits.refusalWait r refusal, Limits.isGlobalRefusal r refusal)

/-- Holds the whole account back for a while. -/
def block (x : Session) (wait : Span) : Session := x.happen (.block wait)

/-- A response comes in that names no caller. -/
def recordBucket (x : Session) (i : Nat) (headers : Http.Headers) : Session :=
  let r := Report.ofHeaders x.calendarMillis headers
  (x.withLimits (x.limits.finish x.now .unchanged [.write i (.record r), .tell (.bucket i)]).1).settle

/-- Closes a bucket for a while. -/
def exhaustBucket (x : Session) (i : Nat) (wait : Span) : Session :=
  (x.withLimits (x.limits.finish x.now .unchanged [.write i (.exhaust wait), .tell (.bucket i)]).1).settle

/-- Lets time pass until `target`, with at most `fuel` stops for alarms. -/
def advanceWith (target : Instant) : (fuel : Nat) → Session → Session
  | 0, x => x
  | fuel + 1, x =>
    match x.agenda.next?.filter (· ≤ target) with
    | none => { x with agenda := { x.agenda with now := max x.now target } }
    | some due => advanceWith target fuel { x with agenda := x.agenda.ring due }.settle

/-- Lets time pass. Alarms go off at different milliseconds, which bounds how many stops there
are. -/
def advance (x : Session) (time : Span) : Session :=
  advanceWith (x.now + time) (time / 1000000 + 2) x

/-- The grants since they were last asked for, as they are listed. -/
def takeGrants (x : Session) : List Grant × Session :=
  (x.grants.mergeSort Grant.le, { x with grants := [] })

/-- The callers that wait, in the order in which they came. -/
def waiting (x : Session) : List Caller := x.limits.pending.map Pending.caller

end Session

end ChatApi.Limit
