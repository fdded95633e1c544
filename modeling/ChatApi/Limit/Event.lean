import ChatApi.Limit.Act

/-!
# What happens to limits

Whoever something happens to does one act after another (`Limits.program`), until it is done or has to
wait. Where nobody else acts in between, `Limits.step` is what comes of an event: each happens at a
moment, and moments never go back.
-/

namespace ChatApi.Limit

inductive Event
  /-- A new caller asks for slots. -/
  | arrive (c : Caller) (wanted : Wanted)
  /-- A waiting caller looks again. -/
  | poll (c : Caller)
  /-- The response to the request of a caller comes in. -/
  | record (c : Caller) (r : Report)
  /-- The request of a caller is refused, being over a limit. -/
  | refuse (c : Caller) (r : Report) (body : Option Refusal)
  /-- A caller leaves, wherever it is. -/
  | withdraw (c : Caller)
  /-- The whole account is held back. -/
  | block (wait : Span)
  deriving Inhabited

namespace Limits

/-- Whether a caller waits or holds slots. -/
def isBusy (s : Limits) (c : Caller) : Bool :=
  s.pending.any (·.caller = c) || (s.ticket? c).isSome

/-! ### What is done -/

/-- The response to a request with a ticket is taken over by the ticket's bucket. -/
def takeOver (t : Ticket) (r : Report) : List Act :=
  match t.bucket with
  | some i => [.write i (.record r), .tell (.bucket i), .fold i r]
  | none => []

/-- The refusal of a request is taken over. One for the whole account holds all of it back, if the
request was subject to that limit; any other closes the bucket. -/
def takeOverRefusal (t : Ticket) (r : Report) (body : Option Refusal) : List Act :=
  let wait := refusalWait r body
  if isGlobalRefusal r body then
    let hold := match t.wanted with
      | .route _ .all => [.block wait, .tell .ceiling]
      | _ => []
    hold ++ if r.isTracked then takeOver t r else []
  else match t.bucket with
    | some i => [.write i (.exhaust wait), .tell (.bucket i), .fold i r]
    | none => []

/-- What is done at an event, act by act. Who waits or holds slots cannot ask for more. A response
changes nothing if nobody holds a ticket for it. -/
def program (s : Limits) : Event → List Act
  | .arrive c wanted => if s.isBusy c then [] else [.start ⟨c, wanted, .ceiling⟩]
  | .poll c =>
    match s.pending.find? (·.caller = c) with
    | none => []
    | some p => [.resume p.stage p]
  | .record c r =>
    match s.ticket? c with
    | some t => takeOver t r ++ [.giveBack t]
    | none => []
  | .refuse c r body =>
    match s.ticket? c with
    | some t => takeOverRefusal t r body ++ [.giveBack t]
    | none => []
  | .withdraw c =>
    match s.ticket? c, s.pending.find? (·.caller = c) with
    | some t, _ => [.giveBack t]
    | none, some p => [.quit p]
    | none, none => []
  | .block wait => [.block wait, .tell .ceiling]

/-! ### Without others in between -/

/-- Does one act after another, until none is left or `fuel` of them are done. Gives what came of asking
last. -/
def carry (now : Instant) : (fuel : Nat) → Limits → Turn → List Act → Limits × Turn
  | 0, s, turn, _ => (s, turn)
  | _ + 1, s, turn, [] => (s, turn)
  | fuel + 1, s, turn, a :: rest =>
    let o := s.act now a
    carry now fuel o.limits (o.turn.or turn) (o.next ++ rest)

/-- Does all acts, and those that follow from them. -/
@[irreducible]
def finish (s : Limits) (now : Instant) (turn : Turn) (acts : List Act) : Limits × Turn :=
  carry now (Act.weigh acts) s turn acts

/-- What an event does to the limits, and what came of asking, if a caller asks. -/
def step (s : Limits) (now : Instant) (e : Event) : Limits × Turn :=
  s.finish now .unchanged (s.program e)

/-- The limits after events, each with the moment at which it happens. -/
def run (s : Limits) (events : List (Instant × Event)) : Limits :=
  events.foldl (fun s e => (s.step e.1 e.2).1) s

theorem run_append (s : Limits) (before after : List (Instant × Event)) :
    s.run (before ++ after) = (s.run before).run after := by
  simp [run]

/-- What every event keeps holds after any events. -/
theorem run_induction {P : Limits → Prop} (hstep : ∀ s now e, P s → P (s.step now e).1) {s : Limits}
    (h : P s) (events : List (Instant × Event)) : P (s.run events) := by
  induction events generalizing s with
  | nil => exact h
  | cons e events ih => exact ih (hstep s e.1 e.2 h)

end Limits

end ChatApi.Limit
