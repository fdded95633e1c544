import ChatApi.Limit.Limits

/-!
# What callers do, one act after another

Callers share the limits, and each act is a thing that one of them does while no other does anything.
Between two acts of one caller others may act, so what a caller knows by then is written in the acts that
it still has to do.

The owner of a gate begins to listen for changes before it looks at the budget, and it falls asleep only
if it has heard of none since. Whoever changes a budget tells of the change afterwards. A response is
taken over by the bucket first, then by the bucket that its route is folded onto, and only then is the
ticket given back, which opens the gate that a probe has kept closed.
-/

namespace ChatApi.Limit

inductive Act
  /-- A new caller is there. -/
  | start (p : Pending)
  /-- It finds the bucket of its route. -/
  | seek (p : Pending) (key : RouteKey)
  /-- It gets in line at a gate. -/
  | join (g : Stage) (p : Pending)
  /-- It goes on at the gate that it waits at, if it is its turn. -/
  | resume (g : Stage) (p : Pending)
  /-- It listens for changes of the budget behind the gate from now on. -/
  | listen (g : Stage) (p : Pending)
  /-- It looks at the budget, and takes a slot if there is one. -/
  | look (g : Stage) (p : Pending) (hasHeard : Bool)
  /-- It falls asleep, unless it has heard of a change since it began to listen. -/
  | doze (g : Stage) (p : Pending) (till : Instant) (hasHeard : Bool)
  /-- It leaves the gate to the next in line, and goes on with the slot that it took. -/
  | pass (g : Stage) (p : Pending)
  /-- The window of a bucket is written. -/
  | write (i : Nat) (change : Window.Change)
  /-- The whole account is held back. -/
  | block (wait : Span)
  /-- Whoever listens at a gate is told that the budget behind it has changed. -/
  | tell (g : Stage)
  /-- The bucket first named as the response names it is looked up, or else it is this one. -/
  | fold (i : Nat) (r : Report)
  /-- A route is led to a bucket. -/
  | lead (key : RouteKey) (i : Nat)
  /-- A ticket is given back. One of a probe opens the gate. -/
  | giveBack (t : Ticket)
  /-- A waiting caller leaves. -/
  | quit (p : Pending)
  deriving Inhabited

/-- What comes of an act. -/
structure Outcome where
  limits : Limits
  /-- What its caller does next, before all else. -/
  next : List Act := []
  turn : Turn := .unchanged
  deriving Inhabited

namespace Limits

/-- The first of a line takes what there is at `now`, or has to wait for it. -/
def look (s : Limits) (now : Instant) (p : Pending) (hasHeard : Bool) : Stage → Outcome
  | .ceiling =>
    let (ceiling, wait) := s.ceiling.reserve now
    let s := { s with ceiling }
    match wait with
    | some till => { limits := s, next := [.doze .ceiling p till hasHeard] }
    | none => { limits := s, next := [.pass .ceiling p] }
  | .bucket i =>
    match s.buckets[i]? with
    | none => { limits := s }
    | some b =>
      let (window, slot) := b.window.reserve now
      let put (gate : Gate) : Limits := { s with buckets := s.buckets.set i { b with window, gate } }
      match slot with
      | .wait till => { limits := put b.gate, next := [.doze (.bucket i) p till hasHeard] }
      -- A probe keeps the gate.
      | .proceed true =>
        { limits := (put { b.gate with hold := .probing }).grant p (some i), turn := .granted }
      | .proceed false => { limits := put b.gate, next := [.pass (.bucket i) p] }

/-- What an act does to the limits, and what is to be done next. -/
def act (s : Limits) (now : Instant) : Act → Outcome
  | .start p =>
    let s := { s with pending := s.pending ++ [p] }
    match p.wanted with
    | .route _ .exempt => { limits := s.grant p none, turn := .granted }
    | .route key .routeOnly => { limits := s, next := [.seek p key] }
    | .route _ .all | .account => { limits := s, next := [.join .ceiling p] }
  | .seek p key =>
    let (i, s) := s.bucketFor key
    { limits := s, next := [.join (.bucket i) p] }
  | .join g p =>
    let s := s.changeGate g fun gate => (gate.join p.caller, none)
    let s := match g with
      | .ceiling => s
      | .bucket i => { s with pending := s.pending.map (·.goTo p.caller i) }
    { limits := s, next := [.resume g p], turn := .queued }
  | .resume g p =>
    if (s.gate g).isUp p.caller now then
      { limits := s.changeGate g fun gate => ({ gate with hold := .turn }, none), next := [.listen g p] }
    else { limits := s }
  | .listen g p => { limits := s, next := [.look g p false] }
  | .look g p hasHeard => s.look now p hasHeard g
  -- Who has heard of a change is to look again.
  | .doze _ p _ true => { limits := s.wake p.caller }
  | .doze g _ till false =>
    { limits := s.changeGate g fun gate => ({ gate with hold := .asleep till }, none), turn := .asleep till }
  | .pass g p =>
    let s := s.changeGate g (·.leave p.caller)
    match g, p.wanted with
    | .ceiling, .account => { limits := s.grant p none, turn := .granted }
    | .ceiling, .route key _ => { limits := s, next := [.seek p key] }
    | .bucket i, _ => { limits := s.grant p (some i), turn := .granted }
  | .write i change =>
    { limits := s.changeBucket i fun b => ({ b with window := b.window.change now change }, none) }
  | .block wait => { limits := { s with ceiling := s.ceiling.block now wait } }
  | .tell g => { limits := s.changeGate g Gate.rouse }
  | .fold i r =>
    match r.bucket, s.buckets[i]? with
    | some hash, some b =>
      let name := sharedName hash b.key
      match s.shared.get? name with
      | none => { limits := { s with shared := s.shared.put name i } }
      | some j =>
        if j = i then { limits := s }
        else { limits := s, next := [.write j (.record r), .tell (.bucket j), .lead b.key j] }
    | _, _ => { limits := s }
  | .lead key i => { limits := { s with routes := s.routes.put key i } }
  | .giveBack t => { limits := s.release t }
  | .quit p =>
    let s := { s with pending := s.pending.filter (·.caller ≠ p.caller) }
    { limits := s.changeGate p.stage (·.leave p.caller) }

end Limits

namespace Act

/-- How many acts may follow from one, itself included. -/
def weight : Act → Nat
  | .start _ => 12
  | .join .ceiling _ => 11
  | .resume .ceiling _ => 10
  | .listen .ceiling _ => 9
  | .look .ceiling _ _ => 8
  | .pass .ceiling _ => 7
  | .seek _ _ => 6
  | .join (.bucket _) _ => 5
  | .resume (.bucket _) _ => 4
  | .listen (.bucket _) _ => 3
  | .look (.bucket _) _ _ => 2
  | .fold _ _ => 4
  | .doze .. | .pass (.bucket _) _ | .write .. | .block _ | .tell _ | .lead .. | .giveBack _ | .quit _ => 1

/-- How many acts may follow from several, themselves included. -/
def weigh : List Act → Nat
  | [] => 0
  | a :: rest => a.weight + weigh rest

theorem weigh_append (acts rest : List Act) : weigh (acts ++ rest) = weigh acts + weigh rest := by
  induction acts with
  | nil => exact (Nat.zero_add _).symm
  | cons a acts ih =>
    rw [List.cons_append, weigh, weigh, ih]
    omega

/-- Acts that follow from one are fewer than may follow from it. -/
theorem weight_next (s : Limits) (now : Instant) (a : Act) : weigh (s.act now a).next < a.weight := by
  cases a with
  | start p =>
    obtain ⟨c, wanted, g⟩ := p
    cases wanted with
    | account => simp [Limits.act, weigh, weight]
    | route key scope => cases scope <;> simp [Limits.act, weigh, weight]
  | seek p key => simp [Limits.act, weigh, weight]
  | join g p => cases g <;> simp [Limits.act, weigh, weight]
  | resume g p =>
    unfold Limits.act
    dsimp only
    split <;> cases g <;> simp [weigh, weight]
  | listen g p => cases g <;> simp [Limits.act, weigh, weight]
  | look g p hasHeard =>
    cases g with
    | ceiling =>
      unfold Limits.act Limits.look
      dsimp only
      split <;> simp [weigh, weight]
    | bucket i =>
      unfold Limits.act Limits.look
      dsimp only
      split
      · simp [weigh, weight]
      · split <;> simp [weigh, weight]
  | doze g p till hasHeard => cases hasHeard <;> simp [Limits.act, weigh, weight]
  | pass g p =>
    unfold Limits.act
    dsimp only
    split <;> simp [weigh, weight]
  | fold i r =>
    unfold Limits.act
    dsimp only
    split
    · split
      · simp [weigh, weight]
      · split <;> simp [weigh, weight]
    · simp [weigh, weight]
  | write _ _ | block _ | tell _ | lead _ _ | giveBack _ | quit _ => simp [Limits.act, weigh, weight]

end Act

end ChatApi.Limit
