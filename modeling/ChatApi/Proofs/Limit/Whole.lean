import ChatApi.Limit.Event
import ChatApi.Proofs.Limit.Line

/-!
# Events as a whole

Where nobody else acts in between, all acts of an event come to one operation on the limits: a caller that is
up looks, and falls asleep, or is let through and leaves the gate to the next; a response is taken over, folded,
and its ticket given back. `Limits.leap` says so event by event, and `step_eq` that it is what the acts come to.
-/

namespace ChatApi.Limit

namespace Bucket

/-- Takes over a response. Whoever sleeps at the gate looks again. -/
def record (b : Bucket) (now : Instant) (r : Report) : Bucket × Option Caller :=
  let (gate, woken) := b.gate.rouse
  ({ b with window := b.window.record now r, gate }, woken)

/-- Closes the bucket for a while. -/
def exhaust (b : Bucket) (now : Instant) (wait : Span) : Bucket × Option Caller :=
  let (gate, woken) := b.gate.rouse
  ({ b with window := b.window.exhaust now wait, gate }, woken)

end Bucket

/-- For a caller that just got in line, not to be up means to be queued. -/
def Turn.inLine : Turn → Turn
  | .unchanged => .queued
  | turn => turn

namespace Limits

/-! ### Getting slots -/

/-- A caller looks at the budget of a bucket, if it is its turn. A probe keeps the gate. -/
def pollBucket (s : Limits) (now : Instant) (p : Pending) (i : Nat) : Limits × Turn :=
  match s.buckets[i]? with
  | none => (s, .unchanged)
  | some b =>
    if !b.gate.isUp p.caller now then (s, .unchanged)
    else
      let (window, slot) := b.window.reserve now
      let put (gate : Gate) : Limits :=
        { s with buckets := s.buckets.set i { b with window, gate } }
      match slot with
      | .wait till => (put { b.gate with hold := .asleep till }, .asleep till)
      | .proceed true => ((put { b.gate with hold := .probing }).grant p (some i), .granted)
      | .proceed false =>
        let (gate, woken) := b.gate.leave p.caller
        (((put gate).wake woken).grant p (some i), .granted)

/-- A caller gets in line at the bucket of its route. -/
def lineUp (s : Limits) (p : Pending) (key : RouteKey) : Nat × Limits :=
  let (i, s) := s.bucketFor key
  let s := s.changeBucket i fun b => ({ b with gate := b.gate.join p.caller }, none)
  (i, { s with pending := s.pending.map (·.goTo p.caller i) })

/-- A caller gets in line at the bucket of its route, and looks at the budget if it is the first. -/
def enterBucket (s : Limits) (now : Instant) (p : Pending) (key : RouteKey) : Limits × Turn :=
  let (i, s) := s.lineUp p key
  let (s, turn) := s.pollBucket now p i
  (s, turn.inLine)

/-- A caller looks at the limit of the account, if it is its turn, and goes on to its bucket. -/
def pollCeiling (s : Limits) (now : Instant) (p : Pending) : Limits × Turn :=
  if !s.ceilingGate.isUp p.caller now then (s, .unchanged)
  else
    let (ceiling, wait) := s.ceiling.reserve now
    match wait with
    | some till =>
      ({ s with ceiling, ceilingGate := { s.ceilingGate with hold := .asleep till } }, .asleep till)
    | none =>
      let (gate, woken) := s.ceilingGate.leave p.caller
      let s := { s with ceiling, ceilingGate := gate }.wake woken
      match p.wanted with
      | .account => (s.grant p none, .granted)
      | .route key _ => s.enterBucket now p key

/-- A caller gets in line at the gate of the account, and goes on if it is the first. -/
def enterCeiling (s : Limits) (now : Instant) (p : Pending) : Limits × Turn :=
  let (s, turn) := { s with ceilingGate := s.ceilingGate.join p.caller }.pollCeiling now p
  (s, turn.inLine)

/-- A waiting caller goes as far as it can. -/
def poll (s : Limits) (now : Instant) (c : Caller) : Limits × Turn :=
  match s.pending.find? (·.caller = c) with
  | none => (s, .unchanged)
  | some p =>
    match p.stage with
    | .ceiling => s.pollCeiling now p
    | .bucket i => s.pollBucket now p i

/-- A new caller goes as far as it can. -/
def arrive (s : Limits) (now : Instant) (c : Caller) (wanted : Wanted) : Limits × Turn :=
  let p : Pending := ⟨c, wanted, .ceiling⟩
  let s := { s with pending := s.pending ++ [p] }
  match wanted with
  | .route _ .exempt => (s.grant p none, .granted)
  | .route key .routeOnly => s.enterBucket now p key
  | .route _ .all | .account => s.enterCeiling now p

/-! ### Giving slots back -/

/-- Folds the route of a bucket onto the bucket that was first named as the response names it. -/
def share (s : Limits) (now : Instant) (i : Nat) (r : Report) : Limits :=
  match r.bucket, s.buckets[i]? with
  | some hash, some b =>
    let name := sharedName hash b.key
    match s.shared.get? name with
    | none => { s with shared := s.shared.put name i }
    | some j =>
      if j = i then s
      else
        let s := s.changeBucket j (·.record now r)
        { s with routes := s.routes.put b.key j }
  | _, _ => s

/-- A caller leaves without a response, wherever it is. -/
def withdraw (s : Limits) (c : Caller) : Limits :=
  match s.ticket? c, s.pending.find? (·.caller = c) with
  | some t, _ => s.release t
  | none, some p =>
    let s := { s with pending := s.pending.filter (·.caller ≠ c) }
    match p.stage with
    | .ceiling =>
      let (gate, woken) := s.ceilingGate.leave c
      { s with ceilingGate := gate }.wake woken
    | .bucket i => s.changeBucket i (·.leave c)
  | none, none => s

/-- Holds the whole account back for a while. -/
def block (s : Limits) (now : Instant) (wait : Span) : Limits :=
  let (gate, woken) := s.ceilingGate.rouse
  { s with ceiling := s.ceiling.block now wait, ceilingGate := gate }.wake woken

/-- Takes over what a response says for the bucket of a ticket. -/
def recordBucket (s : Limits) (now : Instant) (t : Ticket) (r : Report) : Limits :=
  match t.bucket with
  | some i => (s.changeBucket i (·.record now r)).share now i r
  | none => s

/-- Takes over a response, and gives the ticket back. -/
def record (s : Limits) (now : Instant) (t : Ticket) (r : Report) : Limits :=
  (s.recordBucket now t r).release t

/-- Takes over the refusal of a request over a limit. A refusal for the whole account holds all of it
back, if the request was subject to that limit; any other closes the bucket. -/
def recordRefusal (s : Limits) (now : Instant) (t : Ticket) (r : Report) (body : Option Refusal) :
    Limits :=
  let wait := refusalWait r body
  if isGlobalRefusal r body then
    let s := match t.wanted with
      | .route _ .all => s.block now wait
      | _ => s
    if r.isTracked then s.recordBucket now t r else s
  else match t.bucket with
    | some i => (s.changeBucket i (·.exhaust now wait)).share now i r
    | none => s

/-- Takes over a refusal, and gives the ticket back. -/
def refuse (s : Limits) (now : Instant) (t : Ticket) (r : Report) (body : Option Refusal) :
    Limits :=
  (s.recordRefusal now t r body).release t

/-- What comes of an event, as one operation. -/
def leap (s : Limits) (now : Instant) : Event → Limits × Turn
  | .arrive c wanted => if s.isBusy c then (s, .unchanged) else s.arrive now c wanted
  | .poll c => s.poll now c
  | .record c r =>
    match s.ticket? c with
    | some t => (s.record now t r, .unchanged)
    | none => (s, .unchanged)
  | .refuse c r body =>
    match s.ticket? c with
    | some t => (s.refuse now t r body, .unchanged)
    | none => (s, .unchanged)
  | .withdraw c => (s.withdraw c, .unchanged)
  | .block wait => (s.block now wait, .unchanged)

variable {s u : Limits} {now : Instant} {turn : Turn} {acts rest : List Act} {a : Act} {i : Nat} {b : Bucket}
  {f : Bucket → Bucket × Option Caller}

/-! ### One act after another -/

theorem one_le_weight (a : Act) : 1 ≤ a.weight :=
  Nat.lt_of_le_of_lt (Nat.zero_le _) (Act.weight_next default 0 a)

theorem carry_nil (now : Instant) (fuel : Nat) (s : Limits) (turn : Turn) : carry now fuel s turn [] = (s, turn) := by
  cases fuel <;> rfl

/-- As much fuel as the acts may take is enough. -/
theorem carry_of_le {m n : Nat} (hm : Act.weigh acts ≤ m) (hn : Act.weigh acts ≤ n) :
    carry now m s turn acts = carry now n s turn acts := by
  induction m generalizing n s turn acts with
  | zero =>
    cases acts with
    | nil => rw [carry_nil, carry_nil]
    | cons a rest =>
      have := one_le_weight a
      rw [Act.weigh] at hm
      omega
  | succ m ih =>
    cases acts with
    | nil => rw [carry_nil, carry_nil]
    | cons a rest =>
      have hlt := Act.weight_next s now a
      rw [Act.weigh] at hm hn
      cases n with
      | zero => omega
      | succ n =>
        refine ih ?_ ?_
        · rw [Act.weigh_append]
          omega
        · rw [Act.weigh_append]
          omega

@[simp] theorem finish_nil (s : Limits) (now : Instant) (turn : Turn) : s.finish now turn [] = (s, turn) := by
  unfold finish
  rfl

theorem finish_cons (s : Limits) (now : Instant) (turn : Turn) (a : Act) (rest : List Act) :
    s.finish now turn (a :: rest) =
      (s.act now a).limits.finish now ((s.act now a).turn.or turn) ((s.act now a).next ++ rest) := by
  have hlt := Act.weight_next s now a
  have hpos := one_le_weight a
  unfold finish
  rw [Act.weigh]
  obtain ⟨fuel, hfuel⟩ : ∃ fuel, a.weight + Act.weigh rest = fuel + 1 :=
    ⟨a.weight + Act.weigh rest - 1, by omega⟩
  rw [hfuel, carry]
  refine carry_of_le ?_ (Nat.le_refl _)
  rw [Act.weigh_append]
  omega

/-- An act from which nothing follows. -/
theorem finish_quiet (hnext : (s.act now a).next = []) (hturn : (s.act now a).turn = .unchanged) (turn : Turn)
    (rest : List Act) : s.finish now turn (a :: rest) = (s.act now a).limits.finish now turn rest := by
  rw [finish_cons, hnext, hturn]
  rfl

/-! ### Buckets -/

theorem changeBucket_of_none (h : s.buckets[i]? = none) : s.changeBucket i f = s := by
  simp [changeBucket, h]

theorem changeBucket_of_some (h : s.buckets[i]? = some b) :
    s.changeBucket i f = { s with buckets := s.buckets.set i (f b).1 }.wake (f b).2 := by
  simp [changeBucket, h]

@[simp] theorem wake_none (s : Limits) : s.wake none = s := by simp [wake]

/-- A change that wakes nobody and the one after it are one change. -/
theorem changeBucket_changeBucket (s : Limits) (i : Nat) (f : Bucket → Bucket) (g : Bucket → Bucket × Option Caller) :
    (s.changeBucket i fun b => (f b, none)).changeBucket i g = s.changeBucket i fun b => g (f b) := by
  cases hb : s.buckets[i]? with
  | none => rw [changeBucket_of_none hb, changeBucket_of_none hb, changeBucket_of_none hb]
  | some b =>
    have hi : i < s.buckets.length := (List.getElem?_eq_some_iff.1 hb).1
    have hset : ({ s with buckets := s.buckets.set i (f b) } : Limits).buckets[i]? = some (f b) :=
      List.getElem?_set_self hi
    rw [changeBucket_of_some hb, wake_none, changeBucket_of_some hset, changeBucket_of_some hb, List.set_set]

theorem finish_record (s : Limits) (now : Instant) (turn : Turn) (i : Nat) (r : Report) (rest : List Act) :
    s.finish now turn (.write i (.record r) :: .tell (.bucket i) :: rest) =
      (s.changeBucket i (·.record now r)).finish now turn rest := by
  have hboth : ((s.act now (.write i (.record r))).limits.act now (.tell (.bucket i))).limits =
      s.changeBucket i (·.record now r) :=
    changeBucket_changeBucket s i (fun b => { b with window := b.window.record now r }) (·.changeGate Gate.rouse)
  rw [finish_quiet rfl rfl, finish_quiet rfl rfl, hboth]

theorem finish_exhaust (s : Limits) (now : Instant) (turn : Turn) (i : Nat) (wait : Span) (rest : List Act) :
    s.finish now turn (.write i (.exhaust wait) :: .tell (.bucket i) :: rest) =
      (s.changeBucket i (·.exhaust now wait)).finish now turn rest := by
  have hboth : ((s.act now (.write i (.exhaust wait))).limits.act now (.tell (.bucket i))).limits =
      s.changeBucket i (·.exhaust now wait) :=
    changeBucket_changeBucket s i (fun b => { b with window := b.window.exhaust now wait }) (·.changeGate Gate.rouse)
  rw [finish_quiet rfl rfl, finish_quiet rfl rfl, hboth]

theorem finish_fold (s : Limits) (now : Instant) (turn : Turn) (i : Nat) (r : Report) (rest : List Act) :
    s.finish now turn (.fold i r :: rest) = (s.share now i r).finish now turn rest := by
  unfold share
  cases hr : r.bucket with
  | none => exact finish_cons .. |>.trans (by simp [act, hr, Turn.or])
  | some hash =>
    cases hb : s.buckets[i]? with
    | none => exact finish_cons .. |>.trans (by simp [act, hr, hb, Turn.or])
    | some b =>
      dsimp only
      cases hk : s.shared.get? (sharedName hash b.key) with
      | none => exact finish_cons .. |>.trans (by simp [act, hr, hb, hk, Turn.or])
      | some j =>
        by_cases hj : j = i
        · exact finish_cons .. |>.trans (by simp [act, hr, hb, hk, hj, Turn.or])
        · have hact : s.act now (.fold i r) =
              { limits := s, next := [.write j (.record r), .tell (.bucket j), .lead b.key j] } := by
            simp [act, hr, hb, hk, hj]
          rw [finish_cons, hact]
          refine (finish_record ..).trans ((finish_quiet rfl rfl ..).trans ?_)
          simp only [hj, if_false]
          rfl

/-! ### Callers at the gate of a bucket -/

/-- Puts a bucket in place of one. -/
def putBucket (s : Limits) (i : Nat) (b : Bucket) : Limits := { s with buckets := s.buckets.set i b }

theorem putBucket_self (hb : s.buckets[i]? = some b) : s.putBucket i b = s := by
  obtain ⟨hi, rfl⟩ := List.getElem?_eq_some_iff.1 hb
  simp [putBucket]

@[simp] theorem putBucket_putBucket (s : Limits) (i : Nat) (b c : Bucket) :
    (s.putBucket i b).putBucket i c = s.putBucket i c := by
  simp [putBucket]

theorem getElem?_putBucket (hi : i < s.buckets.length) (b : Bucket) : (s.putBucket i b).buckets[i]? = some b :=
  List.getElem?_set_self hi

theorem changeGate_putBucket (hi : i < s.buckets.length) (b : Bucket) (f : Gate → Gate × Option Caller) :
    (s.putBucket i b).changeGate (.bucket i) f =
      (s.putBucket i { b with gate := (f b.gate).1 }).wake (f b.gate).2 := by
  show (s.putBucket i b).changeBucket i (·.changeGate f) = _
  rw [changeBucket_of_some (getElem?_putBucket hi b)]
  simp [putBucket, Bucket.changeGate]

/-- Who is up gives the gate to the next when it leaves, whether it has slept before or not. -/
theorem leave_of_isUp {gate : Gate} {c : Caller} (hu : gate.isUp c now) (hold : Hold) :
    ({ gate with hold } : Gate).leave c = gate.leave c := by
  obtain ⟨-, -, hline⟩ := Gate.of_isUp hu
  unfold Gate.leave
  rw [hline]
  simp

/-- What the first of a line finds at a bucket. -/
theorem act_look_bucket (hb : s.buckets[i]? = some b) (now : Instant) (p : Pending) (hasHeard : Bool) :
    s.act now (.look (.bucket i) p hasHeard) = match b.window.reserve now with
      | (window, .wait till) =>
        { limits := s.putBucket i { b with window }, next := [.doze (.bucket i) p till hasHeard] }
      | (window, .proceed true) =>
        { limits := (s.putBucket i { b with window, gate := { b.gate with hold := .probing } }).grant p (some i)
          turn := .granted }
      | (window, .proceed false) =>
        { limits := s.putBucket i { b with window }, next := [.pass (.bucket i) p] } := by
  simp only [act, look, hb]
  cases b.window.reserve now with
  | mk window slot =>
    cases slot with
    | wait till => rfl
    | proceed isProbe => cases isProbe <;> rfl

/-- What comes of it for a caller that is up, as a whole. -/
theorem pollBucket_of_isUp (hb : s.buckets[i]? = some b) {p : Pending} (hu : b.gate.isUp p.caller now) :
    s.pollBucket now p i = match b.window.reserve now with
      | (window, .wait till) =>
        (s.putBucket i { b with window, gate := { b.gate with hold := .asleep till } }, .asleep till)
      | (window, .proceed true) =>
        ((s.putBucket i { b with window, gate := { b.gate with hold := .probing } }).grant p (some i), .granted)
      | (window, .proceed false) =>
        (((s.putBucket i { b with window, gate := (b.gate.leave p.caller).1 }).wake (b.gate.leave p.caller).2).grant p
          (some i), .granted) := by
  simp only [pollBucket, hb, hu, Bool.not_true, Bool.false_eq_true, if_false]
  cases b.window.reserve now with
  | mk window slot =>
    cases slot with
    | wait till => rfl
    | proceed isProbe => cases isProbe <;> rfl

theorem finish_resume_bucket (s : Limits) (now : Instant) (turn : Turn) (p : Pending) (i : Nat) :
    s.finish now turn [.resume (.bucket i) p] =
      ((s.pollBucket now p i).1, (s.pollBucket now p i).2.or turn) := by
  cases hb : s.buckets[i]? with
  | none =>
    have hgate : (s.gate (.bucket i)).isUp p.caller now = false := by simp [gate, hb, Gate.isUp, Gate.owner?]
    rw [finish_cons]
    simp [act, hgate, pollBucket, hb]
  | some b =>
    have hi : i < s.buckets.length := (List.getElem?_eq_some_iff.1 hb).1
    have hgate : s.gate (.bucket i) = b.gate := by simp [gate, hb]
    cases hu : b.gate.isUp p.caller now with
    | false =>
      rw [finish_cons]
      simp [act, hgate, hu, pollBucket, hb]
    | true =>
      let up : Bucket := { b with gate := { b.gate with hold := .turn } }
      have hresume : s.act now (.resume (.bucket i) p) =
          { limits := s.putBucket i up, next := [.listen (.bucket i) p] } := by
        have hchange := changeGate_putBucket hi b fun gate => ({ gate with hold := .turn }, none)
        rw [putBucket_self hb, wake_none] at hchange
        simp only [act, hgate, hu, if_true, hchange, up]
      have hlook := act_look_bucket (getElem?_putBucket hi up) now p false
      rw [finish_cons, hresume]
      refine (finish_cons ..).trans ((finish_cons ..).trans ?_)
      show ((s.putBucket i up).act now (.look (.bucket i) p false)).limits.finish now
        (((s.putBucket i up).act now (.look (.bucket i) p false)).turn.or turn)
        (((s.putBucket i up).act now (.look (.bucket i) p false)).next ++ []) = _
      rw [hlook, pollBucket_of_isUp hb hu]
      cases b.window.reserve now with
      | mk window slot =>
        cases slot with
        | wait till =>
          refine (finish_cons ..).trans ?_
          simp [act, changeGate_putBucket hi, up, Turn.or]
        | proceed isProbe =>
          cases isProbe with
          | true => simp [up, Turn.or]
          | false =>
            refine (finish_cons ..).trans ?_
            simp [act, changeGate_putBucket hi, leave_of_isUp hu, up, Turn.or]

/-- Who gets in line is queued, unless it is the first. -/
theorem or_queued (turn : Turn) : turn.or .queued = turn.inLine := by
  cases turn <;> rfl

theorem finish_seek (s : Limits) (now : Instant) (turn : Turn) (p : Pending) (key : RouteKey) :
    s.finish now turn [.seek p key] = s.enterBucket now p key := by
  refine (finish_cons ..).trans ((finish_cons ..).trans ((finish_resume_bucket ..).trans ?_))
  exact Prod.ext rfl (or_queued _)

/-- Something always comes of getting in line. -/
theorem inLine_or (turn before : Turn) : turn.inLine.or before = turn.inLine := by
  cases turn <;> rfl

/-! ### Callers at the gate of the account -/

theorem finish_resume_ceiling (s : Limits) (now : Instant) (turn : Turn) (p : Pending) :
    s.finish now turn [.resume .ceiling p] =
      ((s.pollCeiling now p).1, (s.pollCeiling now p).2.or turn) := by
  unfold pollCeiling
  cases hu : s.ceilingGate.isUp p.caller now with
  | false =>
    rw [finish_cons]
    simp [act, gate, hu]
  | true =>
    let up : Limits := { s with ceilingGate := { s.ceilingGate with hold := .turn } }
    have hresume : s.act now (.resume .ceiling p) = { limits := up, next := [.listen .ceiling p] } := by
      simp [act, gate, hu, changeGate, up]
    rw [finish_cons, hresume]
    refine (finish_cons ..).trans ((finish_cons ..).trans ?_)
    show (up.look now p false .ceiling).limits.finish now ((up.look now p false .ceiling).turn.or turn)
      ((up.look now p false .ceiling).next ++ []) = _
    unfold look
    cases s.ceiling.reserve now with
    | mk ceiling wait =>
      cases wait with
      | some till =>
        refine (finish_cons ..).trans ?_
        simp [act, changeGate, up, Turn.or]
      | none =>
        refine (finish_cons ..).trans ?_
        cases hw : p.wanted with
        | account => simp [act, changeGate, leave_of_isUp hu, hw, up, Turn.or]
        | route key scope =>
          simp only [act, changeGate, leave_of_isUp hu, hw, up]
          refine (finish_seek ..).trans (Prod.ext rfl ?_)
          exact (inLine_or ..).symm

theorem finish_join_ceiling (s : Limits) (now : Instant) (turn : Turn) (p : Pending) :
    s.finish now turn [.join .ceiling p] = s.enterCeiling now p := by
  refine (finish_cons ..).trans ((finish_resume_ceiling ..).trans ?_)
  have hjoin : (s.act now (.join .ceiling p)).limits = { s with ceilingGate := s.ceilingGate.join p.caller } := by
    simp [act, changeGate]
  rw [hjoin]
  exact Prod.ext rfl (or_queued _)

/-! ### Responses -/

theorem finish_takeOver (s : Limits) (now : Instant) (turn : Turn) (t : Ticket) (r : Report) (rest : List Act) :
    s.finish now turn (takeOver t r ++ rest) = (s.recordBucket now t r).finish now turn rest := by
  unfold takeOver recordBucket
  cases t.bucket with
  | some i => exact (finish_record ..).trans (finish_fold ..)
  | none => rfl

theorem finish_block (s : Limits) (now : Instant) (turn : Turn) (wait : Span) (rest : List Act) :
    s.finish now turn (.block wait :: .tell .ceiling :: rest) = (s.block now wait).finish now turn rest := by
  rw [finish_quiet rfl rfl, finish_quiet rfl rfl]
  rfl

theorem finish_takeOverRefusal (s : Limits) (now : Instant) (turn : Turn) (t : Ticket) (r : Report)
    (body : Option Refusal) (rest : List Act) :
    s.finish now turn (takeOverRefusal t r body ++ rest) = (s.recordRefusal now t r body).finish now turn rest := by
  unfold takeOverRefusal recordRefusal
  cases isGlobalRefusal r body with
  | false =>
    cases t.bucket with
    | some i => exact (finish_exhaust ..).trans (finish_fold ..)
    | none => rfl
  | true =>
    have tracked (u : Limits) : u.finish now turn ((if r.isTracked then takeOver t r else []) ++ rest) =
        (if r.isTracked then u.recordBucket now t r else u).finish now turn rest := by
      split
      · exact finish_takeOver ..
      · rfl
    cases t.wanted with
    | account => exact tracked s
    | route key scope =>
      cases scope with
      | all => exact (finish_block ..).trans (tracked _)
      | routeOnly | exempt => exact tracked s

theorem finish_giveBack (s : Limits) (now : Instant) (t : Ticket) :
    s.finish now .unchanged [.giveBack t] = (s.release t, .unchanged) :=
  (finish_cons ..).trans (finish_nil ..)

/-! ### Events -/

/-- An event comes to what its acts come to. -/
theorem step_eq (s : Limits) (now : Instant) (e : Event) : s.step now e = s.leap now e := by
  unfold step
  cases e with
  | arrive c wanted =>
    simp only [program, leap]
    cases s.isBusy c with
    | true => exact finish_nil ..
    | false =>
      simp only [Bool.false_eq_true, if_false]
      refine (finish_cons ..).trans ?_
      unfold arrive
      cases wanted with
      | account => exact finish_join_ceiling ..
      | route key scope =>
        cases scope with
        | all => exact finish_join_ceiling ..
        | routeOnly => exact finish_seek ..
        | exempt => exact finish_nil ..
  | poll c =>
    simp only [program, leap, poll]
    cases s.pending.find? (·.caller = c) with
    | none => exact finish_nil ..
    | some p =>
      have hor (o : Limits × Turn) : (o.1, o.2.or .unchanged) = o := by
        obtain ⟨u, turn⟩ := o
        cases turn <;> rfl
      dsimp only
      cases p.stage with
      | ceiling => exact (finish_resume_ceiling ..).trans (hor _)
      | bucket i => exact (finish_resume_bucket ..).trans (hor _)
  | record c r =>
    simp only [program, leap]
    cases s.ticket? c with
    | none => exact finish_nil ..
    | some t => exact (finish_takeOver ..).trans (finish_giveBack ..)
  | refuse c r body =>
    simp only [program, leap]
    cases s.ticket? c with
    | none => exact finish_nil ..
    | some t => exact (finish_takeOverRefusal ..).trans (finish_giveBack ..)
  | withdraw c =>
    simp only [program, leap, withdraw]
    cases s.ticket? c with
    | some t => exact finish_giveBack ..
    | none =>
      cases hp : s.pending.find? (·.caller = c) with
      | none => exact finish_nil ..
      | some p =>
        obtain rfl : p.caller = c := by simpa using List.find?_some hp
        refine (finish_cons ..).trans ?_
        simp only [act]
        refine (finish_nil ..).trans ?_
        cases p.stage <;> rfl
  | block wait => exact (finish_block ..).trans (finish_nil ..)

end Limits

end ChatApi.Limit
