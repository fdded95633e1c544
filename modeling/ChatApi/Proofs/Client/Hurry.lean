import ChatApi.Proofs.Client.Move

/-!
# A call under a timeout

`Session.hurried` makes of a session the one in which the caller of call `i` waits for a certain time at
most: the call has a deadline, and alarms are set for it. Each step that the call can take commutes with
this (`stepCall_hurried`), as nothing but a call that would have to wait looks at its deadline.
-/

namespace ChatApi

namespace Agenda

variable {τ : Type} [DecidableEq τ] {as : List (Alarm τ)} {task : τ} {purpose : Purpose}

/-- An agenda with alarms that were set before all others. -/
def withAlarms (a : Agenda τ) (as : List (Alarm τ)) : Agenda τ := { a with alarms := as ++ a.alarms }

theorem withAlarms_wake (a : Agenda τ) (as : List (Alarm τ)) (task : τ) :
    (a.withAlarms as).wake task = (a.wake task).withAlarms as := by
  unfold wake
  split <;> split <;> first | rfl | contradiction

theorem withAlarms_wakeAll (a : Agenda τ) (as : List (Alarm τ)) (tasks : List τ) :
    (a.withAlarms as).wakeAll tasks = (a.wakeAll tasks).withAlarms as := by
  induction tasks generalizing a with
  | nil => rfl
  | cons task tasks ih =>
    show ((a.withAlarms as).wake task).wakeAll tasks = _
    rw [withAlarms_wake]
    exact ih _

/-- Alarms for another purpose are kept. -/
theorem withAlarms_unset (a : Agenda τ) (h : ∀ x ∈ as, x.purpose ≠ purpose) (task : τ) :
    (a.withAlarms as).unset task purpose = (a.unset task purpose).withAlarms as := by
  have kept : as.filter (fun x => ¬(x.task = task ∧ x.purpose = purpose)) = as :=
    List.filter_eq_self.2 fun x hx => by simp [h x hx]
  simp only [unset, withAlarms, List.filter_append, kept]

theorem withAlarms_set (a : Agenda τ) (h : ∀ x ∈ as, x.purpose ≠ purpose) (task : τ) (till : Instant) :
    (a.withAlarms as).set task purpose till = (a.set task purpose till).withAlarms as := by
  simp only [Agenda.set, withAlarms_unset a h]
  simp only [withAlarms, List.append_assoc]

/-- A task that is forgotten loses all its alarms. -/
theorem withAlarms_forget (a : Agenda τ) (h : ∀ x ∈ as, x.task = task) :
    (a.withAlarms as).forget task = a.forget task := by
  have lost : as.filter (fun x => x.task ≠ task) = [] :=
    List.filter_eq_nil_iff.2 fun x hx => by simp [h x hx]
  simp only [Agenda.forget, withAlarms, List.filter_append, lost, List.nil_append]

end Agenda

namespace Client

/-- How long the caller of a call waits: for a time, which is up at a moment, for which alarms are set. -/
structure Patience where
  time : Span
  till : Instant
  alarms : List (Alarm Task)

/-- All alarms of a caller's patience are for the deadline of call `i`. -/
def Patience.IsOf (p : Patience) (i : Nat) : Prop := ∀ x ∈ p.alarms, x.task = .call i ∧ x.purpose = .deadline

theorem Patience.IsOf.keeps {p : Patience} {i : Nat} (own : p.IsOf i) {gone : Bool} {a : Alarm Task}
    (h : a ∈ if gone then [] else p.alarms) : a.task = .call i ∧ a.purpose = .deadline := by
  split at h
  · cases h
  · exact own a h

/-- A call whose caller has only so much patience. -/
def Call.hurried (p : Patience) (c : Call) : Call :=
  { c with
    endpoint := .raw (c.request.withTimeout p.time)
    request := c.request.withTimeout p.time
    deadline := some p.till }

namespace Session

variable {i : Nat} {p : Patience} {x y : Session} {c d : Call} {request : Request}

/-- A session in which the caller of call `i` has only so much patience, as long as the call goes on. -/
def hurried (x : Session) (i : Nat) (p : Patience) : Session :=
  { x with
    calls := x.calls.modify i (Call.hurried p)
    agenda := x.agenda.withAlarms (if x.calls[i]?.any Call.isOver then [] else p.alarms) }

/-- Call `i` is there and goes on. -/
def On (x : Session) (i : Nat) : Prop := ∃ c, x.calls[i]? = some c ∧ c.isOver = false

theorem On.any_isOver (h : x.On i) : x.calls[i]?.any Call.isOver = false := by
  obtain ⟨c, hc, on⟩ := h
  rw [hc]
  exact on

theorem On.lt_length (h : x.On i) : i < x.calls.length := by
  obtain ⟨c, hc, -⟩ := h
  exact (List.getElem?_eq_some_iff.1 hc).1

theorem Unmoved.on (h : Unmoved x y) (on : x.On i) : y.On i := by
  rw [On, h.calls]
  exact on

theorem happen_hurried (x : Session) (i : Nat) (p : Patience) (e : Limit.Event) :
    (x.hurried i p).happen e = ((x.happen e).1.hurried i p, (x.happen e).2) := by
  refine Prod.ext ?_ rfl
  show ({ x.hurried i p with
    client := (x.happen e).1.client
    agenda := (x.agenda.withAlarms _).wakeAll _ } : Session) = (x.happen e).1.hurried i p
  rw [Agenda.withAlarms_wakeAll]
  rfl

theorem set_hurried (calls : List Call) (i : Nat) (p : Patience) (d : Call) :
    (calls.modify i (Call.hurried p)).set i (d.hurried p) = (calls.set i d).modify i (Call.hurried p) := by
  refine List.ext_getElem? fun j => ?_
  by_cases hj : i = j
  · subst hj
    by_cases hi : i < calls.length <;> simp [hi]
  · simp [hj]

theorem setCall_hurried (on : x.On i) (hd : d.isOver = false) :
    (x.hurried i p).setCall i (d.hurried p) = (x.setCall i d).hurried i p := by
  have hkept : (x.calls.set i d)[i]?.any Call.isOver = x.calls[i]?.any Call.isOver := by
    rw [List.getElem?_set_self on.lt_length, on.any_isOver]
    exact hd
  unfold setCall hurried
  dsimp only
  rw [set_hurried, hkept]

theorem waitTill_hurried (own : p.IsOf i) (x : Session) (till : Instant) :
    (x.hurried i p).waitTill i till = (x.waitTill i till).hurried i p := by
  unfold waitTill hurried
  dsimp only
  rw [Agenda.withAlarms_set _ fun a ha => by simp [(own.keeps ha).2]]

theorem unset_hurried (own : p.IsOf i) (x : Session) :
    ({ x.hurried i p with agenda := (x.hurried i p).agenda.unset (.call i) .step } : Session) =
      ({ x with agenda := x.agenda.unset (.call i) .step } : Session).hurried i p := by
  unfold hurried
  dsimp only
  rw [Agenda.withAlarms_unset _ fun a ha => by simp [(own.keeps ha).2]]

/-- A call that ends forgets the alarms of its deadline. -/
theorem finish_hurried (own : p.IsOf i) (hi : i < x.calls.length) (c : Call) (result : Except ApiError Answer) :
    (x.hurried i p).finish i (c.hurried p) result = (x.finish i c result).hurried i p := by
  have hlength : i < (x.happen (.withdraw i)).1.calls.length := hi
  unfold finish
  rw [happen_hurried]
  generalize (x.happen (.withdraw i)).1 = x at hlength
  have hforget : (x.agenda.withAlarms (if x.calls[i]?.any Call.isOver then [] else p.alarms)).forget (.call i) =
      x.agenda.forget (.call i) :=
    Agenda.withAlarms_forget _ fun a ha => (own.keeps ha).1
  unfold setCall hurried
  dsimp only
  rw [hforget, List.getElem?_set_self hlength]
  exact congrArg (fun calls => ({ x with
    calls, agenda := (x.agenda.forget (.call i)).forget (.canceller i) } : Session))
    (set_hurried x.calls i p (c.over x result x.client.cache))

theorem settleAttempt_hurried (own : p.IsOf i) (on : x.On i) (endpoint : c.endpoint = .raw request)
    (e : AttemptEnd) :
    (x.hurried i p).settleAttempt i (c.hurried p) e = (x.settleAttempt i c e).hurried i p := by
  have hafter : (c.hurried p).progress.after (x.hurried i p).client.account.retry (c.hurried p).request.route e
      (x.hurried i p).client.draws =
        c.progress.after x.client.account.retry c.request.route e x.client.draws := rfl
  unfold settleAttempt
  rw [hafter]
  cases c.progress.after x.client.account.retry c.request.route e x.client.draws with
  | mk verdict draws =>
    have on' : ({ x with client := { x.client with draws } } : Session).On i := on
    cases verdict with
    | again delay progress =>
      have hset := setCall_hurried (p := p) on' (d := { c with progress, stage := .resting (x.now + delay) }) rfl
      exact (congrArg (·.waitTill i (x.now + delay)) hset).trans (waitTill_hurried own _ _)
    | finished result =>
      cases result with
      | error error => exact finish_hurried own on'.lt_length c _
      | ok r =>
        have concluded : (c.hurried p).endpoint.conclude (x.hurried i p).client.cache r =
            c.endpoint.conclude x.client.cache r := by
          rw [endpoint]
          rfl
        dsimp only
        rw [concluded]
        exact finish_hurried (x := { x with client := { x.client with
          draws, cache := (c.endpoint.conclude x.client.cache r).2 } }) own on.lt_length c _

theorem endWithout_hurried (own : p.IsOf i) (on : x.On i) (endpoint : c.endpoint = .raw request) :
    (x.hurried i p).endWithout i (c.hurried p) = (x.endWithout i c).hurried i p := by
  have on' : (x.happen (.withdraw i)).1.On i := (unmoved_happen x _).on on
  unfold endWithout
  rw [happen_hurried]
  generalize (x.happen (.withdraw i)).1 = y at on'
  exact settleAttempt_hurried own ((unmoved_count y none).on on') endpoint _

theorem endWith_hurried (own : p.IsOf i) (on : x.On i) (endpoint : c.endpoint = .raw request)
    (r : Http.Response) :
    (x.hurried i p).endWith i (c.hurried p) r = (x.endWith i c r).hurried i p := by
  have settled {y : Session} (on : y.On i) (a : Limit.Event) (e : AttemptEnd) :
      ((y.hurried i p).happen a).1.settleAttempt i (c.hurried p) e =
        ((y.happen a).1.settleAttempt i c e).hurried i p := by
    rw [happen_hurried]
    exact settleAttempt_hurried own ((unmoved_happen y a).on on) endpoint e
  have on' := (unmoved_count x (some r.status)).on on
  unfold endWith
  dsimp only
  split
  · exact settled on' _ _
  · exact settled on' _ _

theorem takeReply_hurried (x : Session) (i : Nat) (p : Patience) (o : Outgoing) :
    (x.hurried i p).takeReply o = ((x.takeReply o).1, (x.takeReply o).2.hurried i p) := by
  have hreplies : (x.hurried i p).replies = x.replies := rfl
  unfold takeReply
  rw [hreplies]
  dsimp only
  split <;> rfl

theorem send_hurried (own : p.IsOf i) (on : x.On i) (endpoint : c.endpoint = .raw request) :
    (x.hurried i p).send i (c.hurried p) = (x.send i c).hurried i p := by
  have hcontent : (c.hurried p).request.body.content? = c.request.body.content? := rfl
  unfold send
  rw [hcontent]
  cases c.request.body.content? with
  | none => exact finish_hurried own on.lt_length c _
  | some content =>
    have hout : (c.hurried p).request.outgoing? (x.hurried i p).boundary (x.hurried i p).client.account.apiBase
        (x.hurried i p).client.account.token content =
          c.request.outgoing? x.boundary x.client.account.apiBase x.client.account.token content := rfl
    dsimp only
    rw [hout]
    cases c.request.outgoing? x.boundary x.client.account.apiBase x.client.account.token content with
    | none => exact endWithout_hurried (c := c.tried) own on endpoint
    | some outgoing =>
      -- what is sent is noted first, and then the reply is looked for
      have htake : ({ x.hurried i p with
          sent := (x.hurried i p).sent ++ [Sent.mk (x.hurried i p).now outgoing] } : Session).takeReply outgoing =
            (({ x with sent := x.sent ++ [Sent.mk x.now outgoing] }.takeReply outgoing).1,
              ({ x with sent := x.sent ++ [Sent.mk x.now outgoing] }.takeReply outgoing).2.hurried i p) :=
        takeReply_hurried { x with sent := x.sent ++ [Sent.mk x.now outgoing] } i p outgoing
      have taken : ({ x with sent := x.sent ++ [Sent.mk x.now outgoing] }.takeReply outgoing).2.On i :=
        (unmoved_takeReply ..).on on
      dsimp only
      rw [htake]
      cases ht : { x with sent := x.sent ++ [Sent.mk x.now outgoing] }.takeReply outgoing with
      | mk reply y =>
        rw [ht] at taken
        cases reply with
        | none => exact endWithout_hurried (c := c.tried) own taken endpoint
        | some reply =>
          have hset := setCall_hurried (p := p) taken
            (d := { c.tried with stage := .inFlight (y.now + reply.latency) reply.response }) rfl
          exact (congrArg (·.waitTill i (y.now + reply.latency)) hset).trans (waitTill_hurried own _ _)

theorem ask_hurried (own : p.IsOf i) (on : x.On i) (endpoint : c.endpoint = .raw request) (e : Limit.Event) :
    (x.hurried i p).ask i (c.hurried p) e = (x.ask i c e).map (hurried · i p) := by
  have on' : (x.happen e).1.On i := (unmoved_happen x e).on on
  unfold ask
  rw [happen_hurried]
  cases hh : x.happen e with
  | mk y turn =>
    rw [hh] at on'
    have waiting := setCall_hurried (p := p) on' (d := { c with stage := .waiting }) rfl
    cases turn with
    | granted =>
      have on'' : ({ y with agenda := y.agenda.unset (.call i) .step } : Session).On i := on'
      have hunset := unset_hurried own y
      exact congrArg some ((congrArg (·.send i (c.hurried p)) hunset).trans (send_hurried own on'' endpoint))
    | asleep till =>
      exact congrArg some ((congrArg (·.waitTill i till) waiting).trans (waitTill_hurried own _ till))
    | queued =>
      have hunset := unset_hurried own (y.setCall i { c with stage := .waiting })
      exact congrArg some ((congrArg (fun z : Session =>
        ({ z with agenda := z.agenda.unset (.call i) .step } : Session)) waiting).trans hunset)
    | unchanged => rfl

/-- A call that has begun goes on under a timeout as it does without one. -/
theorem advanceCall_hurried (own : p.IsOf i) (on : x.On i) (endpoint : c.endpoint = .raw request)
    (begun : ∀ start, c.stage ≠ .due start) :
    (x.hurried i p).advanceCall i (c.hurried p) = (x.advanceCall i c).map (hurried · i p) := by
  have hstage : (c.hurried p).stage = c.stage := rfl
  unfold advanceCall
  rw [hstage]
  cases hs : c.stage with
  | due start => exact absurd hs (begun start)
  | asking | waiting => exact ask_hurried own on endpoint _
  | inFlight till response =>
    have hnow : (x.hurried i p).now = x.now := rfl
    dsimp only
    rw [hnow]
    split
    · rfl
    · cases response with
      | some r => exact congrArg some (endWith_hurried own on endpoint r)
      | none => exact congrArg some (endWithout_hurried own on endpoint)
  | resting till =>
    have hnow : (x.hurried i p).now = x.now := rfl
    dsimp only
    rw [hnow]
    split
    · rfl
    · exact congrArg some (setCall_hurried (d := { c with stage := .asking }) on rfl)
  | ended moment result cache => rfl

/-- A step under a timeout is the same as without one. A call that has to wait is out of time instead if
its deadline has come. -/
theorem stepCall_hurried (own : p.IsOf i) (call : x.calls[i]? = some c) (on : c.isOver = false)
    (wanted : c.isCancelled = false) (endpoint : c.endpoint = .raw request)
    (begun : ∀ start, c.stage ≠ .due start) :
    (x.hurried i p).stepCall i =
      match x.advanceCall i c with
      | some y => some (y.hurried i p)
      | none => if p.till ≤ x.now then some ((x.finish i c (.error .timedOut)).hurried i p) else none := by
  have hi : i < x.calls.length := (List.getElem?_eq_some_iff.1 call).1
  have call' : (x.hurried i p).calls[i]? = some (c.hurried p) := by
    show (x.calls.modify i (Call.hurried p))[i]? = _
    rw [List.getElem?_modify_eq, call]
    rfl
  have on' : (c.hurried p).isOver = false := on
  have wanted' : (c.hurried p).isCancelled = false := wanted
  unfold stepCall
  rw [call']
  simp only [on', wanted', Bool.false_eq_true, if_false]
  rw [advanceCall_hurried own ⟨c, call, on⟩ endpoint begun, finish_hurried own hi]
  cases x.advanceCall i c with
  | some y => rfl
  | none =>
    have late : (c.hurried p).deadline.any (· ≤ (x.hurried i p).now) = decide (p.till ≤ x.now) := rfl
    simp only [Option.map_none, late, decide_eq_true_eq]

end Session

end Client

end ChatApi
