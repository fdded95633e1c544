import ChatApi.Proofs.Client.Move

/-!
# How a call pursues its request

A call attempts its request until the end of an attempt settles it. `Landing.result?` says which ends
do, and with what result, from nothing but the ends of the attempts before; `Landing.pause` says how
long the call rests after any other. `Session.Reaches` is every course that a session can take around
a call, with what the call sends, how its attempts end and when its rests do. Whatever else goes on, the
call keeps to what is said of its landings (`Session.Reaches.pursues`).
-/

namespace ChatApi.Client

/-- The end of an attempt. -/
structure Landing where
  moment : Instant
  /-- The milliseconds of the calendar's epoch at that moment. -/
  calendarMillis : Int
  response : Option Http.Response
  /-- The random draws that were still to be made. -/
  draws : Draws
  /-- Until when the call rests, if it goes on. -/
  restsTill : Option Instant

namespace Landing

/-- Whether the attempt met a server error or got no response. -/
def isTransient (l : Landing) : Bool :=
  match l.response with
  | some r => r.status.isServerError
  | none => true

/-- The result of a call on `route` that an attempt settles, after those in `before`. -/
def result? (policy : RetryPolicy) (route : String) (before : List Landing) (l : Landing) :
    Option (Except ApiError Http.Response) :=
  match l.response with
  | none =>
    if before.countP isTransient = policy.maxRetries then
      some (.error (.transport route (before.length + 1)))
    else none
  | some r =>
    if r.status.isSuccess then some (.ok r)
    else if r.status = .tooManyRequests then none
    else if r.status.isServerError then
      if before.countP isTransient = policy.maxRetries then
        some (.error (.serverError r.status route (before.length + 1)))
      else none
    else some (.error (.refused r.status route (Json.ofText r.body).toOption))

/-- How long a refusal over a limit says to wait, if the attempt met one. -/
def retryAfter? (l : Landing) : Option Span :=
  match l.response with
  | some r =>
    if r.status = .tooManyRequests then
      some (Limit.Limits.refusalWait (Limit.Report.ofHeaders l.calendarMillis r.headers)
        (Limit.Refusal.ofBody? r.body))
    else none
  | none => none

/-- How long a call rests after an attempt that does not settle it. -/
def pause (policy : RetryPolicy) (before : List Landing) (l : Landing) : Span :=
  match l.retryAfter? with
  | some wait => wait
  | none => (policy.backoff (before.countP isTransient) l.draws).1

/-- When a call that rests after an attempt goes on: at once if the rest is over already, and else as its alarm
goes off, at the first millisecond that is not before the end of the rest. -/
def wakesAt? (l : Landing) : Option Instant :=
  l.restsTill.map fun till => if till ≤ l.moment then l.moment else wholeMillis till

end Landing

/-- The call goes on after each of these landings, and rests in between for as long as it has to. -/
inductive Pursued (policy : RetryPolicy) (route : String) : List Landing → Prop
  | start : Pursued policy route []
  | again {before : List Landing} {l : Landing} (earlier : Pursued policy route before)
      (unsettled : l.result? policy route before = none)
      (rests : l.restsTill = some (l.moment + l.pause policy before)) :
      Pursued policy route (before ++ [l])

variable {policy : RetryPolicy} {route : String} {before landings : List Landing} {l : Landing}

theorem not_isSuccess_of_isServerError {s : Http.Status} (h : s.isServerError = true) :
    s.isSuccess = false := by
  simp only [Http.Status.isServerError, Http.Status.isSuccess, Bool.and_eq_true, decide_eq_true_eq,
    Bool.and_eq_false_iff, decide_eq_false_iff_not] at h ⊢
  omega

theorem ne_tooManyRequests_of_isServerError {s : Http.Status} (h : s.isServerError = true) :
    s ≠ .tooManyRequests := by
  rintro rfl
  exact absurd h (by decide)

theorem ne_tooManyRequests_of_isSuccess {s : Http.Status} (h : s.isSuccess = true) :
    s ≠ .tooManyRequests := by
  rintro rfl
  exact absurd h (by decide)

/-- A server error or a missing response settles a call that has no retries left, and no other. -/
theorem result?_eq_none_of_isTransient (h : l.isTransient = true) :
    l.result? policy route before = none ↔ before.countP Landing.isTransient ≠ policy.maxRetries := by
  unfold Landing.isTransient at h
  unfold Landing.result?
  cases hr : l.response with
  | none => simp
  | some r =>
    rw [hr] at h
    have h : r.status.isServerError = true := h
    simp [h, not_isSuccess_of_isServerError h, ne_tooManyRequests_of_isServerError h]

/-- Only server errors and missing responses after which a call goes on use up its retries. -/
theorem Pursued.countP_le (h : Pursued policy route landings) :
    landings.countP Landing.isTransient ≤ policy.maxRetries := by
  induction h with
  | start => exact Nat.zero_le _
  | @again before l _ unsettled _ ih =>
    rw [List.countP_append, List.countP_singleton]
    split
    · rename_i ht
      have hne := (result?_eq_none_of_isTransient ht).1 unsettled
      omega
    · exact ih

/-- None of the landings after which a call goes on settles it. -/
theorem Pursued.unsettled (h : Pursued policy route landings) {after : List Landing}
    (hl : landings = before ++ l :: after) : l.result? policy route before = none := by
  induction h generalizing after with
  | start => simp at hl
  | @again earlier m _ unsettled _ ih =>
    rcases List.eq_nil_or_concat after with rfl | ⟨between, last, rfl⟩
    · obtain ⟨rfl, hm⟩ := List.append_inj' hl rfl
      cases hm
      exact unsettled
    · rw [List.concat_eq_append, ← List.cons_append, ← List.append_assoc] at hl
      exact ih (List.append_inj' hl rfl).1

/-- A call that is tried again has the progress that the outcome of its attempt asks for. -/
theorem eq_retried_of_again {p q : Progress} {e : AttemptEnd} {draws : Draws} {delay : Span}
    (h : (p.after policy route e draws).1 = .again delay q) : q = p.retried e.outcome := by
  unfold Progress.after at h
  dsimp only at h
  split at h
  · cases h
    rfl
  all_goals cases h

/-- A server error or a missing response is tried again while retries are left. -/
theorem after_of_transient {p : Progress} {e : AttemptEnd} {draws : Draws}
    (h : e.outcome = .serverError ∨ e.outcome = .networkFailure) :
    (p.after policy route e draws).1 =
      if policy.maxRetries ≤ p.failures then .finished (.error (p.failure route e))
      else .again (policy.backoff p.failures draws).1 { p with failures := p.failures + 1 } := by
  unfold Progress.after RetryPolicy.decide
  by_cases hp : policy.maxRetries ≤ p.failures
  · rcases h with h | h <;> simp [h, hp]
  · rcases h with h | h <;> simp [h, hp, Progress.retried]

/-- A refusal over a limit is tried again after the wait, whatever else was tried before. -/
theorem after_of_limited {p : Progress} {r : Http.Response} {draws : Draws} {wait : Span}
    {isGlobal : Bool} (h : r.status = .tooManyRequests) :
    (p.after policy route (.response r (some (wait, isGlobal))) draws).1 = .again wait p := by
  simp [Progress.after, AttemptEnd.outcome, Outcome.ofResponse, h, RetryPolicy.decide, Progress.retried]

/-- What follows from the end of an attempt, in terms of the landings before. -/
theorem after_attemptEnd (x : Session) (route : String) (hcal : l.calendarMillis = x.calendarMillis)
    (hle : before.countP Landing.isTransient ≤ policy.maxRetries) :
    (Progress.after ⟨before.length + 1, before.countP Landing.isTransient⟩ policy route
        (x.attemptEnd l.response) l.draws).1 =
      match l.result? policy route before with
      | some result => .finished result
      | none => .again (l.pause policy before)
          ⟨before.length + 1, (before ++ [l]).countP Landing.isTransient⟩ := by
  rw [List.countP_append, List.countP_singleton]
  cases hr : l.response with
  | none =>
    have ht : l.isTransient = true := by rw [Landing.isTransient, hr]
    rw [show x.attemptEnd none = .noResponse from rfl, after_of_transient (.inr rfl), Landing.pause,
      Landing.retryAfter?, Landing.result?, hr, ht]
    by_cases h : before.countP Landing.isTransient = policy.maxRetries
    · simp [h, Progress.failure]
    · simp [h, Nat.not_le.2 (Nat.lt_of_le_of_ne hle h)]
  | some r =>
    by_cases hl : r.status = .tooManyRequests
    · have ht : l.isTransient = false := by
        rw [Landing.isTransient, hr]
        exact Bool.eq_false_iff.2 fun h => ne_tooManyRequests_of_isServerError h hl
      have hs : l.result? policy route before = none := by
        rw [Landing.result?, hr]
        exact (if_neg fun h => ne_tooManyRequests_of_isSuccess h hl).trans (if_pos hl)
      have hp : l.pause policy before = Limit.Limits.refusalWait
          (Limit.Report.ofHeaders l.calendarMillis r.headers) (Limit.Refusal.ofBody? r.body) := by
        rw [Landing.pause, Landing.retryAfter?, hr]
        dsimp only
        rw [if_pos hl]
      rw [Session.attemptEnd, if_pos hl, after_of_limited hl, hs, hp, ht, hcal]
      rfl
    · have hp : l.pause policy before = (policy.backoff (before.countP Landing.isTransient) l.draws).1 := by
        rw [Landing.pause, Landing.retryAfter?, hr]
        dsimp only
        rw [if_neg hl]
      rw [Session.attemptEnd, if_neg hl, hp, Landing.result?, hr]
      cases he : r.status.isServerError with
      | true =>
        have hs := not_isSuccess_of_isServerError he
        have ht : l.isTransient = true := by rw [Landing.isTransient, hr]; exact he
        have ho : (AttemptEnd.response r none).outcome = .serverError := by
          simp [AttemptEnd.outcome, Outcome.ofResponse, Outcome.ofStatus, hs, he]
        rw [after_of_transient (.inl ho), ht]
        by_cases h : before.countP Landing.isTransient = policy.maxRetries
        · simp [h, Progress.failure, hl, hs, he, Outcome.ofResponse, Outcome.ofStatus]
        · simp [h, Nat.not_le.2 (Nat.lt_of_le_of_ne hle h), hl, hs, he]
      | false =>
        cases hs : r.status.isSuccess <;>
          simp [Progress.after, AttemptEnd.outcome, Outcome.ofResponse, Outcome.ofStatus, hs, he,
            RetryPolicy.decide, hl, Progress.failure, ApiError.ofResponse]

/-! ### Courses of a session -/

/-- A call between two attempts or behind its last one. -/
def Call.left (c : Call) : Prop :=
  (∃ till, c.stage = .resting till) ∨ ∃ moment result cache, c.stage = .ended moment result cache

theorem Call.left.not_inFlight {c : Call} (h : c.left) (till : Instant) (response : Option Http.Response) :
    c.stage ≠ .inFlight till response := by
  rcases h with ⟨_, hs⟩ | ⟨_, _, _, hs⟩ <;> simp [hs]

theorem Call.asks.not_inFlight {c : Call} (h : c.asks) (till : Instant) (response : Option Http.Response) :
    c.stage ≠ .inFlight till response := by
  rcases h with hs | hs <;> simp [hs]

theorem Call.asks.not_resting {c : Call} (h : c.asks) (till : Instant) : c.stage ≠ .resting till := by
  rcases h with hs | hs <;> simp [hs]

/-- Until when a call rests before another attempt, if it does. -/
def Call.restsTill (c : Call) : Option Instant :=
  match c.stage with
  | .resting till => some till
  | _ => none

namespace Session

/-- An attempt that ends now and leaves a call as `d`. -/
def landing (x : Session) (response : Option Http.Response) (d : Call) : Landing :=
  ⟨x.now, x.calendarMillis, response, x.client.draws, d.restsTill⟩

/-- The end of an attempt, if one ends as call `c` becomes `d`. -/
def landing? (x : Session) (c d : Call) : Option Landing :=
  match c.stage, d.stage with
  | .inFlight _ response, _ => some (x.landing response d)
  | .asking, .resting _ | .waiting, .resting _ => some (x.landing none d)
  | .asking, .ended _ _ _ | .waiting, .ended _ _ _ => some (x.landing none d)
  | _, _ => none

/-- The moment, if a call stops resting as `c` becomes `d`. -/
def wake? (x : Session) (c d : Call) : Option Instant :=
  match c.stage, d.stage with
  | .resting _, .asking => some x.now
  | _, _ => none

/-- What can happen besides the steps of call `i`, unless somebody cancels it. -/
inductive Aside (i : Nat) (x : Session) : Session → Prop
  | step {j : Nat} {y : Session} (other : j ≠ i) (step : x.stepCall j = some y) : Aside i x y
  | cancel {j : Nat} (other : j ≠ i) : Aside i x (x.cancel j)
  | schedule {agenda : Agenda Task} (later : x.now ≤ agenda.now) : Aside i x { x with agenda }
  | start (e : Endpoint) (delay : Span) (cancelAfter : Option Span) :
      Aside i x (x.start e delay cancelAfter)

/-- The courses of a session around call `i`, with what that call sends, how its attempts end and when its rests
do. -/
inductive Reaches (i : Nat) (x : Session) : List Sent → List Landing → List Instant → Session → Prop
  | refl : Reaches i x [] [] [] x
  | own {sent : List Sent} {landings : List Landing} {wakes : List Instant} {y z : Session} {c d : Call}
      (earlier : Reaches i x sent landings wakes y) (was : y.calls[i]? = some c)
      (step : y.stepCall i = some z) (becomes : z.calls[i]? = some d) :
      Reaches i x (sent ++ z.sent.drop y.sent.length) (landings ++ (y.landing? c d).toList)
        (wakes ++ (y.wake? c d).toList) z
  | aside {sent : List Sent} {landings : List Landing} {wakes : List Instant} {y z : Session}
      (earlier : Reaches i x sent landings wakes y) (aside : Aside i y z) : Reaches i x sent landings wakes z

/-- A request that can be sent, with what its attempts send. -/
structure Sendable (x : Session) (request : Request) (outgoing : Outgoing) : Prop where
  route : ∃ key, Limit.RouteKey.resolve request.method request.route = .ok key
  built : request.body.content?.bind (request.outgoing? x.boundary x.client.account.apiBase
    x.client.account.token) = some outgoing

theorem Sendable.congr {x y : Session} {request : Request} {outgoing : Outgoing}
    (h : Sendable x request outgoing) (ha : y.client.account = x.client.account)
    (hb : y.boundary = x.boundary) : Sendable y request outgoing :=
  ⟨h.route, by rw [ha, hb]; exact h.built⟩

/-- A call that is started comes behind all others, and begins after the delay. -/
theorem start_frame (x : Session) (e : Endpoint) (delay : Span) (cancelAfter : Option Span) :
    (x.start e delay cancelAfter).calls =
        x.calls ++ [{ endpoint := e, cancelAfter, stage := .due (x.now + delay) }] ∧
      Alike x (x.start e delay cancelAfter) := by
  unfold start
  dsimp only
  split
  · exact ⟨rfl, rfl, rfl, rfl, Agenda.now_wake ..⟩
  · exact ⟨rfl, rfl, rfl, rfl, Agenda.now_wake ..⟩

/-- Whatever happens aside leaves the call and what it relies on alone, and does not turn the clock
back. -/
theorem Aside.frame {i : Nat} {x y : Session} {c : Call} (h : Aside i x y) (hc : x.calls[i]? = some c) :
    y.calls[i]? = some c ∧ y.client.account = x.client.account ∧ y.boundary = x.boundary ∧
      x.now ≤ y.now := by
  cases h with
  | @step j _ other step =>
    obtain ⟨_, d, _, -, -, -, hb⟩ := moves_of_stepCall step
    refine ⟨?_, hb.alike.account, hb.alike.boundary, Nat.le_of_eq hb.alike.now.symm⟩
    rw [hb.calls, List.getElem?_set_ne other, hc]
  | @cancel j other =>
    have alike := alike_cancel x j
    refine ⟨?_, alike.account, alike.boundary, Nat.le_of_eq alike.now.symm⟩
    rw [getElem?_cancel hc]
    simp [other]
  | schedule later => exact ⟨hc, rfl, rfl, later⟩
  | start e delay cancelAfter =>
    obtain ⟨calls, alike⟩ := x.start_frame e delay cancelAfter
    refine ⟨?_, alike.account, alike.boundary, Nat.le_of_eq alike.now.symm⟩
    rw [calls, List.getElem?_append_left (List.getElem?_eq_some_iff.1 hc).1, hc]

end Session

/-! ### What a call keeps to -/

/-- The last of these landings settled the call, and none before it. -/
def Settled (policy : RetryPolicy) (route : String) (landings : List Landing)
    (result : Except ApiError Answer) : Prop :=
  ∃ before l r, landings = before ++ [l] ∧ Pursued policy route before ∧
    l.result? policy route before = some r ∧ result = r.map .response

/-- A call rests after each landing but the last, and no rest ends before its time is over. Only then is another
attempt sent. -/
structure Spaced (sent : List Sent) (landings : List Landing) (wakes : List Instant) : Prop where
  rests : ∀ (j : Nat) (w : Instant), wakes[j]? = some w →
    ∃ l till, landings[j]? = some l ∧ l.restsTill = some till ∧ till ≤ w
  sends : ∀ (j : Nat) (s : Sent), sent[j + 1]? = some s → ∃ w, wakes[j]? = some w ∧ w ≤ s.moment

theorem Spaced.send {sent : List Sent} {wakes : List Instant} {s : Sent} (h : Spaced sent landings wakes)
    (hlength : sent.length = wakes.length) (hlast : ∀ w ∈ wakes.getLast?, w ≤ s.moment) :
    Spaced (sent ++ [s]) landings wakes := by
  refine ⟨h.rests, fun j t ht => ?_⟩
  by_cases hlt : j + 1 < sent.length
  · rw [List.getElem?_append_left hlt] at ht
    exact h.sends j t ht
  · have hend : j + 1 = sent.length := by
      have := (List.getElem?_eq_some_iff.1 ht).1
      rw [List.length_append, List.length_singleton] at this
      omega
    rw [hend, List.getElem?_concat_length] at ht
    cases ht
    have hj : j < wakes.length := by omega
    refine ⟨wakes[j], List.getElem?_eq_getElem hj, hlast _ ?_⟩
    rw [List.getLast?_eq_getElem?, ← hlength, ← hend]
    exact List.getElem?_eq_getElem hj

theorem Spaced.land {sent : List Sent} {wakes : List Instant} (h : Spaced sent landings wakes) (l : Landing) :
    Spaced sent (landings ++ [l]) wakes := by
  refine ⟨fun j w hw => ?_, h.sends⟩
  obtain ⟨m, till, hm, hrest⟩ := h.rests j w hw
  exact ⟨m, till, by rw [List.getElem?_append_left (List.getElem?_eq_some_iff.1 hm).1, hm], hrest⟩

theorem Spaced.wake {sent : List Sent} {wakes : List Instant} {w till : Instant} (h : Spaced sent landings wakes)
    (hlength : wakes.length + 1 = landings.length) (hlast : ∀ l ∈ landings.getLast?, l.restsTill = some till)
    (hle : till ≤ w) : Spaced sent landings (wakes ++ [w]) := by
  refine ⟨fun j v hv => ?_, fun j s hs => ?_⟩
  · by_cases hj : j < wakes.length
    · rw [List.getElem?_append_left hj] at hv
      exact h.rests j v hv
    · have hend : j = wakes.length := by
        have := (List.getElem?_eq_some_iff.1 hv).1
        rw [List.length_append, List.length_singleton] at this
        omega
      subst hend
      rw [List.getElem?_concat_length] at hv
      cases hv
      have hlt : wakes.length < landings.length := by omega
      refine ⟨landings[wakes.length], till, List.getElem?_eq_getElem hlt, hlast _ ?_, hle⟩
      rw [List.getLast?_eq_getElem?, ← hlength]
      exact List.getElem?_eq_getElem hlt
  · obtain ⟨v, hv, hle⟩ := h.sends j s hs
    exact ⟨v, by rw [List.getElem?_append_left (List.getElem?_eq_some_iff.1 hv).1, hv], hle⟩

/-- Where a call on `request` stands that has sent and seen so much. -/
inductive Call.Stands (policy : RetryPolicy) (request : Request) (now : Instant) (c : Call) :
    List Sent → List Landing → List Instant → Prop
  | due {start : Instant} (stage : c.stage = .due start) (fresh : c.progress = {}) :
      Stands policy request now c [] [] []
  | asks {sent : List Sent} {landings : List Landing} {wakes : List Instant} (asks : c.asks)
      (begun : c.request = request) (pursued : Pursued policy request.route landings)
      (progress : c.progress = ⟨landings.length, landings.countP Landing.isTransient⟩)
      (length : sent.length = landings.length) (rests : wakes.length = landings.length)
      (rested : ∀ w ∈ wakes.getLast?, w ≤ now) : Stands policy request now c sent landings wakes
  | inFlight {sent : List Sent} {landings : List Landing} {wakes : List Instant} {till : Instant}
      {response : Option Http.Response} (stage : c.stage = .inFlight till response)
      (begun : c.request = request) (pursued : Pursued policy request.route landings)
      (progress : c.progress = ⟨landings.length + 1, landings.countP Landing.isTransient⟩)
      (length : sent.length = landings.length + 1) (rests : wakes.length = landings.length) :
      Stands policy request now c sent landings wakes
  | resting {sent : List Sent} {landings : List Landing} {wakes : List Instant} {till : Instant}
      (stage : c.stage = .resting till) (begun : c.request = request)
      (pursued : Pursued policy request.route landings)
      (progress : c.progress = ⟨landings.length, landings.countP Landing.isTransient⟩)
      (length : sent.length = landings.length) (rests : wakes.length + 1 = landings.length)
      (last : ∀ l ∈ landings.getLast?, l.restsTill = some till) :
      Stands policy request now c sent landings wakes
  | ended {sent : List Sent} {landings : List Landing} {wakes : List Instant} {moment : Instant}
      {result : Except ApiError Answer} {cache : Cache} (stage : c.stage = .ended moment result cache)
      (settled : Settled policy request.route landings result)
      (length : sent.length = landings.length) (rests : wakes.length + 1 = landings.length) :
      Stands policy request now c sent landings wakes

/-- Time that passes changes nothing about where a call stands. -/
theorem Call.Stands.later {request : Request} {now now' : Instant} {c : Call} {sent : List Sent}
    {wakes : List Instant} (h : c.Stands policy request now sent landings wakes) (hle : now ≤ now') :
    c.Stands policy request now' sent landings wakes := by
  cases h with
  | due stage fresh => exact .due stage fresh
  | asks asks begun pursued progress length rests rested =>
    exact .asks asks begun pursued progress length rests fun w hw => Nat.le_trans (rested w hw) hle
  | inFlight stage begun pursued progress length rests =>
    exact .inFlight stage begun pursued progress length rests
  | resting stage begun pursued progress length rests last =>
    exact .resting stage begun pursued progress length rests last
  | ended stage settled length rests => exact .ended stage settled length rests

section

variable {request : Request} {now : Instant} {c : Call} {sent : List Sent} {wakes : List Instant}

/-- A call that is still to begin has nothing behind it. -/
theorem Call.Stands.of_due {start : Instant} (h : c.Stands policy request now sent landings wakes)
    (stage : c.stage = .due start) : c.progress = {} ∧ sent = [] ∧ landings = [] ∧ wakes = [] := by
  cases h with
  | due _ fresh => exact ⟨fresh, rfl, rfl, rfl⟩
  | asks asks _ _ _ _ _ _ => rcases asks with ha | ha <;> rw [ha] at stage <;> cases stage
  | inFlight hs _ _ _ _ _ | resting hs _ _ _ _ _ _ | ended hs _ _ _ => rw [hs] at stage; cases stage

/-- A call that is about to get its slots, and the landings behind it. -/
theorem Call.Stands.of_asks (h : c.Stands policy request now sent landings wakes) (asks : c.asks) :
    c.request = request ∧ Pursued policy request.route landings ∧
      c.progress = ⟨landings.length, landings.countP Landing.isTransient⟩ ∧
      sent.length = landings.length ∧ wakes.length = landings.length ∧ ∀ w ∈ wakes.getLast?, w ≤ now := by
  cases h with
  | asks _ begun pursued progress length rests rested => exact ⟨begun, pursued, progress, length, rests, rested⟩
  | due stage _ | inFlight stage _ _ _ _ _ | resting stage _ _ _ _ _ _ | ended stage _ _ _ =>
    rcases asks with ha | ha <;> rw [ha] at stage <;> cases stage

/-- While an attempt is under way, one more was sent than ended. -/
theorem Call.Stands.of_inFlight {till : Instant} {response : Option Http.Response}
    (h : c.Stands policy request now sent landings wakes) (stage : c.stage = .inFlight till response) :
    c.request = request ∧ Pursued policy request.route landings ∧
      c.progress = ⟨landings.length + 1, landings.countP Landing.isTransient⟩ ∧
      sent.length = landings.length + 1 ∧ wakes.length = landings.length := by
  cases h with
  | inFlight _ begun pursued progress length rests => exact ⟨begun, pursued, progress, length, rests⟩
  | asks asks _ _ _ _ _ _ => exact absurd stage (asks.not_inFlight till response)
  | due hs _ | resting hs _ _ _ _ _ _ | ended hs _ _ _ => rw [hs] at stage; cases stage

/-- A call that rests does so until its last landing says. -/
theorem Call.Stands.of_resting {till : Instant} (h : c.Stands policy request now sent landings wakes)
    (stage : c.stage = .resting till) :
    c.request = request ∧ Pursued policy request.route landings ∧
      c.progress = ⟨landings.length, landings.countP Landing.isTransient⟩ ∧
      sent.length = landings.length ∧ wakes.length + 1 = landings.length ∧
      ∀ l ∈ landings.getLast?, l.restsTill = some till := by
  cases h with
  | resting hs begun pursued progress length rests last =>
    cases hs.symm.trans stage
    exact ⟨begun, pursued, progress, length, rests, last⟩
  | asks asks _ _ _ _ _ _ => rcases asks with ha | ha <;> rw [ha] at stage <;> cases stage
  | due hs _ | inFlight hs _ _ _ _ _ | ended hs _ _ _ => rw [hs] at stage; cases stage

/-- While no attempt is under way, all that were sent have ended. -/
theorem Call.Stands.length_sent (h : c.Stands policy request now sent landings wakes)
    (between : ∀ till response, c.stage ≠ .inFlight till response) : sent.length = landings.length := by
  cases h with
  | due _ _ => rfl
  | asks _ _ _ _ length _ _ | resting _ _ _ _ length _ _ | ended _ _ length _ => exact length
  | inFlight stage _ _ _ _ _ => exact absurd stage (between _ _)

end

/-- What holds of call `i` on `request`, whatever else goes on. -/
structure Session.Pursues (policy : RetryPolicy) (request : Request) (outgoing : Outgoing) (i : Nat)
    (sent : List Sent) (landings : List Landing) (wakes : List Instant) (x : Session) (c : Call) : Prop where
  call : x.calls[i]? = some c
  account : x.client.account.retry = policy
  sendable : x.Sendable request outgoing
  endpoint : c.endpoint = .raw request
  uncancelled : c.cancelAfter = none
  untimed : c.deadline = none
  wanted : c.isCancelled = false
  stands : c.Stands policy request x.now sent landings wakes
  outgoing : ∀ s ∈ sent, s.outgoing = outgoing
  spaced : Spaced sent landings wakes

/-- Where the end of an attempt leaves a call. -/
theorem Call.Settles.left {x : Session} {c d : Call} {e : AttemptEnd} (h : c.Settles x e d) : d.left := by
  cases h with
  | again _ => exact .inl ⟨_, rfl⟩
  | failed _ => exact .inr ⟨_, _, _, rfl⟩
  | answered _ => exact .inr ⟨_, _, _, rfl⟩

/-- Nothing but the stage and the progress of a call changes when an attempt ends. -/
theorem Call.Settles.frame {x : Session} {c d : Call} {e : AttemptEnd} (h : c.Settles x e d) :
    d.endpoint = c.endpoint ∧ d.cancelAfter = c.cancelAfter ∧ d.deadline = c.deadline ∧
      d.isCancelled = c.isCancelled := by
  cases h with
  | again _ => exact ⟨rfl, rfl, rfl, rfl⟩
  | failed _ => exact ⟨rfl, rfl, rfl, rfl⟩
  | answered _ => exact ⟨rfl, rfl, rfl, rfl⟩

/-- An attempt that ends leaves the call where its landings tell. -/
theorem Call.Settles.stands {request : Request} {x : Session} {c d : Call} {sent : List Sent}
    {wakes : List Instant} {response : Option Http.Response} (h : c.Settles x (x.attemptEnd response) d)
    (begun : c.request = request) (endpoint : c.endpoint = .raw request)
    (progress : c.progress = ⟨landings.length + 1, landings.countP Landing.isTransient⟩)
    (pursued : Pursued x.client.account.retry request.route landings)
    (length : sent.length = landings.length + 1) (rests : wakes.length = landings.length) :
    d.Stands x.client.account.retry request x.now sent (landings ++ [x.landing response d]) wakes := by
  have hafter := after_attemptEnd (l := x.landing response d) x request.route rfl pursued.countP_le
  rw [← begun, ← progress] at hafter
  have hlength : sent.length = (landings ++ [x.landing response d]).length := by simpa using length
  have hrests : wakes.length + 1 = (landings ++ [x.landing response d]).length := by simpa using rests
  cases h with
  | again verdict =>
    have hv := verdict.symm.trans hafter
    split at hv
    · cases hv
    · rename_i unsettled
      injection hv with hdelay hp
      rw [begun] at unsettled
      have till := congrArg (fun delay => some (x.now + delay)) hdelay
      refine .resting rfl begun (pursued.again unsettled till) ?_ hlength hrests ?_
      · rw [List.length_append]
        exact hp
      · intro l hl
        rw [List.getLast?_concat] at hl
        cases hl
        rfl
  | failed verdict =>
    have hv := verdict.symm.trans hafter
    split at hv
    · rename_i r settled
      cases hv
      rw [begun] at settled
      exact .ended rfl ⟨_, _, _, rfl, pursued, settled, rfl⟩ hlength hrests
    · cases hv
  | answered verdict =>
    have hv := verdict.symm.trans hafter
    split at hv
    · rename_i result settled
      cases hv
      rw [begun] at settled
      refine .ended rfl ⟨_, _, _, rfl, pursued, settled, ?_⟩ hlength hrests
      rw [endpoint]
      rfl
    · cases hv

namespace Session

variable {policy : RetryPolicy} {request : Request} {outgoing : Outgoing} {i : Nat} {sent : List Sent}
  {landings : List Landing} {wakes : List Instant} {x y : Session} {c d : Call}

/-- An attempt of a call that asks ends at once if it gets no reply. -/
theorem landing?_of_left (asks : c.asks) (h : d.left) : x.landing? c d = some (x.landing none d) := by
  unfold landing?
  rcases asks with ha | ha
  · rcases h with ⟨_, hd⟩ | ⟨_, _, _, hd⟩ <;> rw [ha, hd]
  · rcases h with ⟨_, hd⟩ | ⟨_, _, _, hd⟩ <;> rw [ha, hd]

/-- Nothing lands as an attempt is sent. -/
theorem landing?_of_sent {till : Instant} {response : Option Http.Response} (asks : c.asks)
    (h : d.stage = .inFlight till response) : x.landing? c d = none := by
  unfold landing?
  rcases asks with ha | ha <;> rw [ha, h]

theorem landing?_of_landed {till : Instant} {response : Option Http.Response}
    (h : c.stage = .inFlight till response) : x.landing? c d = some (x.landing response d) := by
  unfold landing?
  rw [h]

/-- Nothing lands while a call begins, asks, waits or rests. -/
theorem landing?_eq_none (hc : ∀ till response, c.stage ≠ .inFlight till response) (hd : d.asks) :
    x.landing? c d = none := by
  unfold landing?
  cases hs : c.stage with
  | inFlight till response => exact absurd hs (hc till response)
  | due _ | asking | waiting | resting _ | ended _ _ _ => rcases hd with hd | hd <;> rw [hd]

/-- Nobody stops resting but who rests, and goes on to ask. -/
theorem wake?_eq_none (h : (∀ till, c.stage ≠ .resting till) ∨ d.stage ≠ .asking) : x.wake? c d = none := by
  unfold wake?
  split
  · rename_i hc hd
    exact absurd hd (h.resolve_left fun h => h _ hc)
  · rfl

theorem wake?_of_resting {till : Instant} (hc : c.stage = .resting till) (hd : d.stage = .asking) :
    x.wake? c d = some x.now := by
  unfold wake?
  rw [hc, hd]

theorem Pursues.made (h : Pursues policy request outgoing i sent landings wakes x c) :
    c.endpoint.request = .ok request := by
  rw [h.endpoint]
  rfl

/-- Whatever attempt it is, it sends the same. -/
theorem Pursues.built (h : Pursues policy request outgoing i sent landings wakes x c) (asks : c.asks) :
    c.outgoing? x = some outgoing := by
  rw [Call.outgoing?, (h.stands.of_asks asks).1, h.sendable.built]

theorem Pursues.send (h : Pursues policy request outgoing i sent landings wakes x c) (asks : c.asks)
    {o : Outgoing} (ho : c.outgoing? x = some o) : ∀ s ∈ sent ++ [⟨x.now, o⟩], s.outgoing = outgoing := by
  intro s hs
  rcases List.mem_append.1 hs with hs | hs
  · exact h.outgoing s hs
  · rw [List.mem_singleton.1 hs]
    exact Option.some.inj (ho.symm.trans (h.built asks))

/-- A step of the call keeps to what is said of it. -/
theorem Pursues.own (h : Pursues policy request outgoing i sent landings wakes x c)
    (untimed : request.timeout = none) (step : x.stepCall i = some y) :
    ∃ d, y.calls[i]? = some d ∧ Pursues policy request outgoing i (sent ++ y.sent.drop x.sent.length)
      (landings ++ (x.landing? c d).toList) (wakes ++ (x.wake? c d).toList) y d := by
  obtain ⟨c', d, new, hc', -, moves, hb⟩ := moves_of_stepCall step
  cases h.call.symm.trans hc'
  have hi : i < x.calls.length := (List.getElem?_eq_some_iff.1 h.call).1
  have call : y.calls[i]? = some d := by rw [hb.calls, List.getElem?_set_self hi]
  have hnew : y.sent.drop x.sent.length = new := by rw [hb.sent, List.drop_left]
  have account : y.client.account.retry = policy := by rw [hb.alike.account, h.account]
  have sendable := h.sendable.congr hb.alike.account hb.alike.boundary
  refine ⟨d, call, ?_⟩
  rw [hnew]
  have build {sent : List Sent} {landings : List Landing} {wakes : List Instant}
      (frame : d.endpoint = c.endpoint ∧ d.cancelAfter = c.cancelAfter ∧ d.deadline = c.deadline ∧
        d.isCancelled = c.isCancelled)
      (stands : d.Stands policy request x.now sent landings wakes)
      (outgoing' : ∀ s ∈ sent, s.outgoing = outgoing) (spaced : Spaced sent landings wakes) :
      Pursues policy request outgoing i sent landings wakes y d :=
    ⟨call, account, sendable, frame.1.trans h.endpoint, frame.2.1.trans h.uncancelled,
      frame.2.2.1.trans h.untimed, frame.2.2.2.trans h.wanted, hb.alike.now.symm ▸ stands, outgoing', spaced⟩
  -- only a call that rests can wake
  have awake (was : ∀ till, c.stage ≠ .resting till) : wakes ++ (x.wake? c d).toList = wakes := by
    rw [wake?_eq_none (.inl was), Option.toList_none, List.append_nil]
  obtain ⟨key, hkey⟩ := h.sendable.route
  cases moves with
  | cancelled hcancel => rw [h.wanted] at hcancel; cases hcancel
  | timedOut hlate _ => rw [h.untimed] at hlate; cases hlate
  | unmade _ hmade => rw [h.made] at hmade; cases hmade
  | misrouted _ hmade fault =>
    cases h.made.symm.trans hmade
    rw [hkey] at fault
    cases fault
  | @begun start request' key' stage hmade _ =>
    cases h.made.symm.trans hmade
    obtain ⟨fresh, rfl, rfl, rfl⟩ := h.stands.of_due stage
    rw [landing?_eq_none (by simp [stage]) (.inl rfl), awake (by simp [stage]), Option.toList_none,
      List.append_nil, List.append_nil]
    refine build ⟨rfl, rfl, ?_, rfl⟩ (.asks (.inl rfl) rfl .start fresh rfl rfl (by simp)) h.outgoing h.spaced
    show request.timeout.map _ = _
    rw [untimed, h.untimed]
    rfl
  | waits asks =>
    obtain ⟨begun, pursued, progress, length, rests, rested⟩ := h.stands.of_asks asks
    rw [landing?_eq_none asks.not_inFlight (.inr rfl), awake asks.not_resting, Option.toList_none,
      List.append_nil, List.append_nil]
    exact build ⟨rfl, rfl, rfl, rfl⟩ (.asks (.inr rfl) begun pursued progress length rests rested) h.outgoing
      h.spaced
  | unsendable asks content =>
    have built := h.built asks
    rw [Call.outgoing?, content] at built
    cases built
  | unsent asks unbuilt _ => rw [h.built asks] at unbuilt; cases unbuilt
  | @unanswered d o asks ho settles =>
    obtain ⟨begun, pursued, progress, length, rests, rested⟩ := h.stands.of_asks asks
    rw [landing?_of_left asks settles.left, awake asks.not_resting, Option.toList_some]
    have hp : c.tried.progress = ⟨landings.length + 1, landings.countP Landing.isTransient⟩ := by
      rw [Call.tried, progress]; rfl
    have hlength : (sent ++ [Sent.mk x.now o]).length = landings.length + 1 := by simp [length]
    refine build settles.frame ?_ (h.send asks ho)
      ((h.spaced.send (length.trans rests.symm) rested).land _)
    rw [← h.account] at pursued ⊢
    have settles : c.tried.Settles x (x.attemptEnd none) d := settles
    exact settles.stands begun h.endpoint hp pursued hlength rests
  | sent till response asks ho =>
    obtain ⟨begun, pursued, progress, length, rests, rested⟩ := h.stands.of_asks asks
    rw [landing?_of_sent asks rfl, awake asks.not_resting, Option.toList_none, List.append_nil]
    refine build ⟨rfl, rfl, rfl, rfl⟩ (.inFlight rfl begun pursued ?_ (by simp [length]) rests)
      (h.send asks ho) (h.spaced.send (length.trans rests.symm) rested)
    rw [Call.tried, progress]
    rfl
  | @landed till response _ stage due settles =>
    obtain ⟨begun, pursued, progress, length, rests⟩ := h.stands.of_inFlight stage
    rw [landing?_of_landed stage, awake (by simp [stage]), Option.toList_some, List.append_nil]
    refine build settles.frame ?_ h.outgoing (h.spaced.land _)
    rw [← h.account] at pursued ⊢
    exact settles.stands begun h.endpoint progress pursued length rests
  | @rested till stage due =>
    obtain ⟨begun, pursued, progress, length, rests, last⟩ := h.stands.of_resting stage
    rw [landing?_eq_none (by simp [stage]) (.inl rfl), wake?_of_resting stage rfl, Option.toList_none,
      Option.toList_some, List.append_nil, List.append_nil]
    refine build ⟨rfl, rfl, rfl, rfl⟩ ?_ h.outgoing (h.spaced.wake rests last due)
    refine .asks (.inl rfl) begun pursued progress length (by simpa using rests) fun w hw => ?_
    rw [List.getLast?_concat] at hw
    cases hw
    exact Nat.le_refl _

/-- What happens aside leaves the call as it is. -/
theorem Pursues.aside (h : Pursues policy request outgoing i sent landings wakes x c) (aside : Aside i x y) :
    Pursues policy request outgoing i sent landings wakes y c := by
  obtain ⟨call, account, boundary, later⟩ := aside.frame h.call
  exact ⟨call, by rw [account, h.account], h.sendable.congr account boundary, h.endpoint,
    h.uncancelled, h.untimed, h.wanted, h.stands.later later, h.outgoing, h.spaced⟩

/-- A call keeps to what is said of it, however the session goes on. -/
theorem Reaches.pursues (untimed : request.timeout = none)
    (hstart : ∃ c, Pursues policy request outgoing i [] [] [] x c) (h : Reaches i x sent landings wakes y) :
    ∃ c, Pursues policy request outgoing i sent landings wakes y c := by
  induction h with
  | refl => exact hstart
  | @own sent landings wakes y z c d _ was step becomes ih =>
    obtain ⟨c', hp⟩ := ih
    cases hp.call.symm.trans was
    obtain ⟨d', hd, hp'⟩ := hp.own untimed step
    cases hd.symm.trans becomes
    exact ⟨_, hp'⟩
  | aside _ aside ih =>
    obtain ⟨c, hp⟩ := ih
    exact ⟨c, hp.aside aside⟩

/-- A call that was just started has nothing behind it. -/
theorem pursues_start (x : Session) (h : x.Sendable request outgoing) (delay : Span) :
    ∃ c, Pursues x.client.account.retry request outgoing x.calls.length [] [] []
      (x.start (.raw request) delay none) c := by
  obtain ⟨calls, alike⟩ := x.start_frame (.raw request) delay none
  refine ⟨_, by rw [calls, List.getElem?_concat_length], by rw [alike.account],
    h.congr alike.account alike.boundary, rfl, rfl, rfl, rfl, .due rfl rfl, ?_, ⟨?_, ?_⟩⟩ <;> simp

end Session

end ChatApi.Client
