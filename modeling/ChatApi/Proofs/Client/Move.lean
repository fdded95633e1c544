import ChatApi.Client.Session
import ChatApi.Proofs.Time.Agenda

/-!
# What a step makes of a call

`Call.Moves` lists what one step can make of a call and what it sends. Every step of a session is one
of these moves of one call (`moves_of_stepCall`), which leaves the other calls alone. So nothing after
this has to open the steps again.
-/

namespace ChatApi

namespace Client

/-- A call that ended in a session. -/
def Call.over (c : Call) (x : Session) (result : Except ApiError Answer) (cache : Cache) : Call :=
  { c with stage := .ended x.now result cache }

/-- Whether a call is about to get its slots. -/
def Call.asks (c : Call) : Prop := c.stage = .asking ∨ c.stage = .waiting

/-- A call with one attempt more. -/
def Call.tried (c : Call) : Call := { c with progress := c.progress.attempt }

/-- How an attempt ended, for one that ends in a session. -/
def Session.attemptEnd (x : Session) : Option Http.Response → AttemptEnd
  | none => .noResponse
  | some r =>
    if r.status = .tooManyRequests then
      let report := Limit.Report.ofHeaders x.calendarMillis r.headers
      let refusal := Limit.Refusal.ofBody? r.body
      .response r (some (Limit.Limits.refusalWait report refusal,
        Limit.Limits.isGlobalRefusal report refusal))
    else .response r none

/-- What the end of an attempt makes of a call. -/
inductive Call.Settles (x : Session) (c : Call) (e : AttemptEnd) : Call → Prop
  | again {delay : Span} {progress : Progress}
      (verdict : (c.progress.after x.client.account.retry c.request.route e x.client.draws).1 =
        .again delay progress) :
      Settles x c e { c with progress, stage := .resting (x.now + delay) }
  | failed {error : ApiError}
      (verdict : (c.progress.after x.client.account.retry c.request.route e x.client.draws).1 =
        .finished (.error error)) :
      Settles x c e (c.over x (.error error) x.client.cache)
  | answered {r : Http.Response}
      (verdict : (c.progress.after x.client.account.retry c.request.route e x.client.draws).1 =
        .finished (.ok r)) :
      Settles x c e (c.over x (c.endpoint.conclude x.client.cache r).1
        (c.endpoint.conclude x.client.cache r).2)

/-- What an attempt of a call sends. -/
def Call.outgoing? (c : Call) (x : Session) : Option Outgoing :=
  c.request.body.content?.bind
    (c.request.outgoing? x.boundary x.client.account.apiBase x.client.account.token)

/-- What one step can make of a call, and what it sends. -/
inductive Call.Moves (x : Session) (c : Call) : Call → List Sent → Prop
  | cancelled (h : c.isCancelled = true) : Moves x c (c.over x (.error .cancelled) x.client.cache) []
  | timedOut {till : Instant} (h : c.deadline = some till) (late : till ≤ x.now) :
      Moves x c (c.over x (.error .timedOut) x.client.cache) []
  | unmade {start : Instant} {error : ApiError} (stage : c.stage = .due start)
      (request : c.endpoint.request = .error error) :
      Moves x c (c.over x (.error error) x.client.cache) []
  | misrouted {start : Instant} {request : Request} {error : Limit.RouteError}
      (stage : c.stage = .due start) (made : c.endpoint.request = .ok request)
      (fault : Limit.RouteKey.resolve request.method request.route = .error error) :
      Moves x c (c.over x (.error (.badRoute error)) x.client.cache) []
  | begun {start : Instant} {request : Request} {key : Limit.RouteKey} (stage : c.stage = .due start)
      (made : c.endpoint.request = .ok request)
      (resolved : Limit.RouteKey.resolve request.method request.route = .ok key) :
      Moves x c { c with
        request, key, deadline := request.timeout.map (x.now + ·), stage := .asking } []
  | waits (asks : c.asks) : Moves x c { c with stage := .waiting } []
  | unsendable (asks : c.asks) (content : c.request.body.content? = none) :
      Moves x c (c.over x (.error .unsendable) x.client.cache) []
  | unsent {d : Call} (asks : c.asks) (unbuilt : c.outgoing? x = none)
      (settles : c.tried.Settles x .noResponse d) : Moves x c d []
  | unanswered {d : Call} {outgoing : Outgoing} (asks : c.asks) (built : c.outgoing? x = some outgoing)
      (settles : c.tried.Settles x .noResponse d) : Moves x c d [⟨x.now, outgoing⟩]
  | sent {outgoing : Outgoing} (till : Instant) (response : Option Http.Response) (asks : c.asks)
      (built : c.outgoing? x = some outgoing) :
      Moves x c { c.tried with stage := .inFlight till response } [⟨x.now, outgoing⟩]
  | landed {till : Instant} {response : Option Http.Response} {d : Call}
      (stage : c.stage = .inFlight till response) (due : till ≤ x.now)
      (settles : c.Settles x (x.attemptEnd response) d) : Moves x c d []
  | rested {till : Instant} (stage : c.stage = .resting till) (due : till ≤ x.now) :
      Moves x c { c with stage := .asking } []

namespace Session

/-- What all calls of a session rely on is the same, and no time has passed. -/
structure Alike (x y : Session) : Prop where
  epoch : y.epoch = x.epoch
  account : y.client.account = x.client.account
  boundary : y.boundary = x.boundary
  now : y.now = x.now

theorem Alike.refl (x : Session) : Alike x x := ⟨rfl, rfl, rfl, rfl⟩

theorem Alike.trans {x y z : Session} (h : Alike x y) (h' : Alike y z) : Alike x z :=
  ⟨h'.epoch.trans h.epoch, h'.account.trans h.account, h'.boundary.trans h.boundary,
    h'.now.trans h.now⟩

/-- One call has become `c`, and has sent something. -/
structure Became (x : Session) (i : Nat) (c : Call) (sent : List Sent) (y : Session) : Prop where
  alike : Alike x y
  calls : y.calls = x.calls.set i c
  sent : y.sent = x.sent ++ sent

variable {x y : Session} {i : Nat} {c d : Call} {sent : List Sent}

/-- Nothing that a call looks at has changed: only limits, counts, alarms and replies may have. -/
structure Unmoved (x y : Session) : Prop where
  alike : Alike x y
  calls : y.calls = x.calls
  sent : y.sent = x.sent
  cache : y.client.cache = x.client.cache
  draws : y.client.draws = x.client.draws

theorem Unmoved.refl (x : Session) : Unmoved x x := ⟨.refl x, rfl, rfl, rfl, rfl⟩

theorem Unmoved.trans {x y z : Session} (h : Unmoved x y) (h' : Unmoved y z) : Unmoved x z :=
  ⟨h.alike.trans h'.alike, h'.calls.trans h.calls, h'.sent.trans h.sent, h'.cache.trans h.cache,
    h'.draws.trans h.draws⟩

theorem unmoved_happen (x : Session) (e : Limit.Event) : Unmoved x (x.happen e).1 := by
  refine ⟨⟨rfl, rfl, rfl, ?_⟩, rfl, rfl, rfl, rfl⟩
  exact Agenda.now_wakeAll ..

theorem Unmoved.became (h : Unmoved x y) {z : Session} (hz : Became y i c sent z) :
    Became x i c sent z :=
  ⟨h.alike.trans hz.alike, by rw [hz.calls, h.calls], by rw [hz.sent, h.sent]⟩

theorem became_finish (x : Session) (i : Nat) (c : Call) (result : Except ApiError Answer) :
    Became x i (c.over x result x.client.cache) [] (x.finish i c result) := by
  have h := unmoved_happen x (.withdraw i)
  refine h.became ⟨⟨rfl, rfl, rfl, rfl⟩, ?_, (List.append_nil _).symm⟩
  rw [Call.over, ← h.alike.now, ← h.cache]
  rfl

/-- The end of an attempt is judged by the account, the moment, the draws and the cache. -/
theorem Unmoved.settles (h : Unmoved x y) {e : AttemptEnd} (hd : c.Settles y e d) :
    c.Settles x e d := by
  have after : c.progress.after y.client.account.retry c.request.route e y.client.draws =
      c.progress.after x.client.account.retry c.request.route e x.client.draws := by
    rw [h.alike.account, h.draws]
  cases hd with
  | again verdict =>
    rw [h.alike.now]
    exact .again (after ▸ verdict)
  | failed verdict =>
    rw [Call.over, h.alike.now, h.cache]
    exact .failed (after ▸ verdict)
  | answered verdict =>
    rw [Call.over, h.alike.now, h.cache]
    exact .answered (after ▸ verdict)

theorem became_settleAttempt (x : Session) (i : Nat) (c : Call) (e : AttemptEnd) :
    ∃ d, c.Settles x e d ∧ Became x i d [] (x.settleAttempt i c e) := by
  unfold settleAttempt
  cases hv : c.progress.after x.client.account.retry c.request.route e x.client.draws with
  | mk verdict draws =>
    cases verdict with
    | again delay progress =>
      exact ⟨_, .again (by rw [hv]), ⟨rfl, rfl, rfl, rfl⟩, rfl, (List.append_nil _).symm⟩
    | finished result =>
      cases result with
      | error error =>
        refine ⟨_, .failed (by rw [hv]), ?_⟩
        have h := became_finish { x with client := { x.client with draws } } i c (.error error)
        exact ⟨⟨h.alike.epoch, h.alike.account, h.alike.boundary, h.alike.now⟩, h.calls, h.sent⟩
      | ok r =>
        refine ⟨_, .answered (by rw [hv]), ?_⟩
        have h := became_finish
          { x with client := { x.client with
              draws, cache := (c.endpoint.conclude x.client.cache r).2 } } i c
          (c.endpoint.conclude x.client.cache r).1
        exact ⟨⟨h.alike.epoch, h.alike.account, h.alike.boundary, h.alike.now⟩, h.calls, h.sent⟩

/-- An attempt ends in a session that may have changed in what no call looks at. -/
theorem Unmoved.became_settleAttempt (h : Unmoved x y) (i : Nat) (c : Call) (e : AttemptEnd) :
    ∃ d, c.Settles x e d ∧ Became x i d [] (y.settleAttempt i c e) := by
  obtain ⟨d, hd, hb⟩ := Session.became_settleAttempt y i c e
  exact ⟨d, h.settles hd, h.became hb⟩

theorem unmoved_count (x : Session) (status : Option Http.Status) :
    Unmoved x { x with client := { x.client with metrics := x.client.metrics.record status } } :=
  ⟨⟨rfl, rfl, rfl, rfl⟩, rfl, rfl, rfl, rfl⟩

theorem became_endWithout (x : Session) (i : Nat) (c : Call) :
    ∃ d, c.Settles x .noResponse d ∧ Became x i d [] (x.endWithout i c) :=
  ((unmoved_happen x (.withdraw i)).trans (unmoved_count _ none)).became_settleAttempt i c _

theorem became_endWith (x : Session) (i : Nat) (c : Call) (r : Http.Response) :
    ∃ d, c.Settles x (x.attemptEnd (some r)) d ∧ Became x i d [] (x.endWith i c r) := by
  have h := unmoved_count x (some r.status)
  unfold endWith attemptEnd
  dsimp only
  split
  · exact (h.trans (unmoved_happen _ _)).became_settleAttempt i c _
  · exact (h.trans (unmoved_happen _ _)).became_settleAttempt i c _

theorem unmoved_takeReply (x : Session) (o : Outgoing) : Unmoved x (x.takeReply o).2 := by
  unfold takeReply
  dsimp only
  split
  · exact ⟨⟨rfl, rfl, rfl, rfl⟩, rfl, rfl, rfl, rfl⟩
  · exact .refl x

/-- A move of a call that asks, in a session that may have changed in what no call looks at. -/
theorem Unmoved.moves_of_asks (h : Unmoved x y) (asks : c.asks) (hm : c.Moves y d sent) :
    c.Moves x d sent := by
  have hout : c.outgoing? x = c.outgoing? y := by
    simp only [Call.outgoing?, h.alike.account, h.alike.boundary]
  cases hm with
  | cancelled h' => rw [Call.over, h.alike.now, h.cache]; exact .cancelled h'
  | timedOut h' late => rw [Call.over, h.alike.now, h.cache]; exact .timedOut h' (h.alike.now ▸ late)
  | unmade stage _ | misrouted stage _ _ | begun stage _ _ | landed stage _ _ | rested stage _ =>
    rcases asks with ha | ha <;> rw [ha] at stage <;> cases stage
  | waits _ => exact .waits asks
  | unsendable _ content =>
    rw [Call.over, h.alike.now, h.cache]; exact .unsendable asks content
  | unsent _ unbuilt settles => exact .unsent asks (hout.trans unbuilt) (h.settles settles)
  | unanswered _ built settles =>
    rw [h.alike.now]; exact .unanswered asks (hout.trans built) (h.settles settles)
  | sent till response _ built => rw [h.alike.now]; exact .sent till response asks (hout.trans built)

/-- A call that has its slots sends an attempt, if there is something to send. -/
theorem moves_send (x : Session) (i : Nat) (asks : c.asks) :
    ∃ d sent, c.Moves x d sent ∧ Became x i d sent (x.send i c) := by
  unfold send
  cases hc : c.request.body.content? with
  | none => exact ⟨_, _, .unsendable asks hc, became_finish x i c _⟩
  | some content =>
    simp only
    cases ho : c.request.outgoing? x.boundary x.client.account.apiBase x.client.account.token content with
    | none =>
      obtain ⟨d, hd, hb⟩ := became_endWithout x i c.tried
      refine ⟨d, [], .unsent asks ?_ hd, hb⟩
      simpa [Call.outgoing?, hc] using ho
    | some outgoing =>
      simp only
      have built : c.outgoing? x = some outgoing := by simpa [Call.outgoing?, hc] using ho
      -- what is sent is noted first, and then the reply is looked for
      have noted : Unmoved { x with sent := x.sent ++ [Sent.mk x.now outgoing] }
          ({ x with sent := x.sent ++ [Sent.mk x.now outgoing] }.takeReply outgoing).2 :=
        unmoved_takeReply ..
      have drop {y : Session} {d : Call}
          (hb : Became { x with sent := x.sent ++ [Sent.mk x.now outgoing] } i d [] y) :
          Became x i d [⟨x.now, outgoing⟩] y :=
        ⟨⟨hb.alike.epoch, hb.alike.account, hb.alike.boundary, hb.alike.now⟩, hb.calls,
          hb.sent.trans (List.append_nil _)⟩
      cases ht : { x with sent := x.sent ++ [Sent.mk x.now outgoing] }.takeReply outgoing with
      | mk reply y =>
        rw [ht] at noted
        simp only at noted ⊢
        cases reply with
        | none =>
          obtain ⟨d, hd, hb⟩ := became_endWithout y i c.tried
          refine ⟨d, _, .unanswered asks built ?_, drop (noted.became hb)⟩
          have hx : Unmoved { x with sent := y.sent } y :=
            ⟨⟨noted.alike.epoch, noted.alike.account, noted.alike.boundary, noted.alike.now⟩,
              noted.calls, rfl, noted.cache, noted.draws⟩
          have := hx.settles hd
          cases this with
          | again verdict => exact .again verdict
          | failed verdict => exact .failed verdict
          | answered verdict => exact .answered verdict
        | some reply =>
          refine ⟨_, _, .sent (y.now + reply.latency) reply.response asks built, drop (noted.became ?_)⟩
          exact ⟨⟨rfl, rfl, rfl, rfl⟩, rfl, (List.append_nil _).symm⟩

theorem moves_ask (x : Session) (i : Nat) (asks : c.asks) {e : Limit.Event}
    (h : x.ask i c e = some y) : ∃ d sent, c.Moves x d sent ∧ Became x i d sent y := by
  have hx := unmoved_happen x e
  unfold ask at h
  cases hh : x.happen e with
  | mk z turn =>
    rw [hh] at h hx
    cases turn with
    | granted =>
      obtain ⟨d, sent, hd, hb⟩ := moves_send { z with agenda := z.agenda.unset (.call i) .step } i asks
      have hz : Unmoved x { z with agenda := z.agenda.unset (.call i) .step } :=
        hx.trans ⟨⟨rfl, rfl, rfl, rfl⟩, rfl, rfl, rfl, rfl⟩
      cases h
      exact ⟨d, sent, hz.moves_of_asks asks hd, hz.became hb⟩
    | asleep till =>
      cases h
      exact ⟨_, _, .waits asks, hx.became ⟨⟨rfl, rfl, rfl, rfl⟩, rfl, (List.append_nil _).symm⟩⟩
    | queued =>
      cases h
      exact ⟨_, _, .waits asks, hx.became ⟨⟨rfl, rfl, rfl, rfl⟩, rfl, (List.append_nil _).symm⟩⟩
    | unchanged => cases h

theorem moves_begin (x : Session) (i : Nat) {start : Instant} (hstage : c.stage = .due start) :
    ∃ d, c.Moves x d [] ∧ Became x i d [] (x.begin i c) := by
  unfold begin
  extract_lets z
  -- the canceller's alarm is nothing that the call looks at
  have alarmed : Unmoved x z := by
    dsimp only [z]
    split
    · exact ⟨⟨rfl, rfl, rfl, rfl⟩, rfl, rfl, rfl, rfl⟩
    · exact .refl x
  clear_value z
  have finished (error : ApiError) :
      Became x i (c.over x (.error error) x.client.cache) [] (z.finish i c (.error error)) := by
    have hb := became_finish z i c (.error error)
    rw [Call.over, alarmed.alike.now, alarmed.cache] at hb
    exact alarmed.became hb
  split
  · rename_i error hr
    exact ⟨_, .unmade hstage hr, finished error⟩
  · rename_i request hr
    split
    · rename_i error hk
      exact ⟨_, .misrouted hstage hr hk, finished _⟩
    · rename_i key hk
      refine ⟨_, .begun hstage hr hk, alarmed.became ?_⟩
      rw [← alarmed.alike.now]
      cases request.timeout with
      | none => exact ⟨⟨rfl, rfl, rfl, rfl⟩, rfl, (List.append_nil _).symm⟩
      | some timeout => exact ⟨⟨rfl, rfl, rfl, rfl⟩, rfl, (List.append_nil _).symm⟩

theorem moves_of_advanceCall (h : x.advanceCall i c = some y) :
    ∃ d sent, c.Moves x d sent ∧ Became x i d sent y := by
  unfold advanceCall at h
  cases hs : c.stage with
  | due start =>
    rw [hs] at h
    dsimp only at h
    split at h
    · cases h
      obtain ⟨d, hd, hb⟩ := moves_begin x i hs
      exact ⟨d, [], hd, hb⟩
    · cases h
  | asking =>
    rw [hs] at h
    exact moves_ask x i (.inl hs) h
  | waiting =>
    rw [hs] at h
    exact moves_ask x i (.inr hs) h
  | inFlight till response =>
    rw [hs] at h
    dsimp only at h
    split at h
    · cases h
    · rename_i hn
      cases h
      cases response with
      | none =>
        obtain ⟨d, hd, hb⟩ := became_endWithout x i c
        exact ⟨d, [], .landed hs (Nat.le_of_not_lt hn) hd, hb⟩
      | some r =>
        obtain ⟨d, hd, hb⟩ := became_endWith x i c r
        exact ⟨d, [], .landed hs (Nat.le_of_not_lt hn) hd, hb⟩
  | resting till =>
    rw [hs] at h
    dsimp only at h
    split at h
    · cases h
    · rename_i hn
      cases h
      exact ⟨_, _, .rested hs (Nat.le_of_not_lt hn), ⟨rfl, rfl, rfl, rfl⟩, rfl, (List.append_nil _).symm⟩
  | ended moment result cache =>
    rw [hs] at h
    cases h

/-- A call that takes a step is cancelled and ends, or goes on by itself, or ends because it would have to wait and
its time is over. -/
theorem stepCall_cases (h : x.stepCall i = some y) : ∃ c, x.calls[i]? = some c ∧ c.isOver = false ∧
    ((c.isCancelled = true ∧ y = x.finish i c (.error .cancelled)) ∨
      (c.isCancelled = false ∧ x.advanceCall i c = some y) ∨
      x.advanceCall i c = none ∧ c.deadline.any (· ≤ x.now) = true ∧ y = x.finish i c (.error .timedOut)) := by
  unfold stepCall at h
  split at h
  · cases h
  · rename_i c hc
    refine ⟨c, hc, ?_⟩
    split at h
    · cases h
    · rename_i on
      refine ⟨Bool.eq_false_iff.2 on, ?_⟩
      split at h
      · rename_i cancelled
        cases h
        exact .inl ⟨cancelled, rfl⟩
      · rename_i wanted
        split at h
        · rename_i advanced
          cases h
          exact .inr (.inl ⟨Bool.eq_false_iff.2 wanted, advanced⟩)
        · rename_i waits
          split at h
          · rename_i late
            cases h
            exact .inr (.inr ⟨waits, late, rfl⟩)
          · cases h

/-- Every step of a call is one of its moves, and leaves all other calls alone. -/
theorem moves_of_stepCall (h : x.stepCall i = some y) :
    ∃ c d sent, x.calls[i]? = some c ∧ c.isOver = false ∧ c.Moves x d sent ∧ Became x i d sent y := by
  obtain ⟨c, hc, on, ⟨cancelled, rfl⟩ | ⟨-, advanced⟩ | ⟨-, late, rfl⟩⟩ := stepCall_cases h
  · exact ⟨c, _, _, hc, on, .cancelled cancelled, became_finish x i c _⟩
  · obtain ⟨d, sent, hd, hb⟩ := moves_of_advanceCall advanced
    exact ⟨c, d, sent, hc, on, hd, hb⟩
  · obtain ⟨till, htill, hle⟩ := (Option.any_eq_true _ _).1 late
    exact ⟨c, _, _, hc, on, .timedOut htill (by simpa using hle), became_finish x i c _⟩

/-! ### What is done to calls from outside -/

theorem calls_cancel (x : Session) (i : Nat) :
    (x.cancel i).calls = x.calls.modify i fun c => { c with isCancelled := true } := by
  unfold Session.cancel
  rw [List.modify_eq_set_getElem?]
  cases x.calls[i]? <;> rfl

theorem client_cancel (x : Session) (i : Nat) : (x.cancel i).client = x.client := by
  unfold Session.cancel
  split <;> rfl

theorem alike_cancel (x : Session) (i : Nat) : Alike x (x.cancel i) := by
  unfold Session.cancel
  split
  · exact .refl x
  · exact ⟨rfl, rfl, rfl, Agenda.now_wake ..⟩

/-- Only the call that is cancelled changes, and only in that. -/
theorem getElem?_cancel {j : Nat} (hc : x.calls[j]? = some c) :
    (x.cancel i).calls[j]? = some { c with isCancelled := c.isCancelled || i = j } := by
  rw [calls_cancel, List.getElem?_modify, hc]
  by_cases h : i = j <;> simp [h]

theorem getElem?_of_cancel {j : Nat} (hd : (x.cancel i).calls[j]? = some d) :
    ∃ c, x.calls[j]? = some c ∧ d = { c with isCancelled := c.isCancelled || i = j } := by
  cases hc : x.calls[j]? with
  | none => simp [calls_cancel, List.getElem?_modify, hc] at hd
  | some c => exact ⟨c, rfl, Option.some.inj (hd.symm.trans (getElem?_cancel hc))⟩

theorem client_start (x : Session) (e : Endpoint) (delay : Span) (cancelAfter : Option Span) :
    (x.start e delay cancelAfter).client = x.client := by
  unfold Session.start
  dsimp only
  split <;> rfl

end Session

end Client

end ChatApi
