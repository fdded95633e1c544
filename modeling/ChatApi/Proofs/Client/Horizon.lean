import ChatApi.Proofs.Client.Cancel
import ChatApi.Proofs.Json.Laws
import ChatApi.Proofs.Limit.Horizon

/-!
# No response closes a client for more than a day

A step of a call changes the limits by events only that come with what was read from a response
(`heeds_stepCall`). So whatever the responses are, nothing is closed for more than a day ahead at any time, and no
call rests for longer after a refusal (`responses_close_for_a_day_at_most`).
-/

namespace ChatApi.Client.Session

open Limit (Limits Event Refusal longestWait)

/-- The limits of `y` are what events that happen now make of those of `x`. -/
structure Heeds (x y : Session) : Prop where
  now : y.now = x.now
  limits : Limits.Heeds x.now x.client.limits y.client.limits

variable {x y z : Session} {i : Nat} {c d : Call} {e : Event}

theorem Heeds.of_same (hn : y.now = x.now) (hl : y.client.limits = x.client.limits) : Heeds x y := by
  refine ⟨hn, ?_⟩
  rw [hl]
  exact .refl

theorem Heeds.trans (h : Heeds x y) (h' : Heeds y z) : Heeds x z := by
  refine ⟨h'.now.trans h.now, h.limits.trans ?_⟩
  rw [← h.now]
  exact h'.limits

/-! ### The steps of a call -/

theorem heeds_happen (x : Session) (h : e.IsRead) : Heeds x (x.happen e).1 := by
  constructor
  · exact (unmoved_happen x e).alike.now
  · exact .single ⟨e, h, rfl⟩

theorem heeds_finish (x : Session) (i : Nat) (c : Call) (result : Except ApiError Answer) :
    Heeds x (x.finish i c result) := by
  have h := heeds_happen x (e := .withdraw i) trivial
  exact ⟨h.now, h.limits⟩

theorem heeds_settleAttempt (x : Session) (i : Nat) (c : Call) (e : AttemptEnd) :
    Heeds x (x.settleAttempt i c e) := by
  unfold settleAttempt
  dsimp only
  split
  · exact .of_same rfl rfl
  · have h := heeds_finish { x with client := { x.client with
      draws := (c.progress.after x.client.account.retry c.request.route e x.client.draws).2 } } i c
    exact ⟨(h _).now, (h _).limits⟩
  · rename_i r _
    have h := heeds_finish { x with client := { x.client with
      draws := (c.progress.after x.client.account.retry c.request.route e x.client.draws).2
      cache := (c.endpoint.conclude x.client.cache r).2 } } i c
    exact ⟨(h _).now, (h _).limits⟩

theorem heeds_endWithout (x : Session) (i : Nat) (c : Call) : Heeds x (x.endWithout i c) := by
  have h := heeds_happen x (e := .withdraw i) trivial
  have settled := heeds_settleAttempt { (x.happen (.withdraw i)).1 with client := {
    (x.happen (.withdraw i)).1.client with
    metrics := (x.happen (.withdraw i)).1.client.metrics.record none } } i c .noResponse
  exact h.trans ⟨settled.now, settled.limits⟩

/-- The limits see what is read from the response. -/
theorem heeds_endWith (x : Session) (i : Nat) (c : Call) (r : Http.Response) : Heeds x (x.endWith i c r) := by
  have taken (e : Event) (hread : e.IsRead) (a : AttemptEnd) :
      Heeds x (({ x with client := { x.client with
        metrics := x.client.metrics.record (some r.status) } }.happen e).1.settleAttempt i c a) := by
    have counted : Heeds x { x with client := { x.client with
      metrics := x.client.metrics.record (some r.status) } } := .of_same rfl rfl
    exact counted.trans ((heeds_happen _ hread).trans (heeds_settleAttempt ..))
  unfold endWith
  dsimp only
  split
  · refine taken _ ?_ _
    exact ⟨⟨_, _, rfl⟩, _, rfl⟩
  · refine taken _ ?_ _
    exact ⟨_, _, rfl⟩

theorem heeds_begin (x : Session) (i : Nat) (c : Call) : Heeds x (x.begin i c) := by
  unfold begin
  extract_lets z
  have alarmed : Heeds x z := by
    dsimp only [z]
    split <;> exact .of_same rfl rfl
  clear_value z
  split
  · exact alarmed.trans (heeds_finish ..)
  · split
    · exact alarmed.trans (heeds_finish ..)
    · rename_i request _ _ _ _
      refine alarmed.trans ?_
      cases request.timeout <;> exact .of_same rfl rfl

theorem heeds_send (x : Session) (i : Nat) (c : Call) : Heeds x (x.send i c) := by
  unfold send
  split
  · exact heeds_finish ..
  · dsimp only
    split
    · exact heeds_endWithout ..
    · rename_i outgoing _
      have taken := unmoved_takeReply { x with sent := x.sent ++ [Sent.mk x.now outgoing] } outgoing
      have hclient := client_takeReply { x with sent := x.sent ++ [Sent.mk x.now outgoing] } outgoing
      split
      · rename_i y hy
        rw [hy] at taken hclient
        have noted : Heeds x y := .of_same taken.alike.now (congrArg _ hclient)
        exact noted.trans (heeds_endWithout ..)
      · rename_i reply y hy
        rw [hy] at taken hclient
        exact .of_same taken.alike.now (congrArg State.limits hclient)

theorem heeds_ask (hread : e.IsRead) (h : x.ask i c e = some y) : Heeds x y := by
  have asked := heeds_happen x hread
  unfold ask at h
  dsimp only at h
  split at h
  · cases h
    have granted : Heeds x { (x.happen e).1 with agenda := (x.happen e).1.agenda.unset (.call i) .step } :=
      ⟨asked.now, asked.limits⟩
    exact granted.trans (heeds_send ..)
  · cases h
    exact ⟨asked.now, asked.limits⟩
  · cases h
    exact ⟨asked.now, asked.limits⟩
  · cases h

theorem heeds_advanceCall (h : x.advanceCall i c = some y) : Heeds x y := by
  unfold advanceCall at h
  split at h
  · split at h
    · cases h
      exact heeds_begin ..
    · cases h
  · have hread : (Event.arrive i (.route c.key c.request.scope)).IsRead := trivial
    exact heeds_ask hread h
  · have hread : (Event.poll i).IsRead := trivial
    exact heeds_ask hread h
  · split at h
    · cases h
    · rename_i response _ _
      cases response with
      | none =>
        cases h
        exact heeds_endWithout ..
      | some r =>
        cases h
        exact heeds_endWith ..
  · split at h
    · cases h
    · cases h
      exact .of_same rfl rfl
  · cases h

theorem heeds_stepCall (h : x.stepCall i = some y) : Heeds x y := by
  obtain ⟨c, -, -, ⟨-, rfl⟩ | ⟨-, advanced⟩ | ⟨-, -, rfl⟩⟩ := stepCall_cases h
  · exact heeds_finish ..
  · exact heeds_advanceCall advanced
  · exact heeds_finish ..

/-! ### Everything that happens -/

/-- Nothing is closed for more than a day ahead. -/
def ClosesShortly (x : Session) : Prop := ∀ t, x.client.limits.EndsAt t → t ≤ x.now + longestWait

theorem Heeds.closesShortly (h : Heeds x y) (hx : x.ClosesShortly) : y.ClosesShortly := by
  intro t ht
  rw [h.now]
  rcases h.limits.endsAt ht with ht | hle
  · exact hx t ht
  · exact hle

theorem Next.closesShortly (hn : Next x y) (hx : x.ClosesShortly) : y.ClosesShortly := by
  cases hn with
  | step step => exact (heeds_stepCall step).closesShortly hx
  | drop drops =>
    obtain ⟨-, -, error⟩ := drops
    exact (heeds_finish ..).closesShortly hx
  | cancel i =>
    exact Heeds.closesShortly (.of_same (alike_cancel x i).now (by rw [client_cancel])) hx
  | schedule later =>
    intro t ht
    exact Nat.le_trans (hx t ht) (Nat.add_le_add_right later _)
  | start e delay cancelAfter =>
    exact Heeds.closesShortly (.of_same (x.start_frame e delay cancelAfter).2.now (by rw [client_start])) hx

theorem Leads.closesShortly (hl : Leads x y) (hx : x.ClosesShortly) : y.ClosesShortly := by
  induction hl with
  | refl => exact hx
  | tail _ hn ih => exact hn.closesShortly ih

theorem IsFresh.closesShortly (h : IsFresh x) : x.ClosesShortly := by
  obtain ⟨limit, hl⟩ := h.limits
  intro t ht
  rw [hl] at ht
  exact absurd ht (Limits.not_endsAt_ofLimit limit)

/-- A call whose attempt was refused over a limit rests for as long as the response says. -/
theorem rests_after_refusal {till : Instant} {r : Http.Response} (hc : x.calls[i]? = some c)
    (flying : c.stage = .inFlight till (some r)) (due : till ≤ x.now) (on : c.isCancelled = false)
    (refused : r.status = .tooManyRequests) :
    ∃ y, x.stepCall i = some y ∧ y.calls[i]?.map Call.stage = some (.resting
      (x.now + Limits.refusalWait (.ofHeaders x.calendarMillis r.headers) (Refusal.ofBody? r.body))) := by
  have hstep : x.stepCall i = some (x.endWith i c r) := by
    have hover : c.isOver = false := by
      unfold Call.isOver
      rw [flying]
    have hadvance : x.advanceCall i c = some (x.endWith i c r) := by
      unfold advanceCall
      rw [flying]
      exact if_neg (Nat.not_lt.2 due)
    simp [stepCall, hc, hover, on, hadvance]
  have hend : x.attemptEnd (some r) = .response r (some
      (Limits.refusalWait (.ofHeaders x.calendarMillis r.headers) (Refusal.ofBody? r.body),
        Limits.isGlobalRefusal (.ofHeaders x.calendarMillis r.headers) (Refusal.ofBody? r.body))) := if_pos refused
  obtain ⟨d, settles, hb⟩ := became_endWith x i c r
  have hd : (x.endWith i c r).calls[i]? = some d := by
    rw [hb.calls, List.getElem?_set_self (List.getElem?_eq_some_iff.1 hc).1]
  refine ⟨_, hstep, ?_⟩
  rw [hd]
  rw [hend] at settles
  -- a refusal over a limit is always tried again
  cases settles with
  | again verdict =>
    cases (after_of_limited refused).symm.trans verdict
    rfl
  | failed verdict => cases (after_of_limited refused).symm.trans verdict
  | answered verdict => cases (after_of_limited refused).symm.trans verdict

/-- Whatever the header fields and bodies of responses are, they close nothing for more than a day ahead. Moments
at which something opens again are sums of the moment of an event and a span that it brings, and none of these
sums is more than a day ahead either. So it is in a client that was new, whatever has happened to it; and a call
that is refused over a limit rests for a day at most. -/
theorem responses_close_for_a_day_at_most :
    (∀ (limit : Nat) (es : List (Instant × Event)) (now : Instant), (∀ x ∈ es, x.2.IsRead ∧ x.1 ≤ now) →
      (∀ t, ((Limits.ofLimit limit).run es).EndsAt t →
        t ≤ now + Span.day ∧ ∃ x ∈ es, ∃ d ∈ x.2.spans, t = x.1 + d) ∧
      ∀ x ∈ es, ∀ d ∈ x.2.spans, x.1 + d ≤ now + Span.day) ∧
    (∀ (x₀ x : Session), x₀.IsFresh → x₀.Leads x → ∀ t, x.client.limits.EndsAt t → t ≤ x.now + Span.day) ∧
    ∀ (x : Session) (i : Nat) (c : Call) (till : Instant) (r : Http.Response), x.calls[i]? = some c →
      c.stage = .inFlight till (some r) → till ≤ x.now → c.isCancelled = false → r.status = .tooManyRequests →
      ∃ y delay, x.stepCall i = some y ∧ y.calls[i]?.map Call.stage = some (.resting (x.now + delay)) ∧
        delay ≤ Span.day := by
  refine ⟨?_, ?_, ?_⟩
  · intro limit es now hes
    have hsum : ∀ x ∈ es, ∀ d ∈ x.2.spans, x.1 + d ≤ now + Span.day := by
      intro x hx d hd
      exact Nat.add_le_add (hes x hx).2 ((hes x hx).1.span_le hd)
    refine ⟨?_, hsum⟩
    intro t ht
    rcases Limits.endsAt_run ht with ht | ⟨x, hx, d, hd, rfl⟩
    · exact absurd ht (Limits.not_endsAt_ofLimit limit)
    · exact ⟨hsum x hx d hd, x, hx, d, hd, rfl⟩
  · intro x₀ x fresh reached
    exact reached.closesShortly fresh.closesShortly
  · intro x i c till r hc flying due on refused
    obtain ⟨y, hy, hrests⟩ := rests_after_refusal hc flying due on refused
    exact ⟨y, _, hy, hrests, Limit.refusalWait_le _⟩

/-- A refusal for the whole account from which no wait can be read holds it back for a second, and the call that
it meets rests. -/
theorem refusal_without_a_wait_closes_for_a_second :
    let body : Json := .record [("message", .text "slow down"), ("retry_after", .text "soon")]
    let r : Http.Response := ⟨.tooManyRequests, [⟨"x-ratelimit-global", "true"⟩, ⟨"retry-after", "later"⟩],
      body.write.toUTF8⟩
    let es : List (Instant × Event) := [(0, .arrive 1 (.route ⟨.get, "guilds/1"⟩ .all)),
      (5, .refuse 1 (.ofHeaders 0 r.headers) (Refusal.ofBody? r.body))]
    let account : Account := ⟨"https://discord.com/api/v10", "Bot token", 50, .never⟩
    let x₀ : Session := { epoch := 0, client := .ofAccount account [], replies := [], boundary := "line" }
    let x : Session := { x₀ with
      calls := [⟨.getUser ⟨7⟩, none, .inFlight 0 (some r), default, default, none, false, {}⟩] }
    ((Limits.ofLimit 50).run es).EndsAt (5 + Span.second) ∧ 5 + Span.second ≤ 5 + Span.day ∧
      (∀ t, (x₀.start (.getUser ⟨7⟩) 0 none).run.client.limits.EndsAt t →
        t ≤ (x₀.start (.getUser ⟨7⟩) 0 none).run.now + Span.day) ∧
      ∃ y delay, x.stepCall 0 = some y ∧ y.calls[0]?.map Call.stage = some (.resting (x.now + delay)) ∧
        delay ≤ Span.day := by
  intro body r es account x₀ x
  obtain ⟨events, sessions, calls⟩ := responses_close_for_a_day_at_most
  have hbody : Refusal.ofBody? r.body = none := by
    have hwhole : body.IsWhole := by simp [body, Json.IsWhole, Json.MembersWhole]
    have hread : Refusal.record.codec.readText body.write.toUTF8 = _ :=
      Json.Codec.readText_write Refusal.record.codec hwhole
    unfold Refusal.ofBody?
    rw [hread]
    rfl
  have hblocked : ((Limits.ofLimit 50).run es).ceiling.blockedUntil = some (5 + Span.second) := by
    simp only [es, hbody]
    decide +kernel
  have hends : ((Limits.ofLimit 50).run es).EndsAt (5 + Span.second) := .inr (.inr hblocked)
  have hread : ∀ e ∈ es, e.2.IsRead ∧ e.1 ≤ 5 := by
    intro e he
    simp only [es, List.mem_cons, List.not_mem_nil, or_false] at he
    rcases he with rfl | rfl
    · exact ⟨trivial, by decide⟩
    · exact ⟨⟨⟨0, _, rfl⟩, _, rfl⟩, Nat.le_refl 5⟩
  have hfresh : x₀.IsFresh := ⟨rfl, 50, rfl⟩
  have hreached : x₀.Leads (x₀.start (.getUser ⟨7⟩) 0 none).run :=
    .head (.start (.getUser ⟨7⟩) 0 none) (leads_run _)
  exact ⟨hends, ((events 50 es 5 hread).1 _ hends).1, sessions x₀ _ hfresh hreached,
    calls x 0 _ 0 r rfl rfl (Nat.le_refl 0) rfl rfl⟩

end ChatApi.Client.Session
