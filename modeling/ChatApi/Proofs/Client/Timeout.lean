import ChatApi.Proofs.Client.Ending
import ChatApi.Proofs.Client.Hurry

/-!
# A timeout only cuts a call off

A call under a timeout takes the steps of the same call without one until it has to wait past its deadline
(`Completes.hurried`). So it comes to the same if it is over by then, and is otherwise cut off at the
deadline, with the attempts behind it that it has made till then (`timeout_only_truncates`).
-/

namespace ChatApi

/-- The clock comes to a moment as it comes to the whole millisecond behind it. -/
theorem wholeMillis_le_iff {t now : Instant} (whole : 1000000 ∣ now) : wholeMillis t ≤ now ↔ t ≤ now := by
  unfold wholeMillis Instant at *
  omega

theorem dvd_wholeMillis (t : Instant) : 1000000 ∣ wholeMillis t := Nat.dvd_mul_left ..

theorem modify_concat {α : Type} (l : List α) (a : α) (f : α → α) :
    (l ++ [a]).modify l.length f = l ++ [f a] := by
  induction l with
  | nil => rfl
  | cons b l ih => simp [ih]

namespace Agenda

variable {τ : Type} [DecidableEq τ] {a : Agenda τ} {task : τ} {due deadline : Instant}

/-! ### An alarm beside that of a deadline -/

/-- The agenda of a task that waits for two alarms, of which one is the deadline. -/
structure Awaits (a : Agenda τ) (task : τ) (deadline due : Instant) : Prop where
  ready : a.ready = []
  alarms : a.alarms = [⟨deadline, task, .deadline⟩, ⟨due, task, .step⟩]

omit [DecidableEq τ] in
theorem Awaits.next? (h : a.Awaits task deadline due) : a.next? = some (min deadline due) := by
  rw [Agenda.next?, h.alarms]
  rfl

theorem Awaits.ring_of_lt (h : a.Awaits task deadline due) (hlt : due < deadline) :
    (a.ring due).pop? = some (task, ⟨max a.now due, [⟨deadline, task, .deadline⟩], []⟩) := by
  simp [Agenda.ring, Agenda.pop?, wakeAll, wake, h.ready, h.alarms, Nat.not_le.2 hlt]

theorem Awaits.ring_of_eq (h : a.Awaits task deadline due) (heq : due = deadline) :
    (a.ring due).pop? = some (task, ⟨max a.now due, [], []⟩) := by
  simp [Agenda.ring, Agenda.pop?, wakeAll, wake, h.ready, h.alarms, heq]

theorem Awaits.ring_of_gt (h : a.Awaits task deadline due) (hlt : deadline < due) :
    (a.ring deadline).pop? = some (task, ⟨max a.now deadline, [⟨due, task, .step⟩], []⟩) := by
  simp [Agenda.ring, Agenda.pop?, wakeAll, wake, h.ready, h.alarms, Nat.not_le.2 hlt]

end Agenda

namespace Client.Session

variable {request : Request} {i k n : Nat} {p : Patience} {expiry : Instant} {x y z : Session} {c d : Call}

theorem all_over_hurried (x : Session) (i : Nat) (p : Patience) :
    (x.hurried i p).calls.all Call.isOver = x.calls.all Call.isOver := by
  show (x.calls.modify i (Call.hurried p)).all Call.isOver = _
  induction x.calls generalizing i with
  | nil => simp
  | cons c calls ih =>
    cases i with
    | zero => rfl
    | succ i => rw [List.modify_succ_cons, List.all_cons, List.all_cons, ih]

theorem ends_hurried {moment : Instant} {result : Except ApiError Answer} {cache : Cache} :
    (x.hurried i p).Ends i moment result cache ↔ x.Ends i moment result cache := by
  unfold Ends hurried
  dsimp only
  rw [List.getElem?_modify_eq]
  cases x.calls[i]? <;> rfl

theorem stepsLeft_hurried (x : Session) (i : Nat) (p : Patience) : (x.hurried i p).stepsLeft = x.stepsLeft := by
  simp only [stepsLeft, attemptsLeft, hurried, List.length_modify]

/-- The patience of a caller lasts until it expires, and an alarm is set for that as long as it does. -/
structure Lasts (x : Session) (i : Nat) (p : Patience) (expiry : Instant) : Prop where
  own : p.IsOf i
  inTime : x.now ≤ expiry
  late : p.till ≤ x.now ↔ x.now = expiry
  alarm : x.now < expiry → expiry = wholeMillis p.till ∧ p.alarms = [⟨expiry, .call i, .deadline⟩]

theorem Lasts.congr (h : x.Lasts i p expiry) (hnow : y.now = x.now) : y.Lasts i p expiry :=
  ⟨h.own, hnow ▸ h.inTime, by rw [hnow]; exact h.late, hnow ▸ h.alarm⟩

/-- What a session comes to as call `i` expires, compared to what it comes to without that: the same if the
call is over by then, or a call out of time, which has sent what it would have sent anyway till then. -/
inductive Truncates (i : Nat) (expiry : Instant) (x z w : Session) : Prop
  | inTime {moment : Instant} {result : Except ApiError Answer} {cache : Cache}
      (ends : z.Ends i moment result cache) (early : moment ≤ expiry)
      (same : w.Ends i moment result cache) (sent : w.sent = z.sent) (client : w.client = z.client)
  | late {moment : Instant} {result : Except ApiError Answer} {cache kept : Cache} (before after : List Sent)
      (ends : z.Ends i moment result cache) (late : expiry < moment)
      (timedOut : w.Ends i expiry (.error .timedOut) kept)
      (sent : z.sent = x.sent ++ before ++ after) (made : w.sent = x.sent ++ before)
      (begun : ∀ s ∈ before, s.moment ≤ expiry) (unmade : ∀ s ∈ after, expiry < s.moment)

/-- What is sent earlier is sent in either case. -/
theorem Truncates.prepend {w : Session} (h : Truncates i expiry y z w) (sent : List Sent)
    (hsent : y.sent = x.sent ++ sent) (begun : ∀ s ∈ sent, s.moment ≤ expiry) : Truncates i expiry x z w := by
  cases h with
  | inTime ends early same sent client => exact .inTime ends early same sent client
  | late before after ends late timedOut hz hw begun' unmade =>
    refine .late (sent ++ before) after ends late timedOut ?_ ?_ ?_ unmade
    · rw [hz, hsent, List.append_assoc x.sent]
    · rw [hw, hsent, List.append_assoc]
    · intro s hs
      exact (List.mem_append.1 hs).elim (begun s) (begun' s)

theorem Alone.clockAt (h : Alone request i x c) (now : Instant) : Alone request i (x.clockAt now) c :=
  ⟨h.call, h.endpoint, h.wanted, h.untimed, h.request, h.begun, ⟨h.agenda.ready, h.agenda.alarms⟩, h.others⟩

/-- A call that would have to wait past its deadline is out of time. -/
theorem Alone.gives_up (h : Alone request i x c) (own : p.IsOf i) (on : c.isOver = false)
    (stuck : x.advanceCall i c = none) (late : p.till ≤ x.now) :
    ∃ w kept, Completes i 1 (x.hurried i p) w ∧ w.sent = x.sent ∧ w.Ends i x.now (.error .timedOut) kept := by
  have hi : i < x.calls.length := (List.getElem?_eq_some_iff.1 h.call).1
  have hstep : (x.hurried i p).stepCall i = some ((x.finish i c (.error .timedOut)).hurried i p) := by
    rw [stepCall_hurried own h.call on h.wanted h.endpoint h.begun, stuck]
    exact if_pos late
  have hb := became_finish x i c (.error .timedOut)
  have hcall : (x.finish i c (.error .timedOut)).calls[i]? = some (c.over x (.error .timedOut) x.client.cache) := by
    rw [hb.calls, List.getElem?_set_self hi]
  have hover : (x.finish i c (.error .timedOut)).calls.all Call.isOver = true :=
    all_isOver hcall fun j d hj hd => by
      rw [hb.calls, List.getElem?_set_ne (Ne.symm hj)] at hd
      exact h.others j d hj hd
  refine ⟨_, x.client.cache, .step hstep (.ended ((all_over_hurried ..).trans hover)), ?_, ?_⟩
  · exact hb.sent.trans (List.append_nil _)
  · exact ends_hurried.2 (by rw [Ends, hcall]; rfl)

/-- The alarms of a call that waits, as long as its caller's patience lasts. -/
theorem Alone.awaits {till : Instant} (h : Alone request i x c) (on : c.isOver = false)
    (dozes : x.Dozes i c till) (alarms : p.alarms = [⟨expiry, .call i, .deadline⟩]) :
    (x.hurried i p).agenda.Awaits (.call i) expiry (wholeMillis till) := by
  refine ⟨h.agenda.ready, ?_⟩
  show (if x.calls[i]?.any Call.isOver then [] else p.alarms) ++ x.agenda.alarms = _
  rw [On.any_isOver ⟨c, h.call, on⟩, dozes.alarms, alarms]
  rfl

/-- A session under a timeout, with the alarm of call `i` gone off. -/
theorem hurried_awake (h : Alone request i x c) (on : c.isOver = false) (now : Instant) (q : Patience)
    (same : q.time = p.time ∧ q.till = p.till) (left : List (Alarm Task)) :
    ({ x.hurried i p with agenda := ⟨now, q.alarms ++ left, []⟩ } : Session) =
      ({ x with agenda := ⟨now, left, []⟩ } : Session).hurried i q := by
  have hcall : Call.hurried q = Call.hurried p := by
    funext c
    rw [Call.hurried, Call.hurried, same.1, same.2]
  unfold hurried
  rw [hcall, On.any_isOver ⟨c, h.call, on⟩]
  rfl

/-- A call that waits for a moment until which its caller's patience lasts is woken as it is without. -/
theorem Alone.wakes {till : Instant} (h : Alone request i x c) (dozes : x.Dozes i c till)
    (lasts : x.Lasts i p expiry) (on : c.isOver = false) (hle : wholeMillis till ≤ expiry) :
    ∃ q, (x.awake (wholeMillis till)).Lasts i q expiry ∧
      (x.hurried i p).agenda.next? = some (wholeMillis till) ∧
      ∃ agenda, ((x.hurried i p).agenda.ring (wholeMillis till)).pop? = some (.call i, agenda) ∧
        ({ x.hurried i p with agenda } : Session) = (x.awake (wholeMillis till)).hurried i q := by
  have hdue : x.now < wholeMillis till := Nat.lt_of_lt_of_le dozes.early (le_wholeMillis till)
  obtain ⟨hexpiry, alarms⟩ := lasts.alarm (Nat.lt_of_lt_of_le hdue hle)
  have hnow : (x.awake (wholeMillis till)).now = wholeMillis till := Nat.max_eq_right (Nat.le_of_lt hdue)
  have awaits := h.awaits on dozes alarms
  have late : p.till ≤ wholeMillis till ↔ wholeMillis till = expiry := by
    rw [← wholeMillis_le_iff (dvd_wholeMillis till), ← hexpiry]
    exact ⟨fun h => Nat.le_antisymm hle h, fun h => Nat.le_of_eq h.symm⟩
  have next : (x.hurried i p).agenda.next? = some (wholeMillis till) := by
    rw [awaits.next?, Nat.min_eq_right hle]
  rcases Nat.lt_or_eq_of_le hle with hlt | heq
  · refine ⟨p, ⟨lasts.own, by rw [hnow]; exact hle, by rw [hnow]; exact late, fun _ => ⟨hexpiry, alarms⟩⟩, next, _,
      awaits.ring_of_lt hlt, ?_⟩
    have := hurried_awake h on (max x.now (wholeMillis till)) p ⟨rfl, rfl⟩ []
    rw [alarms] at this
    exact this
  · have past : ¬ (x.awake (wholeMillis till)).now < expiry := by
      rw [hnow, heq]
      exact Nat.lt_irrefl _
    refine ⟨{ p with alarms := [] }, ⟨fun _ ha => (List.not_mem_nil ha).elim, by rw [hnow]; exact hle,
      by rw [hnow]; exact late, fun hlt => absurd hlt past⟩, next, _, awaits.ring_of_eq heq, ?_⟩
    exact hurried_awake h on (max x.now (wholeMillis till)) { p with alarms := [] } ⟨rfl, rfl⟩ []

/-- A call that waits for a moment behind the end of its caller's patience is woken for that end. -/
theorem Alone.expires {till : Instant} (h : Alone request i x c) (dozes : x.Dozes i c till)
    (lasts : x.Lasts i p expiry) (on : c.isOver = false) (hlt : x.now < expiry) (hle : expiry < wholeMillis till) :
    (x.hurried i p).agenda.next? = some expiry ∧
      ∃ agenda, ((x.hurried i p).agenda.ring expiry).pop? = some (.call i, agenda) ∧
        ({ x.hurried i p with agenda } : Session) = (x.clockAt expiry).hurried i { p with alarms := [] } := by
  obtain ⟨hexpiry, alarms⟩ := lasts.alarm hlt
  have awaits := h.awaits on dozes alarms
  refine ⟨by rw [awaits.next?, Nat.min_eq_left (Nat.le_of_lt hle)], _, awaits.ring_of_gt hle, ?_⟩
  have hclock : x.clockAt expiry =
      { x with agenda := ⟨max x.now expiry, [⟨wholeMillis till, .call i, .step⟩], []⟩ } := by
    rw [Session.clockAt, Nat.max_eq_right (Nat.le_of_lt hlt), ← dozes.alarms, ← h.agenda.ready]
  rw [hclock]
  exact hurried_awake h on (max x.now expiry) { p with alarms := [] } ⟨rfl, rfl⟩ _

theorem Completes.pos (h : Completes i k x z) (on : x.calls.all Call.isOver = false) : 1 ≤ k := by
  cases h with
  | ended idle => rw [on] at idle; cases idle
  | step _ _ | sleep _ _ _ _ _ _ _ => omega

/-- Where a call waits past the end of its caller's patience, whatever it comes to it comes to later. -/
theorem Completes.truncates_late {till : Instant} {w : Session} {kept : Cache} (h : Alone request i x c)
    (on : c.isOver = false) (hz : Completes i k (x.awake (wholeMillis till)) z) (hlt : expiry < wholeMillis till)
    (hsent : w.sent = x.sent) (timedOut : w.Ends i expiry (.error .timedOut) kept) :
    Truncates i expiry x z w := by
  have later : expiry < (x.awake (wholeMillis till)).now := Nat.lt_of_lt_of_le hlt (Nat.le_max_right _ _)
  obtain ⟨moment, result, cache, ends⟩ := hz.ends (List.getElem?_eq_some_iff.1 h.call).1
  obtain ⟨after, hafter, unmade⟩ := hz.sends_later
  have on' : ¬ (x.awake (wholeMillis till)).Ends i moment result cache := by
    intro he
    have hstage : c.stage = .ended moment result cache := by
      rw [Ends, show (x.awake (wholeMillis till)).calls[i]? = some c from h.call] at he
      exact Option.some.inj he
    rw [Call.isOver, hstage] at on
    cases on
  refine .late [] after ends (Nat.lt_of_lt_of_le later ((hz.ends_later ends).resolve_left on')) timedOut
    ?_ (hsent.trans (List.append_nil _).symm) (by simp) fun s hs => Nat.lt_of_lt_of_le later (unmade s hs)
  rw [hafter, List.append_nil]
  rfl

/-- A call under a timeout comes to what it comes to without one, or is cut off as its caller's patience
expires. -/
theorem Completes.hurried (hz : Completes i k x z) (h : Alone request i x c) (hp : x.Poised i c n)
    (lasts : x.Lasts i p expiry)
    (past : ∀ moment result cache, c.stage = .ended moment result cache → moment ≤ x.now) :
    ∃ k' w, k' ≤ k ∧ Completes i k' (x.hurried i p) w ∧ Truncates i expiry x z w := by
  induction hz generalizing c n p with
  | @ended k x idle =>
    have hover : c.isOver = true := h.all_over.symm.trans idle
    cases hs : c.stage with
    | ended moment result cache =>
      have ends : x.Ends i moment result cache := by
        rw [Ends, h.call, ← hs]
        rfl
      exact ⟨k, _, Nat.le_refl _, .ended ((all_over_hurried x i p).trans idle),
        .inTime ends (Nat.le_trans (past _ _ _ hs) lasts.inTime) (ends_hurried.2 ends) rfl rfl⟩
    | due _ | asking | waiting | inFlight _ _ | resting _ =>
      rw [Call.isOver, hs] at hover
      cases hover
  | @step k x y z goes rest ih =>
    obtain ⟨c', d, sent, hc, on, moves, hb⟩ := moves_of_stepCall goes
    cases h.call.symm.trans hc
    rcases h.step hp with hover | ⟨stuck, -⟩ | ⟨y', d', m, hy, h', hp', -⟩
    · rw [on] at hover
      cases hover
    · rw [goes] at stuck
      cases stuck
    · cases goes.symm.trans hy
      obtain rfl : d = d' := by
        have hd := h'.call
        rw [hb.calls, List.getElem?_set_self (List.getElem?_eq_some_iff.1 hc).1] at hd
        exact Option.some.inj hd
      have hstep : (x.hurried i p).stepCall i = some (y.hurried i p) := by
        rw [stepCall_hurried lasts.own h.call on h.wanted h.endpoint h.begun,
          ← stepCall_eq h.call on h.wanted h.untimed, goes]
      obtain ⟨k', w, hk, hw, htrunc⟩ := ih h' hp' (lasts.congr hb.alike.now) fun _ _ _ hs =>
        Nat.le_of_eq ((moves.ended_now hs).trans hb.alike.now.symm)
      exact ⟨k' + 1, w, Nat.succ_le_succ hk, .step hstep hw, htrunc.prepend sent hb.sent fun s hs =>
        moves.sent_now s hs ▸ lasts.inTime⟩
  | @sleep k x z due agenda hon stuck ready next woken enough rest ih =>
    have on : c.isOver = false := h.all_over.symm.trans hon
    rcases h.step hp with hover | ⟨-, till, dozes⟩ | ⟨y, _, _, hy, -⟩
    · rw [on] at hover
      cases hover
    · -- there is only one alarm that can wake the call
      obtain ⟨next', woken'⟩ := next?_of_alarm h.agenda.ready dozes.alarms
      cases next.symm.trans next'
      cases woken.symm.trans woken'
      have hz : Completes i k (x.awake (wholeMillis till)) z := rest
      have waits : x.advanceCall i c = none := dozes.stuck x.now dozes.early
      by_cases late : p.till ≤ x.now
      · obtain ⟨w, kept, hw, hsent, timedOut⟩ := h.gives_up lasts.own on waits late
        have hnow := lasts.late.1 late
        rw [hnow] at timedOut
        exact ⟨1, w, by omega, hw, hz.truncates_late h on
          (hnow ▸ Nat.lt_of_lt_of_le dozes.early (le_wholeMillis till)) hsent timedOut⟩
      have hlt : x.now < expiry := Nat.lt_of_le_of_ne lasts.inTime fun he => late (lasts.late.2 he)
      have stuck' : (x.hurried i p).stepCall i = none := by
        rw [stepCall_hurried lasts.own h.call on h.wanted h.endpoint h.begun, waits]
        exact if_neg late
      have hon' := (all_over_hurried x i p).trans hon
      rcases Nat.lt_or_ge expiry (wholeMillis till) with hgt | hle
      · obtain ⟨hnext, agenda, hwoken, hagenda⟩ := h.expires dozes lasts on hlt hgt
        have expired : p.till ≤ expiry := (lasts.alarm hlt).1 ▸ le_wholeMillis p.till
        have early : expiry < till := by
          refine Nat.lt_of_not_le fun hle => Nat.not_le.2 hgt ((wholeMillis_le_iff ?_).2 hle)
          exact (lasts.alarm hlt).1 ▸ dvd_wholeMillis p.till
        obtain ⟨w, kept, hw, hsent, timedOut⟩ := (h.clockAt expiry).gives_up (p := { p with alarms := [] })
          (fun _ ha => (List.not_mem_nil ha).elim) on (dozes.stuck expiry early) expired
        have hpos := hz.pos hon
        refine ⟨3, w, by omega, .sleep hon' stuck' h.agenda.ready hnext hwoken ?_ (hagenda ▸ hw),
          hz.truncates_late h on hgt hsent timedOut⟩
        rw [stepsLeft_hurried]
        omega
      · obtain ⟨q, lasts', hnext, agenda, hwoken, hagenda⟩ := h.wakes dozes lasts on hle
        obtain ⟨h', hp', -⟩ := h.awake on hp dozes
        obtain ⟨k', w, hk, hw, htrunc⟩ := ih h' hp' lasts' fun moment result cache hs =>
          Nat.le_trans (past moment result cache hs) (Nat.le_max_left _ _)
        refine ⟨k' + 2, w, by omega, .sleep hon' stuck' h.agenda.ready hnext hwoken ?_ (hagenda ▸ hw),
          htrunc.prepend [] (List.append_nil _).symm (by simp)⟩
        rw [stepsLeft_hurried]
        exact Nat.le_trans hk enough
    · rw [stuck] at hy
      cases hy

/-! ### From the beginning -/

/-- When the patience of a caller who waits for a time expires: as the clock comes to its end, or at once. -/
def expiryOf (x : Session) (time : Span) : Instant := if time = 0 then x.now else wholeMillis (x.now + time)

/-- Patience expires less than a millisecond late, and in time if its end is a whole millisecond. -/
theorem expiryOf_spec (x : Session) (time : Span) : x.now + time ≤ x.expiryOf time ∧
    x.expiryOf time < x.now + time + 1000000 ∧ (1000000 ∣ x.now + time → x.expiryOf time = x.now + time) := by
  unfold expiryOf wholeMillis Instant Span at *
  split <;> omega

/-- The patience of a caller who waits for a time from now on. -/
def patienceFor (x : Session) (i : Nat) (time : Span) : Patience :=
  ⟨time, x.now + time, [⟨wholeMillis (x.now + time), .call i, .deadline⟩]⟩

theorem lasts_patienceFor (x : Session) (i : Nat) (time : Span) :
    x.Lasts i (x.patienceFor i time) (x.expiryOf time) := by
  have own : (x.patienceFor i time).IsOf i := fun a ha => by
    rw [List.mem_singleton.1 ha]
    exact ⟨rfl, rfl⟩
  by_cases htime : time = 0
  · have hexpiry : x.expiryOf time = x.now := if_pos htime
    rw [hexpiry]
    exact ⟨own, Nat.le_refl _, by rw [htime]; simp [patienceFor], fun hlt => absurd hlt (Nat.lt_irrefl _)⟩
  · have hexpiry : x.expiryOf time = wholeMillis (x.now + time) := if_neg htime
    have hlt : x.now < x.now + time := Nat.lt_add_of_pos_right (Nat.pos_of_ne_zero htime)
    have hlater : x.now < x.expiryOf time := hexpiry ▸ Nat.lt_of_lt_of_le hlt (le_wholeMillis _)
    refine ⟨own, Nat.le_of_lt hlater, ?_, fun _ => ⟨hexpiry, by rw [hexpiry]; rfl⟩⟩
    exact ⟨fun h => absurd h (Nat.not_le.2 hlt), fun h => absurd h (Nat.ne_of_lt hlater)⟩

theorem begin_of_timed {key : Limit.RouteKey} {time : Span} (uncancelled : c.cancelAfter = none)
    (made : c.endpoint.request = .ok request)
    (resolved : Limit.RouteKey.resolve request.method request.route = .ok key)
    (timed : request.timeout = some time) :
    x.begin i c = ({ x with agenda := x.agenda.set (.call i) .deadline (x.now + time) } : Session).setCall i
      { c with request, key, deadline := some (x.now + time), stage := .asking } := by
  unfold begin
  simp only [uncancelled, made, resolved, timed, Option.map_some]

theorem begin_of_misrouted {fault : Limit.RouteError} (uncancelled : c.cancelAfter = none)
    (made : c.endpoint.request = .ok request)
    (misrouted : Limit.RouteKey.resolve request.method request.route = .error fault) :
    x.begin i c = x.finish i c (.error (.badRoute fault)) := by
  unfold begin
  simp only [uncancelled, made, misrouted]

/-- The call that was just started begins. -/
theorem stepCall_opened (x : Session) (request : Request) :
    (x.opened request).stepCall x.calls.length = some ((x.opened request).begin x.calls.length
      { endpoint := .raw request, cancelAfter := none, stage := .due (x.now + 0) }) := by
  have hcall : (x.opened request).calls[x.calls.length]? =
      some { endpoint := .raw request, cancelAfter := none, stage := .due (x.now + 0) } :=
    List.getElem?_concat_length
  rw [stepCall_eq hcall rfl rfl rfl]
  exact if_pos (Nat.le_refl _)

/-- A call whose route is none is over at once. -/
theorem Idle.misroutes {fault : Limit.RouteError} (idle : x.Idle) (request : Request)
    (misrouted : Limit.RouteKey.resolve request.method request.route = .error fault) :
    ∃ z, Completes x.calls.length 1 (x.opened request) z ∧
      z.Ends x.calls.length x.now (.error (.badRoute fault)) x.client.cache ∧ z.sent = x.sent ∧
      z.client = (x.happen (.withdraw x.calls.length)).1.client := by
  have hstep := x.stepCall_opened request
  rw [begin_of_misrouted rfl rfl misrouted] at hstep
  have hb := became_finish (x.opened request) x.calls.length
    { endpoint := .raw request, cancelAfter := none, stage := .due (x.now + 0) } (.error (.badRoute fault))
  have hlength : x.calls.length < (x.opened request).calls.length := by
    show x.calls.length < (x.calls ++ [_]).length
    rw [List.length_append, List.length_singleton]
    exact Nat.lt_succ_self _
  have hcall := hb.calls ▸ List.getElem?_set_self hlength
  refine ⟨_, .step hstep (.ended (all_isOver hcall fun j d hj hd => ?_)), ?_, ?_, rfl⟩
  · rw [hb.calls, List.getElem?_set_ne (Ne.symm hj)] at hd
    exact idle.others request hj hd
  · rw [Ends, hcall]
    rfl
  · exact hb.sent.trans (List.append_nil _)

/-- A call whose route is one asks for its slots, under a timeout or not. -/
theorem Idle.begins {key : Limit.RouteKey} (idle : x.Idle) (untimed : request.timeout = none)
    (resolved : Limit.RouteKey.resolve request.method request.route = .ok key) :
    ∃ y c, (x.opened request).stepCall x.calls.length = some y ∧
      (∀ time, (x.opened (request.withTimeout time)).stepCall x.calls.length =
        some (y.hurried x.calls.length (x.patienceFor x.calls.length time))) ∧
      Alone request x.calls.length y c ∧ y.Poised x.calls.length c 4 ∧ c.stage = .asking ∧
      y.now = x.now ∧ y.sent = x.sent ∧ y.stepsLeft = (x.opened request).stepsLeft := by
  have hset (r : Request) (d : Call) : (x.opened r).calls.set x.calls.length d = x.calls ++ [d] := by
    show (x.calls ++ [_]).set x.calls.length d = _
    rw [List.set_append_right _ _ (Nat.le_refl _), Nat.sub_self]
    rfl
  have hstep := x.stepCall_opened request
  rw [begin_of_untimed rfl rfl resolved untimed] at hstep
  generalize hc : ({ endpoint := .raw request, cancelAfter := none, stage := .asking, request, key } : Call) = c
  have hstep : (x.opened request).stepCall x.calls.length = some ((x.opened request).setCall x.calls.length c) :=
    hc ▸ hstep
  have hcalls := hset request c
  have hcall : ((x.opened request).setCall x.calls.length c).calls[x.calls.length]? = some c :=
    (congrArg (·[x.calls.length]?) hcalls).trans List.getElem?_concat_length
  have stage : c.stage = .asking := by rw [← hc]
  let patience := x.patienceFor x.calls.length
  refine ⟨_, c, hstep, fun time => ?_, ⟨hcall, by rw [← hc], by rw [← hc], by rw [← hc], by rw [← hc],
    by simp [stage], ⟨idle.ready, ?_⟩, fun j d hj hd => ?_⟩, .asking stage idle.limits, stage, rfl, rfl, ?_⟩
  · have hstep' := x.stepCall_opened (request.withTimeout time)
    have resolved' : Limit.RouteKey.resolve (request.withTimeout time).method (request.withTimeout time).route =
        .ok key := resolved
    have timed : (request.withTimeout time).timeout = some time := rfl
    rw [begin_of_timed rfl rfl resolved' timed] at hstep'
    have hcalls' : (x.opened (request.withTimeout time)).calls.set x.calls.length (c.hurried (patience time)) =
        ((x.opened request).calls.set x.calls.length c).modify x.calls.length (Call.hurried (patience time)) := by
      rw [hset, hcalls, modify_concat]
    have hagenda : x.agenda.set (.call x.calls.length) .deadline (x.now + time) =
        x.agenda.withAlarms (patience time).alarms := by
      simp [Agenda.set, Agenda.unset, Agenda.withAlarms, idle.alarms, patience, patienceFor]
    have hon : ((x.opened request).setCall x.calls.length c).calls[x.calls.length]?.any Call.isOver = false := by
      rw [hcall, Option.any_some, Call.isOver, stage]
    rw [hstep', hurried, hon, setCall]
    subst hc
    exact congrArg₂ (fun calls agenda => some ({ x.opened request with calls, agenda } : Session)) hcalls' hagenda
  · rw [show ((x.opened request).setCall x.calls.length c).agenda.alarms = [] from idle.alarms]
    simp
  · rw [setCall, List.getElem?_set_ne (Ne.symm hj)] at hd
    exact idle.others request hj hd
  · simp only [stepsLeft, attemptsLeft, setCall, List.length_set]

/-- What a session completes to when its only call was just started is what it runs to. -/
theorem Idle.run_eq (idle : x.Idle) (hz : Completes x.calls.length k (x.opened request) z)
    (hk : k + 1 ≤ (x.opened request).stepsLeft) : (x.start (.raw request) 0 none).run = z := by
  obtain ⟨fuel, hfuel, hrun⟩ := idle.run_start request
  rw [hrun]
  exact hz.runs (by omega) (by omega)

/-- Where no other call goes on, a timeout only cuts a call off: a call that is over by the time its
caller's patience expires ends in the same way, at the same moment, with the same attempts behind it, and
leaves the client the same. Any other is out of time as the patience expires; it has made the attempts that
it would have made by then, and makes none after that. Patience expires less than a millisecond late, and
just in time if its end is a whole millisecond. -/
theorem timeout_only_truncates (idle : x.Idle) (untimed : request.timeout = none) (time : Span) :
    let u := (x.start (.raw request) 0 none).run
    let v := (x.start (.raw (request.withTimeout time)) 0 none).run
    (x.now + time ≤ x.expiryOf time ∧ x.expiryOf time < x.now + time + 1000000 ∧
      (1000000 ∣ x.now + time → x.expiryOf time = x.now + time)) ∧
    ∃ moment result cache, u.Ends x.calls.length moment result cache ∧
      (moment ≤ x.expiryOf time →
        v.Ends x.calls.length moment result cache ∧ v.sent = u.sent ∧ v.client = u.client) ∧
      (x.expiryOf time < moment →
        (∃ kept, v.Ends x.calls.length (x.expiryOf time) (.error .timedOut) kept) ∧
        ∃ before after, u.sent = x.sent ++ before ++ after ∧ v.sent = x.sent ++ before ∧
          (∀ s ∈ before, s.moment ≤ x.expiryOf time) ∧ ∀ s ∈ after, x.expiryOf time < s.moment) := by
  intro u v
  refine ⟨x.expiryOf_spec time, ?_⟩
  have hsteps : (x.opened (request.withTimeout time)).stepsLeft = (x.opened request).stepsLeft := by
    simp [stepsLeft, attemptsLeft, opened, start]
  cases hr : Limit.RouteKey.resolve request.method request.route with
  | error fault =>
    obtain ⟨z, hz, ends, sent, client⟩ := idle.misroutes request hr
    obtain ⟨w, hw, ends', sent', client'⟩ := idle.misroutes (request.withTimeout time) hr
    obtain rfl : u = z := idle.run_eq hz (by unfold stepsLeft; omega)
    obtain rfl : v = w := idle.run_eq hw (by unfold stepsLeft; omega)
    have intime := (x.lasts_patienceFor x.calls.length time).inTime
    exact ⟨_, _, _, ends, fun _ => ⟨ends', sent'.trans sent.symm, client'.trans client.symm⟩,
      fun late => absurd intime (Nat.not_le.2 late)⟩
  | ok key =>
    obtain ⟨y, c, hy, hw, alone, hp, stage, hnow, hsent, hleft⟩ := idle.begins untimed hr
    obtain ⟨k, z, hk, hz⟩ := alone.completes hp
    obtain ⟨k', w, hk', hw', htrunc⟩ := hz.hurried alone hp ((x.lasts_patienceFor _ time).congr hnow)
      fun _ _ _ hs => by rw [stage] at hs; cases hs
    have hahead := alone.ahead_le hp.bounds.2
    obtain rfl : u = z := idle.run_eq (.step hy hz) (by omega)
    obtain rfl : v = w := idle.run_eq (.step (hw time) hw') (by omega)
    cases htrunc with
    | inTime ends early same sent client =>
      exact ⟨_, _, _, ends, fun _ => ⟨same, sent, client⟩, fun late => absurd early (Nat.not_le.2 late)⟩
    | late before after ends late timedOut sent made begun unmade =>
      refine ⟨_, _, _, ends, fun early => absurd early (Nat.not_le.2 late), fun _ =>
        ⟨⟨_, timedOut⟩, before, after, ?_, ?_, begun, unmade⟩⟩
      · rw [sent, hsent]
      · rw [made, hsent]

/-- When a call ended, if it did. -/
def endedAt? (c : Call) : Option Instant :=
  match c.stage with
  | .ended moment _ _ => some moment
  | _ => none

/-- A reply that takes five milliseconds is waited for by a caller who has ten, and not by one who has
two. -/
theorem slow_reply_waited_for_in_time :
    let account : Account := ⟨"https://discord.com/api/v10", "Bot token", 50, ⟨1, 0, 0⟩⟩
    let success : Http.Response := ⟨.ok, [], .empty⟩
    let x : Session := {
      epoch := 0
      client := .ofAccount account []
      replies := [("GET /api/v10/users/@me", [⟨5000000, some success⟩])]
      boundary := "line" }
    let within (time : Span) := (x.start (.raw ((Request.direct .get "users/@me").withTimeout time)) 0 none).run
    (∃ result cache, (within 10000000).Ends 0 5000000 result cache) ∧
      (∃ cache, (within 2000000).Ends 0 2000000 (.error .timedOut) cache) ∧ (within 2000000).sent.length = 1 := by
  intro account success x within
  let u := (x.start (.raw (.direct .get "users/@me")) 0 none).run
  have idle : x.Idle := ⟨Limit.Limits.vacant_ofLimit 50, rfl, rfl, by simp [x]⟩
  have hmoment : u.calls[0]?.bind endedAt? = some 5000000 := by decide +kernel
  have hsent : u.sent.map Sent.moment = [0] := by decide +kernel
  have moment_eq {moment : Instant} {result : Except ApiError Answer} {cache : Cache}
      (ends : u.Ends 0 moment result cache) : moment = 5000000 := by
    obtain ⟨c, hc, hs⟩ := Option.map_eq_some_iff.1 ends
    rw [hc, Option.bind_some, endedAt?, hs] at hmoment
    exact Option.some.inj hmoment
  have untimed : (Request.direct .get "users/@me").timeout = none := rfl
  obtain ⟨-, moment, result, cache, ends, early, -⟩ := timeout_only_truncates idle untimed 10000000
  obtain ⟨⟨-, -, whole⟩, moment', result', cache', ends', -, late⟩ :=
    timeout_only_truncates idle untimed 2000000
  obtain rfl := moment_eq ends
  obtain rfl := moment_eq ends'
  obtain ⟨⟨kept, timedOut⟩, before, after, hu, hv, -, unmade⟩ := late (by decide)
  have hexpiry : x.expiryOf 2000000 = 2000000 := (whole (by decide)).trans (Nat.zero_add _)
  rw [hexpiry] at timedOut
  refine ⟨⟨result, cache, (early (by decide)).1⟩, ⟨kept, timedOut⟩, ?_⟩
  -- the only attempt was made at the beginning
  have hnone : after = [] := by
    refine List.eq_nil_iff_forall_not_mem.2 fun s hs => ?_
    have hmem : s.moment ∈ u.sent.map Sent.moment := List.mem_map_of_mem (hu ▸ List.mem_append_right _ hs)
    rw [hsent, List.mem_singleton] at hmem
    exact Nat.not_lt_zero _ (hmem ▸ unmade s hs)
  have hsame : (within 2000000).sent = u.sent := by
    rw [hv, hu, hnone, List.append_nil]
  rw [hsame, ← List.length_map Sent.moment, hsent]
  rfl

end Client.Session

end ChatApi
