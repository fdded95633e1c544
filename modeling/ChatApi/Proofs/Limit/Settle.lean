import ChatApi.Limit.Session
import ChatApi.Proofs.Limit.Sleep
import ChatApi.Proofs.Time.Agenda

/-!
# Callers on a clock go on

Whoever sleeps looks again at a later moment (`asleep_step`), so alarms stay ahead of the clock
(`timely_settle`). Whoever goes on wakes another only as it leaves a gate (`weight_poll`); that is how
letting callers go on ends (`ready_settle`).
-/

namespace ChatApi.Limit

namespace Limits

variable {s : Limits} {now till : Instant} {e : Event} {p : Pending} {c : Caller} {i : Nat}

/-! ### Until when callers sleep -/

theorem asleep_arrive {wanted : Wanted} (h : (s.arrive now c wanted).2 = .asleep till) : now < till := by
  obtain ⟨g, hfalls⟩ := falls_arrive h
  exact hfalls.later

/-- Whoever falls asleep looks again later. -/
theorem asleep_step (h : (s.step now e).2 = .asleep till) : now < till := by
  obtain ⟨c, g, -, hfalls⟩ := falls_step h
  exact hfalls.later

/-! ### Who is woken -/

theorem woken_poll {b : Bucket} (h : (b.poll now c).2 ≠ .granted) : (b.poll now c).1.2 = none := by
  unfold Bucket.poll at h ⊢
  cases hu : b.gate.isUp c now with
  | false => rfl
  | true =>
    cases hr : b.window.reserve now with
    | mk window slot =>
      cases slot with
      | wait till => rfl
      | proceed isProbe => cases isProbe <;> simp [hu, hr] at h

/-- The turns that are still to be had: those that were given, and one for each gate that a caller who waits
is to leave. -/
def weight (s : Limits) : Nat :=
  s.woken.length + s.pending.length + s.pending.countP (·.stage = .ceiling)

/-- A gate gives a turn to one caller at most. -/
theorem weight_wake_le (s : Limits) (c : Option Caller) : (s.wake c).weight ≤ s.weight + 1 := by
  have hone : c.toList.length ≤ 1 := by cases c <;> simp
  simp only [weight, wake, List.length_append]
  omega

/-- Who gets its ticket waits no more. -/
theorem weight_grant_lt (hp : ∃ q ∈ s.pending, q.caller = p.caller) (bucket : Option Nat) :
    (s.grant p bucket).weight < s.weight := by
  obtain ⟨q, hq, hc⟩ := hp
  have hleft : (s.pending.filter (·.caller ≠ p.caller)).length < s.pending.length :=
    List.length_filter_lt_length_iff_exists.2 ⟨q, hq, by simp [hc]⟩
  have hfewer : (s.pending.filter (·.caller ≠ p.caller)).countP (·.stage = .ceiling) ≤
      s.pending.countP (·.stage = .ceiling) := List.filter_sublist.countP_le
  simp only [weight, grant]
  omega

theorem weight_pollBucket (hp : ∃ q ∈ s.pending, q.caller = p.caller) (now : Instant) (i : Nat) :
    (s.pollBucket now p i).1.weight ≤ s.weight := by
  cases hb : s.buckets[i]? with
  | none => simp [pollBucket, hb]
  | some b =>
    rw [pollBucket_of_some hb, changeBucket_of_some hb]
    by_cases hg : (b.poll now p.caller).2 = .granted
    · -- one less waits, and at most one is woken
      rw [if_pos hg]
      have hwake := weight_wake_le { s with buckets := s.buckets.set i (b.poll now p.caller).1.1 }
        (b.poll now p.caller).1.2
      exact Nat.le_of_lt_succ (Nat.lt_of_lt_of_le (weight_grant_lt (by exact hp) _) hwake)
    · simp [hg, weight, wake, woken_poll hg]

/-- Getting in line gives nobody a turn. -/
theorem woken_lineUp (s : Limits) (p : Pending) (key : RouteKey) : (s.lineUp p key).2.woken = s.woken := by
  have hmade : (s.bucketFor key).2.woken = s.woken := by
    unfold bucketFor
    split <;> rfl
  refine Eq.trans ?_ hmade
  show ((s.bucketFor key).2.changeBucket _ _).woken = _
  unfold changeBucket
  split
  · rfl
  · exact List.append_nil _

/-- Who goes on from the gate of the account is to leave one gate less. -/
theorem weight_lineUp_lt (hp : p ∈ s.pending) (hs : p.stage = .ceiling) (key : RouteKey) :
    (s.lineUp p key).2.weight < s.weight := by
  have hle (l : List Pending) (i : Nat) :
      (l.map (·.goTo p.caller i)).countP (·.stage = .ceiling) ≤ l.countP (·.stage = .ceiling) := by
    rw [List.countP_map]
    refine List.countP_mono_left fun q _ hq => ?_
    simp only [Function.comp_apply, Pending.goTo] at hq
    split at hq
    · cases of_decide_eq_true hq
    · exact hq
  obtain ⟨before, after, hsplit⟩ := List.append_of_mem hp
  have hbefore := hle before (s.bucketFor key).1
  have hafter := hle after (s.bucketFor key).1
  obtain ⟨-, -, -, hpending⟩ := lineUp_frame s p key
  simp only [weight, woken_lineUp, hpending, hsplit, List.map_append, List.map_cons, List.countP_append,
    List.length_append, List.length_cons, List.length_map, List.countP_cons, hs, Pending.goTo] at *
  simp only [if_true, reduceCtorEq, decide_false, decide_true, Bool.false_eq_true, if_false] at *
  omega

theorem weight_pollCeiling (hp : p ∈ s.pending) (hs : p.stage = .ceiling) (now : Instant) :
    (s.pollCeiling now p).1.weight ≤ s.weight := by
  have hpassed : (s.passed now p.caller).weight ≤ s.weight + 1 :=
    weight_wake_le { s with ceiling := (s.ceiling.reserve now).1, ceilingGate := (s.ceilingGate.leave p.caller).1 }
      (s.ceilingGate.leave p.caller).2
  rcases pollCeiling_cases s now p with ho | ⟨-, ⟨till, -, ho⟩ | ⟨-, ⟨-, ho⟩ | ⟨key, scope, -, ho⟩⟩⟩
  · exact Nat.le_of_eq (by rw [ho])
  · exact Nat.le_of_eq (by rw [ho]; rfl)
  · have hlower := weight_grant_lt (s := s.passed now p.caller) (p := p) ⟨p, hp, rfl⟩ none
    rw [ho]
    exact Nat.le_of_lt_succ (Nat.lt_of_lt_of_le hlower hpassed)
  · have hmem : p ∈ (s.passed now p.caller).pending := hp
    obtain ⟨-, -, -, hpending⟩ := lineUp_frame (s.passed now p.caller) p key
    have hself : ∃ q ∈ ((s.passed now p.caller).lineUp p key).2.pending, q.caller = p.caller := by
      rw [hpending]
      exact ⟨_, List.mem_map_of_mem hmem, Pending.caller_goTo ..⟩
    have hpoll := weight_pollBucket hself now ((s.passed now p.caller).bucketFor key).1
    have hlower := weight_lineUp_lt hmem hs key
    rw [ho, enterBucket_eq]
    exact Nat.le_of_lt_succ (Nat.lt_of_lt_of_le (Nat.lt_of_le_of_lt hpoll hlower) hpassed)

/-- Who looks again gives others no more turns than it had. -/
theorem weight_poll (s : Limits) (now : Instant) (c : Caller) : (s.poll now c).1.weight ≤ s.weight := by
  unfold poll
  split
  · exact Nat.le_refl _
  · rename_i p hp
    have hmem := List.mem_of_find?_eq_some hp
    split
    · rename_i hs
      exact weight_pollCeiling hmem hs now
    · exact weight_pollBucket ⟨p, hmem, rfl⟩ now _

end Limits

/-! ### Sessions -/

namespace Session

variable {x : Session} {c : Caller} {wanted : Wanted} {e : Event} {turn : Turn} {due target : Instant}

/-- What a caller makes of the outcome of asking. -/
def heed (x : Session) (c : Caller) (wanted : Wanted) : Turn → Session
  | .granted => { x with agenda := x.agenda.unset c .step, grants := x.grants ++ [⟨c, x.now, wanted.key⟩] }
  | .asleep till => { x with agenda := x.agenda.set c .step till }
  | .queued => { x with agenda := x.agenda.unset c .step }
  | .unchanged => x

theorem ask_eq (x : Session) (c : Caller) (wanted : Wanted) (e : Event) :
    x.ask c wanted e = (x.withLimits (x.limits.step x.now e).1).heed c wanted (x.limits.step x.now e).2 := by
  unfold ask
  cases x.limits.step x.now e with
  | mk s turn => cases turn <;> rfl

/-- A response that names no caller, as a whole. -/
theorem recordBucket_eq (x : Session) (i : Nat) (headers : Http.Headers) :
    x.recordBucket i headers =
      (x.withLimits (x.limits.changeBucket i (·.record x.now (.ofHeaders x.calendarMillis headers)))).settle := by
  simp only [recordBucket, Limits.finish_record, Limits.finish_nil]

theorem exhaustBucket_eq (x : Session) (i : Nat) (wait : Span) :
    x.exhaustBucket i wait = (x.withLimits (x.limits.changeBucket i (·.exhaust x.now wait))).settle := by
  simp only [exhaustBucket, Limits.finish_exhaust, Limits.finish_nil]

theorem settleWith_of_nil (h : x.agenda.ready = []) (fuel : Nat) : settleWith fuel x = x := by
  cases fuel with
  | zero => rfl
  | succ fuel => simp [settleWith, Agenda.pop?, h]

/-- The session as the first of those that are ready goes on. -/
def popped (x : Session) (rest : List Caller) : Session := { x with agenda := { x.agenda with ready := rest } }

theorem settleWith_of_cons {rest : List Caller} (h : x.agenda.ready = c :: rest) (fuel : Nat) :
    settleWith (fuel + 1) x = settleWith fuel ((x.popped rest).poll c) := by
  simp [settleWith, Agenda.pop?, h, popped]

/-- What each caller that goes on leaves true holds when all have gone on. -/
theorem settleWith_induction {P : Session → Prop}
    (hgo : ∀ {x c rest}, x.agenda.ready = c :: rest → P x → P ((x.popped rest).poll c)) (h : P x) (fuel : Nat) :
    P (settleWith fuel x) := by
  induction fuel generalizing x with
  | zero => exact h
  | succ fuel ih =>
    cases hready : x.agenda.ready with
    | nil => rwa [settleWith_of_nil hready]
    | cons c rest =>
      rw [settleWith_of_cons hready]
      exact ih (hgo hready h)

/-! #### The clock -/

@[simp] theorem now_withLimits (x : Session) (s : Limits) : (x.withLimits s).now = x.now :=
  Agenda.now_wakeAll ..

@[simp] theorem now_popped (x : Session) (rest : List Caller) : (x.popped rest).now = x.now := rfl

@[simp] theorem now_heed (x : Session) (c : Caller) (wanted : Wanted) (turn : Turn) :
    (x.heed c wanted turn).now = x.now := by
  cases turn <;> rfl

@[simp] theorem now_ask (x : Session) (c : Caller) (wanted : Wanted) (e : Event) :
    (x.ask c wanted e).now = x.now := by
  rw [ask_eq, now_heed, now_withLimits]

@[simp] theorem now_poll (x : Session) (c : Caller) : (x.poll c).now = x.now := by
  unfold poll
  split
  · rfl
  · exact now_ask ..

@[simp] theorem now_settleWith (fuel : Nat) (x : Session) : (settleWith fuel x).now = x.now :=
  settleWith_induction (P := fun y => y.now = x.now) (fun _ h => (now_poll ..).trans h) rfl fuel

@[simp] theorem now_settle (x : Session) : x.settle.now = x.now := now_settleWith ..

/-! #### Alarms -/

theorem timely_withLimits (h : x.agenda.Timely) (s : Limits) : (x.withLimits s).agenda.Timely :=
  Agenda.Timely.wakeAll h _

theorem timely_heed (h : x.agenda.Timely) (hturn : ∀ till, turn = .asleep till → x.now < till) (c : Caller)
    (wanted : Wanted) : (x.heed c wanted turn).agenda.Timely := by
  cases turn with
  | granted | queued => exact h.unset c .step
  | asleep till => exact h.set c .step (hturn till rfl)
  | unchanged => exact h

theorem timely_ask (h : x.agenda.Timely) (c : Caller) (wanted : Wanted) (e : Event) :
    (x.ask c wanted e).agenda.Timely := by
  rw [ask_eq]
  refine timely_heed (timely_withLimits h _) (fun till ht => ?_) c wanted
  rw [now_withLimits]
  exact Limits.asleep_step ht

theorem timely_poll (h : x.agenda.Timely) (c : Caller) : (x.poll c).agenda.Timely := by
  unfold poll
  split
  · exact h
  · rename_i p _
    exact timely_ask h c p.wanted _

theorem timely_settleWith (h : x.agenda.Timely) (fuel : Nat) : (settleWith fuel x).agenda.Timely :=
  settleWith_induction (P := fun y => y.agenda.Timely)
    (fun {y c rest} _ hy => timely_poll (x := y.popped rest) hy c) h fuel

/-- Alarms stay ahead of the clock. -/
theorem timely_settle (h : x.agenda.Timely) : x.settle.agenda.Timely := timely_settleWith h _

/-! #### Time -/

/-- The session as its clock moves on to a moment. -/
def reached (x : Session) (target : Instant) : Session :=
  { x with agenda := { x.agenda with now := max x.now target } }

/-- The session as its clock stops at alarms. -/
def rung (x : Session) (due : Instant) : Session := { x with agenda := x.agenda.ring due }

theorem advanceWith_of_none (h : x.agenda.next?.filter (· ≤ target) = none) (fuel : Nat) :
    advanceWith target (fuel + 1) x = x.reached target := by
  rw [advanceWith, h]
  rfl

theorem advanceWith_of_some (h : x.agenda.next?.filter (· ≤ target) = some due) (fuel : Nat) :
    advanceWith target (fuel + 1) x = advanceWith target fuel (x.rung due).settle := by
  rw [advanceWith, h]
  rfl

/-- What holds still when the clock has stopped at an alarm, or has moved on to the end, holds at the end. -/
theorem advanceWith_induction {P : Session → Prop}
    (hreached : ∀ {x}, x.agenda.next?.filter (· ≤ target) = none → P x → P (x.reached target))
    (hrung : ∀ {x due}, x.agenda.next?.filter (· ≤ target) = some due → P x → P (x.rung due).settle) (h : P x)
    (fuel : Nat) : P (advanceWith target fuel x) := by
  induction fuel generalizing x with
  | zero => exact h
  | succ fuel ih =>
    cases hn : x.agenda.next?.filter (· ≤ target) with
    | none =>
      rw [advanceWith_of_none hn]
      exact hreached hn h
    | some due =>
      rw [advanceWith_of_some hn]
      exact ih (hrung hn h)

theorem now_reached (h : x.now ≤ target) : (x.reached target).now = target := Nat.max_eq_right h

theorem now_settle_rung (h : x.now < due) : (x.rung due).settle.now = due := by
  rw [now_settle]
  exact (Agenda.now_ring ..).trans (Nat.max_eq_right (Nat.le_of_lt h))

theorem timely_rung (h : x.agenda.Timely) (hle : x.now ≤ due) : (x.rung due).agenda.Timely := h.ring hle

/-- A stop at a whole millisecond leaves fewer of these ahead. -/
theorem stops_lt {now due target n : Nat} (hlt : now < due) (hwhole : 1000000 ∣ due) (hle : due ≤ target)
    (hn : target / 1000000 - now / 1000000 < n + 1) : target / 1000000 - due / 1000000 < n := by
  omega

theorem stops_advance (now time : Nat) : (now + time) / 1000000 - now / 1000000 < time / 1000000 + 2 := by
  omega

/-! #### Turns -/

/-- The turns that are still to be had. -/
def weight (x : Session) : Nat := x.agenda.ready.length + x.limits.weight

theorem weight_withLimits (x : Session) (s : Limits) : (x.withLimits s).weight ≤ x.agenda.ready.length + s.weight := by
  have hready := Agenda.length_ready_wakeAll x.agenda s.woken
  simp only [weight, Limits.weight, withLimits, Limits.takeWoken, List.length_nil]
  omega

@[simp] theorem weight_heed (x : Session) (c : Caller) (wanted : Wanted) (turn : Turn) :
    (x.heed c wanted turn).weight = x.weight := by
  cases turn <;> rfl

/-- Whoever goes on gives others no more turns than it had. -/
theorem weight_poll (x : Session) (c : Caller) : (x.poll c).weight ≤ x.weight := by
  unfold poll
  split
  · exact Nat.le_refl _
  · rw [ask_eq, weight_heed, Limits.step_eq]
    exact Nat.le_trans (weight_withLimits ..) (Nat.add_le_add_left (Limits.weight_poll x.limits x.now c) _)

/-- With each that goes on, there is one turn less to be had. -/
theorem weight_poll_popped {rest : List Caller} (hready : x.agenda.ready = c :: rest) :
    ((x.popped rest).poll c).weight < x.weight := by
  have hpoll := weight_poll (x.popped rest) c
  have hpopped : (x.popped rest).weight + 1 = x.weight := by
    simp only [weight, popped, hready, List.length_cons]
    omega
  omega

theorem weight_le (h : x.limits.woken = []) :
    x.weight ≤ x.agenda.ready.length + 2 * x.limits.pending.length := by
  have hle := List.countP_le_length (p := fun p : Pending => p.stage = .ceiling) (l := x.limits.pending)
  simp only [weight, Limits.weight, h, List.length_nil]
  omega

theorem ready_of_weight (h : x.weight = 0) : x.agenda.ready = [] := by
  unfold weight at h
  exact List.eq_nil_of_length_eq_zero (by omega)

theorem ready_settleWith {fuel : Nat} (h : x.weight ≤ fuel) : (settleWith fuel x).agenda.ready = [] := by
  induction fuel generalizing x with
  | zero => exact ready_of_weight (Nat.le_zero.1 h)
  | succ fuel ih =>
    cases hready : x.agenda.ready with
    | nil => rwa [settleWith_of_nil hready]
    | cons c rest =>
      rw [settleWith_of_cons hready]
      exact ih (Nat.le_of_lt_succ (Nat.lt_of_lt_of_le (weight_poll_popped hready) h))

/-- Callers go on until none is left that can. -/
theorem ready_settle (h : x.limits.woken = []) : x.settle.agenda.ready = [] := ready_settleWith (weight_le h)

end Session

end ChatApi.Limit
