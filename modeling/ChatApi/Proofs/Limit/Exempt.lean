import ChatApi.Proofs.Limit.Calls
import ChatApi.Proofs.Limit.Rest

/-!
# Requests that are exempt from limits

The tickets of exempt requests are slots of nothing. `Limits.without` takes the tickets of some callers away;
what happens for other callers comes to the same with and without them (`without_step`), and what happens for
those changes nothing else (`without_step_of_extra`). The same goes for every single move of a session
(`without_make`, `without_make_of_extra`). So exempt requests get their slots at once, and all others as if there
were none (`exempt_requests_interfere_nowhere`). A request that is subject to the limit of its route only leaves
the limit of the account alone (`account_of_routeOnly`).
-/

namespace ChatApi.Limit

/-- A request that is subject to no limit is asked for. -/
def Wanted.isExempt : Wanted → Bool
  | .route _ .exempt => true
  | _ => false

theorem Wanted.exists_of_isExempt {wanted : Wanted} (h : wanted.isExempt) :
    ∃ key, wanted = .route key .exempt := by
  cases wanted with
  | account => cases h
  | route key scope =>
    cases scope with
    | all | routeOnly => cases h
    | exempt => exact ⟨key, rfl⟩

/-- Of some callers only exempt requests come in. -/
def Event.Exempts (extra : Caller → Bool) : Event → Prop
  | .arrive c wanted => extra c → wanted.isExempt
  | _ => True

namespace Limits

/-- The limits without the tickets of some callers. -/
def without (s : Limits) (extra : Caller → Bool) : Limits :=
  { s with tickets := s.tickets.filter (!extra ·.caller) }

variable {s u : Limits} {now : Instant} {e : Event} {p : Pending} {c : Caller} {i : Nat} {key : RouteKey}
  {extra : Caller → Bool}

/-! ### What happens for others -/

theorem without_changeBucket (s : Limits) (i : Nat) (f : Bucket → Bucket × Option Caller) :
    (s.changeBucket i f).without extra = (s.without extra).changeBucket i f := by
  have hsame : (s.without extra).buckets = s.buckets := rfl
  unfold changeBucket
  rw [hsame]
  split <;> rfl

theorem without_bucketFor (s : Limits) (key : RouteKey) :
    (s.without extra).bucketFor key = ((s.bucketFor key).1, (s.bucketFor key).2.without extra) := by
  have hsame : (s.without extra).routes = s.routes := rfl
  unfold bucketFor
  rw [hsame]
  split <;> rfl

theorem without_share (s : Limits) (now : Instant) (i : Nat) (r : Report) :
    (s.share now i r).without extra = (s.without extra).share now i r := by
  have hbuckets : (s.without extra).buckets = s.buckets := rfl
  have hshared : (s.without extra).shared = s.shared := rfl
  unfold share
  rw [hbuckets, hshared]
  split
  · dsimp only
    split
    · rfl
    · split
      · rfl
      · rw [← without_changeBucket]
        rfl
  · rfl

theorem without_grant (hp : extra p.caller = false) (s : Limits) (bucket : Option Nat) :
    (s.grant p bucket).without extra = (s.without extra).grant p bucket := by
  simp [without, grant, hp]

theorem without_pollBucket (hp : extra p.caller = false) (s : Limits) (now : Instant) (i : Nat) :
    (s.without extra).pollBucket now p i =
      ((s.pollBucket now p i).1.without extra, (s.pollBucket now p i).2) := by
  cases hb : s.buckets[i]? with
  | none =>
    have hb' : (s.without extra).buckets[i]? = none := hb
    simp [pollBucket, hb, hb']
  | some b =>
    rw [pollBucket_of_some hb, pollBucket_of_some (show (s.without extra).buckets[i]? = some b from hb)]
    dsimp only
    split
    · rw [without_grant hp, without_changeBucket]
    · rw [without_changeBucket]

theorem without_lineUp (s : Limits) (p : Pending) (key : RouteKey) :
    (s.without extra).lineUp p key = ((s.lineUp p key).1, (s.lineUp p key).2.without extra) := by
  have hjoin : _ = ((s.bucketFor key).2.without extra).changeBucket _ _ :=
    without_changeBucket (s.bucketFor key).2 (s.bucketFor key).1 fun b => ({ b with gate := b.gate.join p.caller }, none)
  simp only [lineUp, without_bucketFor, ← hjoin]
  rfl

theorem without_enterBucket (hp : extra p.caller = false) (s : Limits) (now : Instant) (key : RouteKey) :
    (s.without extra).enterBucket now p key =
      ((s.enterBucket now p key).1.without extra, (s.enterBucket now p key).2) := by
  simp only [enterBucket, without_lineUp, without_pollBucket hp]

theorem without_pollCeiling (hp : extra p.caller = false) (s : Limits) (now : Instant) :
    (s.without extra).pollCeiling now p =
      ((s.pollCeiling now p).1.without extra, (s.pollCeiling now p).2) := by
  have hgate : (s.without extra).ceilingGate = s.ceilingGate := rfl
  have hceiling : (s.without extra).ceiling = s.ceiling := rfl
  unfold pollCeiling
  rw [hgate, hceiling]
  split
  · rfl
  · dsimp only
    split
    · rfl
    · split
      · exact congrArg (·, Turn.granted) (without_grant hp (s.passed now p.caller) none).symm
      · exact without_enterBucket hp (s.passed now p.caller) now _

theorem without_enterCeiling (hp : extra p.caller = false) (s : Limits) (now : Instant) :
    (s.without extra).enterCeiling now p =
      ((s.enterCeiling now p).1.without extra, (s.enterCeiling now p).2) := by
  have hpoll := without_pollCeiling hp { s with ceilingGate := s.ceilingGate.join p.caller } now
  exact congrArg (fun o : Limits × Turn => (o.1, o.2.inLine)) hpoll

theorem without_poll (hc : extra c = false) (s : Limits) (now : Instant) :
    (s.without extra).poll now c = ((s.poll now c).1.without extra, (s.poll now c).2) := by
  have hpending : (s.without extra).pending = s.pending := rfl
  unfold poll
  rw [hpending]
  split
  · rfl
  · rename_i p hp
    have hp : extra p.caller = false := by
      rw [show p.caller = c by simpa using List.find?_some hp]
      exact hc
    split
    · exact without_pollCeiling hp s now
    · exact without_pollBucket hp s now _

theorem without_arrive (hc : extra c = false) (s : Limits) (now : Instant) (wanted : Wanted) :
    (s.without extra).arrive now c wanted =
      ((s.arrive now c wanted).1.without extra, (s.arrive now c wanted).2) := by
  let p : Pending := ⟨c, wanted, .ceiling⟩
  let lined : Limits := { s with pending := s.pending ++ [p] }
  have hp : extra p.caller = false := hc
  cases wanted with
  | account => exact without_enterCeiling hp lined now
  | route key scope =>
    cases scope with
    | all => exact without_enterCeiling hp lined now
    | routeOnly => exact without_enterBucket hp lined now key
    | exempt => exact congrArg (·, Turn.granted) (without_grant hp lined none).symm

theorem without_ticket? (hc : extra c = false) (s : Limits) : (s.without extra).ticket? c = s.ticket? c := by
  unfold ticket? without
  rw [List.find?_filter]
  congr 1
  funext t
  by_cases ht : t.caller = c
  · simp [ht, hc]
  · simp [ht]

theorem without_isBusy (hc : extra c = false) (s : Limits) : (s.without extra).isBusy c = s.isBusy c := by
  unfold isBusy
  rw [without_ticket? hc]
  rfl

theorem without_release (s : Limits) (t : Ticket) :
    (s.release t).without extra = (s.without extra).release t := by
  have hleft : ({ s with tickets := s.tickets.filter (·.caller ≠ t.caller) } : Limits).without extra =
      { s.without extra with tickets := (s.without extra).tickets.filter (·.caller ≠ t.caller) } := by
    simp only [without, List.filter_comm]
  unfold release
  dsimp only
  split
  · rw [without_changeBucket, hleft]
  · exact hleft

theorem without_withdraw (hc : extra c = false) (s : Limits) :
    (s.withdraw c).without extra = (s.without extra).withdraw c := by
  have hpending : (s.without extra).pending = s.pending := rfl
  unfold withdraw
  rw [without_ticket? hc, hpending]
  split
  · exact without_release s _
  · dsimp only
    split
    · rfl
    · exact without_changeBucket _ _ _
  · rfl

theorem without_recordBucket (s : Limits) (now : Instant) (t : Ticket) (r : Report) :
    (s.recordBucket now t r).without extra = (s.without extra).recordBucket now t r := by
  unfold recordBucket
  split
  · rw [without_share, without_changeBucket]
  · rfl

theorem without_recordRefusal (s : Limits) (now : Instant) (t : Ticket) (r : Report) (body : Option Refusal) :
    (s.recordRefusal now t r body).without extra = (s.without extra).recordRefusal now t r body := by
  have hheld : (s.held now t (refusalWait r body)).without extra =
      (s.without extra).held now t (refusalWait r body) := by
    unfold held
    split <;> rfl
  cases hg : isGlobalRefusal r body with
  | true =>
    rw [recordRefusal_of_global hg, recordRefusal_of_global hg, ← hheld]
    split
    · exact without_recordBucket ..
    · rfl
  | false =>
    rw [recordRefusal_of_not_global hg, recordRefusal_of_not_global hg]
    split
    · rw [without_share, without_changeBucket]
    · rfl

/-- What happens for other callers, or for none, comes to the same. -/
theorem without_step (he : ∀ c ∈ e.caller?, extra c = false) (s : Limits) (now : Instant) :
    (s.without extra).step now e = ((s.step now e).1.without extra, (s.step now e).2) := by
  rw [step_eq, step_eq]
  cases e with
  | arrive c wanted =>
    have hc := he c rfl
    simp only [leap, without_isBusy hc]
    split
    · rfl
    · exact without_arrive hc s now wanted
  | poll c => exact without_poll (he c rfl) s now
  | record c r =>
    simp only [leap, without_ticket? (he c rfl)]
    split
    · rename_i t _
      simp only [record, without_release, without_recordBucket]
    · rfl
  | refuse c r body =>
    simp only [leap, without_ticket? (he c rfl)]
    split
    · rename_i t _
      simp only [refuse, without_release, without_recordRefusal]
    · rfl
  | withdraw c => exact congrArg (·, Turn.unchanged) (without_withdraw (he c rfl) s).symm
  | block wait => rfl

/-! ### What happens for callers of exempt requests -/

/-- Some callers wait nowhere, and all that they hold is slots of nothing. -/
structure Aloof (extra : Caller → Bool) (s : Limits) : Prop where
  waiting : ∀ p ∈ s.pending, extra p.caller = false
  holding : ∀ t ∈ s.tickets, extra t.caller → t.bucket = none ∧ ∃ key, t.wanted = .route key .exempt

theorem Aloof.congr (h : Aloof extra s) (hp : u.pending = s.pending) (ht : u.tickets = s.tickets) :
    Aloof extra u :=
  ⟨fun p hmem => h.waiting p (hp ▸ hmem), fun t hmem => h.holding t (ht ▸ hmem)⟩

theorem Aloof.find?_pending (h : Aloof extra s) (hc : extra c) : s.pending.find? (·.caller = c) = none := by
  refine List.find?_eq_none.2 fun p hp he => ?_
  have hne := h.waiting p hp
  rw [of_decide_eq_true he, hc] at hne
  cases hne

theorem Aloof.of_ticket {t : Ticket} (h : Aloof extra s) (hc : extra c) (ht : s.ticket? c = some t) :
    t.caller = c ∧ t.bucket = none ∧ ∃ key, t.wanted = .route key .exempt := by
  have hcaller := caller_of_ticket? ht
  exact ⟨hcaller, h.holding t (List.mem_of_find?_eq_some ht) (hcaller ▸ hc)⟩

/-- An exempt request of a caller that waits nowhere and holds nothing gets its ticket at once. -/
theorem step_exempt (hb : s.isBusy c = false) (now : Instant) (key : RouteKey) :
    s.step now (.arrive c (.route key .exempt)) =
      ({ s with tickets := s.tickets ++ [⟨c, .route key .exempt, none⟩] }, .granted) := by
  have hothers : s.pending.filter (fun p => !decide (p.caller = c)) = s.pending := by
    simp only [isBusy, Bool.or_eq_false_iff, List.any_eq_false, decide_eq_true_eq] at hb
    exact List.filter_eq_self.2 fun p hp => by simpa using hb.1 p hp
  simp [step_eq, leap, hb, arrive, grant, hothers]

/-- Whatever happens, callers of whom only exempt requests come in wait nowhere. -/
theorem aloof_step (h : Aloof extra s) (he : e.Exempts extra) (now : Instant) :
    Aloof extra (s.step now e).1 := by
  have of_others (hnew : ∀ c wanted, e = .arrive c wanted → extra c = false) : Aloof extra (s.step now e).1 := by
    refine ⟨fun p hp => ?_, fun t ht hc => ?_⟩
    · rcases pending_origin hp with ⟨q, hq, hcaller, -⟩ | he
      · exact hcaller ▸ h.waiting q hq
      · exact hnew _ _ he
    · rcases tickets_origin ht with ht | ⟨q, hq, hcaller, -⟩ | he
      · exact h.holding t ht hc
      · exact absurd hc (by simp [← hcaller, h.waiting q hq])
      · exact absurd hc (by simp [hnew _ _ he])
  cases e with
  | arrive c wanted =>
    cases hb : s.isBusy c with
    | true => simpa [step_eq, leap, hb] using h
    | false =>
      cases hc : extra c with
      | false => exact of_others fun c' wanted' heq => by cases heq; exact hc
      | true =>
        obtain ⟨key, rfl⟩ := Wanted.exists_of_isExempt (he hc)
        rw [step_exempt hb]
        refine ⟨h.waiting, fun t ht hct => ?_⟩
        rcases List.mem_append.1 ht with ht | ht
        · exact h.holding t ht hct
        · cases List.mem_singleton.1 ht
          exact ⟨rfl, key, rfl⟩
  | poll | record | refuse | withdraw | block => exact of_others fun _ _ heq => by cases heq

theorem without_release_of_extra {t : Ticket} (hc : extra t.caller) (ht : t.bucket = none) (s : Limits) :
    (s.release t).without extra = s.without extra := by
  have hleft := filter_filter_ne Ticket.caller (fun c => !extra c) t.caller s.tickets
  rw [if_neg (by simp [hc])] at hleft
  simp only [release, ht, without, hleft]

theorem recordRefusal_of_exempt {t : Ticket} (hb : t.bucket = none) (hw : t.wanted = .route key .exempt)
    (s : Limits) (now : Instant) (r : Report) (body : Option Refusal) : s.recordRefusal now t r body = s := by
  simp [recordRefusal, recordBucket, hb, hw]

/-- What happens for callers of exempt requests changes nothing but their tickets. -/
theorem without_step_of_extra (h : Aloof extra s) (he : e.Exempts extra) (hc : c ∈ e.caller?) (hx : extra c)
    (now : Instant) : (s.step now e).1.without extra = s.without extra := by
  cases e with
  | arrive c wanted =>
    cases hc
    obtain ⟨key, rfl⟩ := Wanted.exists_of_isExempt (he hx)
    cases hb : s.isBusy c with
    | true => simp [step_eq, leap, hb]
    | false =>
      rw [step_exempt hb]
      simp [without, hx]
  | poll c =>
    cases hc
    simp [step_eq, leap, poll, h.find?_pending hx]
  | record c r =>
    cases hc
    cases ht : s.ticket? c with
    | none => simp [step_eq, leap, ht]
    | some t =>
      obtain ⟨hcaller, hb, -⟩ := h.of_ticket hx ht
      have hrelease := without_release_of_extra (hcaller ▸ hx) hb s
      simpa [step_eq, leap, ht, record, recordBucket, hb] using hrelease
  | refuse c r body =>
    cases hc
    cases ht : s.ticket? c with
    | none => simp [step_eq, leap, ht]
    | some t =>
      obtain ⟨hcaller, hb, key, hw⟩ := h.of_ticket hx ht
      have hrelease := without_release_of_extra (hcaller ▸ hx) hb s
      simpa [step_eq, leap, ht, refuse, recordRefusal_of_exempt hb hw] using hrelease
  | withdraw c =>
    cases hc
    cases ht : s.ticket? c with
    | none =>
      have hgone := withdraw_of_absent ht (h.find?_pending hx)
      simp [step_eq, leap, hgone]
    | some t =>
      obtain ⟨hcaller, hb, -⟩ := h.of_ticket hx ht
      simp only [step_eq, leap, withdraw_of_ticket ht]
      exact without_release_of_extra (hcaller ▸ hx) hb s
  | block wait => cases hc

/-! ### Requests that are subject to the limit of their route only -/

/-- What the caller of an event asks for, or has asked for. -/
def wanted? (s : Limits) : Event → Option Wanted
  | .arrive _ wanted => some wanted
  | .poll c => (s.pending.find? (·.caller = c)).map (·.wanted)
  | .record c _ | .refuse c _ _ => (s.ticket? c).map (·.wanted)
  | .withdraw c => ((s.ticket? c).map (·.wanted)).or ((s.pending.find? (·.caller = c)).map (·.wanted))
  | .block _ => none

/-- Who waits at the gate of the account is subject to that limit. -/
def Passes (s : Limits) : Prop :=
  ∀ p ∈ s.pending, ∀ key, p.wanted = .route key .routeOnly → p.stage ≠ .ceiling

/-- A request that is subject to the limit of its route only waits at its bucket, if anywhere. -/
theorem stage_arrive_routeOnly {q : Pending}
    (hq : q ∈ (s.arrive now c (.route key .routeOnly)).1.pending) (hc : q.caller = c) : q.stage ≠ .ceiling := by
  let p : Pending := ⟨c, .route key .routeOnly, .ceiling⟩
  let lined : Limits := { s with pending := s.pending ++ [p] }
  obtain ⟨isNew, u, hv, -, -, -, hpending⟩ := visited_enterBucket lined now p key
  have hmem : q ∈ u.pending := by
    change q ∈ (lined.enterBucket now p key).1.pending at hq
    cases hl : ((lined.site (lined.bucketFor key).1).arrive isNew p.caller).lets now p.caller with
    | true =>
      rw [hv.granted hl] at hq
      exact (List.mem_filter.1 hq).1
    | false =>
      obtain ⟨turn, -, ho⟩ := hv.refused hl
      rwa [ho] at hq
  rw [hpending] at hmem
  obtain ⟨q', -, rfl⟩ := List.mem_map.1 hmem
  have hc' : q'.caller = p.caller := by simpa using hc
  simp [Pending.goTo, hc']

theorem passes_step (h : Passes s) (now : Instant) (e : Event) : Passes (s.step now e).1 := by
  intro q hq key hw hs
  rcases step_cases s now e with hset | ⟨u, p, ha, hc⟩
  · exact h q (hset.pending q hq) key hw hs
  · rcases hc.pending q hq with hu | ⟨j, -, q', -, -, rfl⟩
    · rcases ha.mem q hu with hold | rfl
      · exact h q hold key hw hs
      · rcases ha.waits with hold | ⟨rfl, -, hnew⟩
        · exact h q hold key hw hs
        · -- the caller has come in just now
          rw [hw] at hq
          simp only [step_eq, leap] at hq
          split at hq
          · exact hnew q hq rfl
          · exact stage_arrive_routeOnly hq rfl hs
    · cases hs

theorem passes_run (limit : Nat) (es : List (Instant × Event)) : Passes ((ofLimit limit).run es) :=
  run_induction (P := Passes) (fun _ now e h => passes_step h now e) (fun _ hp => by cases hp) es

/-- Not even the refusal of such a request for the whole account holds it back. -/
theorem account_recordRefusal {t : Ticket} (hw : t.wanted = .route key .routeOnly) (s : Limits) (now : Instant)
    (r : Report) (body : Option Refusal) : (s.recordRefusal now t r body).ceiling = s.ceiling ∧
      (s.recordRefusal now t r body).ceilingGate = s.ceilingGate := by
  cases hg : isGlobalRefusal r body with
  | true =>
    obtain ⟨hc, hgate, -, -⟩ := recordBucket_frame s now t r
    rw [recordRefusal_of_global hg, show s.held now t (refusalWait r body) = s by simp [held, hw]]
    split
    · exact ⟨hc, hgate⟩
    · exact ⟨rfl, rfl⟩
  | false =>
    rw [recordRefusal_of_not_global hg]
    split
    · obtain ⟨hc, hgate, -, -⟩ := changeBucket_share_frame (Bucket.takes_exhaust now (refusalWait r body)) s _ r
      exact ⟨hc, hgate⟩
    · exact ⟨rfl, rfl⟩

/-- Whatever happens for a request that is subject to the limit of its route only, the limit of the account
and the callers at its gate stay as they are. -/
theorem account_of_routeOnly (h : Passes s) (hw : s.wanted? e = some (.route key .routeOnly)) (now : Instant) :
    (s.step now e).1.ceiling = s.ceiling ∧ (s.step now e).1.ceilingGate = s.ceilingGate := by
  cases e with
  | arrive c wanted =>
    cases hw
    simp only [step_eq, leap]
    split
    · exact ⟨rfl, rfl⟩
    · let lined : Limits := { s with pending := s.pending ++ [⟨c, .route key .routeOnly, .ceiling⟩] }
      exact account_enterBucket lined now _ key
  | poll c =>
    obtain ⟨p, hp, hwanted⟩ := Option.map_eq_some_iff.1 hw
    have hstage := h p (List.mem_of_find?_eq_some hp) key hwanted
    simp only [step_eq, leap, poll, hp]
    split
    · exact absurd ‹_› hstage
    · exact account_pollBucket s now p _
  | record c r =>
    obtain ⟨t, ht, -⟩ := Option.map_eq_some_iff.1 hw
    obtain ⟨hc, hg, -, -⟩ := recordBucket_frame s now t r
    obtain ⟨hc', hg', -, -⟩ := release_frame (s.recordBucket now t r) t
    simp only [step_eq, leap, ht]
    exact ⟨hc'.trans hc, hg'.trans hg⟩
  | refuse c r body =>
    obtain ⟨t, ht, hwanted⟩ := Option.map_eq_some_iff.1 hw
    obtain ⟨hc, hg⟩ := account_recordRefusal hwanted s now r body
    obtain ⟨hc', hg', -, -⟩ := release_frame (s.recordRefusal now t r body) t
    simp only [step_eq, leap, ht]
    exact ⟨hc'.trans hc, hg'.trans hg⟩
  | withdraw c =>
    simp only [step_eq, leap]
    cases ht : s.ticket? c with
    | some t =>
      obtain ⟨hc, hg, -, -⟩ := release_frame s t
      rw [withdraw_of_ticket ht]
      exact ⟨hc, hg⟩
    | none =>
      obtain ⟨p, hp, hwanted⟩ : ∃ p, s.pending.find? (·.caller = c) = some p ∧ p.wanted = .route key .routeOnly := by
        simpa [wanted?, ht] using hw
      obtain ⟨hc, hg, -, -⟩ := withdraw_frame ht hp
      rw [if_neg (h p (List.mem_of_find?_eq_some hp) key hwanted)] at hg
      exact ⟨hc, hg⟩
  | block wait => cases hw

end Limits

/-! ### Sessions -/

namespace Session

/-- The session without what some callers hold and were granted, and with other routes noted. -/
def without (x : Session) (extra : Caller → Bool) (keys : List RouteKey) : Session :=
  { x with limits := x.limits.without extra, grants := x.grants.filter (!extra ·.caller), keys }

/-- Some callers wait nowhere, hold slots of nothing, and have set no alarm. -/
structure Aloof (extra : Caller → Bool) (x : Session) : Prop where
  limits : Limits.Aloof extra x.limits
  alarms : ∀ alarm ∈ x.agenda.alarms, extra alarm.task = false

variable {extra : Caller → Bool} {x : Session} {c : Caller} {wanted : Wanted} {e : Event} {turn : Turn}
  {keys : List RouteKey} {due target : Instant}

/-! #### Aloof callers -/

theorem Aloof.withLimits (h : Aloof extra x) {s : Limits} (hs : Limits.Aloof extra s) :
    Aloof extra (x.withLimits s) :=
  ⟨hs.congr rfl rfl, fun alarm hmem => h.alarms alarm (Agenda.alarms_wakeAll x.agenda s.woken ▸ hmem)⟩

theorem Aloof.heed (h : Aloof extra x) (hc : ∀ till, turn = .asleep till → extra c = false) (wanted : Wanted) :
    Aloof extra (x.heed c wanted turn) := by
  have hunset (alarm : Alarm Caller) (hmem : alarm ∈ (x.agenda.unset c .step).alarms) : extra alarm.task = false :=
    h.alarms alarm (List.mem_filter.1 hmem).1
  cases turn with
  | granted => exact ⟨h.limits, hunset⟩
  | asleep till =>
    refine ⟨h.limits, fun alarm hmem => ?_⟩
    rcases List.mem_append.1 hmem with hmem | hmem
    · exact hunset alarm hmem
    · cases List.mem_singleton.1 hmem
      exact hc till rfl
  | queued => exact ⟨h.limits, hunset⟩
  | unchanged => exact h

theorem Aloof.ask (h : Aloof extra x) (he : e.Exempts extra)
    (hc : ∀ till, (x.limits.step x.now e).2 = .asleep till → extra c = false) (wanted : Wanted) :
    Aloof extra (x.ask c wanted e) := by
  rw [ask_eq]
  exact (h.withLimits (Limits.aloof_step h.limits he x.now)).heed hc wanted

theorem Aloof.poll (h : Aloof extra x) (c : Caller) : Aloof extra (x.poll c) := by
  unfold Session.poll
  split
  · exact h
  · rename_i p hp
    have hcaller : p.caller = c := by simpa using List.find?_some hp
    have hc : extra c = false := hcaller ▸ h.limits.waiting p (List.mem_of_find?_eq_some hp)
    exact h.ask (e := .poll c) trivial (fun _ _ => hc) p.wanted

/-- Whoever falls asleep does not ask for nothing. -/
theorem Aloof.arrive (h : Aloof extra x) (hw : extra c → wanted.isExempt) :
    Aloof extra (x.ask c wanted (.arrive c wanted)) := by
  refine h.ask (e := .arrive c wanted) hw (fun till hturn => ?_) wanted
  cases hc : extra c with
  | false => rfl
  | true =>
    obtain ⟨key, rfl⟩ := Wanted.exists_of_isExempt (hw hc)
    cases hb : x.limits.isBusy c with
    | true => simp [Limits.step_eq, Limits.leap, hb] at hturn
    | false =>
      rw [Limits.step_exempt hb] at hturn
      cases hturn

theorem Aloof.settleWith (h : Aloof extra x) (fuel : Nat) : Aloof extra (settleWith fuel x) := by
  refine settleWith_induction (fun {x c rest} _ hx => ?_) h fuel
  have hpopped : Aloof extra (x.popped rest) := ⟨hx.limits, hx.alarms⟩
  exact hpopped.poll c

theorem Aloof.settle (h : Aloof extra x) : Aloof extra x.settle := h.settleWith _

theorem Aloof.happen (h : Aloof extra x) (he : e.Exempts extra) : Aloof extra (x.happen e) :=
  (h.withLimits (Limits.aloof_step h.limits he x.now)).settle

theorem Aloof.useTicket {α : Type} (h : Aloof extra x) (c : Caller) (he : e.Exempts extra) (a : α) :
    Aloof extra (x.useTicket c e a).1 := by
  rcases useTicket_eq x c e a with heq | heq | heq
  · rwa [heq]
  · rw [heq]
    exact h.happen trivial
  · rw [heq]
    exact h.happen he

theorem Aloof.changeBucket (h : Aloof extra x) (i : Nat) {f : Bucket → Bucket × Option Caller}
    (hf : ∀ b, (f b).1.key = b.key) : Aloof extra (x.withLimits (x.limits.changeBucket i f)).settle := by
  have hb := Limits.beside_changeBucket (s := x.limits) (i := i) hf
  exact (h.withLimits (h.limits.congr hb.pending hb.tickets)).settle

theorem Aloof.rung (h : Aloof extra x) (due : Instant) : Aloof extra (x.rung due) := by
  refine ⟨h.limits, fun alarm hmem => ?_⟩
  change alarm ∈ (x.agenda.ring due).alarms at hmem
  rw [Agenda.ring_eq, Agenda.alarms_wakeAll] at hmem
  exact h.alarms alarm (List.mem_filter.1 hmem).1

theorem Aloof.advanceWith (h : Aloof extra x) (target : Instant) (fuel : Nat) :
    Aloof extra (advanceWith target fuel x) :=
  advanceWith_induction (fun _ hx => ⟨hx.limits, hx.alarms⟩) (fun {_ due} _ hx => (hx.rung due).settle) h fuel

/-- The caller that an action is one of. -/
def Action.caller? : Action → Option Caller
  | .acquire c _ | .record c _ | .refuse c _ _ | .drop c => some c
  | .block _ | .recordBucket _ _ | .exhaustBucket _ _ | .advance _ => none

/-- Of some callers only exempt requests come in. -/
def Action.Exempts (extra : Caller → Bool) : Action → Prop
  | .acquire c wanted => extra c → wanted.isExempt
  | _ => True

instance (extra : Caller → Bool) : (a : Action) → Decidable (a.Exempts extra)
  | .acquire _ _ => inferInstanceAs (Decidable (_ → _))
  | .record _ _ | .refuse _ _ _ | .drop _ | .block _ | .recordBucket _ _ | .exhaustBucket _ _ | .advance _ =>
    isTrue trivial

/-- Whatever is done, callers of whom only exempt requests come in wait nowhere. -/
theorem Aloof.handle (h : Aloof extra x) {a : Action} (ha : a.Exempts extra) : Aloof extra (x.handle a) := by
  cases a with
  | acquire c wanted =>
    obtain ⟨keys, heq⟩ := acquire_eq x c wanted
    have hnoted : Aloof extra { x with keys } := ⟨h.limits, h.alarms⟩
    simp only [Session.handle, heq]
    exact (hnoted.arrive ha).settle
  | record c headers => exact h.useTicket (e := .record c _) c trivial _
  | refuse c headers body => exact h.useTicket (e := .refuse c _ _) c trivial _
  | drop c =>
    have hgone : Aloof extra { x with agenda := x.agenda.forget c } :=
      ⟨h.limits, fun alarm hmem => h.alarms alarm (List.mem_filter.1 hmem).1⟩
    exact hgone.happen trivial
  | block wait => exact h.happen trivial
  | recordBucket i headers =>
    rw [Session.handle, recordBucket_eq]
    exact h.changeBucket i fun _ => rfl
  | exhaustBucket i wait =>
    rw [Session.handle, exhaustBucket_eq]
    exact h.changeBucket i fun _ => rfl
  | advance time => exact h.advanceWith _ _

/-! #### What is done for others -/

theorem without_withLimits (x : Session) (s : Limits) :
    (x.withLimits s).without extra keys = (x.without extra keys).withLimits (s.without extra) := rfl

theorem without_heed (hc : extra c = false) (x : Session) (wanted : Wanted) (turn : Turn) :
    (x.heed c wanted turn).without extra keys = (x.without extra keys).heed c wanted turn := by
  cases turn with
  | granted => simp [heed, without, hc, now]
  | asleep | queued | unchanged => rfl

theorem without_ask (hc : extra c = false) (he : ∀ d ∈ e.caller?, extra d = false) (x : Session)
    (wanted : Wanted) : (x.ask c wanted e).without extra keys = (x.without extra keys).ask c wanted e := by
  have hstep := Limits.without_step he x.limits x.now
  rw [ask_eq, ask_eq, without_heed hc, without_withLimits]
  show _ = ((x.without extra keys).withLimits ((x.limits.without extra).step x.now e).1).heed c wanted
    ((x.limits.without extra).step x.now e).2
  rw [hstep]

theorem without_poll (h : Aloof extra x) (c : Caller) :
    (x.poll c).without extra keys = (x.without extra keys).poll c := by
  have hpending : (x.without extra keys).limits.pending = x.limits.pending := rfl
  unfold poll
  rw [hpending]
  split
  · rfl
  · rename_i p hp
    have hcaller : p.caller = c := by simpa using List.find?_some hp
    have hc : extra c = false := hcaller ▸ h.limits.waiting p (List.mem_of_find?_eq_some hp)
    exact without_ask hc (fun d hd => by cases hd; exact hc) x p.wanted

theorem without_settleWith (h : Aloof extra x) (fuel : Nat) :
    (settleWith fuel x).without extra keys = settleWith fuel (x.without extra keys) := by
  induction fuel generalizing x with
  | zero => rfl
  | succ fuel ih =>
    cases hready : x.agenda.ready with
    | nil =>
      rw [settleWith_of_nil hready, settleWith_of_nil (x := x.without extra keys) hready]
    | cons c rest =>
      have hpopped : Aloof extra (x.popped rest) := ⟨h.limits, h.alarms⟩
      rw [settleWith_of_cons hready, settleWith_of_cons (x := x.without extra keys) hready,
        ih (hpopped.poll c), without_poll hpopped]
      rfl

theorem without_settle (h : Aloof extra x) : x.settle.without extra keys = (x.without extra keys).settle :=
  without_settleWith h _

theorem without_happen (h : Aloof extra x) (he : e.Exempts extra) (hc : ∀ c ∈ e.caller?, extra c = false) :
    (x.happen e).without extra keys = (x.without extra keys).happen e := by
  have hstep := Limits.without_step hc x.limits x.now
  unfold happen
  rw [without_settle (h.withLimits (Limits.aloof_step h.limits he x.now)), without_withLimits]
  show _ = ((x.without extra keys).withLimits ((x.limits.without extra).step x.now e).1).settle
  rw [hstep]

theorem without_changeBucket (h : Aloof extra x) (i : Nat) {f : Bucket → Bucket × Option Caller}
    (hf : ∀ b, (f b).1.key = b.key) :
    (x.withLimits (x.limits.changeBucket i f)).settle.without extra keys =
      ((x.without extra keys).withLimits ((x.without extra keys).limits.changeBucket i f)).settle := by
  have hb := Limits.beside_changeBucket (s := x.limits) (i := i) hf
  rw [without_settle (h.withLimits (h.limits.congr hb.pending hb.tickets)), without_withLimits,
    Limits.without_changeBucket]
  rfl

theorem without_useTicket {α : Type} (h : Aloof extra x) (hc : extra c = false) (he : e.Exempts extra)
    (hec : ∀ d ∈ e.caller?, extra d = false) (a : α) :
    (x.useTicket c e a).1.without extra keys = ((x.without extra keys).useTicket c e a).1 := by
  have hticket : (x.without extra keys).limits.ticket? c = x.limits.ticket? c := Limits.without_ticket? hc x.limits
  unfold useTicket
  rw [hticket]
  split
  · rfl
  · split
    · exact without_happen h trivial fun d hd => by cases hd; exact hc
    · exact without_happen h he hec

theorem without_advanceWith (h : Aloof extra x) (target : Instant) (fuel : Nat) :
    (advanceWith target fuel x).without extra keys = advanceWith target fuel (x.without extra keys) := by
  induction fuel generalizing x with
  | zero => rfl
  | succ fuel ih =>
    cases hn : x.agenda.next?.filter (· ≤ target) with
    | none =>
      rw [advanceWith_of_none hn, advanceWith_of_none (x := x.without extra keys) hn]
      rfl
    | some due =>
      rw [advanceWith_of_some hn, advanceWith_of_some (x := x.without extra keys) hn,
        ih (h.rung due).settle, without_settle (h.rung due)]
      rfl

/-- What is done for other callers, or for none, comes to the same. -/
theorem without_handle (h : Aloof extra x) {a : Action} (ha : a.Exempts extra)
    (hc : ∀ c ∈ a.caller?, extra c = false) (keys : List RouteKey) :
    ∃ keys', (x.handle a).without extra keys' = (x.without extra keys).handle a := by
  cases a with
  | acquire c wanted =>
    obtain ⟨noted, heq⟩ := acquire_eq x c wanted
    obtain ⟨noted', heq'⟩ := acquire_eq (x.without extra keys) c wanted
    have hnoted : Aloof extra { x with keys := noted } := ⟨h.limits, h.alarms⟩
    refine ⟨noted', ?_⟩
    simp only [handle, heq, heq']
    rw [without_settle (hnoted.arrive ha), without_ask (e := .arrive c wanted) (hc c rfl) hc]
    rfl
  | record c headers => exact ⟨keys, without_useTicket (e := .record c _) h (hc c rfl) trivial hc _⟩
  | refuse c headers body => exact ⟨keys, without_useTicket (e := .refuse c _ _) h (hc c rfl) trivial hc _⟩
  | drop c =>
    have hgone : Aloof extra { x with agenda := x.agenda.forget c } :=
      ⟨h.limits, fun alarm hmem => h.alarms alarm (List.mem_filter.1 hmem).1⟩
    exact ⟨keys, without_happen hgone trivial hc⟩
  | block wait => exact ⟨keys, without_happen h trivial hc⟩
  | recordBucket i headers =>
    refine ⟨keys, ?_⟩
    rw [handle, handle, recordBucket_eq, recordBucket_eq]
    exact without_changeBucket h i fun _ => rfl
  | exhaustBucket i wait =>
    refine ⟨keys, ?_⟩
    rw [handle, handle, exhaustBucket_eq, exhaustBucket_eq]
    exact without_changeBucket h i fun _ => rfl
  | advance time => exact ⟨keys, without_advanceWith h _ _⟩

/-! #### What is done for callers of exempt requests -/

theorem without_happen_of_extra (h : Aloof extra x) (hr : Resting x) (he : e.Exempts extra) (hc : c ∈ e.caller?)
    (hx : extra c) : (x.happen e).without extra keys = x.without extra keys := by
  have hready : (x.without extra keys).agenda.ready = [] := hr.rest.ready
  unfold happen
  rw [without_settle (h.withLimits (Limits.aloof_step h.limits he x.now)), without_withLimits,
    Limits.without_step_of_extra h.limits he hc hx x.now]
  show ((x.without extra keys).withLimits (x.without extra keys).limits).settle = _
  rw [withLimits_self (y := x.without extra keys) hr.woken]
  exact settleWith_of_nil hready _

theorem without_useTicket_of_extra {α : Type} (h : Aloof extra x) (hr : Resting x) (he : e.Exempts extra)
    (hc : c ∈ e.caller?) (hx : extra c) (a : α) :
    (x.useTicket c e a).1.without extra keys = x.without extra keys := by
  rcases useTicket_eq x c e a with heq | heq | heq
  · rw [heq]
  · rw [heq]
    exact without_happen_of_extra (e := .withdraw c) h hr trivial rfl hx
  · rw [heq]
    exact without_happen_of_extra h hr he hc hx

theorem Aloof.task_ne (h : Aloof extra x) (hx : extra c) : ∀ alarm ∈ x.agenda.alarms, alarm.task ≠ c := by
  intro alarm hmem htask
  have hnone := h.alarms alarm hmem
  rw [htask, hx] at hnone
  cases hnone

theorem Aloof.unset (h : Aloof extra x) (hx : extra c) : x.agenda.unset c .step = x.agenda := by
  have hall : (x.agenda.alarms.filter fun alarm => ¬(alarm.task = c ∧ alarm.purpose = .step)) = x.agenda.alarms :=
    List.filter_eq_self.2 fun alarm hmem => decide_eq_true fun ht => h.task_ne hx alarm hmem ht.1
  unfold Agenda.unset
  rw [hall]

theorem Aloof.forget (h : Aloof extra x) (hr : Resting x) (hx : extra c) : x.agenda.forget c = x.agenda := by
  have hall : x.agenda.alarms.filter (·.task ≠ c) = x.agenda.alarms :=
    List.filter_eq_self.2 fun alarm hmem => decide_eq_true (h.task_ne hx alarm hmem)
  unfold Agenda.forget
  rw [hall, hr.rest.ready, List.filter_nil, ← hr.rest.ready]

/-- Who waits or holds slots asks in vain. -/
theorem ask_of_busy (hwoken : x.limits.woken = []) (hb : x.limits.isBusy c) (wanted : Wanted) :
    x.ask c wanted (.arrive c wanted) = x := by
  have hstep : x.limits.step x.now (.arrive c wanted) = (x.limits, .unchanged) := by
    simp [Limits.step_eq, Limits.leap, hb]
  rw [ask_eq, hstep]
  exact withLimits_self hwoken

/-- An exempt request is granted at once. -/
theorem ask_exempt (hwoken : x.limits.woken = []) (hb : x.limits.isBusy c = false) (key : RouteKey) :
    x.ask c (.route key .exempt) (.arrive c (.route key .exempt)) =
      { x with
        agenda := x.agenda.unset c .step
        limits := { x.limits with tickets := x.limits.tickets ++ [⟨c, .route key .exempt, none⟩] }
        grants := x.grants ++ [⟨c, x.now, key.text⟩] } := by
  let y : Session :=
    { x with limits := { x.limits with tickets := x.limits.tickets ++ [⟨c, .route key .exempt, none⟩] } }
  have hgranted : x.withLimits y.limits = y := withLimits_self (y := y) hwoken
  rw [ask_eq, Limits.step_exempt hb]
  dsimp only
  rw [hgranted]
  rfl

theorem acquire_of_busy (hr : Resting x) (hb : x.limits.isBusy c) (wanted : Wanted) :
    ∃ keys, x.acquire c wanted = { x with keys } := by
  obtain ⟨keys, heq⟩ := acquire_eq x c wanted
  have hready : ({ x with keys } : Session).agenda.ready = [] := hr.rest.ready
  refine ⟨keys, heq.trans ?_⟩
  rw [ask_of_busy (x := { x with keys }) hr.woken hb]
  exact settleWith_of_nil hready _

theorem acquire_exempt (hr : Resting x) (hb : x.limits.isBusy c = false) (key : RouteKey) :
    ∃ keys, x.acquire c (.route key .exempt) =
      { x with
        keys
        agenda := x.agenda.unset c .step
        limits := { x.limits with tickets := x.limits.tickets ++ [⟨c, .route key .exempt, none⟩] }
        grants := x.grants ++ [⟨c, x.now, key.text⟩] } := by
  obtain ⟨keys, heq⟩ := acquire_eq x c (.route key .exempt)
  let y : Session :=
    { x with
      keys
      agenda := x.agenda.unset c .step
      limits := { x.limits with tickets := x.limits.tickets ++ [⟨c, .route key .exempt, none⟩] }
      grants := x.grants ++ [⟨c, x.now, key.text⟩] }
  have hready : y.agenda.ready = [] := hr.rest.ready
  have hasked : ({ x with keys } : Session).ask c (.route key .exempt) (.arrive c (.route key .exempt)) = y :=
    ask_exempt (x := { x with keys }) hr.woken hb key
  refine ⟨keys, heq.trans ?_⟩
  rw [hasked]
  exact settleWith_of_nil hready _

/-- What is done for callers of exempt requests changes nothing for others. -/
theorem without_handle_of_extra (h : Aloof extra x) (hr : Resting x) {a : Action} (ha : a.Exempts extra)
    (hc : c ∈ a.caller?) (hx : extra c) (keys : List RouteKey) :
    (x.handle a).without extra keys = x.without extra keys := by
  cases a with
  | acquire c wanted =>
    cases hc
    obtain ⟨key, rfl⟩ := Wanted.exists_of_isExempt (ha hx)
    cases hb : x.limits.isBusy c with
    | true =>
      obtain ⟨noted, heq⟩ := acquire_of_busy hr hb (.route key .exempt)
      simp only [handle, heq]
      rfl
    | false =>
      obtain ⟨noted, heq⟩ := acquire_exempt hr hb key
      simp only [handle, heq, h.unset hx]
      simp [without, Limits.without, hx]
  | record c headers =>
    cases hc
    exact without_useTicket_of_extra (e := .record c _) h hr trivial rfl hx _
  | refuse c headers body =>
    cases hc
    exact without_useTicket_of_extra (e := .refuse c _ _) h hr trivial rfl hx _
  | drop c =>
    cases hc
    simp only [handle, drop, h.forget hr hx]
    exact without_happen_of_extra (e := .withdraw c) h hr trivial rfl hx
  | block | recordBucket | exhaustBucket | advance => cases hc

/-! #### Whole sessions -/

/-- Whether an action is one of a caller that `mine` says. -/
def Action.isOf (mine : Caller → Bool) (a : Action) : Bool := a.caller?.any mine

theorem aloof_fresh (extra : Caller → Bool) (epoch : Int) (limit : Nat) : Aloof extra (fresh epoch limit) :=
  ⟨⟨fun _ hp => absurd hp List.not_mem_nil, fun _ ht => absurd ht List.not_mem_nil⟩,
    fun _ hmem => absurd hmem List.not_mem_nil⟩

/-- Without what is done for callers of exempt requests, all others come to the same. -/
theorem without_handleAll {actions : List Action} (h : Aloof extra x) (hr : Resting x)
    (hactions : ∀ a ∈ actions, a.Exempts extra) (keys : List RouteKey) :
    ∃ keys', (x.handleAll actions).without extra keys' =
      (x.without extra keys).handleAll (actions.filter fun a => !a.isOf extra) := by
  induction actions generalizing x keys with
  | nil => exact ⟨keys, rfl⟩
  | cons a actions ih =>
    have ha := hactions a List.mem_cons_self
    have hrest (keys : List RouteKey) :=
      ih (h.handle ha) (resting_handle hr a) (fun b hb => hactions b (List.mem_cons_of_mem _ hb)) keys
    cases hof : a.isOf extra with
    | true =>
      obtain ⟨c, hc, hx⟩ := (Option.any_eq_true _ _).1 hof
      obtain ⟨keys', heq⟩ := hrest keys
      rw [without_handle_of_extra h hr ha hc hx] at heq
      exact ⟨keys', by simpa [hof, handleAll_cons] using heq⟩
    | false =>
      have hnone : ∀ c ∈ a.caller?, extra c = false := by
        simpa [Action.isOf, Option.any_eq_false] using hof
      obtain ⟨noted, hstep⟩ := without_handle h ha hnone keys
      obtain ⟨keys', heq⟩ := hrest noted
      rw [hstep] at heq
      exact ⟨keys', by simpa [hof, handleAll_cons] using heq⟩

/-! #### Single moves -/

/-- The caller that a move is one of. -/
def Move.caller? : Move → Option Caller
  | .asks c _ | .goesOn c | .records c _ | .refuses c _ _ | .drops c => some c
  | .blocks _ | .passes _ => none

/-- Of some callers only exempt requests come in; and these never wait, so they never go on. -/
def Move.Exempts (extra : Caller → Bool) : Move → Prop
  | .asks c wanted => extra c → wanted.isExempt
  | .goesOn c => extra c = false
  | _ => True

instance (extra : Caller → Bool) : (m : Move) → Decidable (m.Exempts extra)
  | .asks _ _ => inferInstanceAs (Decidable (_ → _))
  | .goesOn _ => inferInstanceAs (Decidable (_ = _))
  | .records _ _ | .refuses _ _ _ | .drops _ | .blocks _ | .passes _ => isTrue trivial

/-- Some callers wait nowhere and hold slots of nothing, and so they are never given a turn. -/
structure Secluded (extra : Caller → Bool) (x : Session) : Prop extends Aloof extra x where
  woken : x.limits.woken = []
  calls : Limits.Calls (extra · = false) x.limits
  ready : ∀ c ∈ x.agenda.ready, extra c = false

theorem Secluded.withLimits {s : Limits} (h : Secluded extra x) (hs : Limits.Aloof extra s)
    (hcalls : Limits.Calls (extra · = false) s) : Secluded extra (x.withLimits s) := by
  refine ⟨h.toAloof.withLimits hs, rfl, ⟨fun c hc => (by cases hc), hcalls.ceiling, hcalls.buckets⟩, fun c hc => ?_⟩
  rcases Agenda.mem_ready_wakeAll.1 hc with hc | hc
  · exact h.ready c hc
  · exact hcalls.woken c hc

theorem Secluded.heed (h : Secluded extra x) (hc : ∀ till, turn = .asleep till → extra c = false)
    (wanted : Wanted) : Secluded extra (x.heed c wanted turn) := by
  have haloof := h.toAloof.heed hc wanted
  cases turn with
  | granted | asleep | queued => exact ⟨haloof, h.woken, h.calls, h.ready⟩
  | unchanged => exact h

theorem Secluded.calls_step (h : Secluded extra x) (he : e.Exempts extra) :
    Limits.Calls (extra · = false) (x.limits.step x.now e).1 := by
  refine Limits.calls_step h.calls h.limits.waiting x.now fun c wanted heq hw => ?_
  subst heq
  cases hc : extra c with
  | false => rfl
  | true =>
    obtain ⟨key, rfl⟩ := Wanted.exists_of_isExempt (he hc)
    exact absurd rfl (hw key)

theorem Secluded.meets (h : Secluded extra x) (he : e.Exempts extra) : Secluded extra (x.meets e) :=
  h.withLimits (Limits.aloof_step h.limits he x.now) (h.calls_step he)

theorem Secluded.poll (h : Secluded extra x) (c : Caller) : Secluded extra (x.poll c) := by
  unfold Session.poll
  split
  · exact h
  · rename_i p hp
    have hcaller : p.caller = c := by simpa using List.find?_some hp
    have hc : extra c = false := hcaller ▸ h.limits.waiting p (List.mem_of_find?_eq_some hp)
    rw [ask_eq]
    exact (h.meets (e := .poll c) trivial).heed (fun _ _ => hc) p.wanted

theorem Secluded.arrive (h : Secluded extra x) (hw : extra c → wanted.isExempt) :
    Secluded extra (x.ask c wanted (.arrive c wanted)) := by
  have haloof := h.toAloof.arrive hw
  have hmeets := h.meets (e := .arrive c wanted) hw
  rw [ask_eq] at haloof ⊢
  -- only the agenda depends on what came of it, and there nobody is made ready
  cases hturn : (x.limits.step x.now (.arrive c wanted)).2 with
  | granted | asleep | queued =>
    rw [hturn] at haloof
    exact ⟨haloof, hmeets.woken, hmeets.calls, hmeets.ready⟩
  | unchanged => exact hmeets

theorem Secluded.rung (h : Secluded extra x) (due : Instant) : Secluded extra (x.rung due) := by
  refine ⟨h.toAloof.rung due, h.woken, h.calls, fun c hc => ?_⟩
  change c ∈ (x.agenda.ring due).ready at hc
  rw [Agenda.ring_eq, Agenda.mem_ready_wakeAll] at hc
  rcases hc with hc | hc
  · exact h.ready c hc
  · obtain ⟨alarm, hmem, rfl⟩ := List.mem_map.1 hc
    exact h.alarms alarm (List.mem_filter.1 hmem).1

theorem Secluded.noted (h : Secluded extra x) (keys : List RouteKey) : Secluded extra { x with keys } :=
  ⟨⟨h.limits, h.alarms⟩, h.woken, h.calls, h.ready⟩

theorem Secluded.taken (h : Secluded extra x) (c : Caller) : Secluded extra (x.taken c) :=
  ⟨⟨h.limits, h.alarms⟩, h.woken, h.calls, fun d hd => h.ready d (List.mem_of_mem_erase hd)⟩

theorem Secluded.forget (h : Secluded extra x) (c : Caller) :
    Secluded extra { x with agenda := x.agenda.forget c } :=
  ⟨⟨h.limits, fun alarm hmem => h.alarms alarm (List.mem_filter.1 hmem).1⟩, h.woken, h.calls,
    fun d hd => h.ready d (List.mem_filter.1 hd).1⟩

/-- Whatever comes next, callers of whom only exempt requests come in are never given a turn. -/
theorem Secluded.make (h : Secluded extra x) {m : Move} (hm : m.Exempts extra) : Secluded extra (x.make m) := by
  cases m with
  | asks c wanted =>
    obtain ⟨keys, heq⟩ := exists_note_eq x wanted
    simp only [Session.make, heq]
    exact (h.noted keys).arrive hm
  | goesOn c => exact (h.taken c).poll c
  | records c headers => exact h.meets (e := .record c _) trivial
  | refuses c headers body => exact h.meets (e := .refuse c _ _) trivial
  | drops c => exact (h.forget c).meets (e := .withdraw c) trivial
  | blocks wait => exact h.meets (e := .block wait) trivial
  | passes till => exact h.rung till

theorem without_meets (hc : ∀ c ∈ e.caller?, extra c = false) (x : Session) :
    (x.meets e).without extra keys = (x.without extra keys).meets e := by
  have hstep := Limits.without_step hc x.limits x.now
  unfold meets
  rw [without_withLimits]
  show _ = (x.without extra keys).withLimits ((x.limits.without extra).step x.now e).1
  rw [hstep]

/-- A move of other callers, or of none, comes to the same. -/
theorem without_make (h : Secluded extra x) {m : Move} (hc : ∀ c ∈ m.caller?, extra c = false)
    (keys : List RouteKey) : ∃ keys', (x.make m).without extra keys' = (x.without extra keys).make m := by
  cases m with
  | asks c wanted =>
    obtain ⟨noted, heq⟩ := exists_note_eq x wanted
    obtain ⟨noted', heq'⟩ := exists_note_eq (x.without extra keys) wanted
    refine ⟨noted', ?_⟩
    simp only [make, heq, heq']
    rw [without_ask (e := .arrive c wanted) (hc c rfl) hc]
    rfl
  | goesOn c => exact ⟨keys, without_poll (h.taken c).toAloof c⟩
  | records c headers => exact ⟨keys, without_meets (e := .record c _) hc x⟩
  | refuses c headers body => exact ⟨keys, without_meets (e := .refuse c _ _) hc x⟩
  | drops c => exact ⟨keys, without_meets (e := .withdraw c) hc { x with agenda := x.agenda.forget c }⟩
  | blocks wait => exact ⟨keys, without_meets (e := .block wait) hc x⟩
  | passes till => exact ⟨keys, rfl⟩

theorem without_meets_of_extra (h : Secluded extra x) (he : e.Exempts extra) (hc : c ∈ e.caller?) (hx : extra c) :
    (x.meets e).without extra keys = x.without extra keys := by
  unfold meets
  rw [without_withLimits, Limits.without_step_of_extra h.limits he hc hx x.now]
  exact withLimits_self (y := x.without extra keys) h.woken

theorem Secluded.forget_eq (h : Secluded extra x) (hx : extra c) : x.agenda.forget c = x.agenda := by
  have halarms : x.agenda.alarms.filter (·.task ≠ c) = x.agenda.alarms :=
    List.filter_eq_self.2 fun alarm hmem => decide_eq_true (h.toAloof.task_ne hx alarm hmem)
  have hready : x.agenda.ready.filter (· ≠ c) = x.agenda.ready := by
    refine List.filter_eq_self.2 fun d hd => decide_eq_true ?_
    rintro rfl
    cases hx.symm.trans (h.ready d hd)
  unfold Agenda.forget
  rw [halarms, hready]

/-- A move of a caller of exempt requests changes nothing for others. -/
theorem without_make_of_extra (h : Secluded extra x) {m : Move} (hm : m.Exempts extra) (hc : c ∈ m.caller?)
    (hx : extra c) (keys : List RouteKey) : (x.make m).without extra keys = x.without extra keys := by
  cases m with
  | asks c wanted =>
    cases hc
    obtain ⟨key, rfl⟩ := Wanted.exists_of_isExempt (hm hx)
    obtain ⟨noted, heq⟩ := exists_note_eq x (.route key .exempt)
    simp only [make, heq]
    cases hb : x.limits.isBusy c with
    | true =>
      rw [ask_of_busy (x := { x with keys := noted }) h.woken hb]
      rfl
    | false =>
      rw [ask_exempt (x := { x with keys := noted }) h.woken hb]
      simp [without, Limits.without, hx, h.toAloof.unset hx]
  | goesOn c =>
    cases hc
    cases hx.symm.trans hm
  | records c headers =>
    cases hc
    exact without_meets_of_extra (e := .record c _) h trivial rfl hx
  | refuses c headers body =>
    cases hc
    exact without_meets_of_extra (e := .refuse c _ _) h trivial rfl hx
  | drops c =>
    cases hc
    simp only [make, h.forget_eq hx]
    exact without_meets_of_extra (e := .withdraw c) h trivial rfl hx
  | blocks | passes => cases hc

/-- Whatever moves are made: without those of callers of exempt requests, they can be made just if all can, and
come to the same for all others. -/
theorem without_follow {moves : List Move} (h : Secluded extra x) (hmoves : ∀ m ∈ moves, m.Exempts extra)
    (keys : List RouteKey) :
    let z := (x.without extra keys).follow (moves.filter fun m => !m.caller?.any extra)
    (x.follow moves).isSome = z.isSome ∧
      ∀ y, x.follow moves = some y → ∃ keys', z = some (y.without extra keys') := by
  induction moves generalizing x keys with
  | nil => exact ⟨rfl, fun y hy => ⟨keys, by cases hy; rfl⟩⟩
  | cons m moves ih =>
    have hm := hmoves m List.mem_cons_self
    have hrest := ih (h.make hm) fun m' hm' => hmoves m' (List.mem_cons_of_mem _ hm')
    cases hof : m.caller?.any extra with
    | true =>
      obtain ⟨c, hc, hx⟩ := (Option.any_eq_true _ _).1 hof
      have hcan : x.can m := by
        cases m with
        | goesOn d =>
          cases hc
          cases hx.symm.trans hm
        | passes till => cases hc
        | asks | records | refuses | drops | blocks => rfl
      have hsame := hrest keys
      rw [without_make_of_extra h hm hc hx] at hsame
      rw [List.filter_cons_of_neg (by simp [hof]), follow, if_pos hcan]
      exact hsame
    | false =>
      have hnone : ∀ c ∈ m.caller?, extra c = false := by
        simpa [Option.any_eq_false] using hof
      obtain ⟨keys', hmade⟩ := without_make h hnone keys
      have hsame := hrest keys'
      rw [hmade] at hsame
      rw [List.filter_cons_of_pos (by simp [hof]), follow, follow, show (x.without extra keys).can m = x.can m from rfl]
      cases hcan : x.can m with
      | true => simpa [hcan] using hsame
      | false => simp

theorem secluded_fresh (extra : Caller → Bool) (epoch : Int) (limit : Nat) :
    Secluded extra (fresh epoch limit) :=
  ⟨aloof_fresh extra epoch limit, rfl, ⟨fun _ hc => (by cases hc), fun _ hc => (by cases hc), fun _ hb => (by cases hb)⟩,
    fun _ hc => (by cases hc)⟩

theorem woken_make (h : x.limits.woken = []) (m : Move) : (x.make m).limits.woken = [] := by
  cases m with
  | asks c wanted => exact woken_ask ..
  | goesOn c => exact woken_poll (x := x.taken c) h c
  | records | refuses | drops | blocks => rfl
  | passes till => exact h

/-- In `y` all but the callers of exempt requests wait for the same moments, were granted the same slots at the
same moments, and hold the same; the account, the buckets and the tables of routes and names are in the same
state as in `x`. -/
structure SameForOthers (extra : Caller → Bool) (x y : Session) : Prop where
  agenda : y.agenda = x.agenda
  grants : y.grants = x.grants.filter (!extra ·.caller)
  limits : y.limits = x.limits.without extra

/-- **Exempt requests interfere nowhere.** Take whatever happens in a session in which some callers, the `extra`
ones, ask for exempt requests only, whatever the responses to these say. Callers come in, get their responses
and leave, and those that are woken have their turns, in any order. Without all that the `extra` callers do,
the rest can happen just as it did, and comes to the same for all others; so it is if everybody goes on as soon
as it can. An exempt request is granted at once, in any state. And whatever happens for a request that is
subject to the limit of its route only, in any state, the limit of the account and who waits for it stay as
they are. -/
theorem exempt_requests_interfere_nowhere (epoch : Int) (limit : Nat) (extra : Caller → Bool) :
    (∀ moves : List Move, (∀ m ∈ moves, m.Exempts extra) →
      let others := (fresh epoch limit).follow (moves.filter fun m => !m.caller?.any extra)
      ((fresh epoch limit).follow moves).isSome = others.isSome ∧
        ∀ x, (fresh epoch limit).follow moves = some x → ∃ y, others = some y ∧ SameForOthers extra x y) ∧
    (∀ actions : List Action, (∀ a ∈ actions, a.Exempts extra) →
      SameForOthers extra ((fresh epoch limit).handleAll actions)
        ((fresh epoch limit).handleAll (actions.filter fun a => !a.isOf extra))) ∧
    (∀ moves x c key, (fresh epoch limit).follow moves = some x → x.limits.isBusy c = false →
      (x.make (.asks c (.route key .exempt))).now = x.now ∧
      (x.make (.asks c (.route key .exempt))).grants = x.grants ++ [⟨c, x.now, key.text⟩] ∧
      (x.make (.asks c (.route key .exempt))).limits =
        { x.limits with tickets := x.limits.tickets ++ [⟨c, .route key .exempt, none⟩] }) ∧
    ∀ es now e key, ((Limits.ofLimit limit).run es).wanted? e = some (.route key .routeOnly) →
      ((((Limits.ofLimit limit).run es).step now e).1.ceiling = ((Limits.ofLimit limit).run es).ceiling ∧
        (((Limits.ofLimit limit).run es).step now e).1.ceilingGate = ((Limits.ofLimit limit).run es).ceilingGate) := by
  refine ⟨fun moves hmoves => ?_, fun actions hactions => ?_, fun moves x c key hx hb => ?_,
    fun es now e key hw => ?_⟩
  · obtain ⟨hpossible, hsame⟩ := without_follow (secluded_fresh extra epoch limit) hmoves []
    refine ⟨hpossible, fun x hx => ?_⟩
    obtain ⟨keys, hy⟩ := hsame x hx
    exact ⟨x.without extra keys, hy, rfl, rfl, rfl⟩
  · obtain ⟨keys, heq⟩ := without_handleAll (aloof_fresh extra epoch limit) (resting_fresh epoch limit) hactions []
    have hy : ((fresh epoch limit).handleAll actions).without extra keys =
        (fresh epoch limit).handleAll (actions.filter fun a => !a.isOf extra) := heq
    rw [← hy]
    exact ⟨rfl, rfl, rfl⟩
  · have hwoken : x.limits.woken = [] :=
      follow_induction (P := fun y => y.limits.woken = []) (fun _ m _ hw _ => woken_make hw m) rfl hx
    obtain ⟨keys, heq⟩ := exists_note_eq x (.route key .exempt)
    simp only [make, heq]
    rw [ask_exempt (x := { x with keys }) hwoken hb]
    exact ⟨rfl, rfl, rfl⟩
  · exact Limits.account_of_routeOnly (Limits.passes_run limit es) hw now

/-- A webhook's request is refused for the whole account, and its next one for its route, on which another
request is under way; the latter comes in while somebody who was given a turn is still to have it. All others
get their slots as if the webhook had not been there. -/
theorem refused_exempt_request_delays_nobody :
    let messages : RouteKey := ⟨.post, "channels/10/messages"⟩
    let hook : RouteKey := ⟨.post, "webhooks/20/token"⟩
    let extra (c : Caller) : Bool := c = 9
    let moves : List Move := [.asks 0 (.route messages .all), .asks 9 (.route hook .exempt),
      .refuses 9 [⟨"x-ratelimit-global", "true"⟩] .empty, .asks 1 (.route messages .routeOnly),
      .records 0 [⟨"x-ratelimit-remaining", "3"⟩], .asks 9 (.route messages .exempt), .refuses 9 [] .empty,
      .goesOn 1, .asks 2 (.route hook .all), .passes 1000000000, .goesOn 2]
    ∃ x, (fresh 0 1).follow moves = some x ∧ x.grants.filter (!extra ·.caller) =
      [⟨0, 0, messages.text⟩, ⟨1, 0, messages.text⟩, ⟨2, 1000000000, hook.text⟩] := by
  intro messages hook extra moves
  have hextra : ∀ m ∈ moves, m.Exempts extra := by decide +kernel
  have hgrants : ((fresh 0 1).follow (moves.filter fun m => !m.caller?.any extra)).map (·.grants) =
      some [⟨0, 0, messages.text⟩, ⟨1, 0, messages.text⟩, ⟨2, 1000000000, hook.text⟩] := by decide +kernel
  obtain ⟨y, hy, hothers⟩ := Option.map_eq_some_iff.1 hgrants
  obtain ⟨hpossible, hsame⟩ := (exempt_requests_interfere_nowhere 0 1 extra).1 moves hextra
  obtain ⟨x, hx⟩ := Option.isSome_iff_exists.1 (hpossible.trans (by rw [hy]; rfl))
  obtain ⟨y', hy', hsame⟩ := hsame x hx
  cases hy.symm.trans hy'
  exact ⟨x, hx, hsame.grants.symm.trans hothers⟩

end Session

end ChatApi.Limit
