import ChatApi.Proofs.Limit.Touch

/-!
# How callers come to their tickets

A caller that asks passes the gate of the account, if it is subject to that limit, goes to the bucket
that its route has by then, and gets its ticket there or waits. `Limits.Course` says so for one caller
that asks; `issued_step` and `pending_step` say what follows for any event: where the caller of a ticket
was before, and how a caller that waits at a bucket got there.
-/

namespace ChatApi.Limit.Limits

/-- A caller may go to bucket `j` now, since its request is not subject to the limit of the account or
that limit has a slot for it. -/
def Enters (s : Limits) (now : Instant) (wanted : Wanted) (j : Nat) : Prop :=
  ∃ key scope, wanted = .route key scope ∧ j = (s.bucketFor key).1 ∧
    (scope = .routeOnly ∨ (s.ceiling.reserve now).2 = none)

/-- How a caller comes to a slot of a bucket, or to a ticket without one. -/
inductive Way (s : Limits) (now : Instant) (p : Pending) : Option Nat → Prop
  | exempt (key : RouteKey) (h : p.wanted = .route key .exempt) : Way s now p none
  | account (h : p.wanted = .account) : Way s now p none
  | waited (j : Nat) (h : p.stage = .bucket j) : Way s now p (some j)
  | enters (j : Nat) (h : s.Enters now p.wanted j) : Way s now p (some j)

/-- What comes of it when the caller of `p` asks. -/
structure Course (s : Limits) (now : Instant) (p : Pending) (o : Limits × Turn) : Prop where
  issued : ∀ t, issuedBy o = some t → t.caller = p.caller ∧ t.wanted = p.wanted ∧ s.Way now p t.bucket
  pending : ∀ q ∈ o.1.pending, q ∈ s.pending ∨
    ∃ j, s.Enters now p.wanted j ∧ ∃ q' ∈ s.pending, q'.caller = p.caller ∧
      q = { q' with stage := .bucket j }
  tickets : ∀ t ∈ o.1.tickets, t ∈ s.tickets ∨ issuedBy o = some t
  ceiling : o.1.ceiling = s.ceiling ∨ o.1.ceiling = (s.ceiling.reserve now).1

variable {s u : Limits} {now : Instant} {e : Event} {p q : Pending} {t : Ticket} {i : Nat}
  {o : Limits × Turn}

theorem bucketFor_fst_congr (hr : u.routes = s.routes) (hl : u.buckets.length = s.buckets.length)
    (key : RouteKey) : (u.bucketFor key).1 = (s.bucketFor key).1 := by
  unfold bucketFor
  rw [hr, hl]
  split <;> rfl

/-- A caller that is not let through changes nothing about who waits. -/
theorem Course.of_refused {turn : Turn} (hturn : turn ≠ .granted) (hp : u.pending = s.pending)
    (ht : u.tickets = s.tickets)
    (hc : u.ceiling = s.ceiling ∨ u.ceiling = (s.ceiling.reserve now).1) : Course s now p (u, turn) := by
  refine ⟨fun t hi => ?_, fun q hq => .inl (hp ▸ hq), fun t hmem => .inl (ht ▸ hmem), hc⟩
  rw [issuedBy_of_ne hturn] at hi
  cases hi

theorem Course.of_granted {bucket : Option Nat} (hw : s.Way now p bucket)
    (hp : ∀ q ∈ u.pending, q.caller ≠ p.caller → q ∈ s.pending) (ht : u.tickets = s.tickets)
    (hc : u.ceiling = s.ceiling ∨ u.ceiling = (s.ceiling.reserve now).1) :
    Course s now p (u.grant p bucket, .granted) := by
  refine ⟨fun t hi => ?_, fun q hq => .inl ?_, fun t hmem => ?_, hc⟩
  · rw [issuedBy_grant] at hi
    cases hi
    exact ⟨rfl, rfl, hw⟩
  · obtain ⟨hq, hne⟩ := List.mem_filter.1 hq
    exact hp q hq (by simpa using hne)
  · rcases List.mem_append.1 hmem with hmem | hmem
    · exact .inl (ht ▸ hmem)
    · cases List.mem_singleton.1 hmem
      exact .inr (issuedBy_grant ..)

theorem course_pollBucket (hs : p.stage = .bucket i) : Course s now p (s.pollBucket now p i) := by
  obtain ⟨u, hu, hv⟩ := visited_pollBucket s now p i
  cases hl : ((s.site i).arrive false p.caller).lets now p.caller with
  | true =>
    rw [hv.granted hl]
    exact .of_granted (.waited i hs) (fun q hq _ => hu.pending ▸ hq) hu.tickets (.inl hu.ceiling)
  | false =>
    obtain ⟨turn, hturn, ho⟩ := hv.refused hl
    rw [ho]
    exact .of_refused hturn hu.pending hu.tickets (.inl hu.ceiling)

/-- A caller goes to the bucket of its route from `u`, which differs from `s` in the account at most. -/
theorem course_enterBucket {key : RouteKey} (hp : u.pending = s.pending) (hr : u.routes = s.routes)
    (hb : u.buckets = s.buckets) (ht : u.tickets = s.tickets)
    (hc : u.ceiling = s.ceiling ∨ u.ceiling = (s.ceiling.reserve now).1)
    (he : s.Enters now p.wanted (s.bucketFor key).1) : Course s now p (u.enterBucket now p key) := by
  obtain ⟨isNew, v, hv, hceiling, -, htickets, hpending⟩ := visited_enterBucket u now p key
  have hi : (u.bucketFor key).1 = (s.bucketFor key).1 := bucketFor_fst_congr hr (congrArg List.length hb) key
  rw [hi] at hv hpending
  rw [hp] at hpending
  rw [← hceiling] at hc
  rw [← htickets] at ht
  -- who waits stays as it is, but for the caller
  have hmem (q : Pending) (hq : q ∈ v.pending) : q ∈ s.pending ∨
      ∃ q' ∈ s.pending, q'.caller = p.caller ∧ q = { q' with stage := .bucket (s.bucketFor key).1 } := by
    rw [hpending] at hq
    obtain ⟨q', hq', rfl⟩ := List.mem_map.1 hq
    unfold Pending.goTo
    split
    · rename_i hcaller
      exact .inr ⟨q', hq', hcaller, rfl⟩
    · exact .inl hq'
  cases hl : ((u.site (s.bucketFor key).1).arrive isNew p.caller).lets now p.caller with
  | true =>
    rw [hv.granted hl]
    refine .of_granted (.enters _ he) (fun q hq hne => ?_) ht hc
    rcases hmem q hq with hq | ⟨q', -, hcaller, rfl⟩
    · exact hq
    · exact absurd hcaller hne
  | false =>
    obtain ⟨turn, hturn, ho⟩ := hv.refused hl
    rw [ho]
    refine ⟨fun t hi => ?_, fun q hq => ?_, fun t hmem => .inl (ht ▸ hmem), hc⟩
    · rw [issuedBy_of_ne hturn] at hi
      cases hi
    · exact (hmem q hq).imp_right fun hq => ⟨_, he, hq⟩

theorem course_pollCeiling (s : Limits) (now : Instant) (p : Pending) :
    Course s now p (s.pollCeiling now p) := by
  rcases pollCeiling_cases s now p with
    ho | ⟨-, ⟨till, -, ho⟩ | ⟨hnone, ⟨hw, ho⟩ | ⟨key, scope, hw, ho⟩⟩⟩
  · rw [ho]
    exact .of_refused (by simp) rfl rfl (.inl rfl)
  · rw [ho]
    exact .of_refused (by simp) rfl rfl (.inr rfl)
  · rw [ho]
    exact .of_granted (.account hw) (fun q hq _ => hq) rfl (.inr rfl)
  · rw [ho]
    exact course_enterBucket rfl rfl rfl rfl (.inr rfl) ⟨key, scope, hw, rfl, .inr hnone⟩

theorem Enters.congr {wanted : Wanted} (h : u.Enters now wanted i) (hr : u.routes = s.routes)
    (hb : u.buckets = s.buckets) (hc : u.ceiling = s.ceiling) : s.Enters now wanted i := by
  obtain ⟨key, scope, hw, rfl, hpass⟩ := h
  exact ⟨key, scope, hw, bucketFor_fst_congr hr (congrArg List.length hb) key, hc ▸ hpass⟩

theorem Way.congr {bucket : Option Nat} (h : u.Way now p bucket) (hr : u.routes = s.routes)
    (hb : u.buckets = s.buckets) (hc : u.ceiling = s.ceiling) : s.Way now p bucket := by
  cases h with
  | exempt key h => exact .exempt key h
  | account h => exact .account h
  | waited j h => exact .waited j h
  | enters j h => exact .enters j (h.congr hr hb hc)

theorem course_enterCeiling (s : Limits) (now : Instant) (p : Pending) :
    Course s now p (s.enterCeiling now p) := by
  have h := course_pollCeiling { s with ceilingGate := s.ceilingGate.join p.caller } now p
  have hissued : issuedBy (s.enterCeiling now p) = _ := issuedBy_inLine _
  refine ⟨fun t ht => ?_, fun q hq => ?_, fun t ht => ?_, h.ceiling⟩
  · obtain ⟨hc, hw, hway⟩ := h.issued t (hissued ▸ ht)
    exact ⟨hc, hw, hway.congr rfl rfl rfl⟩
  · exact (h.pending q hq).imp_right fun ⟨j, he, hq'⟩ => ⟨j, he.congr rfl rfl rfl, hq'⟩
  · exact (h.tickets t ht).imp_right fun ht => hissued.trans ht

/-- What comes of it when a new caller asks, who is among those who wait by then. -/
theorem course_arrive (s : Limits) (now : Instant) (c : Caller) (wanted : Wanted) :
    Course { s with pending := s.pending ++ [⟨c, wanted, .ceiling⟩] } now ⟨c, wanted, .ceiling⟩
      (s.arrive now c wanted) := by
  unfold arrive
  dsimp only
  split
  · rename_i key
    exact .of_granted (.exempt key rfl) (fun q hq _ => hq) rfl (.inl rfl)
  · rename_i key
    exact course_enterBucket rfl rfl rfl rfl (.inl rfl) ⟨key, .routeOnly, rfl, rfl, .inl rfl⟩
  · exact course_enterCeiling _ now _
  · exact course_enterCeiling _ now _

theorem course_poll {c : Caller} (hp : s.pending.find? (·.caller = c) = some p) :
    Course s now p (s.poll now c) := by
  unfold poll
  rw [hp]
  dsimp only
  split
  · exact course_pollCeiling s now p
  · rename_i i hs
    exact course_pollBucket hs

/-! ### Events -/

/-- An event at which nobody asks: it issues no ticket, and nobody gets to wait by it. -/
structure Settles (s : Limits) (now : Instant) (o : Limits × Turn) : Prop where
  issued : issuedBy o = none
  pending : ∀ q ∈ o.1.pending, q ∈ s.pending
  tickets : ∀ t ∈ o.1.tickets, t ∈ s.tickets
  ceiling : o.1.ceiling = s.ceiling ∨ ∃ wait, o.1.ceiling = s.ceiling.block now wait

/-- In `u` the caller of `p` asks at an event: it has waited before, or comes in only now. -/
structure Asks (s : Limits) (e : Event) (u : Limits) (p : Pending) : Prop where
  routes : u.routes = s.routes
  buckets : u.buckets = s.buckets
  ceiling : u.ceiling = s.ceiling
  tickets : u.tickets = s.tickets
  mem : ∀ q ∈ u.pending, q ∈ s.pending ∨ q = p
  self : p ∈ u.pending
  waits : p ∈ s.pending ∨
    e = .arrive p.caller p.wanted ∧ p.stage = .ceiling ∧ ∀ q ∈ s.pending, q.caller ≠ p.caller

theorem Settles.refl (s : Limits) (now : Instant) : Settles s now (s, .unchanged) :=
  ⟨rfl, fun _ hq => hq, fun _ ht => ht, .inl rfl⟩

theorem settles_release (hp : u.pending = s.pending) (ht : u.tickets = s.tickets)
    (hc : u.ceiling = s.ceiling ∨ ∃ wait, u.ceiling = s.ceiling.block now wait) (t : Ticket) :
    Settles s now (u.release t, .unchanged) := by
  obtain ⟨hceiling, -, hpending, htickets⟩ := release_frame u t
  refine ⟨rfl, fun q hq => ?_, fun t' hmem => ?_, ?_⟩
  · rwa [← hp, ← hpending]
  · rw [htickets] at hmem
    exact ht ▸ (List.mem_filter.1 hmem).1
  · show (u.release t).ceiling = _ ∨ ∃ wait, (u.release t).ceiling = _
    rw [hceiling]
    exact hc

theorem settles_withdraw (s : Limits) (now : Instant) (c : Caller) :
    Settles s now (s.withdraw c, .unchanged) := by
  cases ht : s.ticket? c with
  | some t =>
    rw [withdraw_of_ticket ht]
    exact settles_release rfl rfl (.inl rfl) t
  | none =>
    cases hp : s.pending.find? (·.caller = c) with
    | none =>
      rw [withdraw_of_absent ht hp]
      exact .refl s now
    | some p =>
      obtain ⟨hceiling, -, hpending, htickets⟩ := withdraw_frame ht hp
      refine ⟨rfl, fun q hq => ?_, fun t hmem => htickets ▸ hmem, .inl hceiling⟩
      exact (List.mem_filter.1 (hpending ▸ hq)).1

/-- Either nobody asks, or one caller does. -/
theorem step_cases (s : Limits) (now : Instant) (e : Event) :
    Settles s now (s.step now e) ∨ ∃ u p, Asks s e u p ∧ Course u now p (s.step now e) := by
  rw [step_eq]
  cases e with
  | arrive c wanted =>
    simp only [leap]
    cases hb : s.isBusy c with
    | true => exact .inl (.refl s now)
    | false =>
      refine .inr ⟨_, _, ?_, course_arrive s now c wanted⟩
      refine ⟨rfl, rfl, rfl, rfl, fun q hq => ?_, ?_, .inr ⟨rfl, rfl, fun q hq hc => ?_⟩⟩
      · simpa using hq
      · exact List.mem_append_right _ List.mem_cons_self
      · have : s.isBusy c = true := by
          simp only [isBusy, Bool.or_eq_true, List.any_eq_true, decide_eq_true_eq]
          exact .inl ⟨q, hq, hc⟩
        rw [hb] at this
        cases this
  | poll c =>
    simp only [leap]
    cases hp : s.pending.find? (·.caller = c) with
    | none =>
      have : s.poll now c = (s, .unchanged) := by simp [poll, hp]
      rw [this]
      exact .inl (.refl s now)
    | some p =>
      have hmem := List.mem_of_find?_eq_some hp
      exact .inr ⟨s, p, ⟨rfl, rfl, rfl, rfl, fun q hq => .inl hq, hmem, .inl hmem⟩, course_poll hp⟩
  | record c r =>
    simp only [leap]
    split
    · rename_i t _
      obtain ⟨hc, -, hp, ht⟩ := recordBucket_frame s now t r
      exact .inl (settles_release hp ht (.inl hc) t)
    · exact .inl (.refl s now)
  | refuse c r body =>
    simp only [leap]
    split
    · rename_i t _
      obtain ⟨hc, hp, ht⟩ := recordRefusal_frame s now t r body
      exact .inl (settles_release hp ht (hc.imp And.left fun h => ⟨_, h.1⟩) t)
    · exact .inl (.refl s now)
  | withdraw c => exact .inl (settles_withdraw s now c)
  | block wait => exact .inl ⟨rfl, fun q hq => hq, fun t ht => ht, .inr ⟨wait, rfl⟩⟩

/-- Whoever waits more than once wants the same each time. -/
def SingleMinded (s : Limits) : Prop :=
  ∀ p ∈ s.pending, ∀ q ∈ s.pending, p.caller = q.caller → p.wanted = q.wanted

/-- Who gets a ticket was waiting at its bucket before, or goes there now, or needs no slot of one. -/
theorem issued_step (h : s.issued now e = some t) :
    ∃ p, p.caller = t.caller ∧ p.wanted = t.wanted ∧
      (p ∈ s.pending ∨ e = .arrive p.caller p.wanted ∧ p.stage = .ceiling) ∧ s.Way now p t.bucket := by
  rcases step_cases s now e with hs | ⟨u, p, ha, hc⟩
  · cases hs.issued.symm.trans h
  · obtain ⟨hcaller, hwanted, hway⟩ := hc.issued t h
    exact ⟨p, hcaller.symm, hwanted.symm, ha.waits.imp_right fun h => ⟨h.1, h.2.1⟩,
      hway.congr ha.routes ha.buckets ha.ceiling⟩

/-- Whoever holds a ticket has held it before, or gets it now. -/
theorem tickets_step (ht : t ∈ (s.step now e).1.tickets) : t ∈ s.tickets ∨ s.issued now e = some t := by
  rcases step_cases s now e with hs | ⟨u, p, ha, hc⟩
  · exact .inl (hs.tickets t ht)
  · exact (hc.tickets t ht).imp_left fun ht => ha.tickets ▸ ht

/-- A caller that comes in waits nowhere yet. -/
theorem Asks.singleMinded (ha : Asks s e u p) (hm : SingleMinded s) : SingleMinded u := by
  have hp (q : Pending) (hq : q ∈ u.pending) (hcaller : q.caller = p.caller) : q.wanted = p.wanted := by
    rcases ha.mem q hq with hq | rfl
    · rcases ha.waits with hp | ⟨-, -, hnew⟩
      · exact hm q hq p hp hcaller
      · exact absurd hcaller (hnew q hq)
    · rfl
  intro q hq q' hq' hcaller
  by_cases hc : q.caller = p.caller
  · exact (hp q hq hc).trans (hp q' hq' (hcaller ▸ hc)).symm
  · have hmem (x : Pending) (hx : x ∈ u.pending) (hxc : x.caller ≠ p.caller) : x ∈ s.pending :=
      (ha.mem x hx).resolve_right fun h => hxc (h ▸ rfl)
    exact hm q (hmem q hq hc) q' (hmem q' hq' (hcaller ▸ hc)) hcaller

/-- Waiting somewhere else does not change who waits, and for what. -/
theorem Course.origin (hc : Course u now p o) (hq : q ∈ o.1.pending) :
    ∃ q' ∈ u.pending, q'.caller = q.caller ∧ q'.wanted = q.wanted := by
  rcases hc.pending q hq with hq | ⟨j, -, q', hq', -, rfl⟩
  · exact ⟨q, hq, rfl, rfl⟩
  · exact ⟨q', hq', rfl, rfl⟩

theorem singleMinded_step (hm : SingleMinded s) (now : Instant) (e : Event) :
    SingleMinded (s.step now e).1 := by
  rcases step_cases s now e with hs | ⟨u, p, ha, hc⟩
  · exact fun q hq q' hq' => hm q (hs.pending q hq) q' (hs.pending q' hq')
  · intro q hq q' hq' hcaller
    obtain ⟨x, hx, hxc, hxw⟩ := hc.origin hq
    obtain ⟨y, hy, hyc, hyw⟩ := hc.origin hq'
    rw [← hxw, ← hyw]
    exact ha.singleMinded hm x hx y hy (hxc.trans (hcaller.trans hyc.symm))

theorem singleMinded_run (limit : Nat) (es : List (Instant × Event)) :
    SingleMinded ((ofLimit limit).run es) := by
  have hstart : SingleMinded (ofLimit limit) := fun p hp => by cases hp
  exact run_induction (P := SingleMinded) (fun s now e h => singleMinded_step h now e) hstart es

/-- Whoever waits at a bucket was there before, or goes there now. -/
theorem pending_step (hm : SingleMinded s) (hq : q ∈ (s.step now e).1.pending) :
    q ∈ s.pending ∨ q.stage = .ceiling ∨ ∃ j, q.stage = .bucket j ∧ s.Enters now q.wanted j := by
  rcases step_cases s now e with hs | ⟨u, p, ha, hc⟩
  · exact .inl (hs.pending q hq)
  · rcases hc.pending q hq with hq | ⟨j, he, q', hq', hcaller, rfl⟩
    · rcases ha.mem q hq with hq | rfl
      · exact .inl hq
      · exact ha.waits.imp_right fun h => .inl h.2.1
    · refine .inr (.inr ⟨j, rfl, ?_⟩)
      show s.Enters now q'.wanted j
      rw [ha.singleMinded hm q' hq' p ha.self hcaller]
      exact he.congr ha.routes ha.buckets ha.ceiling

theorem ceiling_step (s : Limits) (now : Instant) (e : Event) :
    (s.step now e).1.ceiling = s.ceiling ∨ (s.step now e).1.ceiling = (s.ceiling.reserve now).1 ∨
      ∃ wait, (s.step now e).1.ceiling = s.ceiling.block now wait := by
  rcases step_cases s now e with hs | ⟨u, p, ha, hc⟩
  · exact hs.ceiling.imp_right .inr
  · have := hc.ceiling
    rw [ha.ceiling] at this
    exact this.imp_right .inl

end ChatApi.Limit.Limits
