import ChatApi.Proofs.Limit.Chart
import ChatApi.Proofs.Limit.Places
import ChatApi.Proofs.Limit.Turns

/-!
# Probes go alone, and callers go in order

A probe keeps the gate of its bucket until its response is taken over or it leaves, and nobody is let
through in the meantime (`run_of_prober`). Whoever waits is let through before those who get in line
later (`issued_before`). Both are proved of one touch of a bucket first, and then of whatever happens
to the limits of a client. Where other callers act between the acts of one, it is each act of anybody
that keeps the gate for the probe until its ticket is given back, and that is the last act of its job
(`Machine.Honest.prober_step`), and keeps callers in order (`Machine.Reachable.precedes_step`).

Main theorem: `probes_alone_callers_in_order`.
-/

namespace ChatApi.Limit

variable {x y : Site} {now : Instant} {e : Event} {g : Option Caller} {c d : Caller} {i : Nat}

/-! ### At one bucket -/

/-- A probe that does not come back keeps the gate, and nobody is let through. -/
theorem Touch.prober? (h : Touch x now e y g) (hp : x.gate.prober? = some c) (he : ¬ e.returns c) :
    y.gate.prober? = some c ∧ g = none := by
  cases h with
  | @visit d hd isNew =>
    have hp' : (x.arrive isNew d).gate.prober? = some c := (Site.prober?_arrive isNew).trans hp
    cases hl : (x.arrive isNew d).lets now d with
    | true => simp [(Site.look_of_lets hl).1] at hp'
    | false => exact ⟨(Site.look_of_not_lets hl).1.trans hp', by simp⟩
  | settle op _ d hd =>
    have hne : ¬ (d.isSome ∧ x.gate.prober? = d) := by
      rintro ⟨-, hdc⟩
      exact he (hd c (hdc ▸ hp))
    rw [Site.prober?_settle, if_neg hne]
    exact ⟨hp, rfl⟩

/-- A caller that is let through as a probe keeps the gate. -/
theorem Touch.prober?_of_probe (h : Touch x now e y g) (hg : g = some c)
    (hw : (x.window.reserve now).2 = .proceed true) : y.gate.prober? = some c := by
  cases h with
  | @visit d hd isNew =>
    cases hl : (x.arrive isNew d).lets now d with
    | false => simp [hl] at hg
    | true =>
      obtain ⟨-, rest, -, -, hprobe⟩ := Site.look_of_lets hl
      have hwindow : (x.arrive isNew d).window = x.window := by cases isNew <;> rfl
      rw [hwindow, if_pos hw] at hprobe
      rw [hl, if_pos rfl] at hg
      exact hprobe.trans hg
  | settle op _ d hd => cases hg

/-- Nobody gets in line but behind all others. -/
theorem Touch.waiting (h : Touch x now e y g) :
    ∃ l new, l.Sublist x.gate.waiting ∧ y.gate.waiting = l ++ Option.toList new ∧ ∀ d ∈ new, e.asks d := by
  cases h with
  | @visit d hd isNew =>
    have hw := Site.waiting_arrive (x := x) (c := d) isNew
    have hnew : (if isNew then [d] else []) = Option.toList (if isNew then some d else none) := by
      cases isNew <;> rfl
    have hasks : ∀ b ∈ (if isNew then some d else none), e.asks b := by
      cases isNew with
      | false => simp
      | true => simpa using hd
    rw [hnew] at hw
    cases hl : (x.arrive isNew d).lets now d with
    | false => exact ⟨_, _, List.Sublist.refl _, (Site.look_of_not_lets hl).2.trans hw, hasks⟩
    | true =>
      obtain ⟨-, rest, hrest, hlook, -⟩ := Site.look_of_lets hl
      rw [hrest] at hw
      cases hx : x.gate.waiting with
      | nil =>
        -- the caller was the only one, and is gone again
        refine ⟨[], none, List.Sublist.refl _, hlook.trans ?_, by simp⟩
        rw [hx] at hw
        cases isNew <;> simp_all
      | cons b l =>
        rw [hx, List.cons_append] at hw
        exact ⟨l, _, List.sublist_cons_self b l, hlook.trans (List.cons.inj hw).2, hasks⟩
  | settle op _ d hd =>
    rcases Site.waiting_settle x now op d with hw | ⟨c, -, hw⟩
    · exact ⟨_, none, List.Sublist.refl _, by simpa using hw, by simp⟩
    · exact ⟨_, none, List.erase_sublist, by simpa using hw, by simp⟩

/-- A caller that waits and does not leave is let through, or stays ahead of those behind it. -/
theorem Touch.precedes (h : Touch x now e y g) (hx : x.Precedes c d) (he : ¬ e.returns c) :
    g = some c ∨ y.Precedes c d ∧ g ≠ some d := by
  obtain ⟨ahead, behind, hw, hd⟩ := hx
  cases h with
  | @visit b hb isNew =>
    have hw' := Site.waiting_arrive (x := x) (c := b) isNew
    rw [hw, List.append_assoc, List.cons_append] at hw'
    cases hl : (x.arrive isNew b).lets now b with
    | false =>
      refine .inr ⟨⟨ahead, _, (Site.look_of_not_lets hl).2.trans hw', hd⟩, by simp⟩
    | true =>
      obtain ⟨-, rest, hrest, hlook, -⟩ := Site.look_of_lets hl
      rw [hrest] at hw'
      cases ahead with
      | nil => exact .inl (by simp [(List.cons.inj hw').1])
      | cons a ahead =>
        -- the first of those ahead is let through
        obtain ⟨rfl, hrest'⟩ := List.cons.inj hw'
        refine .inr ⟨⟨ahead, _, hlook.trans hrest', fun h => hd (List.mem_cons_of_mem _ h)⟩, ?_⟩
        simp only [if_true, ne_eq, Option.some.injEq]
        exact fun h => hd (h ▸ List.mem_cons_self)
  | settle op _ b hb =>
    refine .inr ⟨?_, by simp⟩
    rcases Site.waiting_settle x now op b with hw' | ⟨a, ha, hw'⟩
    · exact ⟨ahead, behind, hw'.trans hw, hd⟩
    · have hac : a ≠ c := fun hac => he (hac ▸ hb a ha)
      obtain ⟨ahead', behind', herase, hd'⟩ := ahead_erase behind hac hd
      exact ⟨ahead', behind', by rw [hw', hw, herase], hd'⟩

/-- What comes next when act follows on act leaves a probe alone at bucket `i`, and callers there in order. -/
structure Machine.Proper (m : Machine) (now : Instant) (m' : Machine) (i : Nat) : Prop where
  /-- A probe keeps its gate, and nobody is let through, unless its ticket is given back. That is the last act of
  its job, and by then all that its response says has been written. -/
  probe : ∀ c, (m.limits.site i).gate.prober? = some c →
    ((m'.limits.site i).gate.prober? = some c ∧
      ∀ t ∈ m'.limits.tickets, t.bucket = some i → t ∈ m.limits.tickets) ∨
    ∃ n e t done, m.jobs[n]? = some ⟨some e, [.giveBack t], done⟩ ∧ m' = m.goOn now n ∧ t.caller = c ∧
      t.bucket = some i ∧ e.returns c ∧
      ∀ r change, e.change? = some (r, change) → m.limits.Written i r change done
  /-- Nobody gets in line but behind all others. -/
  waiting : ∃ l new, l.Sublist (m.limits.site i).gate.waiting ∧
    (m'.limits.site i).gate.waiting = l ++ Option.toList new
  /-- Who waits has its ticket, or withdraws, or stays ahead of those behind it, who have none before. -/
  precedes : ∀ c d, (m.limits.site i).Precedes c d → d ≠ c →
    (∃ t ∈ m'.limits.tickets, t.caller = c ∧ t.bucket = some i) ∨
    (∃ n p done, m.jobs[n]? = some ⟨some (.withdraw c), [.quit p], done⟩ ∧ m' = m.goOn now n) ∨
    (m'.limits.site i).Precedes c d ∧
      ∀ t ∈ m'.limits.tickets, t.bucket = some i → t.caller = d → t ∈ m.limits.tickets

theorem Machine.Reachable.proper {m m' : Machine} {limit : Nat} (h : Machine.Reachable limit m) (hs : m.Step now m')
    (i : Nat) : m.Proper now m' i :=
  ⟨fun _ hp => h.honest.prober_step hp hs, h.sound.waiting_step hs i, fun _ _ hx hne => h.precedes_step hx hne hs⟩

namespace Limits

variable {s u : Limits} {t : Ticket} {r : Report} {es : List (Instant × Event)}

/-! ### Probes -/

theorem callerAt_of_issued (h : s.issued now e = some t) (hb : t.bucket = some i) :
    (s.issued now e).bind (·.callerAt i) = some t.caller := by
  simp [h, Ticket.callerAt, hb]

/-- While a probe is out, nobody is let through. -/
theorem run_of_prober (hp : (s.site i).gate.prober? = some c) (he : ∀ x ∈ es, ¬ x.2.returns c) :
    ((s.run es).site i).gate.prober? = some c ∧ ∀ t ∈ s.issues es, t.bucket ≠ some i := by
  induction es generalizing s with
  | nil => exact ⟨hp, by simp [issues]⟩
  | cons x es ih =>
    obtain ⟨now, e⟩ := x
    obtain ⟨hkept, hnone⟩ := (touches_step s now e i).prober? hp (he _ List.mem_cons_self)
    obtain ⟨hrun, hissues⟩ := ih hkept fun x hx => he x (List.mem_cons_of_mem _ hx)
    refine ⟨hrun, fun t ht hb => ?_⟩
    rcases List.mem_append.1 ht with ht | ht
    · have hc := callerAt_of_issued (Option.mem_toList.1 ht) hb
      exact Option.some_ne_none _ (hc.symm.trans hnone)
    · exact hissues t ht hb

/-- A ticket that is given on a window of which nothing is known makes its caller a probe. -/
theorem prober?_of_issued (h : s.issued now e = some t) (hb : t.bucket = some i)
    (hw : ((s.site i).window.reserve now).2 = .proceed true) :
    ((s.step now e).1.site i).gate.prober? = some t.caller :=
  (touches_step s now e i).prober?_of_probe (callerAt_of_issued h hb) hw

/-- In `u` the response to a request on bucket `i` has been taken over there, by `op`, and at the bucket
that its route is folded onto. -/
structure TakesOver (s u : Limits) (now : Instant) (i : Nat) (r : Report) (op : Window.Op) : Prop where
  own : (u.site i).window = ((s.site i).window.apply now op).1
  canonical : ∀ j, s.canonical? i r = some j → j ≠ i →
    (u.site j).window = (s.site j).window.record now r

/-- In `u` the probe with ticket `t` still keeps the gate of bucket `i`. It is opened on the way to `v`,
on which no window changes. -/
structure Opens (u v : Limits) (i : Nat) (t : Ticket) : Prop where
  kept : (u.site i).gate.prober? = some t.caller
  opened : (v.site i).gate.prober? = none
  window : ∀ j, (v.site j).window = (u.site j).window

theorem opens_release (hp : (u.site i).gate.prober? = some t.caller) (hb : t.bucket = some i) :
    Opens u (u.release t) i t := by
  refine ⟨hp, ?_, fun j => ?_⟩
  · rw [site_release, if_pos hb]
    exact Gate.prober?_leave.trans (if_pos hp)
  · rw [site_release]
    split <;> rfl

theorem Takes.prober? (h : Takes s now i u) (hp : (s.site i).gate.prober? = some c) :
    (u.site i).gate.prober? = some c := by
  obtain ⟨op, -, hu⟩ := h
  rw [hu, Site.prober?_settle, if_neg (by simp), hp]

/-- Who keeps the gate of a bucket shows that it is there. -/
theorem lt_length_of_prober (hp : (s.site i).gate.prober? = some c) : i < s.buckets.length := by
  refine Decidable.byContradiction fun hi => ?_
  rw [site_of_none (List.getElem?_eq_none (Nat.le_of_not_lt hi))] at hp
  cases hp

theorem takesOver_changeBucket_share {f : Bucket → Bucket × Option Caller} {op : Window.Op}
    (h : Charted s) (hi : i < s.buckets.length) (hf : Bucket.Takes f now op) (r : Report) :
    TakesOver s ((s.changeBucket i f).share now i r) now i r op := by
  refine ⟨?_, fun j hj hji => ?_⟩
  · rw [site_changeBucket_share hf, if_pos hi, if_pos rfl]
    rfl
  · have hlength : j < s.buckets.length := by
      unfold canonical? at hj
      simp only [Option.bind_eq_bind, Option.bind_eq_some_iff] at hj
      obtain ⟨hash, -, key, -, hj⟩ := hj
      exact h.shared _ j hj
    rw [site_changeBucket_share hf, if_pos hlength, if_neg hji, if_pos hj]
    rfl

theorem takesOver_recordBucket (h : Charted s) (hi : i < s.buckets.length) (hb : t.bucket = some i)
    (now : Instant) (r : Report) : TakesOver s (s.recordBucket now t r) now i r (.record r) := by
  simp only [recordBucket, hb]
  exact takesOver_changeBucket_share h hi (Bucket.takes_record now r) r

/-- Holding the account back first changes nothing about that. -/
theorem takesOver_recordBucket_held (h : Charted s) (hi : i < s.buckets.length) (hb : t.bucket = some i)
    (now : Instant) (wait : Span) (r : Report) :
    TakesOver s ((s.held now t wait).recordBucket now t r) now i r (.record r) := by
  rcases held_cases s now t wait with hu | hu
  · rw [hu]
    exact takesOver_recordBucket h hi hb now r
  · have hblock : Charted (s.block now wait) := h.congr rfl rfl rfl
    have := takesOver_recordBucket hblock hi hb now r
    rw [hu]
    exact ⟨this.own, this.canonical⟩

/-! ### The order of callers -/

/-- A response is not for a caller that waits, since it holds no ticket. -/
theorem step_of_waits {g : Stage} (hp : s.place? c = some (.waits g)) (hr : e.returns c)
    (hw : e ≠ .withdraw c) (now : Instant) : s.step now e = (s, .unchanged) := by
  have hn := ticket?_of_waits hp
  rcases hr with he | ⟨r, rfl⟩ | ⟨r, body, rfl⟩
  · exact absurd he hw
  · simp [step_eq, leap, hn]
  · simp [step_eq, leap, hn]

theorem precedes_step (h : Orderly s) (hx : (s.site i).Precedes c d) (hw : e ≠ .withdraw c)
    (now : Instant) :
    (∃ t, s.issued now e = some t ∧ t.caller = c ∧ t.bucket = some i) ∨
      ((s.step now e).1.site i).Precedes c d ∧
        ∀ t, s.issued now e = some t → t.bucket = some i → t.caller ≠ d := by
  by_cases hr : e.returns c
  · have hc : c ∈ (s.gateAt (.bucket i)).waiting := by
      obtain ⟨ahead, behind, hx, -⟩ := hx
      show c ∈ (s.site i).gate.waiting
      rw [hx]
      exact List.mem_append_right _ List.mem_cons_self
    have hstep := step_of_waits (h.waiting _ c hc) hr hw now
    refine .inr ⟨by rwa [hstep], fun t ht => ?_⟩
    rw [issued, hstep] at ht
    cases ht
  · rcases (touches_step s now e i).precedes hx hr with hg | ⟨hx', hg⟩
    · obtain ⟨t, ht, hc⟩ := Option.bind_eq_some_iff.1 hg
      unfold Ticket.callerAt at hc
      split at hc
      · exact .inl ⟨t, ht, Option.some.inj hc, by assumption⟩
      · cases hc
    · exact .inr ⟨hx', fun t ht hb htd => hg (htd ▸ callerAt_of_issued ht hb)⟩

/-- Nobody who is not ahead of a waiting caller is let through before it. -/
theorem issued_before (h : Orderly s) (hx : (s.site i).Precedes c d) (hne : d ≠ c)
    (hw : ∀ x ∈ es, x.2 ≠ .withdraw c) (hi : (s.run es).issued now e = some t)
    (hd : t.caller = d) (hb : t.bucket = some i) :
    ∃ t' ∈ s.issues es, t'.caller = c ∧ t'.bucket = some i := by
  induction es generalizing s with
  | nil =>
    have he : e ≠ .withdraw c := by
      rintro rfl
      rw [issued, step_eq] at hi
      cases hi
    rcases precedes_step h hx he now with ⟨t', ht', hc, -⟩ | ⟨-, hnot⟩
    · have htt : t = t' := Option.some.inj (hi.symm.trans ht')
      exact absurd (hd.symm.trans (htt ▸ hc)) hne
    · exact absurd hd (hnot t hi hb)
  | cons x es ih =>
    obtain ⟨now', e'⟩ := x
    rcases precedes_step h hx (hw _ List.mem_cons_self) now' with ⟨t', ht', hc, hb'⟩ | ⟨hx', -⟩
    · exact ⟨t', List.mem_append_left _ (Option.mem_toList.2 ht'), hc, hb'⟩
    · obtain ⟨t', ht', hc⟩ :=
        ih (orderly_step h now' e') hx' (fun x hx => hw x (List.mem_cons_of_mem _ hx)) hi
      exact ⟨t', List.mem_append_right _ ht', hc⟩

/-- At every bucket, whatever has happened: from when a probe is let through until it comes back, nobody
else is; a probe that comes back with a response opens the gate after the response has been taken over
by the bucket and by the one its route is folded onto; and callers get in line behind all others, and
are let through before whoever is not ahead of them, unless they leave.

Wherever callers are with their acts, one between those of another, a probe keeps its gate and nobody is
let through, until its ticket is given back. By then what its response says has been written to the bucket
and to the one its route is folded onto. Who waits has its ticket before those behind it there, too. -/
theorem probes_alone_callers_in_order (limit : Nat) (before : List (Instant × Event)) (i : Nat) :
    let s := (ofLimit limit).run before
    (∀ now e t, s.issued now e = some t → t.bucket = some i →
      ((s.site i).window.reserve now).2 = .proceed true →
      ∀ es : List (Instant × Event), (∀ x ∈ es, ¬ x.2.returns t.caller) →
        (((s.step now e).1.run es).site i).gate.prober? = some t.caller ∧
        ∀ t' ∈ (s.step now e).1.issues es, t'.bucket ≠ some i) ∧
    (∀ now t, s.ticket? t.caller = some t → t.bucket = some i →
      (s.site i).gate.prober? = some t.caller →
      (∀ r, Opens (s.recordBucket now t r) (s.step now (.record t.caller r)).1 i t ∧
        TakesOver s (s.recordBucket now t r) now i r (.record r)) ∧
      ∀ r body, Opens (s.recordRefusal now t r body) (s.step now (.refuse t.caller r body)).1 i t ∧
        (isGlobalRefusal r body = false →
          TakesOver s (s.recordRefusal now t r body) now i r (.exhaust (refusalWait r body))) ∧
        (isGlobalRefusal r body = true → r.isTracked →
          TakesOver s (s.recordRefusal now t r body) now i r (.record r))) ∧
    (∀ now e, ∃ l new, l.Sublist (s.site i).gate.waiting ∧
      ((s.step now e).1.site i).gate.waiting = l ++ Option.toList new ∧ ∀ d ∈ new, e.asks d) ∧
    (∀ c d (es : List (Instant × Event)), (s.site i).Precedes c d → d ≠ c →
      (∀ x ∈ es, x.2 ≠ .withdraw c) →
      ∀ now e t, (s.run es).issued now e = some t → t.caller = d → t.bucket = some i →
        ∃ t' ∈ s.issues es, t'.caller = c ∧ t'.bucket = some i) ∧
    (∀ m, Machine.Reachable limit m → ∀ now,
      (∀ n event p hasHeard rest done,
        m.jobs[n]? = some ⟨event, .look (.bucket i) p hasHeard :: rest, done⟩ →
        ((m.limits.site i).window.reserve now).2 = .proceed true →
        ((m.goOn now n).limits.site i).gate.prober? = some p.caller ∧
          ⟨p.caller, p.wanted, some i⟩ ∈ (m.goOn now n).limits.tickets) ∧
      ∀ m', m.Step now m' → Machine.Proper m now m' i) := by
  intro s
  have horderly : Orderly s := orderly_run limit before
  have hcharted : Charted s := charted_run limit before
  refine ⟨fun now e t ht hb hw es he => ?_,
    fun now t ht hb hp => ⟨fun r => ⟨?_, ?_⟩, fun r body => ⟨?_, ?_, ?_⟩⟩,
    fun now e => (touches_step s now e i).waiting, fun c d es hx hne hw now e t hi hd hb => ?_,
    fun m hm now => ⟨fun n event p hasHeard rest done => hm.sound.prober_of_look, fun m' hs => hm.proper hs i⟩⟩
  · exact run_of_prober (prober?_of_issued ht hb hw) he
  · simp only [step_eq, leap, ht]
    exact opens_release ((takes_recordBucket s now t r i).prober? hp) hb
  · exact takesOver_recordBucket hcharted (lt_length_of_prober hp) hb now r
  · simp only [step_eq, leap, ht]
    exact opens_release ((takes_recordRefusal s now t r body i).prober? hp) hb
  · intro hg
    simp only [recordRefusal_of_not_global hg, hb]
    exact takesOver_changeBucket_share hcharted (lt_length_of_prober hp) (Bucket.takes_exhaust now _) r
  · intro hg htracked
    rw [recordRefusal_of_global hg, if_pos htracked]
    exact takesOver_recordBucket_held hcharted (lt_length_of_prober hp) hb now _ r
  · exact issued_before horderly hx hne hw hi hd hb

/-- One caller probes while two wait; its response lets the first of them through before the second. Done act by
act, it has nothing left but to give its ticket back when the response has been written. -/
theorem probe_ahead_of_two_waiters :
    let wanted : Wanted := .route ⟨.get, "gateway"⟩ .routeOnly
    let probe : Ticket := ⟨1, wanted, some 0⟩
    let others : List (Instant × Event) := [(0, .arrive 2 wanted), (0, .arrive 3 wanted)]
    let before := (0, .arrive 1 wanted) :: others
    let probing := ((Machine.ofLimit 0).happen (.arrive 1 wanted)).goOnAll 0 [0, 0, 0, 0, 0, 0]
    let answered := (probing.happen (.record 1 {})).goOnAll 1 [1, 1, 1]
    ((((ofLimit 0).run before).site 0).gate.prober? = some 1 ∧
      Opens (((ofLimit 0).run before).recordBucket 1 probe {})
        (((ofLimit 0).run before).step 1 (.record probe.caller {})).1 0 probe ∧
      ∃ t ∈ ((ofLimit 0).run before).issues [(1, .record 1 {}), (1, .poll 2)],
        t.caller = 2 ∧ t.bucket = some 0) ∧
    (answered.limits.site 0).gate.prober? = some 1 ∧
    ∃ (n : Nat) (e : Event) (t : Ticket) (done : List Act), answered.jobs[n]? = some ⟨some e, [.giveBack t], done⟩ ∧
      e.returns 1 ∧ ∀ r change, e.change? = some (r, change) → answered.limits.Written 0 r change done := by
  intro wanted probe others before probing answered
  obtain ⟨halone, -⟩ := probes_alone_callers_in_order 0 [] 0
  obtain ⟨-, hreturn, -, horder, hacts⟩ := probes_alone_callers_in_order 0 before 0
  refine ⟨?_, ?_⟩
  · have hothers : ∀ x ∈ others, ¬ x.2.returns 1 := by simp [others, Event.returns]
    have hprobe := (halone 0 (.arrive 1 wanted) probe (by decide +kernel) rfl rfl others hothers).1
    have hrun : (((ofLimit 0).run []).step 0 (.arrive 1 wanted)).1.run others = (ofLimit 0).run before :=
      (run_cons ..).symm
    rw [hrun] at hprobe
    have hticket : ((ofLimit 0).run before).ticket? probe.caller = some probe := by decide +kernel
    refine ⟨hprobe, ((hreturn 1 probe hticket rfl hprobe).1 {}).1, ?_⟩
    have hline : (((ofLimit 0).run before).site 0).Precedes 2 3 := ⟨[], [3], by decide +kernel, by simp⟩
    have hthird : (((ofLimit 0).run before).run [(1, .record 1 {}), (1, .poll 2)]).issued 1 (.poll 3) =
        some ⟨3, wanted, some 0⟩ := by decide +kernel
    exact horder 2 3 _ hline (by decide) (by simp) 1 (.poll 3) _ hthird rfl rfl
  · have hprobing : Machine.Reachable 0 probing :=
      (Machine.Reachable.start.happen (.arrive 1 wanted) fun c _ => Machine.isFree_ofLimit 0 c).goOnAll 0 [0, 0, 0, 0, 0, 0]
    have hfree : probing.IsFree 1 := by
      unfold Machine.IsFree
      decide +kernel
    have hanswered : Machine.Reachable 0 answered :=
      (hprobing.happen (.record 1 {}) fun c hc => by cases hc; exact hfree).goOnAll 1 [1, 1, 1]
    have hprobe : (answered.limits.site 0).gate.prober? = some 1 := by decide +kernel
    refine ⟨hprobe, ?_⟩
    -- what comes next gives the ticket back
    have hnext := ((hacts answered hanswered 1).2 _ (.goesOn 1)).probe 1 hprobe
    have hopen : ¬ ((answered.goOn 1 1).limits.site 0).gate.prober? = some 1 := by decide +kernel
    obtain ⟨n, e, t, done, hjob, -, -, -, hreturns, hwritten⟩ := hnext.resolve_left fun h => hopen h.1
    exact ⟨n, e, t, done, hjob, hreturns, hwritten⟩

end Limits

end ChatApi.Limit
