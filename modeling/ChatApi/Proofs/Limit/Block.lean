import ChatApi.Proofs.Limit.Course

/-!
# While the account is held back

A refusal for the whole account closes its gate for a while, whatever happens in the meantime
(`holdsUntil_step`). So nobody gets past it; but a caller that is past it, and waits at a bucket, asks the
account no more. Its bucket alone decides when it is let through (`issued_poll`).

Main theorem: `blocked_issues_to_bucket_waiters_only`; `bucket_waiter_passes_block` is such a caller.
-/

namespace ChatApi.Limit

/-- All requests are held back until `till`, if not longer. -/
def Ceiling.HoldsUntil (c : Ceiling) (till : Instant) : Prop := ∃ b ∈ c.blockedUntil, till ≤ b

namespace Limits

variable {s : Limits} {now till : Instant} {e : Event} {p : Pending} {t : Ticket} {key : RouteKey}
  {i : Nat} {es : List (Instant × Event)}

/-! ### The gate of the account -/

theorem holdsUntil_block (c : Ceiling) (now : Instant) (wait : Span) :
    (c.block now wait).HoldsUntil (now + wait) := ⟨_, rfl, Nat.le_max_right ..⟩

theorem reserve_of_holdsUntil {c : Ceiling} (h : c.HoldsUntil till) (ht : now < till) :
    (c.reserve now).1 = c ∧ (c.reserve now).2 ≠ none := by
  obtain ⟨b, hb, hle⟩ := h
  have hblocked : c.blocked? now = some b := by
    have : now < b := Nat.lt_of_lt_of_le ht hle
    simp [Ceiling.blocked?, Option.mem_def.1 hb, Option.filter, this]
  simp [Ceiling.reserve, hblocked]

/-- The account is held back for as long as was said, whatever happens until then. -/
theorem holdsUntil_step (h : s.ceiling.HoldsUntil till) (ht : now < till) (e : Event) :
    (s.step now e).1.ceiling.HoldsUntil till := by
  rcases ceiling_step s now e with hc | hc | ⟨wait, hc⟩
  · rw [hc]; exact h
  · rw [hc, (reserve_of_holdsUntil h ht).1]; exact h
  · obtain ⟨b, hb, hle⟩ := h
    rw [hc]
    refine ⟨_, rfl, Nat.le_trans hle ?_⟩
    rw [Option.mem_def.1 hb]
    exact Nat.le_max_left ..

/-- While the account is held back, nobody that is subject to its limit goes to a bucket. -/
theorem not_enters_of_holdsUntil (h : s.ceiling.HoldsUntil till) (ht : now < till) :
    ¬ s.Enters now (.route key .all) i := by
  rintro ⟨key', scope, hw, -, hpass⟩
  cases hw
  rcases hpass with hs | hnone
  · cases hs
  · exact (reserve_of_holdsUntil h ht).2 hnone

/-- A refusal for the whole account holds it back, and leaves those who wait where they are. -/
theorem refuse_of_global {r : Report} {body : Option Refusal} (hw : t.wanted = .route key .all)
    (hg : isGlobalRefusal r body) (s : Limits) (now : Instant) :
    (s.refuse now t r body).ceiling.HoldsUntil (now + refusalWait r body) ∧
      (s.refuse now t r body).pending = s.pending := by
  have hheld : s.held now t (refusalWait r body) = s.block now (refusalWait r body) := by simp [held, hw]
  obtain ⟨hceiling, -, hpending, -⟩ := release_frame (s.recordRefusal now t r body) t
  obtain ⟨-, hp, -⟩ := recordRefusal_frame s now t r body
  have hc : (s.recordRefusal now t r body).ceiling = s.ceiling.block now (refusalWait r body) := by
    rw [recordRefusal_of_global hg, hheld]
    split
    · exact (recordBucket_frame _ now t r).1
    · rfl
  unfold refuse
  rw [hceiling, hc, hpending, hp]
  exact ⟨holdsUntil_block .., rfl⟩

/-! ### Callers at buckets -/

/-- Whoever waits at a bucket while the account is held back has waited there since before. -/
theorem mem_pending_of_run (h : s.ceiling.HoldsUntil till) (hm : SingleMinded s)
    (ht : ∀ x ∈ es, x.1 < till) (hp : p ∈ (s.run es).pending) (hw : p.wanted = .route key .all)
    (hs : p.stage = .bucket i) : p ∈ s.pending := by
  induction es generalizing s with
  | nil => exact hp
  | cons x es ih =>
    obtain ⟨now, e⟩ := x
    have hnow : now < till := ht _ List.mem_cons_self
    have hp := ih (holdsUntil_step h hnow e) (singleMinded_step hm now e)
      (fun x hx => ht x (List.mem_cons_of_mem _ hx)) hp
    rcases pending_step hm hp with hp | hstage | ⟨j, -, he⟩
    · exact hp
    · simp [hs] at hstage
    · exact absurd (hw ▸ he) (not_enters_of_holdsUntil h hnow)

theorem holdsUntil_run (h : s.ceiling.HoldsUntil till) (ht : ∀ x ∈ es, x.1 < till) :
    (s.run es).ceiling.HoldsUntil till := by
  induction es generalizing s with
  | nil => exact h
  | cons x es ih =>
    exact ih (holdsUntil_step h (ht x List.mem_cons_self) x.2) fun x hx => ht x (List.mem_cons_of_mem _ hx)

/-- While the account is held back, only a caller that waits at a bucket gets a ticket that is subject
to the limit of the account. -/
theorem waits_of_issued (h : s.ceiling.HoldsUntil till) (ht : now < till) (hi : s.issued now e = some t)
    (hw : t.wanted = .route key .all) :
    ∃ i, t.bucket = some i ∧ ∃ p ∈ s.pending, p.caller = t.caller ∧ p.wanted = t.wanted ∧
      p.stage = .bucket i := by
  obtain ⟨p, hcaller, hwanted, hp, hway⟩ := issued_step hi
  generalize hbucket : t.bucket = bucket at hway
  cases hway with
  | exempt key' hexempt => simp [hwanted, hw] at hexempt
  | account haccount => simp [hwanted, hw] at haccount
  | waited j hstage => exact ⟨j, rfl, p, hp.resolve_right (by simp [hstage]), hcaller, hwanted, hstage⟩
  | enters j he =>
    rw [hwanted, hw] at he
    exact absurd he (not_enters_of_holdsUntil h ht)

/-- Whether a caller that waits at a bucket gets its ticket is up to the bucket alone. -/
theorem issued_poll {c : Caller} (hp : s.pending.find? (·.caller = c) = some p) (hs : p.stage = .bucket i) :
    s.issued now (.poll c) = if (s.site i).lets now c then some ⟨c, p.wanted, some i⟩ else none := by
  have hc : p.caller = c := by simpa using List.find?_some hp
  have hstep : s.step now (.poll c) = s.pollBucket now p i := by simp [step_eq, leap, poll, hp, hs]
  obtain ⟨u, -, hv⟩ := visited_pollBucket s now p i
  rw [issued, hstep]
  cases hl : (s.site i).lets now c with
  | true =>
    rw [hv.granted (by rw [hc]; exact hl), issuedBy_grant, hc]
    rfl
  | false =>
    obtain ⟨turn, hturn, ho⟩ := hv.refused (by rw [hc]; exact hl)
    rw [ho, issuedBy_of_ne hturn]
    rfl

/-- From a refusal for the whole account until the wait that it asks for is over, the only requests
subject to the limit of the account that get their tickets are those that were waiting at the bucket of
their route when the refusal came. Those are let through whenever their bucket lets them. -/
theorem blocked_issues_to_bucket_waiters_only (limit : Nat) (before : List (Instant × Event))
    (since : Instant) (t : Ticket) (key : RouteKey) (r : Report) (body : Option Refusal)
    (es : List (Instant × Event)) (ht : ((ofLimit limit).run before).ticket? t.caller = some t)
    (hw : t.wanted = .route key .all) (hg : isGlobalRefusal r body)
    (hes : ∀ x ∈ es, x.1 < since + refusalWait r body) :
    let s := (ofLimit limit).run before
    let u := (s.step since (.refuse t.caller r body)).1.run es
    (∀ now e t' key', now < since + refusalWait r body → u.issued now e = some t' →
      t'.wanted = .route key' .all →
      ∃ i, t'.bucket = some i ∧ ∃ p ∈ s.pending, p.caller = t'.caller ∧ p.wanted = t'.wanted ∧
        p.stage = .bucket i) ∧
    ∀ now c p i, u.pending.find? (·.caller = c) = some p → p.stage = .bucket i →
      u.issued now (.poll c) = if (u.site i).lets now c then some ⟨c, p.wanted, some i⟩ else none := by
  intro s u
  have hstep : (s.step since (.refuse t.caller r body)).1 = s.refuse since t r body := by
    simp only [step_eq, leap, s, ht]
  obtain ⟨hblocked, hpending⟩ := refuse_of_global hw hg s since
  have hm : SingleMinded (s.refuse since t r body) :=
    hstep ▸ singleMinded_step (singleMinded_run limit before) since _
  refine ⟨fun now e t' key' hnow hi hw' => ?_, fun now c p i hp hs => issued_poll hp hs⟩
  obtain ⟨i, hb, p, hp, hcaller, hwanted, hs⟩ :=
    waits_of_issued (holdsUntil_run (hstep ▸ hblocked) hes) hnow hi hw'
  refine ⟨i, hb, p, ?_, hcaller, hwanted, hs⟩
  rw [← hpending]
  rw [hstep] at hp
  exact mem_pending_of_run hblocked hm hes hp (hwanted.trans hw') hs

/-- A caller gets its ticket four seconds before the end of a block, having waited at its bucket when
the block came. -/
theorem waited_at_bucket_before_block :
    let first : Wanted := .route ⟨.get, "guilds/1"⟩ .all
    let second : Wanted := .route ⟨.get, "guilds/2"⟩ .all
    let before := [(0, .arrive 1 first), (0, .arrive 2 second), (0, .arrive 3 second)]
    let whole : Report := { isGlobal := true, retryAfter := some (5 * Span.second) }
    let u := (((ofLimit 50).run before).step 0 (.refuse 1 whole none)).1.run [(0, .withdraw 2)]
    u.issued Span.second (.poll 3) = some ⟨3, second, some 1⟩ ∧
      ∃ p ∈ ((ofLimit 50).run before).pending, p.caller = 3 ∧ p.wanted = second ∧ p.stage = .bucket 1 := by
  intro first second before whole u
  have hi : u.issued Span.second (.poll 3) = some ⟨3, second, some 1⟩ := by decide +kernel
  obtain ⟨honly, -⟩ := blocked_issues_to_bucket_waiters_only 50 before 0 ⟨1, first, some 0⟩ _ whole none
    [(0, .withdraw 2)] (by decide +kernel) rfl rfl (by decide +kernel)
  obtain ⟨i, hb, hp⟩ := honly Span.second (.poll 3) _ _ (by decide +kernel) hi rfl
  exact ⟨hi, by cases hb; exact hp⟩

/-- A block of five seconds does not hold back a caller whose bucket opens after one. -/
theorem bucket_waiter_passes_block :
    let first : Wanted := .route ⟨.get, "guilds/1"⟩ .all
    let second : Wanted := .route ⟨.get, "guilds/2"⟩ .all
    let spent : Report := { limit := some 1, remaining := some 0, resetAfter := some Span.second }
    let whole : Report := { isGlobal := true, retryAfter := some (5 * Span.second) }
    let s := (ofLimit 50).run [(0, .arrive 1 first), (0, .record 1 spent), (0, .arrive 2 first),
      (0, .arrive 3 second)]
    s.ticket? 3 = some ⟨3, second, some 1⟩ ∧ isGlobalRefusal whole none ∧
      Span.second < 0 + refusalWait whole none ∧
      (s.step 0 (.refuse 3 whole none)).1.issued Span.second (.poll 2) = some ⟨2, first, some 0⟩ := by
  decide +kernel

end Limits

end ChatApi.Limit
