import ChatApi.Proofs.Limit.Visit

/-!
# What events do at one bucket

An event acts on a bucket in one of two ways. Either the caller that asks comes and looks, or something
is taken over from a response and a caller leaves. `touches_step` says so for every event and every
bucket, together with who is let through there. What is proved of one bucket goes back to it and
unfolds no event.
-/

namespace ChatApi.Limit

/-- The caller that an event is one of. -/
def Event.caller? : Event → Option Caller
  | .arrive c _ | .poll c | .record c _ | .refuse c _ _ | .withdraw c => some c
  | .block _ => none

/-- The caller that an event makes ask. -/
def Event.asks (e : Event) (c : Caller) : Prop := e = .poll c ∨ ∃ wanted, e = .arrive c wanted

/-- The event ends what a caller holds or waits for. -/
def Event.returns (e : Event) (c : Caller) : Prop :=
  e = .withdraw c ∨ (∃ r, e = .record c r) ∨ ∃ r body, e = .refuse c r body

/-- What an event can do at a bucket: how it leaves it, and who is let through. -/
inductive Touch (x : Site) (now : Instant) (e : Event) : Site → Option Caller → Prop
  | visit {c : Caller} (h : e.asks c) (isNew : Bool) :
    Touch x now e ((x.arrive isNew c).look now c)
      (if (x.arrive isNew c).lets now c then some c else none)
  | settle (op : Option Window.Op) (hop : op ≠ some .reserve) (c : Option Caller)
    (hc : ∀ d ∈ c, e.returns d) : Touch x now e (x.settle now op c) none

theorem Touch.untouched (x : Site) (now : Instant) (e : Event) : Touch x now e x none :=
  .settle none (by simp) none (by simp)

/-- The caller that a ticket lets through at bucket `i`. -/
def Ticket.callerAt (t : Ticket) (i : Nat) : Option Caller :=
  if t.bucket = some i then some t.caller else none

namespace Limits

/-- The ticket that comes of asking. -/
def issuedBy (o : Limits × Turn) : Option Ticket :=
  if o.2 = .granted then o.1.tickets.getLast? else none

/-- The ticket that an event issues. -/
def issued (s : Limits) (now : Instant) (e : Event) : Option Ticket := issuedBy (s.step now e)

/-- The tickets issued by events, the first one first. -/
def issues : Limits → List (Instant × Event) → List Ticket
  | _, [] => []
  | s, (now, e) :: es => (s.issued now e).toList ++ issues (s.step now e).1 es

variable {s u : Limits} {now : Instant} {e : Event} {p : Pending} {i j : Nat}

theorem run_cons (s : Limits) (now : Instant) (e : Event) (es : List (Instant × Event)) :
    s.run ((now, e) :: es) = (s.step now e).1.run es := rfl

theorem issuedBy_grant (u : Limits) (p : Pending) (bucket : Option Nat) :
    issuedBy (u.grant p bucket, .granted) = some ⟨p.caller, p.wanted, bucket⟩ := by
  simp [issuedBy, grant]

theorem issuedBy_of_ne {turn : Turn} (h : turn ≠ .granted) : issuedBy (u, turn) = none := by
  simp [issuedBy, h]

/-- What comes of an event acts on every bucket as `Touch` says. -/
def Touches (s : Limits) (now : Instant) (e : Event) (o : Limits × Turn) : Prop :=
  ∀ i, Touch (s.site i) now e (o.1.site i) ((issuedBy o).bind (·.callerAt i))

theorem touches_of_site_eq {o : Limits × Turn} (hs : ∀ i, o.1.site i = s.site i)
    (ht : ∀ t, issuedBy o = some t → t.bucket = none) : Touches s now e o := by
  intro i
  have hn : (issuedBy o).bind (·.callerAt i) = none := by
    cases h : issuedBy o with
    | none => rfl
    | some t => simp [Ticket.callerAt, ht t h]
  rw [hs, hn]
  exact .untouched ..

theorem Touches.congr {o : Limits × Turn} (h : Touches u now e o) (hs : ∀ i, u.site i = s.site i) :
    Touches s now e o := by
  intro i
  rw [← hs]
  exact h i

theorem Visited.touches {isNew : Bool} {o : Limits × Turn} (hv : Visited s now p i isNew u o)
    (h : e.asks p.caller) : Touches s now e o := by
  intro j
  have hvisit : Touch (s.site i) now e _ _ := .visit h isNew
  cases hl : ((s.site i).arrive isNew p.caller).lets now p.caller with
  | true =>
    have hsite : (u.grant p (some i)).site j = u.site j := rfl
    rw [hv.granted hl, issuedBy_grant]
    dsimp only [Option.bind, Ticket.callerAt]
    rw [hsite, hv.site]
    by_cases hj : j = i
    · subst hj
      simpa [hl] using hvisit
    · have hij : i ≠ j := Ne.symm hj
      simpa [hj, hij] using Touch.untouched (s.site j) now e
  | false =>
    obtain ⟨turn, hturn, ho⟩ := hv.refused hl
    rw [ho, issuedBy_of_ne hturn]
    dsimp only [Option.bind]
    rw [hv.site]
    by_cases hj : j = i
    · subst hj
      simpa [hl] using hvisit
    · simpa [hj] using Touch.untouched (s.site j) now e

/-! ### Events -/

theorem touches_pollCeiling (s : Limits) (now : Instant) (h : e.asks p.caller) :
    Touches s now e (s.pollCeiling now p) := by
  rcases pollCeiling_cases s now p with ho | ⟨-, ⟨till, -, ho⟩ | ⟨-, ⟨-, ho⟩ | ⟨key, scope, -, ho⟩⟩⟩
  · rw [ho]
    exact touches_of_site_eq (fun i => rfl) (by simp [issuedBy])
  · rw [ho]
    exact touches_of_site_eq (fun i => rfl) (by simp [issuedBy])
  · rw [ho]
    refine touches_of_site_eq (fun i => rfl) fun t ht => ?_
    rw [issuedBy_grant] at ht
    cases ht; rfl
  · obtain ⟨isNew, u, hv, -⟩ := visited_enterBucket (s.passed now p.caller) now p key
    rw [ho]
    exact (hv.touches h).congr fun i => rfl

theorem issuedBy_inLine (o : Limits × Turn) : issuedBy (o.1, o.2.inLine) = issuedBy o := by
  obtain ⟨u, turn⟩ := o
  cases turn <;> rfl

theorem touches_enterCeiling (s : Limits) (now : Instant) (h : e.asks p.caller) :
    Touches s now e (s.enterCeiling now p) := by
  have hpoll := touches_pollCeiling { s with ceilingGate := s.ceilingGate.join p.caller } now h
  intro i
  have := hpoll i
  rw [← issuedBy_inLine] at this
  exact this

theorem touches_arrive (s : Limits) (now : Instant) (c : Caller) (wanted : Wanted) :
    Touches s now (.arrive c wanted) (s.arrive now c wanted) := by
  have hasks : (Event.arrive c wanted).asks c := .inr ⟨wanted, rfl⟩
  unfold arrive
  dsimp only
  split
  · refine touches_of_site_eq (fun i => rfl) fun t ht => ?_
    rw [issuedBy_grant] at ht
    cases ht; rfl
  · rename_i key
    obtain ⟨isNew, u, hv, -⟩ := visited_enterBucket _ now ⟨c, .route key .routeOnly, .ceiling⟩ key
    exact (hv.touches hasks).congr fun i => rfl
  · exact (touches_enterCeiling _ now hasks).congr fun i => rfl
  · exact (touches_enterCeiling _ now hasks).congr fun i => rfl

theorem touches_poll (s : Limits) (now : Instant) (c : Caller) :
    Touches s now (.poll c) (s.poll now c) := by
  have hasks : (Event.poll c).asks c := .inl rfl
  unfold poll
  split
  · exact touches_of_site_eq (fun i => rfl) (by simp [issuedBy])
  · rename_i p hp
    have hc : p.caller = c := by simpa using List.find?_some hp
    split
    · exact touches_pollCeiling s now (hc ▸ hasks)
    · rename_i i _
      obtain ⟨u, -, hv⟩ := visited_pollBucket s now p i
      exact hv.touches (hc ▸ hasks)

/-- What is taken over at bucket `j` on the way from `s` to `u`. -/
def Takes (s : Limits) (now : Instant) (j : Nat) (u : Limits) : Prop :=
  ∃ op, op ≠ some .reserve ∧ u.site j = (s.site j).settle now op none

theorem Takes.refl (s : Limits) (now : Instant) (j : Nat) : Takes s now j s := ⟨none, by simp, rfl⟩

theorem takes_changeBucket_share {f : Bucket → Bucket × Option Caller} {op : Window.Op}
    (hf : Bucket.Takes f now op) (hop : op ≠ .reserve) (i : Nat) (r : Report) (j : Nat) :
    Takes s now j ((s.changeBucket i f).share now i r) := by
  unfold Takes
  rw [site_changeBucket_share hf]
  split
  · split
    · exact ⟨some op, by simpa using hop, rfl⟩
    · split
      · exact ⟨some (.record r), by simp, rfl⟩
      · exact ⟨none, by simp, rfl⟩
  · exact ⟨none, by simp, rfl⟩

theorem takes_recordBucket (s : Limits) (now : Instant) (t : Ticket) (r : Report) (j : Nat) :
    Takes s now j (s.recordBucket now t r) := by
  unfold recordBucket
  split
  · exact takes_changeBucket_share (Bucket.takes_record now r) (by simp) _ r j
  · exact .refl s now j

theorem takes_recordRefusal (s : Limits) (now : Instant) (t : Ticket) (r : Report)
    (body : Option Refusal) (j : Nat) : Takes s now j (s.recordRefusal now t r body) := by
  cases hg : isGlobalRefusal r body with
  | true =>
    -- holding the account back touches no bucket
    have hsite : (s.held now t (refusalWait r body)).site j = s.site j := by
      rcases held_cases s now t (refusalWait r body) with hu | hu
      · rw [hu]
      · rw [hu]; rfl
    rw [recordRefusal_of_global hg]
    split
    · obtain ⟨op, hop, h⟩ := takes_recordBucket (s.held now t (refusalWait r body)) now t r j
      exact ⟨op, hop, by rw [h, hsite]⟩
    · exact ⟨none, by simp, hsite⟩
  | false =>
    rw [recordRefusal_of_not_global hg]
    split
    · exact takes_changeBucket_share (Bucket.takes_exhaust now _) (by simp) _ r j
    · exact .refl s now j

/-- What a response brings is taken over before its caller leaves. -/
theorem Takes.release {t : Ticket} (h : Takes s now i u) (ht : e.returns t.caller) :
    Touch (s.site i) now e ((u.release t).site i) none := by
  obtain ⟨op, hop, hu⟩ := h
  rw [site_release, hu]
  split
  · exact .settle op hop (some t.caller) (by simpa using ht)
  · exact .settle op hop none (by simp)

theorem caller_of_ticket? {c : Caller} {t : Ticket} (h : s.ticket? c = some t) : t.caller = c := by
  simpa using List.find?_some h

/-- Every event acts on every bucket as `Touch` says. -/
theorem touches_step (s : Limits) (now : Instant) (e : Event) : Touches s now e (s.step now e) := by
  have idle (u : Limits) (hu : ∀ i, Touch (s.site i) now e (u.site i) none) :
      Touches s now e (u, .unchanged) := fun i => hu i
  rw [step_eq]
  cases e with
  | arrive c wanted =>
    simp only [leap]
    split
    · exact idle s fun i => .untouched ..
    · exact touches_arrive s now c wanted
  | poll c => exact touches_poll s now c
  | record c r =>
    simp only [leap]
    split
    · rename_i t ht
      have hc := caller_of_ticket? ht
      exact idle _ fun i => (takes_recordBucket s now t r i).release (.inr (.inl ⟨r, by rw [hc]⟩))
    · exact idle s fun i => .untouched ..
  | refuse c r body =>
    simp only [leap]
    split
    · rename_i t ht
      have hc := caller_of_ticket? ht
      exact idle _ fun i =>
        (takes_recordRefusal s now t r body i).release (.inr (.inr ⟨r, body, by rw [hc]⟩))
    · exact idle s fun i => .untouched ..
  | withdraw c =>
    refine idle _ fun i => ?_
    cases ht : s.ticket? c with
    | some t =>
      rw [withdraw_of_ticket ht]
      exact (Takes.refl s now i).release (.inl (by rw [caller_of_ticket? ht]))
    | none =>
      cases hp : s.pending.find? (·.caller = c) with
      | none =>
        rw [withdraw_of_absent ht hp]
        exact .untouched ..
      | some p =>
        rw [site_withdraw ht hp]
        split
        · exact .settle none (by simp) (some c) (by simp [Event.returns])
        · exact .untouched ..
  | block wait => exact idle _ fun i => .untouched ..

end Limits

end ChatApi.Limit
