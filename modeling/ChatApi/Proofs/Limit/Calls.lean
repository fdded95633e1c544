import ChatApi.Proofs.Limit.Part

/-!
# Who is given a turn

Only who stands in line is given a turn, and only who comes in to wait gets in line. So if `P` holds of all that
stand in line or have been given a turn, it still does after any event, unless somebody comes in of whom it does
not hold (`calls_step`).
-/

namespace ChatApi.Limit.Limits

/-- All that are in line, and all that have been given a turn, are callers of whom `P` holds. -/
structure Calls (P : Caller → Prop) (s : Limits) : Prop where
  woken : ∀ c ∈ s.woken, P c
  ceiling : ∀ c ∈ s.ceilingGate.line, P c
  buckets : ∀ b ∈ s.buckets, ∀ c ∈ b.gate.line, P c

variable {P : Caller → Prop} {s u : Limits} {c : Caller} {p : Pending} {i : Nat} {e : Event}

theorem Calls.congr (h : Calls P s) (hw : u.woken = s.woken) (hg : u.ceilingGate = s.ceilingGate)
    (hb : u.buckets = s.buckets) : Calls P u :=
  ⟨hw ▸ h.woken, hg ▸ h.ceiling, hb ▸ h.buckets⟩

/-- Whom a bucket's change gives a turn has been in its line, and so has everybody who is left there. -/
theorem Calls.changeBucket (h : Calls P s) {f : Bucket → Bucket × Option Caller}
    (hf : ∀ b : Bucket, (∀ c ∈ b.gate.line, P c) →
      (∀ c ∈ (f b).1.gate.line, P c) ∧ ∀ c ∈ (f b).2, P c) : Calls P (s.changeBucket i f) := by
  cases hb : s.buckets[i]? with
  | none => rwa [changeBucket_of_none hb]
  | some b =>
    obtain ⟨hline, hwoken⟩ := hf b (h.buckets b (List.mem_of_getElem? hb))
    rw [changeBucket_of_some hb]
    refine ⟨fun c hc => ?_, h.ceiling, fun b' hb' => ?_⟩
    · rcases List.mem_append.1 hc with hc | hc
      · exact h.woken c hc
      · exact hwoken c (Option.mem_toList.1 hc)
    · rcases List.mem_or_eq_of_mem_set hb' with hb' | rfl
      · exact h.buckets b' hb'
      · exact hline

theorem Calls.rouse (h : Calls P s) {f : Bucket → Bucket × Option Caller}
    (hf : ∀ b : Bucket, (f b).1.gate = b.gate.rouse.1 ∧ (f b).2 = b.gate.rouse.2) : Calls P (s.changeBucket i f) := by
  refine h.changeBucket fun b hb => ?_
  rw [(hf b).1, (hf b).2, Gate.line_rouse]
  exact ⟨hb, fun c hc => hb c (Gate.mem_of_rouse hc)⟩

theorem Calls.leave (h : Calls P s) (c : Caller) : Calls P (s.changeBucket i (·.leave c)) :=
  h.changeBucket fun _ hb => ⟨fun d hd => hb d (Gate.mem_of_line_leave hd), fun d hd => hb d (Gate.mem_of_leave hd)⟩

theorem Calls.leaveCeiling (h : Calls P s) (c : Caller) :
    Calls P ({ s with ceilingGate := (s.ceilingGate.leave c).1 }.wake (s.ceilingGate.leave c).2) := by
  refine ⟨fun d hd => ?_, fun d hd => h.ceiling d (Gate.mem_of_line_leave hd), h.buckets⟩
  rcases List.mem_append.1 hd with hd | hd
  · exact h.woken d hd
  · exact h.ceiling d (Gate.mem_of_leave (Option.mem_toList.1 hd))

/-! ### Responses -/

theorem Calls.share (h : Calls P s) (now : Instant) (i : Nat) (r : Report) : Calls P (s.share now i r) := by
  unfold Limits.share
  split
  · dsimp only
    split
    · exact h.congr rfl rfl rfl
    · split
      · exact h
      · exact (h.rouse fun _ => ⟨rfl, rfl⟩).congr rfl rfl rfl
  · exact h

theorem Calls.recordBucket (h : Calls P s) (now : Instant) (t : Ticket) (r : Report) :
    Calls P (s.recordBucket now t r) := by
  unfold Limits.recordBucket
  split
  · exact (h.rouse fun _ => ⟨rfl, rfl⟩).share ..
  · exact h

theorem Calls.block (h : Calls P s) (now : Instant) (wait : Span) : Calls P (s.block now wait) := by
  refine ⟨fun c hc => ?_, fun c hc => h.ceiling c (Gate.line_rouse s.ceilingGate ▸ hc), h.buckets⟩
  rcases List.mem_append.1 hc with hc | hc
  · exact h.woken c hc
  · exact h.ceiling c (Gate.mem_of_rouse (Option.mem_toList.1 hc))

theorem Calls.recordRefusal (h : Calls P s) (now : Instant) (t : Ticket) (r : Report) (body : Option Refusal) :
    Calls P (s.recordRefusal now t r body) := by
  have hheld : Calls P (s.held now t (refusalWait r body)) := by
    rcases held_cases s now t (refusalWait r body) with hu | hu
    · rwa [hu]
    · rw [hu]
      exact h.block ..
  cases hg : isGlobalRefusal r body with
  | true =>
    rw [recordRefusal_of_global hg]
    split
    · exact hheld.recordBucket ..
    · exact hheld
  | false =>
    rw [recordRefusal_of_not_global hg]
    split
    · exact (h.rouse fun _ => ⟨rfl, rfl⟩).share ..
    · exact h

theorem Calls.release (h : Calls P s) (t : Ticket) : Calls P (s.release t) := by
  have hleft : Calls P { s with tickets := s.tickets.filter (·.caller ≠ t.caller) } := h.congr rfl rfl rfl
  unfold Limits.release
  dsimp only
  split
  · exact hleft.leave _
  · exact hleft

theorem Calls.withdraw (h : Calls P s) (c : Caller) : Calls P (s.withdraw c) := by
  have hleft : Calls P { s with pending := s.pending.filter (·.caller ≠ c) } := h.congr rfl rfl rfl
  unfold Limits.withdraw
  split
  · exact h.release _
  · dsimp only
    split
    · exact hleft.leaveCeiling c
    · exact hleft.leave c
  · exact h

/-! ### Callers that look -/

theorem Calls.pollBucket (h : Calls P s) (now : Instant) (p : Pending) (i : Nat) :
    Calls P (s.pollBucket now p i).1 := by
  cases hb : s.buckets[i]? with
  | none => simpa [Limits.pollBucket, hb] using h
  | some b =>
    have hlooked : Calls P (s.changeBucket i fun b => (b.poll now p.caller).1) := by
      refine h.changeBucket fun b hb => ?_
      unfold Bucket.poll
      split
      · split
        · exact ⟨hb, fun c hc => by cases hc⟩
        · exact ⟨hb, fun c hc => by cases hc⟩
        · exact ⟨fun d hd => hb d (Gate.mem_of_line_leave hd), fun d hd => hb d (Gate.mem_of_leave hd)⟩
      · exact ⟨hb, fun c hc => by cases hc⟩
    rw [pollBucket_of_some hb]
    dsimp only
    split
    · exact hlooked.congr rfl rfl rfl
    · exact hlooked

theorem Calls.enterBucket (h : Calls P s) (hp : P p.caller) (now : Instant) (key : RouteKey) :
    Calls P (s.enterBucket now p key).1 := by
  have hmade : Calls P (s.bucketFor key).2 := by
    unfold bucketFor
    split
    · exact h
    · refine ⟨h.woken, h.ceiling, fun b hb => ?_⟩
      rcases List.mem_append.1 hb with hb | hb
      · exact h.buckets b hb
      · cases List.mem_singleton.1 hb
        exact fun c hc => by cases hc
  have hjoined : Calls P (s.lineUp p key).2 := by
    refine (hmade.changeBucket (i := (s.bucketFor key).1)
      (f := fun b => ({ b with gate := b.gate.join p.caller }, none)) fun b hb => ⟨fun c hc => ?_, fun c hc => ?_⟩).congr
        rfl rfl rfl
    · rcases List.mem_append.1 hc with hc | hc
      · exact hb c hc
      · exact List.mem_singleton.1 hc ▸ hp
    · cases hc
  rw [enterBucket_eq]
  exact hjoined.pollBucket ..

theorem Calls.pollCeiling (h : Calls P s) (hp : P p.caller) (now : Instant) : Calls P (s.pollCeiling now p).1 := by
  have hpassed : Calls P (s.passed now p.caller) := (h.leaveCeiling p.caller).congr rfl rfl rfl
  rcases pollCeiling_cases s now p with ho | ⟨-, ⟨till, -, ho⟩ | ⟨-, ⟨-, ho⟩ | ⟨key, scope, -, ho⟩⟩⟩
  · rwa [ho]
  · rw [ho]
    exact ⟨h.woken, h.ceiling, h.buckets⟩
  · rw [ho]
    exact hpassed.congr rfl rfl rfl
  · rw [ho]
    exact hpassed.enterBucket hp now key

theorem Calls.enterCeiling (h : Calls P s) (hp : P p.caller) (now : Instant) :
    Calls P (s.enterCeiling now p).1 := by
  have hjoined : Calls P { s with ceilingGate := s.ceilingGate.join p.caller } := by
    refine ⟨h.woken, fun c hc => ?_, h.buckets⟩
    rcases List.mem_append.1 hc with hc | hc
    · exact h.ceiling c hc
    · exact List.mem_singleton.1 hc ▸ hp
  exact hjoined.pollCeiling hp now

/-- Who comes in to wait gets in line, and nobody else does. -/
theorem Calls.arrive (h : Calls P s) (now : Instant) {wanted : Wanted}
    (hc : (∀ key, wanted ≠ .route key .exempt) → P c) : Calls P (s.arrive now c wanted).1 := by
  have hlined : Calls P { s with pending := s.pending ++ [⟨c, wanted, .ceiling⟩] } := h.congr rfl rfl rfl
  cases wanted with
  | account => exact hlined.enterCeiling (hc (by simp)) now
  | route key scope =>
    cases scope with
    | all => exact hlined.enterCeiling (hc (by simp)) now
    | routeOnly => exact hlined.enterBucket (hc (by simp)) now key
    | exempt => exact hlined.congr rfl rfl rfl

/-- Whoever looks waits somewhere. -/
theorem Calls.poll (h : Calls P s) (hp : ∀ p ∈ s.pending, P p.caller) (now : Instant) (c : Caller) :
    Calls P (s.poll now c).1 := by
  unfold Limits.poll
  split
  · exact h
  · rename_i p hfind
    split
    · exact h.pollCeiling (hp p (List.mem_of_find?_eq_some hfind)) now
    · exact h.pollBucket ..

theorem calls_step (h : Calls P s) (hp : ∀ p ∈ s.pending, P p.caller) (now : Instant)
    (he : ∀ c wanted, e = .arrive c wanted → (∀ key, wanted ≠ .route key .exempt) → P c) :
    Calls P (s.step now e).1 := by
  rw [step_eq]
  cases e with
  | arrive c wanted =>
    simp only [leap]
    split
    · exact h
    · exact h.arrive now (he c wanted rfl)
  | poll c => exact h.poll hp now c
  | record c r =>
    simp only [leap]
    split
    · exact (h.recordBucket ..).release _
    · exact h
  | refuse c r body =>
    simp only [leap]
    split
    · exact (h.recordRefusal ..).release _
    · exact h
  | withdraw c => exact h.withdraw c
  | block wait => exact h.block now wait

end ChatApi.Limit.Limits
