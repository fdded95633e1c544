import ChatApi.Proofs.Limit.Visit

/-!
# Every table entry leads to a bucket

Buckets are never taken away, and the tables of routes and of shared names only ever lead to buckets
that are there. So a lookup never ends at a bucket that is missing.
-/

namespace ChatApi.Limit.Limits

structure Charted (s : Limits) : Prop where
  routes : ∀ key i, s.routes.get? key = some i → i < s.buckets.length
  shared : ∀ name i, s.shared.get? name = some i → i < s.buckets.length

variable {s u : Limits} {now : Instant} {p : Pending} {i : Nat}

theorem Charted.congr (h : Charted s) (hl : u.buckets.length = s.buckets.length)
    (hr : u.routes = s.routes) (hs : u.shared = s.shared) : Charted u := by
  refine ⟨fun key i hi => ?_, fun name i hi => ?_⟩
  · rw [hl]; exact h.routes key i (hr ▸ hi)
  · rw [hl]; exact h.shared name i (hs ▸ hi)

theorem Charted.of_beside (h : Charted s) (hu : Beside s u) : Charted u :=
  h.congr hu.length hu.routes hu.shared

theorem Charted.changeBucket {f : Bucket → Bucket × Option Caller} (h : Charted s)
    (hf : ∀ b, (f b).1.key = b.key) : Charted (s.changeBucket i f) :=
  h.of_beside (beside_changeBucket hf)

/-- A route is entered together with the bucket that is made for it. -/
theorem charted_bucketFor (h : Charted s) (key : RouteKey) : Charted (s.bucketFor key).2 := by
  unfold bucketFor
  split
  · exact h
  · refine ⟨fun key' i hi => ?_, fun name i hi => ?_⟩
    · simp only [List.length_append, List.length_singleton]
      by_cases hk : key' = key
      · subst hk
        rw [Table.get?_put_self] at hi
        cases hi
        exact Nat.lt_succ_self _
      · rw [Table.get?_put_ne _ _ hk] at hi
        exact Nat.lt_succ_of_lt (h.routes key' i hi)
    · simp only [List.length_append, List.length_singleton]
      exact Nat.lt_succ_of_lt (h.shared name i hi)

/-- A route is only folded onto a bucket that the shared names lead to. -/
theorem charted_share (h : Charted s) (now : Instant) (i : Nat) (r : Report) :
    Charted (s.share now i r) := by
  unfold share
  split
  · rename_i hash b _ hb
    have hi : i < s.buckets.length := (List.getElem?_eq_some_iff.1 hb).1
    dsimp only
    split
    · refine ⟨h.routes, fun name j hj => ?_⟩
      by_cases hn : name = sharedName hash b.key
      · subst hn
        rw [Table.get?_put_self] at hj
        cases hj
        exact hi
      · rw [Table.get?_put_ne _ _ hn] at hj
        exact h.shared name j hj
    · rename_i j hj
      split
      · exact h
      · have h' := h.changeBucket (i := j) (f := (·.record now r)) fun b => rfl
        have hlength : (s.changeBucket j (·.record now r)).buckets.length = s.buckets.length :=
          (beside_changeBucket fun b => rfl).length
        refine ⟨fun key k hk => ?_, h'.shared⟩
        by_cases he : key = b.key
        · subst he
          rw [Table.get?_put_self] at hk
          cases hk
          show j < (s.changeBucket j (·.record now r)).buckets.length
          rw [hlength]
          exact h.shared _ j hj
        · rw [Table.get?_put_ne _ _ he] at hk
          exact h'.routes key k hk
  · exact h

theorem charted_pollBucket (h : Charted s) (now : Instant) (p : Pending) (i : Nat) :
    Charted (s.pollBucket now p i).1 := by
  obtain ⟨u, hu, hv⟩ := visited_pollBucket s now p i
  have h' := h.of_beside hu
  cases hl : ((s.site i).arrive false p.caller).lets now p.caller with
  | true => rw [hv.granted hl]; exact h'.congr rfl rfl rfl
  | false =>
    obtain ⟨turn, -, ho⟩ := hv.refused hl
    rw [ho]; exact h'

theorem charted_enterBucket (h : Charted s) (now : Instant) (p : Pending) (key : RouteKey) :
    Charted (s.enterBucket now p key).1 := by
  rw [enterBucket_eq]
  refine charted_pollBucket ?_ now p _
  have hjoin := (charted_bucketFor h key).changeBucket (i := (s.bucketFor key).1)
    (f := fun b => ({ b with gate := b.gate.join p.caller }, none)) fun b => rfl
  exact hjoin.congr rfl rfl rfl

theorem charted_pollCeiling (h : Charted s) (now : Instant) (p : Pending) :
    Charted (s.pollCeiling now p).1 := by
  have hpassed : Charted (s.passed now p.caller) := h.congr rfl rfl rfl
  rcases pollCeiling_cases s now p with ho | ⟨-, ⟨till, -, ho⟩ | ⟨-, ⟨-, ho⟩ | ⟨key, scope, -, ho⟩⟩⟩
  · rw [ho]; exact h
  · rw [ho]; exact h.congr rfl rfl rfl
  · rw [ho]; exact hpassed.congr rfl rfl rfl
  · rw [ho]; exact charted_enterBucket hpassed now p key

theorem charted_enterCeiling (h : Charted s) (now : Instant) (p : Pending) :
    Charted (s.enterCeiling now p).1 := by
  have h' : Charted { s with ceilingGate := s.ceilingGate.join p.caller } := h.congr rfl rfl rfl
  exact charted_pollCeiling h' now p

theorem charted_arrive (h : Charted s) (now : Instant) (c : Caller) (wanted : Wanted) :
    Charted (s.arrive now c wanted).1 := by
  have h' : Charted { s with pending := s.pending ++ [⟨c, wanted, .ceiling⟩] } := h.congr rfl rfl rfl
  unfold arrive
  dsimp only
  split
  · exact h'.congr rfl rfl rfl
  · exact charted_enterBucket h' now _ _
  · exact charted_enterCeiling h' now _
  · exact charted_enterCeiling h' now _

theorem charted_release (h : Charted s) (t : Ticket) : Charted (s.release t) := by
  unfold release
  dsimp only
  have h' : Charted { s with tickets := s.tickets.filter (·.caller ≠ t.caller) } := h.congr rfl rfl rfl
  split
  · exact h'.changeBucket fun b => rfl
  · exact h'

theorem charted_recordBucket (h : Charted s) (now : Instant) (t : Ticket) (r : Report) :
    Charted (s.recordBucket now t r) := by
  unfold recordBucket
  split
  · exact charted_share (h.changeBucket fun b => rfl) now _ r
  · exact h

theorem charted_recordRefusal (h : Charted s) (now : Instant) (t : Ticket) (r : Report)
    (body : Option Refusal) : Charted (s.recordRefusal now t r body) := by
  cases hg : isGlobalRefusal r body with
  | true =>
    have hheld : Charted (s.held now t (refusalWait r body)) := by
      rcases held_cases s now t (refusalWait r body) with hu | hu
      · rw [hu]; exact h
      · rw [hu]; exact h.congr rfl rfl rfl
    rw [recordRefusal_of_global hg]
    split
    · exact charted_recordBucket hheld now t r
    · exact hheld
  | false =>
    rw [recordRefusal_of_not_global hg]
    split
    · exact charted_share (h.changeBucket fun b => rfl) now _ r
    · exact h

theorem charted_withdraw (h : Charted s) (c : Caller) : Charted (s.withdraw c) := by
  unfold withdraw
  split
  · exact charted_release h _
  · dsimp only
    split
    · exact h.congr rfl rfl rfl
    · have h' : Charted { s with pending := s.pending.filter (·.caller ≠ c) } := h.congr rfl rfl rfl
      exact h'.changeBucket fun b => rfl
  · exact h

theorem charted_step (h : Charted s) (now : Instant) (e : Event) : Charted (s.step now e).1 := by
  rw [step_eq]
  cases e with
  | arrive c wanted =>
    simp only [leap]
    split
    · exact h
    · exact charted_arrive h now c wanted
  | poll c =>
    simp only [leap, poll]
    split
    · exact h
    · split
      · exact charted_pollCeiling h now _
      · exact charted_pollBucket h now _ _
  | record c r =>
    simp only [leap]
    split
    · exact charted_release (charted_recordBucket h now _ r) _
    · exact h
  | refuse c r body =>
    simp only [leap]
    split
    · exact charted_release (charted_recordRefusal h now _ r body) _
    · exact h
  | withdraw c => exact charted_withdraw h c
  | block wait => exact h.congr rfl rfl rfl

theorem charted_run (limit : Nat) (es : List (Instant × Event)) : Charted ((ofLimit limit).run es) := by
  have hstart : Charted (ofLimit limit) :=
    ⟨fun key i hi => (by cases hi), fun name i hi => (by cases hi)⟩
  exact run_induction (P := Charted) (fun s now e h => charted_step h now e) hstart es

end ChatApi.Limit.Limits
