import ChatApi.Proofs.Limit.Custody
import ChatApi.Proofs.Limit.Fold
import Mathlib.Logic.Relation

/-!
# How far ahead limits are closed

Wherever a bucket or the account is closed until some moment, that moment is the sum of the moment of an event and
a span that the event brings (`Limits.endsAt_run`): each operation adds no other (`Limits.Adds`), and a response that
is shared among buckets brings the same span to all of them. What is read from a response is a day at most,
whatever its bytes are (`Event.IsRead.span_le`), and so an event never closes anything for more than a day ahead
(`Limits.Heeds.endsAt`).
-/

namespace ChatApi.Limit

/-- What an event takes over from a response was read from its header fields and its body. -/
def Event.IsRead : Event → Prop
  | .arrive _ _ | .poll _ | .withdraw _ => True
  | .record _ r => ∃ millis hs, r = .ofHeaders millis hs
  | .refuse _ r body => (∃ millis hs, r = .ofHeaders millis hs) ∧ ∃ bytes, body = Refusal.ofBody? bytes
  | .block _ => False

/-- The spans that an event can add to its moment. -/
def Event.spans : Event → List Span
  | .arrive _ _ | .poll _ => [Ceiling.window]
  | .record _ r => r.resetAfter.toList
  | .refuse _ r body => Limits.refusalWait r body :: r.resetAfter.toList
  | .withdraw _ => []
  | .block wait => [wait]

/-- A window of the account, or a block of it, ends at `t`. -/
def Ceiling.EndsAt (c : Ceiling) (t : Instant) : Prop := t ∈ c.windowEnds ∨ t ∈ c.blockedUntil

/-- A bucket is closed until `t`, or the account has something that ends then. -/
def Limits.EndsAt (s : Limits) (t : Instant) : Prop :=
  (∃ b ∈ s.buckets, t ∈ b.window.resetAt) ∨ s.ceiling.EndsAt t

/-! ### What is read from a response -/

variable {millis : Int} {hs : Http.Headers} {d : Span} {t now : Instant}

theorem le_of_mem_resetAfter (h : d ∈ (Report.ofHeaders millis hs).resetAfter) : d ≤ longestWait := by
  unfold Report.ofHeaders at h
  simp only [Option.mem_def, Option.or_eq_some_iff, Option.bind_eq_some_iff] at h
  rcases h with ⟨x, -, hx⟩ | ⟨-, x, -, hx⟩
  · exact readWait?_le hx
  · exact readWait?_le hx

theorem le_of_mem_retryAfter (h : d ∈ (Report.ofHeaders millis hs).retryAfter) : d ≤ longestWait := by
  obtain ⟨x, -, hx⟩ := Option.bind_eq_some_iff.1 h
  exact readWait?_le hx

/-- A refusal says to wait a day at most, whatever its body says. -/
theorem refusalWait_le (body : Option Refusal) :
    Limits.refusalWait (Report.ofHeaders millis hs) body ≤ longestWait := by
  unfold Limits.refusalWait
  cases hb : body.bind Refusal.wait? with
  | some wait =>
    obtain ⟨refusal, -, hwait⟩ := Option.bind_eq_some_iff.1 hb
    exact readWait?_le hwait
  | none =>
    cases hr : (Report.ofHeaders millis hs).retryAfter with
    | some wait => exact le_of_mem_retryAfter hr
    | none =>
      cases ha : (Report.ofHeaders millis hs).resetAfter with
      | some wait => exact le_of_mem_resetAfter ha
      | none => simp [longestWait, Span.day, Span.second]

theorem Event.IsRead.span_le {e : Event} (h : e.IsRead) (hd : d ∈ e.spans) : d ≤ longestWait := by
  have window : Ceiling.window ≤ longestWait := by decide
  cases e with
  | arrive c wanted | poll c =>
    rw [List.mem_singleton.1 hd]
    exact window
  | record c r =>
    obtain ⟨millis, hs, rfl⟩ := h
    exact le_of_mem_resetAfter (Option.mem_toList.1 hd)
  | refuse c r body =>
    obtain ⟨⟨millis, hs, rfl⟩, -⟩ := h
    rcases List.mem_cons.1 hd with rfl | hd
    · exact refusalWait_le body
    · exact le_of_mem_resetAfter (Option.mem_toList.1 hd)
  | withdraw c => cases hd
  | block wait => cases h

/-! ### Windows and the account -/

namespace Window

variable {w : Window}

theorem mem_resetAt_reserve (h : t ∈ (w.reserve now).1.resetAt) : t ∈ w.resetAt := by
  unfold reserve at h
  split at h
  · exact h
  · exact h
  -- a window of which something is known is begun anew, or goes on
  all_goals
    split at h
    · simp at h
    · split at h <;> exact h

theorem mem_resetAt_record {r : Report} (h : t ∈ (w.record now r).resetAt) :
    t ∈ w.resetAt ∨ ∃ d ∈ r.resetAfter, t = now + d := by
  unfold record at h
  dsimp only at h
  split at h
  · exact .inl h
  · simp only [Option.mem_def, Option.or_eq_some_iff] at h
    rcases h with h | ⟨-, h⟩
    · obtain ⟨d, hd, rfl⟩ := Option.map_eq_some_iff.1 h
      exact .inr ⟨d, hd, rfl⟩
    · exact .inl h

end Window

namespace Ceiling

variable {c : Ceiling}

theorem endsAt_refresh (h : (c.refresh now).EndsAt t) : c.EndsAt t ∨ t = now + window := by
  unfold refresh at h
  split at h
  · exact .inl h
  · rcases h with h | h
    · cases h
      exact .inr rfl
    · exact .inl (.inr h)

theorem endsAt_reserve (h : (c.reserve now).1.EndsAt t) : c.EndsAt t ∨ t = now + window := by
  have unblocked (h : ({ c with blockedUntil := none } : Ceiling).EndsAt t) : c.EndsAt t := by
    rcases h with h | h
    · exact .inl h
    · cases h
  unfold reserve at h
  split at h
  · exact .inl h
  · dsimp only at h
    split at h
    · exact .inl (unblocked h)
    · have hrefresh : (({ c with blockedUntil := none } : Ceiling).refresh now).EndsAt t := by
        split at h
        · exact h
        · exact h
      exact (endsAt_refresh hrefresh).imp_left unblocked

theorem endsAt_block {wait : Span} (h : (c.block now wait).EndsAt t) : c.EndsAt t ∨ t = now + wait := by
  rcases h with h | h
  · exact .inl (.inl h)
  · have ht : max (c.blockedUntil.getD 0) (now + wait) = t := Option.some.inj h
    cases hb : c.blockedUntil with
    | none =>
      rw [hb] at ht
      right
      simpa using ht.symm
    | some till =>
      rw [hb, Option.getD_some] at ht
      by_cases hle : till ≤ now + wait
      · rw [Nat.max_eq_right hle] at ht
        exact .inr ht.symm
      · rw [Nat.max_eq_left (Nat.le_of_not_le hle)] at ht
        rw [← ht]
        exact .inl (.inr hb)

end Ceiling

namespace Limits

/-- What ends at some moment in `u` does so in `s`, or ends one of the spans `ds` after `now`. -/
structure Adds (now : Instant) (ds : List Span) (s u : Limits) : Prop where
  window : ∀ i, ∀ t ∈ (u.site i).window.resetAt, t ∈ (s.site i).window.resetAt ∨ ∃ d ∈ ds, t = now + d
  ceiling : ∀ t, u.ceiling.EndsAt t → s.ceiling.EndsAt t ∨ ∃ d ∈ ds, t = now + d

variable {s u v : Limits} {ds : List Span} {p : Pending} {r : Report} {i j : Nat}

theorem Adds.of_same (hw : ∀ i, (u.site i).window = (s.site i).window) (hc : u.ceiling = s.ceiling) :
    Adds now ds s u := by
  constructor
  · intro i t ht
    left
    rw [← hw]
    exact ht
  · intro t ht
    left
    rw [← hc]
    exact ht

theorem Adds.refl (now : Instant) (ds : List Span) (s : Limits) : Adds now ds s s :=
  .of_same (fun _ => rfl) rfl

theorem Adds.trans (h : Adds now ds s u) (h' : Adds now ds u v) : Adds now ds s v := by
  constructor
  · intro i t ht
    rcases h'.window i t ht with ht | hd
    · exact h.window i t ht
    · exact .inr hd
  · intro t ht
    rcases h'.ceiling t ht with ht | hd
    · exact h.ceiling t ht
    · exact .inr hd

/-! ### Callers that ask -/

/-- A caller that looks at a bucket can only open it. -/
theorem Visited.adds {isNew : Bool} {o : Limits × Turn} (hv : Visited s now p i isNew u o)
    (hc : o.1.ceiling = s.ceiling) : Adds now ds s o.1 := by
  have hsite : ∀ j, o.1.site j = u.site j := by
    intro j
    cases hl : ((s.site i).arrive isNew p.caller).lets now p.caller with
    | true =>
      rw [hv.granted hl]
      rfl
    | false =>
      obtain ⟨turn, -, rfl⟩ := hv.refused hl
      rfl
  constructor
  · intro j t ht
    left
    rw [hsite, hv.site] at ht
    by_cases hj : j = i
    · have hwindow : ((s.site i).arrive isNew p.caller).window = (s.site i).window := by
        cases isNew <;> rfl
      rw [if_pos hj, Site.window_look, hwindow] at ht
      rw [hj]
      split at ht
      · exact Window.mem_resetAt_reserve ht
      · exact ht
    · rw [if_neg hj] at ht
      exact ht
  · intro t ht
    left
    rw [← hc]
    exact ht

theorem adds_pollBucket (s : Limits) (now : Instant) (p : Pending) (i : Nat) :
    Adds now ds s (s.pollBucket now p i).1 := by
  obtain ⟨u, -, hv⟩ := visited_pollBucket s now p i
  exact hv.adds (account_pollBucket s now p i).1

theorem adds_enterBucket (s : Limits) (now : Instant) (p : Pending) (key : RouteKey) :
    Adds now ds s (s.enterBucket now p key).1 := by
  obtain ⟨isNew, u, hv, -⟩ := visited_enterBucket s now p key
  exact hv.adds (account_enterBucket s now p key).1

/-- A caller that looks at the limit of the account can begin a window of it. -/
theorem adds_pollCeiling (s : Limits) (now : Instant) (p : Pending) :
    Adds now [Ceiling.window] s (s.pollCeiling now p).1 := by
  have reserved (u : Limits) (hw : ∀ i, (u.site i).window = (s.site i).window)
      (hc : u.ceiling = (s.ceiling.reserve now).1) : Adds now [Ceiling.window] s u := by
    refine ⟨(Adds.of_same (u := { u with ceiling := s.ceiling }) hw rfl).window, ?_⟩
    intro t ht
    rw [hc] at ht
    exact (Ceiling.endsAt_reserve ht).imp_right fun h => ⟨_, List.mem_singleton_self _, h⟩
  have passed : Adds now [Ceiling.window] s (s.passed now p.caller) := reserved _ (fun _ => rfl) rfl
  rcases pollCeiling_cases s now p with ho | ⟨-, ⟨till, -, ho⟩ | ⟨-, ⟨-, ho⟩ | ⟨key, scope, -, ho⟩⟩⟩
  · rw [ho]
    exact .refl ..
  · rw [ho]
    exact reserved _ (fun _ => rfl) rfl
  · rw [ho]
    exact reserved _ (fun _ => rfl) rfl
  · rw [ho]
    exact passed.trans (adds_enterBucket ..)

theorem adds_enterCeiling (s : Limits) (now : Instant) (p : Pending) :
    Adds now [Ceiling.window] s (s.enterCeiling now p).1 := by
  have h := adds_pollCeiling { s with ceilingGate := s.ceilingGate.join p.caller } now p
  exact ⟨h.window, h.ceiling⟩

theorem adds_arrive (s : Limits) (now : Instant) (c : Caller) (wanted : Wanted) :
    Adds now [Ceiling.window] s (s.arrive now c wanted).1 := by
  -- who waits closes nothing
  have come : Adds now [Ceiling.window] s { s with pending := s.pending ++ [⟨c, wanted, .ceiling⟩] } :=
    .of_same (fun _ => rfl) rfl
  unfold arrive
  dsimp only
  split
  · exact .of_same (fun _ => rfl) rfl
  · exact come.trans (adds_enterBucket ..)
  · exact come.trans (adds_enterCeiling ..)
  · exact come.trans (adds_enterCeiling ..)

theorem adds_poll (s : Limits) (now : Instant) (c : Caller) :
    Adds now [Ceiling.window] s (s.poll now c).1 := by
  unfold poll
  split
  · exact .refl ..
  · split
    · exact adds_pollCeiling ..
    · exact adds_pollBucket ..

/-! ### Responses -/

/-- A response brings its own span to the bucket that it is shared with. -/
theorem adds_changeBucket_share {f : Bucket → Bucket × Option Caller} {op : Window.Op} (hf : Bucket.Takes f now op)
    (hop : ∀ w t, t ∈ (Window.apply w now op).1.resetAt → t ∈ w.resetAt ∨ ∃ d ∈ ds, t = now + d)
    (hr : ∀ d ∈ r.resetAfter, d ∈ ds) (s : Limits) (i : Nat) :
    Adds now ds s ((s.changeBucket i f).share now i r) := by
  refine ⟨?_, ?_⟩
  · intro j t ht
    rw [site_changeBucket_share hf] at ht
    by_cases hj : j < s.buckets.length
    · rw [if_pos hj] at ht
      split at ht
      · exact hop _ t ht
      · split at ht
        · rcases Window.mem_resetAt_record ht with h | ⟨d, hd, rfl⟩
          · exact .inl h
          · exact .inr ⟨d, hr d hd, rfl⟩
        · exact .inl ht
    · rw [if_neg hj] at ht
      exact .inl ht
  · intro t ht
    rw [(changeBucket_share_frame hf s i r).1] at ht
    exact .inl ht

theorem adds_recordBucket (hr : ∀ d ∈ r.resetAfter, d ∈ ds) (s : Limits) (now : Instant) (t : Ticket) :
    Adds now ds s (s.recordBucket now t r) := by
  unfold recordBucket
  split
  · refine adds_changeBucket_share (Bucket.takes_record now r) ?_ hr s _
    intro w t ht
    rcases Window.mem_resetAt_record ht with h | ⟨d, hd, rfl⟩
    · exact .inl h
    · exact .inr ⟨d, hr d hd, rfl⟩
  · exact .refl ..

theorem adds_held {wait : Span} (hwait : wait ∈ ds) (s : Limits) (now : Instant) (t : Ticket) :
    Adds now ds s (s.held now t wait) := by
  rcases held_cases s now t wait with h | h
  · rw [h]
    exact .refl ..
  · rw [h]
    refine ⟨(Adds.refl now ds s).window, ?_⟩
    intro t ht
    exact (Ceiling.endsAt_block ht).imp_right fun h => ⟨wait, hwait, h⟩

theorem adds_recordRefusal {body : Option Refusal} (hwait : refusalWait r body ∈ ds)
    (hr : ∀ d ∈ r.resetAfter, d ∈ ds) (s : Limits) (now : Instant) (t : Ticket) :
    Adds now ds s (s.recordRefusal now t r body) := by
  cases hg : isGlobalRefusal r body with
  | true =>
    rw [recordRefusal_of_global hg]
    split
    · exact (adds_held hwait s now t).trans (adds_recordBucket hr _ now t)
    · exact adds_held hwait s now t
  | false =>
    rw [recordRefusal_of_not_global hg]
    split
    · refine adds_changeBucket_share (Bucket.takes_exhaust now _) ?_ hr s _
      intro w t ht
      cases ht
      exact .inr ⟨_, hwait, rfl⟩
    · exact .refl ..

theorem adds_release (s : Limits) (t : Ticket) : Adds now ds s (s.release t) := by
  refine .of_same ?_ (release_frame s t).1
  intro i
  rw [site_release]
  split
  · rfl
  · rfl

theorem adds_withdraw (s : Limits) (c : Caller) : Adds now ds s (s.withdraw c) := by
  cases ht : s.ticket? c with
  | some t =>
    rw [withdraw_of_ticket ht]
    exact adds_release s t
  | none =>
    cases hp : s.pending.find? (·.caller = c) with
    | none =>
      rw [withdraw_of_absent ht hp]
      exact .refl ..
    | some p =>
      refine .of_same ?_ (ceiling_withdraw s c)
      intro i
      rw [site_withdraw ht hp]
      split
      · rfl
      · rfl

/-- No event adds any other span. -/
theorem adds_step (s : Limits) (now : Instant) (e : Event) : Adds now e.spans s (s.step now e).1 := by
  rw [step_eq]
  cases e with
  | arrive c wanted =>
    simp only [leap]
    split
    · exact .refl ..
    · exact adds_arrive s now c wanted
  | poll c => exact adds_poll s now c
  | record c r =>
    simp only [leap]
    split
    · rename_i t _
      have hr : ∀ d ∈ r.resetAfter, d ∈ (Event.record c r).spans := by simp [Event.spans]
      exact (adds_recordBucket hr s now t).trans (adds_release ..)
    · exact .refl ..
  | refuse c r body =>
    simp only [leap]
    split
    · rename_i t _
      have hr : ∀ d ∈ r.resetAfter, d ∈ (Event.refuse c r body).spans := by simp +contextual [Event.spans]
      exact (adds_recordRefusal (List.mem_cons_self ..) hr s now t).trans (adds_release ..)
    · exact .refl ..
  | withdraw c => exact adds_withdraw s c
  | block wait =>
    refine ⟨(Adds.refl now _ s).window, ?_⟩
    intro t ht
    exact (Ceiling.endsAt_block ht).imp_right fun h => ⟨wait, List.mem_singleton_self _, h⟩

/-! ### All events -/

theorem exists_bucket_iff :
    (∃ b ∈ s.buckets, t ∈ b.window.resetAt) ↔ ∃ i, t ∈ (s.site i).window.resetAt := by
  constructor
  · rintro ⟨b, hb, ht⟩
    obtain ⟨i, hi⟩ := List.mem_iff_getElem?.1 hb
    exact ⟨i, by rw [site_of_some hi]; exact ht⟩
  · rintro ⟨i, ht⟩
    cases hb : s.buckets[i]? with
    | none =>
      rw [site_of_none hb] at ht
      cases ht
    | some b =>
      rw [site_of_some hb] at ht
      exact ⟨b, List.mem_of_getElem? hb, ht⟩

theorem Adds.endsAt (h : Adds now ds s u) (ht : u.EndsAt t) : s.EndsAt t ∨ ∃ d ∈ ds, t = now + d := by
  rcases ht with hb | hc
  · obtain ⟨i, ht⟩ := exists_bucket_iff.1 hb
    rcases h.window i t ht with ht | hd
    · exact .inl (.inl (exists_bucket_iff.2 ⟨i, ht⟩))
    · exact .inr hd
  · rcases h.ceiling t hc with ht | hd
    · exact .inl (.inr ht)
    · exact .inr hd

theorem endsAt_run {es : List (Instant × Event)} (ht : (s.run es).EndsAt t) :
    s.EndsAt t ∨ ∃ x ∈ es, ∃ d ∈ x.2.spans, t = x.1 + d := by
  induction es generalizing s with
  | nil => exact .inl ht
  | cons x es ih =>
    obtain ⟨now, e⟩ := x
    rcases ih ht with hs | ⟨x, hx, hd⟩
    · rcases (adds_step s now e).endsAt hs with hs | hd
      · exact .inl hs
      · exact .inr ⟨(now, e), List.mem_cons_self, hd⟩
    · exact .inr ⟨x, List.mem_cons_of_mem _ hx, hd⟩

theorem not_endsAt_ofLimit (limit : Nat) : ¬(ofLimit limit).EndsAt t := by
  simp [EndsAt, Ceiling.EndsAt, ofLimit, Ceiling.ofLimit]

/-- Limits `u` are what events at `now`, with what was read from responses, make of `s`. -/
def Heeds (now : Instant) : Limits → Limits → Prop :=
  Relation.ReflTransGen fun s u => ∃ e : Event, e.IsRead ∧ u = (s.step now e).1.takeWoken.2

theorem Heeds.endsAt (h : Heeds now s u) (ht : u.EndsAt t) : s.EndsAt t ∨ t ≤ now + longestWait := by
  induction h with
  | refl => exact .inl ht
  | @tail u v _ hv ih =>
    obtain ⟨e, hread, rfl⟩ := hv
    rcases (adds_step u now e).endsAt ht with ht | ⟨d, hd, rfl⟩
    · exact ih ht
    · exact .inr (Nat.add_le_add_left (hread.span_le hd) now)

end Limits

end ChatApi.Limit
