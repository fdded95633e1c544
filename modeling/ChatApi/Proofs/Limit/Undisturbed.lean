import ChatApi.Proofs.Limit.Custody
import ChatApi.Proofs.Limit.Exempt
import ChatApi.Proofs.Limit.Redirect
import ChatApi.Proofs.Limit.Sleep

/-!
# Sleep that nothing disturbs

`Limits.Disturbs` lists the events that change what a budget allows: the account is held back, or a bucket
takes over a response. At all others that are not its own a caller that sleeps at the gate sleeps on, and the
budget is as it was (`sleepsOn_step`). What a caller holds or waits for changes at its own events only
(`entries_step_ne`).
-/

namespace ChatApi.Limit

theorem Event.ne_of_caller? {e : Event} {c d : Caller} (h : e.caller? = some c) (hd : d ∉ e.caller?) : d ≠ c :=
  fun hdc => hd (hdc ▸ h)

/-- A caller that goes to a bucket at which another sleeps neither wakes that one nor takes anything. -/
theorem Site.sleeps_visit {x : Site} {c d : Caller} {till : Instant} (h : x.gate.Sleeps c till) (hd : d ≠ c)
    (now : Instant) (isNew : Bool) :
    ((x.arrive isNew d).look now d).gate.Sleeps c till ∧
      ((x.arrive isNew d).look now d).window = x.window := by
  have hjoined : (x.arrive isNew d).gate.Sleeps c till := by
    cases isNew with
    | false => exact h
    | true => exact h.join d
  have hlook : (x.arrive isNew d).look now d = x.arrive isNew d := by simp [Site.look, hjoined.not_isUp hd]
  rw [hlook]
  exact ⟨hjoined, by cases isNew <;> rfl⟩

namespace Limits

variable {s u v : Limits} {now : Instant} {e : Event} {p : Pending} {t : Ticket} {r : Report} {c d : Caller}
  {i j : Nat} {g : Stage} {key : RouteKey}

/-! ### What others do -/

/-- What a caller holds or waits for changes at its own events only. -/
theorem entries_step_ne (hd : d ∉ e.caller?) (s : Limits) (now : Instant) :
    (s.step now e).1.entries d = s.entries d := by
  rw [step_eq]
  cases e with
  | arrive c wanted =>
    have hne : d ≠ c := Event.ne_of_caller? rfl hd
    simp only [leap]
    split
    · rfl
    · rename_i hb
      exact entries_arrive_ne (Bool.eq_false_iff.2 hb) hne now wanted
  | poll c => exact entries_poll_ne (Event.ne_of_caller? rfl hd) s now
  | record c r =>
    simp only [leap]
    split
    · rename_i t ht
      obtain rfl := caller_of_ticket? ht
      obtain ⟨-, -, hp, htickets⟩ := recordBucket_frame s now t r
      exact (entries_release_ne (Event.ne_of_caller? rfl hd) _).trans (entries_congr hp htickets d)
    · rfl
  | refuse c r body =>
    simp only [leap]
    split
    · rename_i t ht
      obtain rfl := caller_of_ticket? ht
      obtain ⟨-, hp, htickets⟩ := recordRefusal_frame s now t r body
      exact (entries_release_ne (Event.ne_of_caller? rfl hd) _).trans (entries_congr hp htickets d)
    · rfl
  | withdraw c => exact entries_withdraw_ne (Event.ne_of_caller? rfl hd) s
  | block wait => rfl

/-! ### What disturbs -/

/-- A response that is taken over for bucket `j` is taken over by the bucket behind a gate: that is bucket `j`,
or the one onto which the response folds the route of bucket `j`. -/
def TakenAt (s : Limits) (j : Nat) (r : Report) (g : Stage) : Prop :=
  ∃ i, g = .bucket i ∧ (j = i ∨ s.canonical? j r = some i)

/-- An event changes what the budget behind a gate allows. -/
inductive Disturbs (s : Limits) : Stage → Event → Prop
  /-- The account is held back. -/
  | block (wait : Span) : Disturbs s .ceiling (.block wait)
  /-- The account is held back by a refusal. -/
  | refusal {t : Ticket} {key : RouteKey} {r : Report} {body : Option Refusal} (ht : s.ticket? t.caller = some t)
    (hw : t.wanted = .route key .all) (hg : isGlobalRefusal r body) : Disturbs s .ceiling (.refuse t.caller r body)
  /-- A bucket takes over a response. -/
  | response {g : Stage} {e : Event} {t : Ticket} {r : Report} {j : Nat} (ht : s.ticket? t.caller = some t)
    (hr : e.Reports t.caller r) (hb : t.bucket = some j) (hg : s.TakenAt j r g) : Disturbs s g e

/-- Requests for slots disturb nothing. -/
theorem not_disturbs_of_asks (h : e.asks c) : ¬ s.Disturbs g e := by
  intro hd
  cases hd with
  | block wait => rcases h with h | ⟨wanted, h⟩ <;> cases h
  | refusal ht hw hg => rcases h with h | ⟨wanted, h⟩ <;> cases h
  | response ht hr hb hg =>
    rcases h with rfl | ⟨wanted, rfl⟩
    · rcases hr with hr | ⟨body, hr, -⟩ <;> cases hr
    · rcases hr with hr | ⟨body, hr, -⟩ <;> cases hr

/-- On the way from `s` to `u` a caller that sleeps at a gate sleeps on, and the budget behind the gate is as it
was. -/
def SleepsOn (c : Caller) (g : Stage) (s u : Limits) : Prop :=
  ∀ till, (s.gateAt g).Sleeps c till → (u.gateAt g).Sleeps c till ∧ u.budget g = s.budget g

theorem SleepsOn.of_eq (hg : u.gateAt g = s.gateAt g) (hb : u.budget g = s.budget g) : SleepsOn c g s u :=
  fun _ h => ⟨hg ▸ h, hb⟩

theorem SleepsOn.refl (c : Caller) (g : Stage) (s : Limits) : SleepsOn c g s s := .of_eq rfl rfl

theorem SleepsOn.trans (h : SleepsOn c g s u) (h' : SleepsOn c g u v) : SleepsOn c g s v := by
  intro till hs
  obtain ⟨hu, hb⟩ := h till hs
  obtain ⟨hv, hb'⟩ := h' till hu
  exact ⟨hv, hb'.trans hb⟩

theorem Visited.sleepsOn {isNew : Bool} {o : Limits × Turn} (hv : Visited s now p i isNew u o)
    (hc : u.ceiling = s.ceiling) (hg : u.ceilingGate = s.ceilingGate) (hd : p.caller ≠ c) (g : Stage) :
    SleepsOn c g s o.1 := by
  have hlooked : SleepsOn c g s u := by
    cases g with
    | ceiling => exact .of_eq hg (congrArg Budget.account hc)
    | bucket j =>
      intro till h
      simp only [gateAt, budget, hv.site] at h ⊢
      split
      · subst j
        obtain ⟨hsleeps, hwindow⟩ := Site.sleeps_visit h hd now isNew
        exact ⟨hsleeps, congrArg Budget.bucket hwindow⟩
      · exact ⟨h, rfl⟩
  cases hl : ((s.site i).arrive isNew p.caller).lets now p.caller with
  | true =>
    rw [hv.granted hl]
    exact hlooked.trans (.of_eq (gateAt_grant ..) (by cases g <;> rfl))
  | false =>
    obtain ⟨turn, -, ho⟩ := hv.refused hl
    rwa [ho]

theorem sleepsOn_pollBucket (hd : p.caller ≠ c) (g : Stage) (s : Limits) (now : Instant) (i : Nat) :
    SleepsOn c g s (s.pollBucket now p i).1 := by
  obtain ⟨u, hu, hv⟩ := visited_pollBucket s now p i
  exact hv.sleepsOn hu.ceiling hu.ceilingGate hd g

theorem sleepsOn_enterBucket (hd : p.caller ≠ c) (g : Stage) (s : Limits) (now : Instant) (key : RouteKey) :
    SleepsOn c g s (s.enterBucket now p key).1 := by
  obtain ⟨isNew, u, hv, hc, hg, -⟩ := visited_enterBucket s now p key
  exact hv.sleepsOn hc hg hd g

theorem sleepsOn_pollCeiling (hd : p.caller ≠ c) (g : Stage) (s : Limits) (now : Instant) :
    SleepsOn c g s (s.pollCeiling now p).1 := by
  rcases pollCeiling_cases s now p with ho | ⟨hu, hcases⟩
  · rw [ho]
    exact .refl _ _ _
  cases g with
  | ceiling =>
    -- whose turn it is sleeps there itself, if anyone does
    intro till h
    cases (h.not_isUp hd).symm.trans hu
  | bucket j =>
    have hpassed : SleepsOn c (.bucket j) s (s.passed now p.caller) := .of_eq rfl rfl
    rcases hcases with ⟨till, -, ho⟩ | ⟨-, ⟨-, ho⟩ | ⟨key, scope, -, ho⟩⟩
    · rw [ho]
      exact .of_eq rfl rfl
    · rw [ho]
      exact hpassed.trans (.of_eq rfl rfl)
    · rw [ho]
      exact hpassed.trans (sleepsOn_enterBucket hd _ _ now key)

theorem sleepsOn_enterCeiling (hd : p.caller ≠ c) (g : Stage) (s : Limits) (now : Instant) :
    SleepsOn c g s (s.enterCeiling now p).1 := by
  have hjoined : SleepsOn c g s { s with ceilingGate := s.ceilingGate.join p.caller } := by
    cases g with
    | ceiling => exact fun till h => ⟨h.join p.caller, rfl⟩
    | bucket j => exact .of_eq rfl rfl
  exact hjoined.trans (sleepsOn_pollCeiling hd g _ now)

theorem sleepsOn_arrive (hd : d ≠ c) (g : Stage) (s : Limits) (now : Instant) (wanted : Wanted) :
    SleepsOn c g s (s.arrive now d wanted).1 := by
  have hcome : SleepsOn c g s { s with pending := s.pending ++ [⟨d, wanted, .ceiling⟩] } := by
    cases g <;> exact .of_eq rfl rfl
  unfold arrive
  dsimp only
  split
  · exact hcome.trans (.of_eq (gateAt_grant ..) (by cases g <;> rfl))
  · exact hcome.trans (sleepsOn_enterBucket (p := ⟨d, _, .ceiling⟩) hd g _ now _)
  · exact hcome.trans (sleepsOn_enterCeiling (p := ⟨d, _, .ceiling⟩) hd g _ now)
  · exact hcome.trans (sleepsOn_enterCeiling (p := ⟨d, _, .ceiling⟩) hd g _ now)

theorem sleepsOn_poll (hd : d ≠ c) (g : Stage) (s : Limits) (now : Instant) :
    SleepsOn c g s (s.poll now d).1 := by
  unfold poll
  split
  · exact .refl _ _ _
  · rename_i p hp
    obtain rfl : p.caller = d := by simpa using List.find?_some hp
    split
    · exact sleepsOn_pollCeiling hd g s now
    · exact sleepsOn_pollBucket hd g s now _

theorem sleepsOn_release (hd : t.caller ≠ c) (g : Stage) (s : Limits) : SleepsOn c g s (s.release t) := by
  intro till h
  refine ⟨?_, ?_⟩
  · rw [gateAt_release]
    split
    · exact h.leave hd
    · exact h
  · cases g with
    | ceiling => exact congrArg Budget.account (release_frame s t).1
    | bucket j =>
      simp only [budget, site_release]
      split <;> rfl

theorem sleepsOn_withdraw (hd : d ≠ c) (g : Stage) (s : Limits) : SleepsOn c g s (s.withdraw d) := by
  cases ht : s.ticket? d with
  | some t =>
    obtain rfl := caller_of_ticket? ht
    rw [withdraw_of_ticket ht]
    exact sleepsOn_release hd g s
  | none =>
    cases hp : s.pending.find? (·.caller = d) with
    | none =>
      rw [withdraw_of_absent ht hp]
      exact .refl _ _ _
    | some p =>
      intro till h
      refine ⟨?_, ?_⟩
      · rw [gateAt_withdraw ht hp]
        split
        · exact h.leave hd
        · exact h
      · cases g with
        | ceiling => exact congrArg Budget.account (withdraw_frame ht hp).1
        | bucket j =>
          simp only [budget, site_withdraw ht hp]
          split <;> rfl

theorem sleepsOn_changeBucket_share {f : Bucket → Bucket × Option Caller} {op : Window.Op}
    (hf : Bucket.Takes f now op) (hn : ¬ s.TakenAt j r g) (c : Caller) :
    SleepsOn c g s ((s.changeBucket j f).share now j r) := by
  cases g with
  | ceiling =>
    obtain ⟨hc, hg, -, -⟩ := changeBucket_share_frame hf s j r
    exact .of_eq hg (congrArg Budget.account hc)
  | bucket i =>
    have hsite : ((s.changeBucket j f).share now j r).site i = s.site i := by
      have hj : ¬ i = j := fun h => hn ⟨i, rfl, .inl h.symm⟩
      have hfolded : ¬ s.canonical? j r = some i := fun h => hn ⟨i, rfl, .inr h⟩
      rw [site_changeBucket_share hf, if_neg hj, if_neg hfolded, ite_self]
    exact .of_eq (congrArg Site.gate hsite) (by simp only [budget, hsite])

theorem sleepsOn_recordBucket (hn : ∀ j, t.bucket = some j → ¬ s.TakenAt j r g) (c : Caller) (now : Instant) :
    SleepsOn c g s (s.recordBucket now t r) := by
  unfold recordBucket
  split
  · rename_i j hj
    exact sleepsOn_changeBucket_share (Bucket.takes_record now r) (hn j hj) c
  · exact .refl _ _ _

theorem sleepsOn_record (hd : t.caller ≠ c) (ht : s.ticket? t.caller = some t)
    (hn : ¬ s.Disturbs g (.record t.caller r)) (now : Instant) : SleepsOn c g s (s.record now t r) := by
  have htaken : SleepsOn c g s (s.recordBucket now t r) :=
    sleepsOn_recordBucket (fun j hj htaken => hn (.response ht (.inl rfl) hj htaken)) c now
  exact htaken.trans (sleepsOn_release hd g _)

theorem sleepsOn_refuse {body : Option Refusal} (hd : t.caller ≠ c) (ht : s.ticket? t.caller = some t)
    (hn : ¬ s.Disturbs g (.refuse t.caller r body)) (now : Instant) : SleepsOn c g s (s.refuse now t r body) := by
  have hresponse (j : Nat) (hj : t.bucket = some j) (hr : isGlobalRefusal r body → r.isTracked) :
      ¬ s.TakenAt j r g := fun htaken => hn (.response ht (.inr ⟨body, rfl, hr⟩) hj htaken)
  refine SleepsOn.trans ?_ (sleepsOn_release hd g _)
  cases hglobal : isGlobalRefusal r body with
  | true =>
    have hheld : SleepsOn c g s (s.held now t (refusalWait r body)) := by
      cases g with
      | bucket i =>
        rcases held_cases s now t (refusalWait r body) with hu | hu
        · rw [hu]
          exact .refl _ _ _
        · rw [hu]
          exact .of_eq rfl rfl
      | ceiling =>
        unfold held
        split
        · rename_i key hw
          exact absurd (.refusal ht hw hglobal) hn
        · exact .refl _ _ _
    rw [recordRefusal_of_global hglobal]
    split
    · rename_i htracked
      refine hheld.trans (sleepsOn_recordBucket (fun j hj htaken => ?_) c now)
      have hsame : s.TakenAt j r g := by
        rcases held_cases s now t (refusalWait r body) with hu | hu
        · rwa [hu] at htaken
        · rw [hu] at htaken
          exact htaken
      exact hresponse j hj (fun _ => htracked) hsame
    · exact hheld
  | false =>
    rw [recordRefusal_of_not_global hglobal]
    split
    · rename_i j hj
      exact sleepsOn_changeBucket_share (Bucket.takes_exhaust now _) (hresponse j hj (by simp [hglobal])) c
    · exact .refl _ _ _

/-- At events that are not its own and do not disturb it, whoever sleeps sleeps on. -/
theorem sleepsOn_step (hc : c ∉ e.caller?) (hn : ¬ s.Disturbs g e) (now : Instant) :
    SleepsOn c g s (s.step now e).1 := by
  rw [step_eq]
  cases e with
  | arrive d wanted =>
    simp only [leap]
    split
    · exact .refl _ _ _
    · exact sleepsOn_arrive ((Event.ne_of_caller? rfl hc).symm) g s now wanted
  | poll d => exact sleepsOn_poll ((Event.ne_of_caller? rfl hc).symm) g s now
  | record d r =>
    simp only [leap]
    split
    · rename_i t ht
      obtain rfl := caller_of_ticket? ht
      exact sleepsOn_record ((Event.ne_of_caller? rfl hc).symm) ht hn now
    · exact .refl _ _ _
  | refuse d r body =>
    simp only [leap]
    split
    · rename_i t ht
      obtain rfl := caller_of_ticket? ht
      exact sleepsOn_refuse ((Event.ne_of_caller? rfl hc).symm) ht hn now
    · exact .refl _ _ _
  | withdraw d => exact sleepsOn_withdraw ((Event.ne_of_caller? rfl hc).symm) g s
  | block wait =>
    cases g with
    | ceiling => exact absurd (.block wait) hn
    | bucket i => exact .of_eq rfl rfl

end Limits

end ChatApi.Limit
