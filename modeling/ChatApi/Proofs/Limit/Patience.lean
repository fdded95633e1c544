import ChatApi.Proofs.Limit.Undisturbed

/-!
# How often a caller waits

A caller that sleeps at a gate can look again at just the moment that it was told. What was in the way then is
there no more, unless something has disturbed the budget since. So it waits once at a bucket, and at the gate of
the account for the end of a block and then for that of a spent window, at most
(`acquiring_makes_progress`). `Limits.Awaits` is the invariant: how far a caller is that was last told to wait
for something.
-/

namespace ChatApi.Limit

/-- What a caller may have to wait for at a gate, in this order. -/
def Stage.obstacles : Stage → List Obstacle
  | .ceiling => [.block, .spent]
  | .bucket _ => [.spent]

/-- What may still be in the way where an obstacle is there no more. -/
def Obstacle.after : Obstacle → List Obstacle
  | .block => [.spent]
  | .spent => []

/-- Until when a caller sleeps, if it fell asleep. -/
def Turn.till? : Turn → Option Instant
  | .asleep till => some till
  | .granted | .queued | .unchanged => none

theorem Turn.till?_eq_some {turn : Turn} {till : Instant} (h : turn.till? = some till) : turn = .asleep till := by
  cases turn with
  | asleep till' => exact congrArg Turn.asleep (Option.some.inj h)
  | granted | queued | unchanged => cases h

theorem Event.caller?_of_asks {e : Event} {c : Caller} (h : e.asks c) : c ∈ e.caller? := by
  rcases h with rfl | ⟨wanted, rfl⟩ <;> rfl

/-- An event of a caller that gives nothing back is one at which it asks. -/
theorem Event.asks_of_caller? {e : Event} {c : Caller} (h : c ∈ e.caller?) (hr : ¬ e.returns c) : e.asks c := by
  cases e with
  | arrive d wanted => exact .inr ⟨wanted, by rw [Option.some.inj h]⟩
  | poll d => exact .inl (by rw [Option.some.inj h])
  | record d r => exact absurd (.inr (.inl ⟨r, by rw [Option.some.inj h]⟩)) hr
  | refuse d r body => exact absurd (.inr (.inr ⟨r, body, by rw [Option.some.inj h]⟩)) hr
  | withdraw d => exact absurd (.inl (by rw [Option.some.inj h])) hr
  | block wait => cases h

namespace Limits

/-- What a caller is told to wait for at a gate, and until when, if an event of its own ends so. -/
def wait? (s : Limits) (now : Instant) (e : Event) (g : Stage) (c : Caller) : Option (Obstacle × Instant) :=
  if c ∈ e.caller? ∧ (s.step now e).1.place? c = some (.waits g) then
    (s.step now e).2.till?.map fun till => ((s.budget g).obstacle now, till)
  else none

/-- What a caller is told to wait for at a gate during events, and until when, the first time first. -/
def waits : Limits → Stage → Caller → List (Instant × Event) → List (Obstacle × Instant)
  | _, _, _, [] => []
  | s, g, c, (now, e) :: es => (s.wait? now e g c).toList ++ waits (s.step now e).1 g c es

/-- Nothing disturbs the budget behind a gate during events. -/
def Undisturbed : Limits → Stage → List (Instant × Event) → Prop
  | _, _, [] => True
  | s, g, (now, e) :: es => ¬ s.Disturbs g e ∧ Undisturbed (s.step now e).1 g es

/-- A caller has passed a gate: it has its ticket, or has gone on from the gate of the account to a bucket. -/
def Past (s : Limits) (g : Stage) (c : Caller) : Prop :=
  (∃ bucket, s.place? c = some (.holds bucket)) ∨ g = .ceiling ∧ ∃ i, s.place? c = some (.waits (.bucket i))

variable {s u : Limits} {now till : Instant} {e : Event} {p : Pending} {c : Caller} {i : Nat} {g : Stage}
  {key : RouteKey} {o : Obstacle} {w : Option (Obstacle × Instant)} {es : List (Instant × Event)}

/-! ### Whose turn it is -/

/-- Who waits or holds slots cannot ask for more. -/
theorem step_arrive_of_place (hp : s.place? c ≠ none) (now : Instant) (wanted : Wanted) :
    s.step now (.arrive c wanted) = (s, .unchanged) := by
  cases hb : s.isBusy c with
  | true => simp [step_eq, leap, hb]
  | false => exact absurd (place?_eq_none hb) hp

/-- Who has a turn nowhere looks in vain. -/
theorem poll_idle (hu : ∀ g, (s.gateAt g).isUp c now = false) : s.step now (.poll c) = (s, .unchanged) := by
  rw [step_eq, leap]
  unfold poll
  split
  · rfl
  · rename_i p hfind
    obtain rfl : p.caller = c := by simpa using List.find?_some hfind
    split
    · exact pollCeiling_of_not_up (hu .ceiling)
    · rename_i i _
      have hup := hu (.bucket i)
      cases hb : s.buckets[i]? with
      | none => simp [pollBucket, hb]
      | some b =>
        have hsame : b.gate.isUp p.caller now = false := by simpa [gateAt, site_of_some hb] using hup
        simp [pollBucket, hb, hsame]

/-- Callers have turns only where they wait. -/
theorem Orderly.isUp_eq_false (ho : Orderly s) (hp : s.place? c ≠ some (.waits g)) :
    (s.gateAt g).isUp c now = false :=
  Bool.eq_false_iff.2 fun hu => hp (ho.waits_of_isUp hu)

theorem Orderly.waits_of_sleeps (ho : Orderly s) (h : (s.gateAt g).Sleeps c till) :
    s.place? c = some (.waits g) :=
  ho.waits_of_owner h.owner (by simp [h.hold])

theorem past_grant (hn : s.ticket? p.caller = none) (bucket : Option Nat) (g : Stage) :
    (s.grant p bucket).Past g p.caller :=
  .inl ⟨bucket, by rw [place?_grant bucket hn, if_pos rfl]⟩

/-- Who goes on to its bucket waits there, or has its ticket. -/
theorem past_enterBucket (hp : s.place? p.caller = some (.waits g)) (now : Instant) (key : RouteKey) :
    (s.enterBucket now p key).1.Past .ceiling p.caller := by
  obtain ⟨isNew, u, hv, -, -, ht, hpending⟩ := visited_enterBucket s now p key
  have hu := place?_goTo_self hpending ht hp
  cases hl : ((s.site (s.bucketFor key).1).arrive isNew p.caller).lets now p.caller with
  | true =>
    rw [hv.granted hl]
    exact past_grant (ticket?_of_waits hu) _ _
  | false =>
    obtain ⟨turn, -, ho⟩ := hv.refused hl
    rw [ho]
    exact .inr ⟨rfl, _, hu⟩

/-- Who has a turn passes the gate if the budget behind it has a slot, and else sleeps until there may be one. -/
theorem poll_of_isUp (ho : Orderly s) (hu : (s.gateAt g).isUp c now) :
    ((s.budget g).look now).2 = none ∧ (s.step now (.poll c)).1.Past g c ∨
      ∃ till, (s.step now (.poll c)).2 = .asleep till ∧ Falls s now g c till (s.step now (.poll c)).1 := by
  simp only [step_eq, leap]
  have hplace := ho.waits_of_isUp hu
  have hn := ticket?_of_waits hplace
  obtain ⟨p, hp, hs⟩ : ∃ p, s.pending.find? (·.caller = c) = some p ∧ p.stage = g := by
    simpa [place?, hn] using hplace
  obtain rfl : p.caller = c := by simpa using List.find?_some hp
  cases g with
  | ceiling =>
    have hpoll : s.poll now p.caller = s.pollCeiling now p := by simp [poll, hp, hs]
    have hpassed : (s.passed now p.caller).place? p.caller = some (.waits .ceiling) :=
      (place?_congr rfl rfl).trans hplace
    rw [hpoll]
    rcases pollCeiling_of_up hu with ⟨till, hwait, heq⟩ | ⟨hopen, ⟨-, heq⟩ | ⟨key, scope, -, heq⟩⟩
    · rw [heq]
      exact .inr ⟨till, rfl, Gate.sleeps_of_isUp hu till, hwait, rfl⟩
    · rw [heq]
      exact .inl ⟨hopen, past_grant (ticket?_of_waits hpassed) none _⟩
    · rw [heq]
      exact .inl ⟨hopen, past_enterBucket hpassed now key⟩
  | bucket i =>
    have hpoll : s.poll now p.caller = s.pollBucket now p i := by simp [poll, hp, hs]
    rw [hpoll]
    obtain ⟨b, hb⟩ : ∃ b, s.buckets[i]? = some b := by
      cases hb : s.buckets[i]? with
      | none => simp [gateAt, site_of_none hb, Gate.isUp, Gate.owner?] at hu
      | some b => exact ⟨b, rfl⟩
    have hup : b.gate.isUp p.caller now := by simpa [gateAt, site_of_some hb] using hu
    cases hr : b.window.reserve now with
    | mk window slot =>
      cases slot with
      | wait till =>
        have hturn : (s.pollBucket now p i).2 = .asleep till := by
          simp [pollBucket_of_some hb, Bucket.poll, hup, hr]
        exact .inr ⟨till, hturn, falls_pollBucket hturn⟩
      | proceed isProbe =>
        obtain ⟨v, hv, hvisited⟩ := visited_pollBucket s now p i
        have hlets : ((s.site i).arrive false p.caller).lets now p.caller = true := by
          simp [Site.lets, site_of_some hb, hup, hr, Slot.isProceed]
        rw [hvisited.granted hlets]
        refine .inl ⟨by simp [budget, Budget.look, site_of_some hb, hr, Slot.till?], past_grant ?_ _ _⟩
        rwa [ticket?, hv.tickets]

/-- What a caller that waits at a gate and asks can do. -/
theorem Orderly.step_of_waits (ho : Orderly s) (ha : e.asks c) (hp : s.place? c = some (.waits g))
    (now : Instant) :
    s.step now e = (s, .unchanged) ∨ (s.gateAt g).isUp c now ∧
      (((s.budget g).look now).2 = none ∧ (s.step now e).1.Past g c ∨
        ∃ till, (s.step now e).2 = .asleep till ∧ Falls s now g c till (s.step now e).1) := by
  rcases ha with rfl | ⟨wanted, rfl⟩
  · cases hu : (s.gateAt g).isUp c now with
    | true => exact .inr ⟨rfl, poll_of_isUp ho hu⟩
    | false =>
      refine .inl (poll_idle fun g' => ?_)
      by_cases hg : g' = g
      · rwa [hg]
      · exact ho.isUp_eq_false (by simpa [hp] using Ne.symm hg)
  · exact .inl (step_arrive_of_place (by simp [hp]) now wanted)

/-! ### Callers that have passed -/

/-- Who has passed a gate does not come back to it before it gives back what it has. -/
theorem past_step (ho : Orderly s) (h : s.Past g c) (hr : ¬ e.returns c) (now : Instant) :
    (s.step now e).1.Past g c := by
  by_cases hc : c ∈ e.caller?
  · have hasks := Event.asks_of_caller? hc hr
    rcases h with ⟨bucket, hp⟩ | ⟨hg, i, hp⟩
    · refine .inl ⟨bucket, ?_⟩
      rcases hasks with rfl | ⟨wanted, rfl⟩
      · rwa [poll_idle fun g' => ho.isUp_eq_false (by simp [hp])]
      · rwa [step_arrive_of_place (by simp [hp])]
    · rcases ho.step_of_waits hasks hp now with hidle | ⟨-, ⟨-, hpast | ⟨hne, -⟩⟩ | ⟨till, -, hfalls⟩⟩
      · rw [hidle]
        exact .inr ⟨hg, i, hp⟩
      · exact .inl hpast
      · cases hne
      · exact .inr ⟨hg, i, (orderly_step ho now e).waits_of_sleeps hfalls.sleeps⟩
  · have hsame := place?_of_entries_eq (entries_step_ne hc s now)
    rcases h with ⟨bucket, hp⟩ | ⟨hg, i, hp⟩
    · exact .inl ⟨bucket, hsame.trans hp⟩
    · exact .inr ⟨hg, i, hsame.trans hp⟩

/-- Who has passed a gate is not told to wait there. -/
theorem wait?_of_past (h : (s.step now e).1.Past g c) : s.wait? now e g c = none := by
  refine if_neg fun hw => ?_
  rcases h with ⟨bucket, hp⟩ | ⟨rfl, i, hp⟩
  · simp [hp] at hw
  · simp [hp] at hw

/-! ### Waits -/

/-- Who is told to wait at a gate has looked at the budget behind it, and sleeps there. -/
theorem falls_of_wait? (ho : Orderly s) (h : s.wait? now e g c = some (o, till)) :
    e.asks c ∧ o = (s.budget g).obstacle now ∧ Falls s now g c till (s.step now e).1 := by
  unfold wait? at h
  split at h
  · rename_i hc
    obtain ⟨till', hturn, hsame⟩ := Option.map_eq_some_iff.1 h
    cases hsame
    obtain ⟨d, g', hasks, hfalls⟩ := falls_step (Turn.till?_eq_some hturn)
    obtain rfl : d = c := Option.some.inj ((Event.caller?_of_asks hasks).symm.trans hc.1)
    have hplace := (orderly_step ho now e).waits_of_sleeps hfalls.sleeps
    obtain rfl : g' = g := by simpa using hplace.symm.trans hc.2
    exact ⟨hasks, rfl, hfalls⟩
  · cases h

/-- What was last told to a caller at a gate, if anything: it sleeps there until then and the obstacle is gone by
then, or it has passed the gate. -/
inductive Awaits (s : Limits) (g : Stage) (c : Caller) : Option (Obstacle × Instant) → Prop
  | untold : Awaits s g c none
  | asleep {o : Obstacle} {till : Instant} (sleeps : (s.gateAt g).Sleeps c till)
    (clears : (s.budget g).Clears till o) : Awaits s g c (some (o, till))
  | past (h : s.Past g c) (w : Option (Obstacle × Instant)) : Awaits s g c w

/-- What a caller that was last told `w` at a gate may still have to wait for. -/
def ahead (g : Stage) (w : Option (Obstacle × Instant)) : List Obstacle :=
  match w with
  | none => g.obstacles
  | some (o, _) => o.after

theorem Falls.awaits (h : Falls s now g c till u) : Awaits u g c (some ((s.budget g).obstacle now, till)) :=
  .asleep h.sleeps (h.budget ▸ (Budget.look_wait h.told).2.2)

/-- At each gate only what is listed for it is in the way. -/
theorem obstacle_sublist (s : Limits) (g : Stage) (now : Instant) :
    ((s.budget g).obstacle now :: ((s.budget g).obstacle now).after).Sublist g.obstacles := by
  cases g with
  | bucket i => exact .refl _
  | ceiling =>
    cases (s.budget .ceiling).obstacle now with
    | block => exact .refl _
    | spent => exact .cons _ (.refl _)

/-- A caller that is told to wait again was told of a block before, and waits for the end of a window now. -/
theorem Awaits.told_sublist (h : Awaits s g c w) (ho : Orderly s) (hr : ¬ e.returns c)
    (hw : s.wait? now e g c = some (o, till)) : (o :: o.after).Sublist (ahead g w) := by
  obtain ⟨hasks, rfl, hfalls⟩ := falls_of_wait? ho hw
  cases h with
  | untold => exact obstacle_sublist s g now
  | past hpast => cases (wait?_of_past (past_step ho hpast hr now)).symm.trans hw
  | @asleep o' till' sleeps clears =>
    rcases ho.step_of_waits hasks (ho.waits_of_sleeps sleeps) now with hidle | ⟨hu, -⟩
    · simp [wait?, hidle, Turn.till?] at hw
    · have hlate := sleeps.isUp_iff.1 hu
      cases o' with
      | block =>
        rw [clears now hlate]
        exact .refl _
      | spent => cases (clears now hlate).symm.trans hfalls.told

/-- A caller that is told nothing new sleeps on, or passes the gate. -/
theorem Awaits.of_untold (h : Awaits s g c w) (ho : Orderly s) (hr : ¬ e.returns c) (hn : ¬ s.Disturbs g e)
    (hw : s.wait? now e g c = none) : Awaits (s.step now e).1 g c w := by
  cases h with
  | untold => exact .untold
  | past hpast => exact .past (past_step ho hpast hr now) w
  | asleep sleeps clears =>
    by_cases hc : c ∈ e.caller?
    · have hplace := ho.waits_of_sleeps sleeps
      rcases ho.step_of_waits (Event.asks_of_caller? hc hr) hplace now with
        hidle | ⟨-, ⟨-, hpast⟩ | ⟨till, hturn, hfalls⟩⟩
      · rw [hidle]
        exact .asleep sleeps clears
      · exact .past hpast _
      · -- it would have been told
        have hplace := (orderly_step ho now e).waits_of_sleeps hfalls.sleeps
        simp [wait?, hc, hplace, hturn, Turn.till?] at hw
    · obtain ⟨hsleeps, hbudget⟩ := sleepsOn_step hc hn now _ sleeps
      exact .asleep hsleeps (hbudget ▸ clears)

/-- With each event a caller goes on as far as it is told, and is told of what is still ahead only. -/
theorem awaits_step (ho : Orderly s) (h : Awaits s g c w) (hr : ¬ e.returns c) (hn : ¬ s.Disturbs g e)
    (now : Instant) : Awaits (s.step now e).1 g c ((s.wait? now e g c).or w) ∧
      ∀ o till, s.wait? now e g c = some (o, till) → (o :: o.after).Sublist (ahead g w) := by
  refine ⟨?_, fun o till hw => h.told_sublist ho hr hw⟩
  cases hw : s.wait? now e g c with
  | none => exact h.of_untold ho hr hn hw
  | some x =>
    obtain ⟨o, till⟩ := x
    obtain ⟨-, rfl, hfalls⟩ := falls_of_wait? ho hw
    exact hfalls.awaits

/-- Over a whole run a caller is told of what was ahead at its start only, and of each at most once. -/
theorem awaits_run (ho : Orderly s) (h : Awaits s g c w) (hr : ∀ x ∈ es, ¬ x.2.returns c)
    (hn : s.Undisturbed g es) : Awaits (s.run es) g c ((s.waits g c es).getLast?.or w) ∧
      ((s.waits g c es).map (·.1)).Sublist (ahead g w) := by
  induction es generalizing s w with
  | nil => exact ⟨h, List.nil_sublist _⟩
  | cons x es ih =>
    obtain ⟨now, e⟩ := x
    obtain ⟨hr, hrest⟩ := List.forall_mem_cons.1 hr
    obtain ⟨hstep, htold⟩ := awaits_step ho h hr hn.1 now
    obtain ⟨hrun, hsublist⟩ := ih (orderly_step ho now e) hstep hrest hn.2
    rw [run_cons, waits]
    cases hw : s.wait? now e g c with
    | none => simpa [hw] using And.intro hrun hsublist
    | some told =>
      rw [hw] at hrun hsublist
      refine ⟨?_, (hsublist.cons_cons told.1).trans (htold told.1 told.2 hw)⟩
      simpa [List.getLast?_cons, Option.or_assoc] using hrun

/-- Asking for slots makes progress. Whoever is told to wait is told a later moment; what is in the way until then
is there no more from then on. While nothing disturbs the budget, a caller is told to wait once at a bucket, and
at the gate of the account for the end of a block and then for that of a spent window, at most. It has its turn
from just the moment on that it was told last. It passes the gate then if there is a slot, and there is one if a
window was spent. -/
theorem acquiring_makes_progress (limit : Nat) (before : List (Instant × Event)) :
    let s := (ofLimit limit).run before
    (∀ now e till, (s.step now e).2 = .asleep till → now < till) ∧
    (∀ (b : Budget) now till, (b.look now).2 = some till →
      now < till ∧ b.Holds till (b.obstacle now) ∧ (b.look now).1.Clears till (b.obstacle now)) ∧
    ∀ g c es, (∀ x ∈ es, ¬ x.2.returns c) → s.Undisturbed g es →
      let u := s.run es
      ((s.waits g c es).map (·.1)).Sublist g.obstacles ∧
      (∀ t, (u.gateAt g).isUp c t →
        ((u.budget g).look t).2 = none ∧ (u.step t (.poll c)).1.Past g c ∨
        ∃ till, ((u.budget g).look t).2 = some till ∧ (u.step t (.poll c)).2 = .asleep till) ∧
      ∀ o till, (s.waits g c es).getLast? = some (o, till) → ¬ u.Past g c →
        ∀ t, ((u.gateAt g).isUp c t ↔ till ≤ t) ∧ (o = .spent → till ≤ t → (u.step t (.poll c)).1.Past g c) := by
  intro s
  have ho : Orderly s := orderly_run limit before
  refine ⟨fun now e till h => ?_, fun b now till h => Budget.look_wait h, fun g c es hr hn => ?_⟩
  · obtain ⟨c, g, -, hfalls⟩ := falls_step h
    exact hfalls.later
  intro u
  have hou : Orderly u := run_induction (P := Orderly) (fun s now e h => orderly_step h now e) ho es
  obtain ⟨hrun, hsublist⟩ := awaits_run ho .untold hr hn
  refine ⟨hsublist, fun t hu => ?_, fun o till hlast hnot t => ?_⟩
  · exact (poll_of_isUp hou hu).imp_right fun ⟨till, hturn, hfalls⟩ => ⟨till, hfalls.told, hturn⟩
  · rw [hlast] at hrun
    cases hrun with
    | past hpast => exact absurd hpast hnot
    | asleep sleeps clears =>
      refine ⟨sleeps.isUp_iff, fun hspent hle => ?_⟩
      subst hspent
      rcases poll_of_isUp hou (sleeps.isUp_iff.2 hle) with ⟨-, hpast⟩ | ⟨till', -, hfalls⟩
      · exact hpast
      · cases (clears t hle).symm.trans hfalls.told

/-- A caller waits for the end of a block, then for that of a window that another has spent, and passes. -/
theorem waits_for_block_and_window :
    let s := (ofLimit 1).run [(0, .arrive 0 .account), (0, .block 300000000)]
    let es := [(0, .arrive 1 .account), (300000000, .poll 1)]
    (∀ x ∈ es, ¬ x.2.returns 1) ∧ s.Undisturbed .ceiling es ∧
      s.waits .ceiling 1 es = [(.block, 300000000), (.spent, 1000000000)] ∧
      ((s.run es).step 1000000000 (.poll 1)).1.Past .ceiling 1 := by
  intro s es
  have hr : ∀ x ∈ es, ¬ x.2.returns 1 := by simp [es, Event.returns]
  have hn : s.Undisturbed .ceiling es :=
    ⟨not_disturbs_of_asks (.inr ⟨_, rfl⟩), not_disturbs_of_asks (.inl rfl), trivial⟩
  have hwaits : s.waits .ceiling 1 es = [(.block, 300000000), (.spent, 1000000000)] := by decide +kernel
  have hplace : (s.run es).place? 1 = some (.waits .ceiling) := by decide +kernel
  have hnot : ¬ (s.run es).Past .ceiling 1 := by simp [Past, hplace]
  obtain ⟨-, -, hprogress⟩ := acquiring_makes_progress 1 [(0, .arrive 0 .account), (0, .block 300000000)]
  obtain ⟨-, -, hlast⟩ := hprogress .ceiling 1 es hr hn
  have htold : (s.waits .ceiling 1 es).getLast? = some (.spent, 1000000000) := by rw [hwaits]; rfl
  obtain ⟨-, hpasses⟩ := hlast .spent 1000000000 htold hnot 1000000000
  exact ⟨hr, hn, hwaits, hpasses rfl (Nat.le_refl _)⟩

end Limits

end ChatApi.Limit
