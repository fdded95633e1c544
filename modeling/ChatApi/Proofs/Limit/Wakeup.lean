import ChatApi.Proofs.Limit.Listen
import ChatApi.Proofs.Limit.Rest

/-!
# No wakeup is lost

`Machine.Reachable` says which states the limits can come to where callers do their acts in turns. In each of them
the owner of a gate is to go on, or sleeps until just the moment at which the budget behind the gate would let it
through, or somebody is still to tell of a change (`Machine.owner_cases`).

`Session.Reachable` adds the clock, for callers that do all that they have begun before others do anything. There
an owner that sleeps has an alarm set for the moment at which it may go on (`Attentive`).

Main theorem: `no_wakeup_is_lost`.
-/

namespace ChatApi.Limit

namespace Machine

variable {m : Machine} {g : Stage} {c : Caller}

/-- Nobody is doing anything. -/
def IsQuiet (m : Machine) : Prop := ∀ j ∈ m.jobs, j.acts = []

theorem IsQuiet.not_isUp (h : m.IsQuiet) : ¬ m.IsUp g c := by
  rintro ⟨j, hj, a, ha, -⟩
  rw [h j hj] at ha
  cases ha

theorem IsQuiet.not_willTell (h : m.IsQuiet) : ¬ m.WillTell g := by
  rintro ⟨j, hj, ha⟩
  rw [h j hj] at ha
  cases ha

/-- The owner of a gate that keeps it as no probe is to go on, or sleeps, and not too long unless it is still to be
told of a change. -/
theorem Wakeful.owner_cases (h : m.Wakeful) (hc : c ∈ (m.limits.gateAt g).owner?)
    (hp : (m.limits.gateAt g).hold ≠ .probing) :
    c ∈ m.limits.woken ∨ m.IsUp g c ∨
      ∃ till, (m.limits.gateAt g).hold = .asleep till ∧ (m.WillTell g ∨ m.Demands g till) := by
  cases hh : (m.limits.gateAt g).hold with
  | probing => exact absurd hh hp
  | turn => exact (h.turn g hh c hc).imp_right .inl
  | asleep till => exact .inr (.inr ⟨till, rfl, h.asleep g till hh⟩)

end Machine

namespace Session

/-- The states of a session. Callers that are ready go on in any order, and time passes only when none is. -/
inductive Reachable (epoch : Int) (limit : Nat) : Session → Prop
  | start : Reachable epoch limit (fresh epoch limit)
  /-- A caller comes in. -/
  | asks {x : Session} (h : Reachable epoch limit x) (c : Caller) (wanted : Wanted) (keys : List RouteKey) :
    Reachable epoch limit ({ x with keys }.ask c wanted (.arrive c wanted))
  /-- A caller that is ready goes on. -/
  | goesOn {x : Session} (h : Reachable epoch limit x) {c : Caller} (hc : c ∈ x.agenda.ready) :
    Reachable epoch limit ((x.taken c).poll c)
  /-- Something happens at which nobody asks. -/
  | happens {x : Session} (h : Reachable epoch limit x) (e : Event) (he : ∀ c, ¬ e.asks c) :
    Reachable epoch limit (x.withLimits (x.limits.step x.now e).1)
  /-- A caller is gone. -/
  | drops {x : Session} (h : Reachable epoch limit x) (c : Caller) :
    Reachable epoch limit ({ x with agenda := x.agenda.forget c }.withLimits (x.limits.step x.now (.withdraw c)).1)
  /-- A response comes in that names no caller. -/
  | records {x : Session} (h : Reachable epoch limit x) (i : Nat) (r : Report) :
    Reachable epoch limit
      (x.withLimits (x.limits.finish x.now .unchanged [.write i (.record r), .tell (.bucket i)]).1)
  /-- A bucket is closed for a while. -/
  | exhausts {x : Session} (h : Reachable epoch limit x) (i : Nat) (wait : Span) :
    Reachable epoch limit
      (x.withLimits (x.limits.finish x.now .unchanged [.write i (.exhaust wait), .tell (.bucket i)]).1)
  /-- The clock stops at the next alarms. -/
  | rings {x : Session} (h : Reachable epoch limit x) (hready : x.agenda.ready = []) {due : Instant}
    (hdue : x.agenda.next? = some due) : Reachable epoch limit (x.rung due)
  /-- Time passes until before the next alarms. -/
  | passes {x : Session} (h : Reachable epoch limit x) (hready : x.agenda.ready = []) {target : Instant}
    (htarget : ∀ alarm ∈ x.agenda.alarms, target < alarm.due) : Reachable epoch limit (x.reached target)

/-- A caller has an alarm for a moment, or is to go on since that has come. -/
def Alarmed (a : Agenda Caller) (c : Caller) (till : Instant) : Prop :=
  ⟨wholeMillis till, c, .step⟩ ∈ a.alarms ∨ c ∈ a.ready ∧ till ≤ a.now

variable {epoch : Int} {limit : Nat} {x : Session} {c d : Caller} {wanted : Wanted} {e : Event} {turn : Turn}
  {till due target : Instant} {a b : Agenda Caller} {s : Limits} {up : Caller → Prop}
  {alarm : Caller → Instant → Prop}

/-! ### Alarms -/

/-- At a whole millisecond, an alarm that is still to come is for a moment that is. -/
theorem lt_of_lt_wholeMillis {now : Instant} (hwhole : 1000000 ∣ now) (h : now < wholeMillis till) :
    now < till := by
  unfold wholeMillis Instant at *
  omega

theorem Alarmed.mono (h : Alarmed a c till) (halarms : ∀ x ∈ a.alarms, x.task = c → x ∈ b.alarms)
    (hready : c ∈ a.ready → c ∈ b.ready) (hnow : a.now ≤ b.now) : Alarmed b c till := by
  rcases h with hmem | ⟨hmem, hle⟩
  · exact .inl (halarms _ hmem rfl)
  · exact .inr ⟨hready hmem, Nat.le_trans hle hnow⟩

theorem Alarmed.wakeAll (h : Alarmed a c till) (tasks : List Caller) : Alarmed (a.wakeAll tasks) c till :=
  h.mono (fun _ hx _ => Agenda.alarms_wakeAll a tasks ▸ hx) (fun hc => Agenda.mem_ready_wakeAll.2 (.inl hc))
    (Nat.le_of_eq (Agenda.now_wakeAll a tasks).symm)

theorem Alarmed.unset (h : Alarmed a d till) (hd : d ≠ c) : Alarmed (a.unset c .step) d till :=
  h.mono (fun x hx ht => List.mem_filter.2 ⟨hx, by simp [ht, hd]⟩) id (Nat.le_refl _)

theorem Alarmed.set (h : Alarmed a d till) (hd : d ≠ c) (moment : Instant) :
    Alarmed (a.set c .step moment) d till :=
  (h.unset hd).mono (fun _ hx _ => List.mem_append_left _ hx) id (Nat.le_refl _)

theorem alarmed_set (a : Agenda Caller) (c : Caller) (till : Instant) : Alarmed (a.set c .step till) c till :=
  .inl (List.mem_append_right _ List.mem_cons_self)

theorem Alarmed.forget (h : Alarmed a d till) (hd : d ≠ c) : Alarmed (a.forget c) d till :=
  h.mono (fun x hx ht => List.mem_filter.2 ⟨hx, by simp [ht, hd]⟩)
    (fun hmem => List.mem_filter.2 ⟨hmem, by simpa using hd⟩) (Nat.le_refl _)

/-- An alarm that goes off makes its caller ready. -/
theorem Alarmed.ring (h : Alarmed a c till) (due : Instant) : Alarmed (a.ring due) c till := by
  have hnow : (a.ring due).now = max a.now due := Agenda.now_ring ..
  rcases h with hmem | ⟨hmem, hle⟩
  · by_cases hoff : wholeMillis till ≤ due
    · refine .inr ⟨?_, ?_⟩
      · rw [Agenda.ring_eq, Agenda.mem_ready_wakeAll]
        exact .inr (List.mem_map.2 ⟨_, List.mem_filter.2 ⟨hmem, by simpa using hoff⟩, rfl⟩)
      · rw [hnow]
        exact Nat.le_trans (Nat.le_trans (le_wholeMillis till) hoff) (Nat.le_max_right ..)
    · refine .inl ?_
      rw [Agenda.ring_eq, Agenda.alarms_wakeAll]
      exact List.mem_filter.2 ⟨hmem, by simpa using Nat.lt_of_not_le hoff⟩
  · refine .inr ⟨?_, ?_⟩
    · rw [Agenda.ring_eq, Agenda.mem_ready_wakeAll]
      exact .inl hmem
    · rw [hnow]
      exact Nat.le_trans hle (Nat.le_max_left ..)

/-! ### Steps -/

/-- The owner of each gate is ready, or sleeps until its budget allows and has an alarm for that moment. -/
structure Attentive (x : Session) : Prop where
  orderly : x.limits.Orderly
  woken : x.limits.woken = []
  watched : x.limits.Watched (· ∈ x.agenda.ready) (Alarmed x.agenda)
  timely : x.agenda.Timely

/-- Once those were made ready that were given a turn, all that are up are ready. -/
theorem watched_takeWoken {up' : Caller → Prop} (h : s.Watched up alarm) (hup : ∀ c, up c ∨ c ∈ s.woken → up' c) :
    ({ s with woken := [] } : Limits).Watched up' alarm := by
  intro g
  have hdeadline : ({ s with woken := [] } : Limits).deadline? g = s.deadline? g := by cases g <;> rfl
  refine ⟨fun ht c hc => .inl ?_, fun till ha => ?_⟩
  · rw [Limits.gateAt_takeWoken] at ht hc
    exact hup c ((h g).turn ht c hc)
  · rw [Limits.gateAt_takeWoken] at ha
    rw [Limits.gateAt_takeWoken, hdeadline]
    exact (h g).asleep till ha

theorem attentive_withLimits (ht : x.agenda.Timely) (ho : s.Orderly)
    (hw : s.Watched (· ∈ x.agenda.ready) (Alarmed x.agenda)) : Attentive (x.withLimits s) := by
  refine ⟨ho.takeWoken, rfl, ?_, timely_withLimits ht s⟩
  exact watched_takeWoken (hw.mono (fun _ hc => hc) fun _ _ h => h.wakeAll s.woken)
    fun _ hc => Agenda.mem_ready_wakeAll.2 hc

/-- A caller that has looked makes of it what the outcome demands. -/
theorem attentive_heed (ht : x.agenda.Timely) (ho : s.Orderly) (hlt : ∀ till, turn = .asleep till → x.now < till)
    (hw : s.Watched up (Limits.Realarmed c turn x.now alarm)) (hup : ∀ d, up d → d ∈ x.agenda.ready)
    (halarm : ∀ d till, (d = c → x.now < till) → alarm d till → Alarmed x.agenda d till) (wanted : Wanted) :
    Attentive ((x.withLimits s).heed c wanted turn) := by
  have horderly := ho.takeWoken
  have hready (d : Caller) (hd : up d ∨ d ∈ s.woken) : d ∈ (x.agenda.wakeAll s.woken).ready :=
    Agenda.mem_ready_wakeAll.2 (hd.imp_left (hup d))
  have hwatched := watched_takeWoken hw hready
  have htimely := timely_heed (c := c) (timely_withLimits ht s) (fun till h => by simpa using hlt till h) wanted
  -- alarms of others stay as they are
  have hothers (d : Caller) (till : Instant) (hd : d ≠ c) (h : alarm d till) :
      Alarmed (x.agenda.wakeAll s.woken) d till := (halarm d till (fun hdc => absurd hdc hd) h).wakeAll _
  cases turn with
  | granted =>
    refine ⟨horderly, rfl, hwatched.mono (fun _ hd => hd) fun d till h => ?_, htimely⟩
    rcases h with ⟨hd, h⟩ | ⟨-, h | ⟨h, -⟩⟩
    · exact (hothers d till hd h).unset hd
    · cases h
    · cases h
  | asleep moment =>
    refine ⟨horderly, rfl, hwatched.mono (fun _ hd => hd) fun d till h => ?_, htimely⟩
    rcases h with ⟨hd, h⟩ | ⟨rfl, h | ⟨h, -⟩⟩
    · exact (hothers d till hd h).set hd moment
    · cases h
      exact alarmed_set ..
    · cases h
  | queued =>
    refine ⟨horderly, rfl, hwatched.mono (fun _ hd => hd) fun d till h => ?_, htimely⟩
    rcases h with ⟨hd, h⟩ | ⟨-, h | ⟨h, -⟩⟩
    · exact (hothers d till hd h).unset hd
    · cases h
    · cases h
  | unchanged =>
    refine ⟨horderly, rfl, hwatched.mono (fun _ hd => hd) fun d till h => ?_, htimely⟩
    rcases h with ⟨hd, h⟩ | ⟨rfl, h | ⟨-, hnow, h⟩⟩
    · exact hothers d till hd h
    · cases h
    · exact (halarm d till (fun _ => hnow) h).wakeAll _

theorem Attentive.arrive (h : Attentive x) (c : Caller) (wanted : Wanted) :
    Attentive (x.ask c wanted (.arrive c wanted)) := by
  rw [ask_eq]
  cases hb : x.limits.isBusy c with
  | true =>
    have hstep : x.limits.step x.now (.arrive c wanted) = (x.limits, .unchanged) := by
      simp [Limits.step_eq, Limits.leap, hb]
    rw [hstep]
    exact (withLimits_self h.woken).symm ▸ h
  | false =>
    have hstep : x.limits.step x.now (.arrive c wanted) = x.limits.arrive x.now c wanted := by
      simp [Limits.step_eq, Limits.leap, hb]
    rw [hstep]
    exact attentive_heed h.timely (Limits.orderly_arrive h.orderly hb x.now wanted)
      (fun till ht => Limits.asleep_arrive ht) (Limits.watched_arrive h.watched h.orderly hb x.now wanted)
      (fun d hd => hd.2) (fun d till _ ha => ha) wanted

theorem Attentive.goOn (h : Attentive x) (c : Caller) : Attentive ((x.taken c).poll c) := by
  have hwatched := Limits.watched_poll h.watched h.orderly x.now c
  have hup (d : Caller) (hd : Limits.Others c (· ∈ x.agenda.ready) d) : d ∈ (x.taken c).agenda.ready :=
    (List.mem_erase_of_ne hd.1).2 hd.2
  have halarm (d : Caller) (till : Instant) (hd : d = c → x.now < till) (ha : Alarmed x.agenda d till) :
      Alarmed (x.taken c).agenda d till := by
    by_cases hdc : d = c
    · -- the moment of its alarm is still to come
      exact .inl (ha.resolve_right fun hpast => Nat.not_le.2 (hd hdc) hpast.2)
    · exact ha.mono (fun _ hx _ => hx) (fun hmem => (List.mem_erase_of_ne hdc).2 hmem) (Nat.le_refl _)
  cases hp : x.limits.pending.find? (·.caller = c) with
  | none =>
    have hpoll : x.limits.poll x.now c = (x.limits, .unchanged) := by simp [Limits.poll, hp]
    have hsame : (x.taken c).poll c = x.taken c := by simp [Session.poll, taken, hp]
    rw [hpoll] at hwatched
    have hnever (till : Instant) (ht : Turn.unchanged = .asleep till) : (x.taken c).now < till := by cases ht
    have hheed := attentive_heed (x := x.taken c) h.timely h.orderly hnever hwatched hup halarm .account
    rw [hsame]
    have hself : (x.taken c).withLimits x.limits = x.taken c := withLimits_self (y := x.taken c) h.woken
    rwa [hself] at hheed
  | some p =>
    have hask : (x.taken c).poll c = (x.taken c).ask c p.wanted (.poll c) := by simp [Session.poll, taken, hp]
    have hlater (till : Instant) (ht : (x.limits.poll x.now c).2 = .asleep till) : (x.taken c).now < till :=
      Limits.asleep_step (e := .poll c) (by rwa [Limits.step_eq])
    rw [hask, ask_eq, Limits.step_eq]
    exact attentive_heed (x := x.taken c) h.timely (Limits.orderly_poll h.orderly x.now c) hlater hwatched hup halarm p.wanted

/-- Who is gone is in no line, so that it is of no matter that its alarms are forgotten. -/
theorem Attentive.drop (h : Attentive x) (c : Caller) :
    Attentive ({ x with agenda := x.agenda.forget c }.withLimits (x.limits.withdraw c)) := by
  obtain ⟨horderly, hin⟩ := Limits.left_withdraw h.orderly c
  have hwatched : (x.limits.withdraw c).Watched (Limits.Others c (· ∈ x.agenda.ready))
      (Limits.OtherAlarms c (Alarmed x.agenda)) := fun g =>
    ((Limits.attends_withdraw x.limits c).watched h.watched g).others fun _ => hin.owner_ne g
  refine attentive_withLimits (h.timely.forget c) horderly (hwatched.mono (fun d hd => ?_) fun d till hd => ?_)
  · exact List.mem_filter.2 ⟨hd.2, by simpa using hd.1⟩
  · exact hd.2.forget hd.1

theorem Attentive.changeBucket (h : Attentive x) (i : Nat) {f : Bucket → Bucket × Option Caller}
    (hf : ∀ b : Bucket, b.Attends (f b)) {op : Window.Op} (hop : op ≠ .reserve) (ht : Bucket.Takes f x.now op) :
    Attentive (x.withLimits (x.limits.changeBucket i f)) := by
  have hb := Limits.beside_changeBucket (s := x.limits) (i := i) ht.key
  have horderly : (x.limits.changeBucket i f).Orderly := by
    refine h.orderly.of_roused x.now hb.pending hb.tickets (.inl hb.ceilingGate) fun j => ?_
    unfold Limits.Takes
    rw [Limits.site_changeBucket_take ht]
    split
    · exact ⟨some op, by simpa using hop, rfl⟩
    · exact ⟨none, by simp, rfl⟩
  exact attentive_withLimits h.timely horderly ((Limits.attends_changeBucket x.limits i hf).watched h.watched)

theorem Attentive.rung (h : Attentive x) (hdue : x.agenda.next? = some due) : Attentive (x.rung due) := by
  obtain ⟨⟨alarm, hmem, rfl⟩, -⟩ := Agenda.next?_eq_some_iff.1 hdue
  refine ⟨h.orderly, h.woken, h.watched.mono (fun c hc => ?_) fun c till ha => ha.ring _,
    h.timely.ring (Nat.le_of_lt (h.timely alarm hmem).1)⟩
  show c ∈ (x.agenda.ring alarm.due).ready
  rw [Agenda.ring_eq, Agenda.mem_ready_wakeAll]
  exact .inl hc

theorem Attentive.reached (h : Attentive x) (htarget : ∀ alarm ∈ x.agenda.alarms, target < alarm.due) :
    Attentive (x.reached target) := by
  refine ⟨h.orderly, h.woken, h.watched.mono (fun _ hc => hc) fun c till ha => ?_, fun alarm hmem => ?_⟩
  · exact ha.mono (fun _ hx _ => hx) id (Nat.le_max_left ..)
  · obtain ⟨hlt, hwhole⟩ := h.timely alarm hmem
    exact ⟨Nat.max_lt.2 ⟨hlt, htarget alarm hmem⟩, hwhole⟩

theorem attentive_fresh (epoch : Int) (limit : Nat) : Attentive (fresh epoch limit) := by
  refine ⟨Limits.orderly_run limit [], rfl, fun g => ?_, fun _ hx => absurd hx List.not_mem_nil⟩
  have hgate : (fresh epoch limit).limits.gateAt g = {} := by cases g <;> rfl
  refine ⟨fun _ c hc => ?_, fun till ha => ?_⟩
  · rw [hgate] at hc
    cases hc
  · rw [hgate] at ha
    cases ha

/-- The owners of gates are ready, or sleep until their budgets allow, in every state. -/
theorem Reachable.attentive (h : Reachable epoch limit x) : Attentive x := by
  induction h with
  | start => exact attentive_fresh epoch limit
  | @asks x _ c wanted keys ih =>
    have hnoted : Attentive { x with keys } := ⟨ih.orderly, ih.woken, ih.watched, ih.timely⟩
    exact hnoted.arrive c wanted
  | @goesOn x _ c _ ih => exact ih.goOn c
  | @happens x _ e he ih =>
    exact attentive_withLimits ih.timely (Limits.orderly_step ih.orderly x.now e)
      ((Limits.attends_step he x.limits x.now).watched ih.watched)
  | drops _ c ih =>
    rw [Limits.step_eq]
    exact ih.drop c
  | @records x _ i r ih =>
    rw [Limits.finish_record, Limits.finish_nil]
    exact ih.changeBucket i (fun b => b.attends_record x.now r) (by simp) (Bucket.takes_record x.now r)
  | @exhausts x _ i wait ih =>
    rw [Limits.finish_exhaust, Limits.finish_nil]
    exact ih.changeBucket i (fun b => b.attends_exhaust x.now wait) (by simp) (Bucket.takes_exhaust x.now wait)
  | rings _ _ hdue ih => exact ih.rung hdue
  | passes _ _ htarget ih => exact ih.reached htarget

/-! ### Sessions at rest -/

theorem Reachable.settleWith (h : Reachable epoch limit x) (fuel : Nat) :
    Reachable epoch limit (settleWith fuel x) := by
  refine settleWith_induction (fun {x c rest} hready hx => ?_) h fuel
  have hfirst : x.taken c = x.popped rest := by simp [taken, popped, hready]
  exact hfirst ▸ hx.goesOn (by simp [hready])

theorem Reachable.happen (h : Reachable epoch limit x) (he : ∀ c, ¬ e.asks c) : Reachable epoch limit (x.happen e) :=
  (h.happens e he).settleWith _

theorem Reachable.useTicket {α : Type} (h : Reachable epoch limit x) (c : Caller) (he : ∀ c, ¬ e.asks c) (a : α) :
    Reachable epoch limit (x.useTicket c e a).1 := by
  rcases useTicket_eq x c e a with heq | heq | heq
  · rwa [heq]
  · rw [heq]
    exact h.happen fun d => by simp [Event.asks]
  · rw [heq]
    exact h.happen he

theorem Reachable.advanceWith (h : Reachable epoch limit x) (hr : Resting x) (target : Instant) (fuel : Nat) :
    Reachable epoch limit (advanceWith target fuel x) := by
  refine (advanceWith_induction (P := fun y => Reachable epoch limit y ∧ Resting y) ?_ ?_ ⟨h, hr⟩ fuel).1
  · rintro x hn ⟨hx, hrest⟩
    have hlater := Agenda.next?_filter_eq_none_iff.1 hn
    exact ⟨hx.passes hrest.rest.ready hlater, hrest.reached hlater⟩
  · rintro x due hn ⟨hx, hrest⟩
    exact ⟨(hx.rings hrest.rest.ready (Option.filter_eq_some_iff.1 hn).1).settleWith _, hrest.rung hn⟩

theorem Reachable.handle (h : Reachable epoch limit x) (hr : Resting x) (a : Action) :
    Reachable epoch limit (x.handle a) := by
  cases a with
  | acquire c wanted =>
    obtain ⟨keys, heq⟩ := acquire_eq x c wanted
    simp only [Session.handle, heq]
    exact (h.asks c wanted keys).settleWith _
  | record c headers => exact h.useTicket c (fun d => by simp [Event.asks]) _
  | refuse c headers body => exact h.useTicket c (fun d => by simp [Event.asks]) _
  | drop c => exact (h.drops c).settleWith _
  | block wait => exact h.happen fun d => by simp [Event.asks]
  | recordBucket i headers => exact (h.records i _).settleWith _
  | exhaustBucket i wait => exact (h.exhausts i wait).settleWith _
  | advance time => exact h.advanceWith hr _ _

theorem reachable_handleAll (epoch : Int) (limit : Nat) (actions : List Action) :
    Reachable epoch limit ((fresh epoch limit).handleAll actions) :=
  (handleAll_induction (P := fun x => Reachable epoch limit x ∧ Resting x)
    (fun _ a _ h => ⟨h.1.handle h.2 a, resting_handle h.2 a⟩) ⟨.start, resting_fresh epoch limit⟩).1

/-- **No wakeup is lost**, whatever was asked for, recorded, refused, blocked or given up.

Wherever callers are with their acts, one between those of another, the owner of a gate that has not been let
through is to go on, or sleeps until just the moment that its budget, as it is by then, makes it wait for, or it is
still to be told of a change. A caller that has looked and is about to fall asleep has heard of every change since,
or is still to be told. So when nobody is doing anything, an owner that is not to go on sleeps, and not too long.

With a clock, an owner that sleeps has an alarm set, which goes off at the first millisecond that is not before the
moment it sleeps until. So when nobody is ready and time is about to pass, each owner sleeps, its budget lets nobody
through by now, and the clock stops at its alarm at the latest. Whatever is done comes to rest in such a state. -/
theorem no_wakeup_is_lost (epoch : Int) (limit : Nat) :
    (∀ m, Machine.Reachable limit m →
      (∀ g, ∀ c ∈ (m.limits.gateAt g).owner?, (m.limits.gateAt g).hold ≠ .probing →
        (c ∈ m.limits.woken ∨ m.IsUp g c ∨
          ∃ till, (m.limits.gateAt g).hold = .asleep till ∧ (m.WillTell g ∨ m.Demands g till)) ∧
        (m.IsQuiet → c ∈ m.limits.woken ∨
          ∃ till, (m.limits.gateAt g).hold = .asleep till ∧ m.Demands g till)) ∧
      ∀ j ∈ m.jobs, ∀ g p till, .doze g p till false ∈ j.acts → m.WillTell g ∨ m.Demands g till) ∧
    (∀ x, Reachable epoch limit x → ∀ g, ∀ c ∈ (x.limits.gateAt g).owner?, (x.limits.gateAt g).hold ≠ .probing →
      (c ∈ x.agenda.ready ∨ ∃ till, (x.limits.gateAt g).hold = .asleep till ∧
        (∀ t < till, x.limits.deadline? g t = some till) ∧ ⟨wholeMillis till, c, .step⟩ ∈ x.agenda.alarms) ∧
      (x.agenda.ready = [] → ∃ till, (x.limits.gateAt g).hold = .asleep till ∧ x.now < wholeMillis till ∧
        (1000000 ∣ x.now → x.limits.deadline? g x.now = some till) ∧
        ∀ due, x.agenda.next? = some due → due ≤ wholeMillis till)) ∧
    ∀ actions, Reachable epoch limit ((fresh epoch limit).handleAll actions) ∧
      ((fresh epoch limit).handleAll actions).agenda.ready = [] := by
  refine ⟨fun m h => ⟨fun g c hc hp => ?_, h.wakeful.dozing⟩, fun x h g c hc hp => ?_, fun actions =>
    ⟨reachable_handleAll epoch limit actions, (resting_handleAll epoch limit actions).rest.ready⟩⟩
  · have hcases := h.wakeful.owner_cases hc hp
    refine ⟨hcases, fun hquiet => ?_⟩
    rcases hcases with hmem | hup | ⟨till, hh, htell | hdemands⟩
    · exact .inl hmem
    · exact absurd hup hquiet.not_isUp
    · exact absurd htell hquiet.not_willTell
    · exact .inr ⟨till, hh, hdemands⟩
  obtain ⟨-, -, hwatched, htimely⟩ := h.attentive
  -- ready, or asleep with an alarm
  have howner : c ∈ x.agenda.ready ∨ ∃ till, (x.limits.gateAt g).hold = .asleep till ∧
      (∀ t < till, x.limits.deadline? g t = some till) ∧ ⟨wholeMillis till, c, .step⟩ ∈ x.agenda.alarms := by
    cases hh : (x.limits.gateAt g).hold with
    | probing => exact absurd hh hp
    | turn =>
      refine .inl (((hwatched g).turn hh c hc).resolve_right fun hmem => ?_)
      rw [h.attentive.woken] at hmem
      cases hmem
    | asleep till =>
      obtain ⟨hdelays, halarm⟩ := (hwatched g).asleep till hh
      rcases halarm c hc with hmem | ⟨hmem, -⟩
      · exact .inr ⟨till, rfl, hdelays, hmem⟩
      · exact .inl hmem
  refine ⟨howner, fun hready => ?_⟩
  obtain ⟨till, hh, hdelays, hmem⟩ := howner.resolve_left fun hmem => by simp [hready] at hmem
  have hlt := (htimely _ hmem).1
  refine ⟨till, hh, hlt, fun hwhole => hdelays x.now ?_, fun due hdue => ?_⟩
  · exact lt_of_lt_wholeMillis hwhole hlt
  · exact (Agenda.next?_eq_some_iff.1 hdue).2 _ hmem

/-- Two callers want the one slot that the account has in a second. The second of them sleeps until the window
ends, and then, as the account is held back meanwhile, until the end of that. Done act by act, it falls asleep when
the account is held back already and is told of it only then, which gives it another turn. -/
theorem blocked_sleeper_has_new_alarm :
    let x := (fresh 0 1).handleAll [.acquire 0 .account, .acquire 1 .account, .block 5000000000]
    let taken := ((Machine.ofLimit 1).happen (.arrive 0 .account)).goOnAll 0 [0, 0, 0, 0, 0, 0]
    let looked := (taken.happen (.arrive 1 .account)).goOnAll 0 [1, 1, 1, 1, 1]
    let told := (looked.happen (.block 5000000000)).goOnAll 0 [2, 1, 2]
    (Reachable 0 1 x ∧ 1 ∈ (x.limits.gateAt .ceiling).owner? ∧ (x.limits.gateAt .ceiling).hold ≠ .probing ∧
      x.agenda.ready = [] ∧ x.limits.deadline? .ceiling x.now = some 5000000000) ∧
    Machine.Reachable 1 told ∧ told.IsQuiet ∧ 1 ∈ (told.limits.gateAt .ceiling).owner? ∧ 1 ∈ told.limits.woken := by
  intro x taken looked told
  obtain ⟨hmachines, hsessions, hruns⟩ := no_wakeup_is_lost 0 1
  constructor
  · obtain ⟨hreachable, hready⟩ := hruns [.acquire 0 .account, .acquire 1 .account, .block 5000000000]
    have howner : 1 ∈ (x.limits.gateAt .ceiling).owner? := by decide +kernel
    have hhold : (x.limits.gateAt .ceiling).hold = .asleep 5000000000 := by decide +kernel
    have hnow : x.now = 0 := by decide +kernel
    have hprobing : (x.limits.gateAt .ceiling).hold ≠ .probing := by simp [hhold]
    obtain ⟨-, hasleep⟩ := hsessions x hreachable .ceiling 1 howner hprobing
    obtain ⟨till, htill, -, hdeadline, -⟩ := hasleep hready
    cases hhold.symm.trans htill
    exact ⟨hreachable, howner, hprobing, hready, hdeadline (hnow ▸ Nat.dvd_zero _)⟩
  · have htaken : Machine.Reachable 1 taken :=
      (Machine.Reachable.start.happen (.arrive 0 .account) fun c _ => Machine.isFree_ofLimit 1 c).goOnAll 0 [0, 0, 0, 0, 0, 0]
    have hfree : taken.IsFree 1 := by
      unfold Machine.IsFree
      decide +kernel
    have hlooked : Machine.Reachable 1 looked :=
      (htaken.happen (.arrive 1 .account) fun c hc => by cases hc; exact hfree).goOnAll 0 [1, 1, 1, 1, 1]
    have htold : Machine.Reachable 1 told := (hlooked.happen (.block 5000000000) fun c hc => by cases hc).goOnAll 0 [2, 1, 2]
    have hquiet : told.IsQuiet := by
      unfold Machine.IsQuiet
      decide +kernel
    have howner : 1 ∈ (told.limits.gateAt .ceiling).owner? := by decide +kernel
    have hhold : (told.limits.gateAt .ceiling).hold = .turn := by decide +kernel
    have hkept : (told.limits.gateAt .ceiling).hold ≠ .probing := fun h => by cases hhold.symm.trans h
    obtain ⟨-, hcases⟩ := (hmachines told htold).1 .ceiling 1 howner hkept
    refine ⟨htold, hquiet, howner, (hcases hquiet).resolve_right ?_⟩
    rintro ⟨till, hasleep, -⟩
    cases hhold.symm.trans hasleep

end Session

end ChatApi.Limit
