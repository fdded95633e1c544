import ChatApi.Proofs.Limit.Pace
import ChatApi.Proofs.Limit.Watch

/-!
# Who falls asleep

Behind each gate there is a budget, that of the account or that of a bucket. Who looks at it and finds nothing
is told until when, and sleeps at the gate (`falls_step`). What was in the way then is there no more from that
moment on, as long as only the one who sleeps looks again (`Budget.look_wait`).
-/

namespace ChatApi.Limit

/-! ### Gates -/

namespace Gate

/-- A caller owns a gate, and sleeps there until a moment. -/
structure Sleeps (g : Gate) (c : Caller) (till : Instant) : Prop where
  owner : g.owner? = some c
  hold : g.hold = .asleep till

variable {g : Gate} {c d : Caller} {now till : Instant}

theorem Sleeps.isUp_iff (h : g.Sleeps c till) : g.isUp c now ↔ till ≤ now := by
  simp [isUp, h.owner, h.hold]

theorem Sleeps.not_isUp (h : g.Sleeps c till) (hd : d ≠ c) : g.isUp d now = false := by
  have hne : ¬ c = d := Ne.symm hd
  simp [isUp, h.owner, hne]

/-- Who comes in gets in line behind the sleeper. -/
theorem Sleeps.join (h : g.Sleeps c till) (d : Caller) : (g.join d).Sleeps c till := by
  have ho := h.owner
  unfold owner? at ho
  cases hl : g.line with
  | nil => simp [hl] at ho
  | cons x behind =>
    rw [hl] at ho
    exact ⟨by simpa [Gate.join, owner?, hl] using ho, by simpa [Gate.join, hl] using h.hold⟩

/-- Who else gets out of line does so behind the sleeper. -/
theorem Sleeps.leave (h : g.Sleeps c till) (hd : d ≠ c) : (g.leave d).1.Sleeps c till := by
  have ho := h.owner
  unfold owner? at ho
  cases hl : g.line with
  | nil => simp [hl] at ho
  | cons x behind =>
    rw [hl] at ho
    obtain rfl : x = c := by simpa using ho
    have hne : ¬ x = d := Ne.symm hd
    exact ⟨by simp [Gate.leave, owner?, hl, hne], by simpa [Gate.leave, hl, hne] using h.hold⟩

end Gate

/-! ### Budgets -/

/-- What a caller may have to wait for. -/
inductive Obstacle
  /-- The whole account is held back. -/
  | block
  /-- Nothing is left of a window. -/
  | spent
  deriving DecidableEq, Repr

/-- What the owner of a gate looks at. -/
inductive Budget
  | account (ceiling : Ceiling)
  | bucket (window : Window)

namespace Budget

/-- Takes a slot, or says until when there is none. -/
def look : Budget → Instant → Budget × Option Instant
  | .account a, now => (.account (a.reserve now).1, (a.reserve now).2)
  | .bucket w, now => (.bucket (w.reserve now).1, (w.reserve now).2.till?)

/-- What is in the way of a slot, where there is none. -/
def obstacle : Budget → Instant → Obstacle
  | .account a, now => if (a.blocked? now).isSome then .block else .spent
  | .bucket _, _ => .spent

/-- An obstacle is there until a moment: the account is held back until then, or nothing is left of the window
that ends then. -/
inductive Holds (till : Instant) : Budget → Obstacle → Prop
  | block {a : Ceiling} (blocked : a.blockedUntil = some till) : Holds till (.account a) .block
  | ceiling {a : Ceiling} (limited : 0 < a.limit) (spent : a.remaining = 0) (ends : a.windowEnds = some till) :
    Holds till (.account a) .spent
  | window {w : Window} (spent : w.remaining = 0) (ends : w.resetAt = some till) : Holds till (.bucket w) .spent

/-- From a moment on an obstacle is there no more. Where a window was spent, there is none at all. -/
def Clears (b : Budget) (till : Instant) : Obstacle → Prop
  | .block => ∀ t, till ≤ t → b.obstacle t = .spent
  | .spent => ∀ t, till ≤ t → (b.look t).2 = none

end Budget

variable {now till t : Instant}

/-- A window that makes a caller wait is over by the end that it gives, and the next one is to be probed. -/
theorem Window.reserve_at_end {w : Window} (h : (w.reserve now).2 = .wait till) (hle : till ≤ t) :
    ((w.reserve now).1.reserve t).2 = .proceed true := by
  obtain ⟨hw, -, hr, -⟩ := reserve_eq_wait h
  rw [hw]
  simp [reserve, isOver, hr, hle]

theorem Ceiling.blocked?_of_le {a : Ceiling} (hb : a.blockedUntil = some till) (hle : till ≤ t) :
    a.blocked? t = none := by
  simp [blocked?, hb, hle]

/-- After the end of a spent window of the account the next one begins, with all its slots. -/
theorem Ceiling.reserve_after_end {a : Ceiling} (hl : a.limit ≠ 0) (hb : a.blockedUntil = none)
    (he : a.windowEnds = some till) (hle : till ≤ t) : (a.reserve t).2 = none := by
  have hover : ¬ t < till := Nat.not_lt.2 hle
  simp [reserve, blocked?, refresh, hl, hb, he, hover]

/-- Who has to wait is told a later moment, until which something is in the way. From then on that is there no
more for the one who looks again. -/
theorem Budget.look_wait {b : Budget} (h : (b.look now).2 = some till) :
    now < till ∧ Holds till b (b.obstacle now) ∧ (b.look now).1.Clears till (b.obstacle now) := by
  cases b with
  | bucket w =>
    have hwait : (w.reserve now).2 = .wait till := by
      cases hs : (w.reserve now).2 with
      | proceed isProbe => simp [look, hs, Slot.till?] at h
      | wait till' => simpa [look, hs, Slot.till?] using h
    obtain ⟨-, hspent, hends, hlt⟩ := Window.reserve_eq_wait hwait
    refine ⟨hlt, .window hspent hends, fun t hle => ?_⟩
    simp [look, Window.reserve_at_end hwait hle, Slot.till?]
  | account a =>
    obtain ⟨hlt, ⟨hsame, hblocked⟩ | ⟨hunblocked, hlimit, hspent, hends⟩⟩ := Ceiling.reserve_eq_wait h
    · have hnow : a.blocked? now = some till := Option.filter_eq_some_iff.2 ⟨hblocked, by simpa using hlt⟩
      rw [show (Budget.account a).obstacle now = .block by simp [obstacle, hnow]]
      refine ⟨hlt, .block hblocked, fun t hle => ?_⟩
      simp [look, obstacle, hsame, Ceiling.blocked?_of_le hblocked hle]
    · have hnow : a.blocked? now = none := by
        refine Option.eq_none_iff_forall_ne_some.2 fun until' hb => ?_
        -- who is held back leaves the block as it is
        rw [Ceiling.reserve_of_blocked hb] at hunblocked
        have hnone : a.blockedUntil = none := congrArg Ceiling.blockedUntil hunblocked
        simp [Ceiling.blocked?, hnone] at hb
      rw [show (Budget.account a).obstacle now = .spent by simp [obstacle, hnow]]
      refine ⟨hlt, .ceiling (Nat.pos_of_ne_zero hlimit) hspent hends, fun t hle => ?_⟩
      have hopen := Ceiling.reserve_after_end (a := { a with blockedUntil := none }) hlimit rfl hends hle
      simp [look, hunblocked, hopen]

/-! ### Callers -/

theorem Turn.inLine_eq_asleep {turn : Turn} {till : Instant} (h : turn.inLine = .asleep till) :
    turn = .asleep till := by
  cases turn with
  | granted | asleep | queued => exact h
  | unchanged => cases h

/-- Who falls asleep was up, and sleeps until the window that it has looked at ends. -/
theorem Bucket.poll_asleep {b : Bucket} {c : Caller} (h : (b.poll now c).2 = .asleep till) :
    b.gate.isUp c now ∧ (b.window.reserve now).2 = .wait till ∧
      (b.poll now c).1.1 =
        { b with window := (b.window.reserve now).1, gate := { b.gate with hold := .asleep till } } := by
  unfold Bucket.poll at h ⊢
  cases hu : b.gate.isUp c now with
  | false => simp [hu] at h
  | true =>
    cases hr : b.window.reserve now with
    | mk window slot =>
      cases slot with
      | wait till' =>
        obtain rfl : till' = till := by simpa [hu, hr] using h
        exact ⟨rfl, rfl, rfl⟩
      | proceed isProbe => cases isProbe <;> simp [hu, hr] at h

theorem Gate.sleeps_of_isUp {g : Gate} {c : Caller} (hu : g.isUp c now) (till : Instant) :
    Gate.Sleeps { g with hold := .asleep till } c till := by
  obtain ⟨-, -, hline⟩ := Gate.of_isUp hu
  exact ⟨by rw [Gate.owner?, hline]; rfl, rfl⟩

namespace Limits

/-- The budget behind a gate. -/
def budget (s : Limits) : Stage → Budget
  | .ceiling => .account s.ceiling
  | .bucket i => .bucket (s.site i).window

/-- In `u` a caller has looked at the budget behind a gate, and sleeps there until the moment that it was told. -/
structure Falls (s : Limits) (now : Instant) (g : Stage) (c : Caller) (till : Instant) (u : Limits) : Prop where
  sleeps : (u.gateAt g).Sleeps c till
  told : ((s.budget g).look now).2 = some till
  budget : u.budget g = ((s.budget g).look now).1

variable {s u : Limits} {e : Event} {p : Pending} {c : Caller} {i : Nat} {g : Stage}

/-- Who falls asleep looks again later. -/
theorem Falls.later (h : Falls s now g c till u) : now < till := (Budget.look_wait h.told).1

theorem Falls.congr {v : Limits} (h : Falls v now g c till u) (hb : v.budget g = s.budget g) :
    Falls s now g c till u :=
  ⟨h.sleeps, hb ▸ h.told, hb ▸ h.budget⟩

theorem falls_pollBucket (h : (s.pollBucket now p i).2 = .asleep till) :
    Falls s now (.bucket i) p.caller till (s.pollBucket now p i).1 := by
  cases hb : s.buckets[i]? with
  | none => simp [pollBucket, hb] at h
  | some b =>
    rw [pollBucket_of_some hb] at h ⊢
    have hasleep : (b.poll now p.caller).2 = .asleep till := h
    obtain ⟨hu, hwait, hpoll⟩ := Bucket.poll_asleep hasleep
    have hsite : (s.changeBucket i fun b => (b.poll now p.caller).1).site i =
        ⟨(b.window.reserve now).1, { b.gate with hold := .asleep till }⟩ := by
      rw [site_changeBucket hb, if_pos rfl, hpoll]
    rw [hasleep]
    refine ⟨?_, ?_, ?_⟩
    · simpa [gateAt, hsite] using Gate.sleeps_of_isUp hu till
    · simp [budget, Budget.look, site_of_some hb, hwait, Slot.till?]
    · simp [budget, Budget.look, site_of_some hb, hsite]

/-- Getting in line takes nothing of a budget. -/
theorem budget_lineUp (s : Limits) (p : Pending) (key : RouteKey) (g : Stage) :
    (s.lineUp p key).2.budget g = s.budget g := by
  cases g with
  | ceiling => simp only [budget, (lineUp_frame s p key).1]
  | bucket j =>
    obtain ⟨isNew, hsite⟩ := site_lineUp s p key
    have hwindow : ((s.site j).arrive isNew p.caller).window = (s.site j).window := by cases isNew <;> rfl
    simp only [budget, hsite]
    split
    · rw [hwindow]
    · rfl

theorem falls_enterBucket {key : RouteKey} (h : (s.enterBucket now p key).2 = .asleep till) :
    Falls s now (.bucket (s.bucketFor key).1) p.caller till (s.enterBucket now p key).1 := by
  rw [enterBucket_eq] at h ⊢
  exact (falls_pollBucket (Turn.inLine_eq_asleep h)).congr (budget_lineUp s p key _)

theorem falls_pollCeiling (h : (s.pollCeiling now p).2 = .asleep till) :
    ∃ g, Falls s now g p.caller till (s.pollCeiling now p).1 := by
  rcases pollCeiling_cases s now p with ho | ⟨hu, ⟨till', hwait, ho⟩ | ⟨-, ⟨-, ho⟩ | ⟨key, scope, -, ho⟩⟩⟩
  · rw [ho] at h; cases h
  · rw [ho] at h
    cases h
    rw [ho]
    exact ⟨.ceiling, Gate.sleeps_of_isUp hu till, hwait, rfl⟩
  · rw [ho] at h; cases h
  · rw [ho] at h ⊢
    exact ⟨_, (falls_enterBucket h).congr rfl⟩

theorem falls_arrive {wanted : Wanted} (h : (s.arrive now c wanted).2 = .asleep till) :
    ∃ g, Falls s now g c till (s.arrive now c wanted).1 := by
  have hceiling {v : Limits} {p : Pending} (hc : p.caller = c) (hv : ∀ g, v.budget g = s.budget g)
      (h : (v.pollCeiling now p).2.inLine = .asleep till) :
      ∃ g, Falls s now g c till (v.pollCeiling now p).1 := by
    obtain ⟨g, hfalls⟩ := falls_pollCeiling (Turn.inLine_eq_asleep h)
    exact ⟨g, hc ▸ hfalls.congr (hv g)⟩
  unfold arrive at h ⊢
  split at h
  · cases h
  · exact ⟨_, (falls_enterBucket h).congr rfl⟩
  · exact hceiling rfl (fun g => by cases g <;> rfl) h
  · exact hceiling rfl (fun g => by cases g <;> rfl) h

/-- Only who asks falls asleep. -/
theorem falls_step (h : (s.step now e).2 = .asleep till) :
    ∃ c g, e.asks c ∧ Falls s now g c till (s.step now e).1 := by
  rw [step_eq] at h ⊢
  cases e with
  | arrive c wanted =>
    simp only [leap] at h ⊢
    split at h
    · cases h
    · rename_i hb
      obtain ⟨g, hfalls⟩ := falls_arrive h
      exact ⟨c, g, .inr ⟨wanted, rfl⟩, by rwa [if_neg hb]⟩
  | poll c =>
    refine ⟨c, ?_⟩
    simp only [leap, poll] at h ⊢
    split at h
    · cases h
    · rename_i p hp
      obtain rfl : p.caller = c := by simpa using List.find?_some hp
      split at h
      · rename_i hs
        obtain ⟨g, hfalls⟩ := falls_pollCeiling h
        exact ⟨g, .inl rfl, by simpa [hs] using hfalls⟩
      · rename_i i hs
        exact ⟨.bucket i, .inl rfl, by simpa [hs] using falls_pollBucket h⟩
  | record | refuse =>
    simp only [leap] at h
    split at h <;> cases h
  | withdraw | block => cases h

end Limits

end ChatApi.Limit
