import ChatApi.Limit.Window

/-!
# What happens to a window

Requests ask a window for slots, responses report on it, refusals close it. `Window.run` is what a
history of these makes of a window, `Window.answers` what its requests are told.

`Reserves` lists what asking for a slot can come to, `reserve_of_spent` and `reserve_of_left` say what it comes
to while a window goes on; `record_tracked` and `record_untracked` do so for a response. What is proved of
histories goes back to these.
-/

namespace ChatApi.Limit

/-- Whether a request goes ahead. -/
def Slot.isProceed : Slot → Bool
  | .proceed _ => true
  | .wait _ => false

namespace Window

inductive Op
  /-- A request asks for a slot. -/
  | reserve
  /-- A response reports. -/
  | record (r : Report)
  /-- A refusal closes the window for a while. -/
  | exhaust (wait : Span)
  deriving DecidableEq

/-- What an operation makes of a window, and what it answers if it is a request. -/
def apply (w : Window) (now : Instant) : Op → Window × Option Slot
  | .reserve => ((w.reserve now).1, some (w.reserve now).2)
  | .record r => (w.record now r, none)
  | .exhaust wait => (w.exhaust now wait, none)

/-- Operations, each with the moment at which it happens. -/
abbrev History := List (Instant × Op)

/-- The window after a history. -/
def run (w : Window) (h : History) : Window := h.foldl (fun w e => (w.apply e.1 e.2).1) w

/-- What the requests of a history are told. -/
def answers : Window → History → List Slot
  | _, [] => []
  | w, (now, op) :: h => (w.apply now op).2.toList ++ answers (w.apply now op).1 h

@[simp] theorem run_nil (w : Window) : w.run [] = w := rfl

@[simp] theorem run_cons (w : Window) (now : Instant) (op : Op) (h : History) :
    w.run ((now, op) :: h) = (w.apply now op).1.run h := rfl

theorem run_append (w : Window) (h₁ h₂ : History) : w.run (h₁ ++ h₂) = (w.run h₁).run h₂ := by
  simp [run]

/-! ### One operation -/

theorem isKnown_iff {w : Window} : w.isKnown ↔ w.phase = .tracking ∨ w.phase = .exhausted := by
  simp [isKnown]

/-- A window that goes on with nothing left lets nobody through before its end. -/
theorem reserve_of_spent {w : Window} {now till : Instant} (hk : w.isKnown)
    (hr : w.resetAt = some till) (ht : now < till) (hz : w.remaining = 0) :
    w.reserve now = ({ w with phase := .exhausted }, .wait till) := by
  have ho : w.isOver now = false := by simp [isOver, hr, ht]
  rcases isKnown_iff.1 hk with hp | hp <;> simp [reserve, hp, ho, hz, hr]

/-- A window that goes on with something left gives one of it away. -/
theorem reserve_of_left {w : Window} {now : Instant} (hk : w.isKnown) (ho : w.isOver now = false)
    (hl : 0 < w.remaining) : w.reserve now = (w.spend, .proceed false) := by
  obtain ⟨n, hn⟩ := Nat.exists_eq_add_one_of_ne_zero (Nat.ne_of_gt hl)
  rcases isKnown_iff.1 hk with hp | hp <;> simp [reserve, hp, ho, hn]

/-- A window that is used up but not over has an end, which is ahead. -/
theorem exists_end {w : Window} {now : Instant} (hz : w.remaining = 0) (ho : w.isOver now = false) :
    ∃ till, w.resetAt = some till ∧ now < till := by
  unfold isOver at ho
  split at ho
  · rename_i till hr
    exact ⟨till, hr, by simpa using ho⟩
  · simp [hz] at ho

/-- What asking for a slot can come to. -/
inductive Reserves (w : Window) (now : Instant) : Window × Slot → Prop
  | fresh (phase : w.phase = .fresh) : Reserves w now (w, .proceed true)
  | untracked (phase : w.phase = .untracked) : Reserves w now (w, .proceed false)
  | reopens (known : w.isKnown) (past : w.isOver now) :
      Reserves w now ({ w with phase := .fresh, resetAt := none }, .proceed true)
  | spends (known : w.isKnown) (on : w.isOver now = false) (left : 0 < w.remaining) :
      Reserves w now (w.spend, .proceed false)
  | waits {till : Instant} (known : w.isKnown) (spent : w.remaining = 0) (ends : w.resetAt = some till)
      (ahead : now < till) : Reserves w now ({ w with phase := .exhausted }, .wait till)

theorem reserves (w : Window) (now : Instant) : w.Reserves now (w.reserve now) := by
  cases hp : w.phase with
  | fresh =>
    rw [show w.reserve now = (w, .proceed true) by simp [reserve, hp]]
    exact .fresh hp
  | untracked =>
    rw [show w.reserve now = (w, .proceed false) by simp [reserve, hp]]
    exact .untracked hp
  | tracking | exhausted =>
    have hk : w.isKnown := by simp [isKnown, hp]
    cases ho : w.isOver now with
    | true =>
      have hreopens : w.reserve now = ({ w with phase := .fresh, resetAt := none }, .proceed true) := by
        simp [reserve, hp, ho]
      rw [hreopens]
      exact .reopens hk ho
    | false =>
      rcases Nat.eq_zero_or_pos w.remaining with hz | hl
      · obtain ⟨till, hr, hlt⟩ := exists_end hz ho
        rw [reserve_of_spent hk hr hlt hz]
        exact .waits hk hz hr hlt
      · rw [reserve_of_left hk ho hl]
        exact .spends hk ho hl

/-- What is left after a response that reports on the budget. -/
def leftAfter (w : Window) (now : Instant) (r : Report) : Nat :=
  let reported := r.remaining.getD ((r.limit.or w.limit).getD 1 - 1)
  if w.isLive now then min w.remaining reported else reported

theorem record_tracked (w : Window) (now : Instant) {r : Report} (h : r.isTracked) :
    w.record now r =
      { phase := if w.leftAfter now r = 0 then .exhausted else .tracking
        limit := r.limit.or w.limit
        remaining := w.leftAfter now r
        hash := r.bucket.or w.hash
        resetAt := (r.resetAt now).or w.resetAt } := by
  simp [record, leftAfter, h]

theorem record_untracked (w : Window) (now : Instant) {r : Report} (h : r.isTracked = false) :
    w.record now r =
      { w with
        hash := r.bucket.or w.hash
        phase := if w.phase = .fresh then .untracked else w.phase } := by
  simp [record, h]

end Window

end ChatApi.Limit
