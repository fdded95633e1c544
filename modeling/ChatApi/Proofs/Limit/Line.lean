import ChatApi.Limit.Gate

/-!
# Who probes and who waits

A gate has a line; the first in it may have been let through as a probe. `Gate.prober?` and
`Gate.waiting` take the two apart, and the lemmas say what each operation does to them. The line is
first in, first out: callers get in behind all others, and only its first caller is let through.
-/

namespace ChatApi.Limit.Gate

/-- The caller that was let through and keeps the gate closed. -/
def prober? (g : Gate) : Option Caller := if g.hold = .probing then g.owner? else none

/-- The callers that are still to be let through, the first one first. -/
def waiting (g : Gate) : List Caller := if g.hold = .probing then g.line.tail else g.line

theorem line_eq (g : Gate) : g.line = g.prober?.toList ++ g.waiting := by
  unfold prober? waiting owner?
  split
  · cases g.line <;> rfl
  · rfl

variable {g : Gate} {c : Caller}

@[simp] theorem prober?_join : (g.join c).prober? = g.prober? := by
  unfold prober? join owner?
  cases g.line <;> simp

@[simp] theorem waiting_join : (g.join c).waiting = g.waiting ++ [c] := by
  unfold waiting join
  cases g.line with
  | nil => simp
  | cons x l => by_cases hp : g.hold = .probing <;> simp [hp]

theorem prober?_leave : (g.leave c).1.prober? = if g.prober? = some c then none else g.prober? := by
  unfold prober? leave owner?
  cases hl : g.line with
  | nil => simp [hl]
  | cons x l => by_cases hx : x = c <;> by_cases hp : g.hold = .probing <;> simp [hx, hp]

theorem waiting_leave :
    (g.leave c).1.waiting = if g.prober? = some c then g.waiting else g.waiting.erase c := by
  unfold waiting prober? leave owner?
  cases hl : g.line with
  | nil => by_cases hp : g.hold = .probing <;> simp [hl, hp]
  | cons x l => by_cases hx : x = c <;> by_cases hp : g.hold = .probing <;> simp [hx, hp]

@[simp] theorem prober?_rouse : g.rouse.1.prober? = g.prober? := by
  unfold prober? rouse owner?
  cases hh : g.hold <;> simp [hh]

@[simp] theorem waiting_rouse : g.rouse.1.waiting = g.waiting := by
  unfold waiting rouse
  cases hh : g.hold <;> simp [hh]

/-- It is the turn of the first who waits, and of nobody while one probes. -/
theorem of_isUp {now : Instant} (h : g.isUp c now) :
    g.prober? = none ∧ g.waiting = c :: g.line.tail ∧ g.line = c :: g.line.tail := by
  unfold isUp at h
  unfold prober? waiting owner? at *
  cases hl : g.line with
  | nil => simp [hl] at h
  | cons x l => cases hh : g.hold <;> simp_all

/-- Whoever looks and finds nothing goes to sleep in its place. -/
theorem asleep_of_isUp {now : Instant} (h : g.isUp c now) (till : Instant) :
    Gate.prober? { g with hold := .asleep till } = g.prober? ∧
      Gate.waiting { g with hold := .asleep till } = g.waiting := by
  have hp : g.hold ≠ .probing := by
    intro hp
    simp [isUp, hp] at h
  simp [prober?, waiting, hp]

end ChatApi.Limit.Gate
