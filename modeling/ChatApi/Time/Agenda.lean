import ChatApi.Time.Span

/-!
# Who goes on when

Tasks run one at a time. A task that cannot go on sets an alarm or waits to be woken. When no task
is ready, the clock moves to the next alarm. Alarms go off at whole milliseconds, never early; those
of one moment in the order in which they were set. Woken tasks go on in the order in which they were
woken.
-/

namespace ChatApi

/-- The first whole millisecond that is not before a moment. -/
def wholeMillis (t : Instant) : Instant := (t + 999999) / 1000000 * 1000000

theorem le_wholeMillis (t : Instant) : t ≤ wholeMillis t := by
  unfold wholeMillis Instant at *
  omega

/-- What an alarm is for. -/
inductive Purpose
  /-- The next step of a task. -/
  | step
  /-- The end of its patience. -/
  | deadline
  deriving DecidableEq, Repr, Inhabited

structure Alarm (τ : Type) where
  due : Instant
  task : τ
  purpose : Purpose
  deriving DecidableEq, Repr, Inhabited

structure Agenda (τ : Type) where
  now : Instant := 0
  /-- In the order in which they were set. -/
  alarms : List (Alarm τ) := []
  /-- The tasks that can go on, the first one first. -/
  ready : List τ := []
  deriving Repr, Inhabited

namespace Agenda

variable {τ : Type} [DecidableEq τ]

/-- Makes a task ready, unless it is ready already. -/
def wake (a : Agenda τ) (task : τ) : Agenda τ :=
  if task ∈ a.ready then a else { a with ready := a.ready ++ [task] }

def wakeAll (a : Agenda τ) (tasks : List τ) : Agenda τ := tasks.foldl wake a

/-- Takes an alarm of a task back. -/
def unset (a : Agenda τ) (task : τ) (purpose : Purpose) : Agenda τ :=
  { a with alarms := a.alarms.filter fun x => ¬(x.task = task ∧ x.purpose = purpose) }

/-- Sets an alarm, in place of an earlier one of that task and purpose. -/
def set (a : Agenda τ) (task : τ) (purpose : Purpose) (till : Instant) : Agenda τ :=
  let a := a.unset task purpose
  { a with alarms := a.alarms ++ [⟨wholeMillis till, task, purpose⟩] }

/-- Forgets a task. -/
def forget (a : Agenda τ) (task : τ) : Agenda τ :=
  { a with alarms := a.alarms.filter (·.task ≠ task), ready := a.ready.filter (· ≠ task) }

/-- When the next alarm goes off. -/
def next? (a : Agenda τ) : Option Instant := (a.alarms.map Alarm.due).min?

/-- Moves the clock forward to `due`, and wakes the tasks whose alarms go off by then. -/
def ring (a : Agenda τ) (due : Instant) : Agenda τ :=
  let (off, left) := a.alarms.partition (·.due ≤ due)
  { a with now := max a.now due, alarms := left }.wakeAll (off.map Alarm.task)

/-- The next task that can go on. -/
def pop? (a : Agenda τ) : Option (τ × Agenda τ) :=
  match a.ready with
  | [] => none
  | task :: rest => some (task, { a with ready := rest })

end Agenda

end ChatApi
