import ChatApi.Limit.Report

/-!
# The budget of a bucket

A bucket allows a number of requests in each window. How many are left is known from responses and
counted down in between. Where nothing is known of the current window, one request goes ahead as a
*probe* and the others wait for what its response says.

Within a live window the budget only shrinks: `Window.record` takes the smaller of what is known
and what is reported, since responses may come in out of order.
-/

namespace ChatApi.Limit

/-- What is known of a bucket. -/
inductive Phase
  /-- Nothing of the current window yet. -/
  | fresh
  /-- How many requests are left. -/
  | tracking
  /-- That no request is left before the window ends. -/
  | exhausted
  /-- That its responses say nothing about limits. -/
  | untracked
  deriving DecidableEq, Repr, Inhabited

structure Window where
  phase : Phase := .fresh
  /-- Requests allowed in a window, once known. -/
  limit : Option Nat := none
  /-- Requests left in the current window. -/
  remaining : Nat := 0
  /-- When the current window ends. -/
  resetAt : Option Instant := none
  /-- The name that the service has for the bucket. -/
  hash : Option String := none
  deriving DecidableEq, Repr, Inhabited

/-- What a request for a slot is told. -/
inductive Slot
  | proceed (isProbe : Bool)
  | wait (till : Instant)
  deriving DecidableEq, Repr, Inhabited

namespace Window

/-- Whether the bucket has a window of which something is known. -/
def isKnown (w : Window) : Bool := w.phase = .tracking || w.phase = .exhausted

/-- Whether the known window has ended. One without an end is over once it is used up. -/
def isOver (w : Window) (now : Instant) : Bool :=
  match w.resetAt with
  | some resetAt => resetAt ≤ now
  | none => w.remaining = 0

/-- The window after one request of it was used. -/
def spend (w : Window) : Window :=
  let left := w.remaining - 1
  { w with remaining := left, phase := if left = 0 then .exhausted else w.phase }

/-- Takes a slot if there is one. -/
def reserve (w : Window) (now : Instant) : Window × Slot :=
  match w.phase with
  | .fresh => (w, .proceed true)
  | .untracked => (w, .proceed false)
  | .tracking | .exhausted =>
    if w.isOver now then ({ w with phase := .fresh, resetAt := none }, .proceed true)
    else match w.remaining, w.resetAt with
      | 0, some resetAt => ({ w with phase := .exhausted }, .wait resetAt)
      | _, _ => (w.spend, .proceed false)

/-- Whether the window is known to go on after `now`. -/
def isLive (w : Window) (now : Instant) : Bool := w.isKnown && w.resetAt.any (now < ·)

/-- Takes over what a response says. -/
def record (w : Window) (now : Instant) (r : Report) : Window :=
  let hash := r.bucket.or w.hash
  if !r.isTracked then
    { w with hash, phase := if w.phase = .fresh then .untracked else w.phase }
  else
    let limit := r.limit.or w.limit
    let reported := r.remaining.getD (limit.getD 1 - 1)
    let remaining := if w.isLive now then min w.remaining reported else reported
    { phase := if remaining = 0 then .exhausted else .tracking
      limit, remaining, hash
      resetAt := (r.resetAt now).or w.resetAt }

/-- Closes the window for a while. -/
def exhaust (w : Window) (now : Instant) (wait : Span) : Window :=
  { w with phase := .exhausted, remaining := 0, resetAt := some (now + wait) }

/-- What is written into a window. -/
inductive Change
  /-- What a response says. -/
  | record (r : Report)
  /-- That no request is left for a while. -/
  | exhaust (wait : Span)
  deriving DecidableEq, Inhabited

def change (w : Window) (now : Instant) : Change → Window
  | .record r => w.record now r
  | .exhaust wait => w.exhaust now wait

/-- The window as it is shown: one that has ended is no longer exhausted. -/
def view (w : Window) (now : Instant) : Window :=
  if w.phase = .exhausted ∧ !w.resetAt.any (now < ·) then { w with phase := .tracking } else w

end Window

end ChatApi.Limit
