import ChatApi.Time.Span

/-!
# When to send again

A limited request is always sent again once its limit resets. Server errors and network failures
are tried again a bounded number of times, with a wait that doubles up to a cap and has a random
offset on top.
-/

namespace ChatApi.Client

/-- How one attempt ended. -/
inductive Outcome
  | success
  | clientError
  | rateLimited (retryAfter : Span) (isGlobal : Bool)
  | serverError
  | networkFailure
  deriving DecidableEq, Repr, Inhabited

/-- What to do after an attempt. -/
inductive Decision
  | done
  | retry (delay : Span)
  | fail
  deriving DecidableEq, Repr, Inhabited

structure RetryPolicy where
  /-- Retries allowed after server errors and network failures. -/
  maxRetries : Nat
  /-- The wait before the first of them. -/
  baseDelay : Span
  /-- The longest wait, before the random offset. -/
  maxDelay : Span
  deriving DecidableEq, Repr, Inhabited

/-- Random draws that are still to be made. -/
abbrev Draws := List Nat

/-- A draw of at most `most`; nothing is drawn when that is zero. -/
def Draws.take (draws : Draws) (most : Nat) : Nat × Draws :=
  if most = 0 then (0, draws)
  else match draws with
    | [] => (0, [])
    | d :: rest => (min d most, rest)

namespace RetryPolicy

def standard : RetryPolicy := ⟨3, Span.ofMillis 500, Span.ofMillis 8000⟩

/-- The standard waits, but no retry after a server error or network failure. -/
def never : RetryPolicy := { standard with maxRetries := 0 }

/-- Two to the `n`, at most the greatest number of 32 bits. -/
def doublings (n : Nat) : Nat := if n < 32 then Nat.pow 2 n else UInt32.size - 1

/-- The wait before retry `n`, without the offset. -/
def cappedDelay (p : RetryPolicy) (n : Nat) : Span := min (p.baseDelay * doublings n) p.maxDelay

/-- The greatest offset in milliseconds: a quarter of the first wait, of which 64 bits count. -/
def maxOffset (p : RetryPolicy) : Nat := p.baseDelay / 1000000 / 4 % UInt64.size

/-- The wait before retry `n`, and the draws left after its offset. -/
def backoff (p : RetryPolicy) (n : Nat) (draws : Draws) : Span × Draws :=
  let (offset, rest) := draws.take p.maxOffset
  (p.cappedDelay n + Span.ofMillis offset, rest)

/-- What to do after an attempt, when `failures` server errors and network failures were already
tried again. -/
def decide (p : RetryPolicy) (outcome : Outcome) (failures : Nat) (draws : Draws) :
    Decision × Draws :=
  match outcome with
  | .success => (.done, draws)
  | .clientError => (.fail, draws)
  | .rateLimited retryAfter _ => (.retry retryAfter, draws)
  | .serverError | .networkFailure =>
    if failures ≥ p.maxRetries then (.fail, draws)
    else
      let (delay, rest) := p.backoff failures draws
      (.retry delay, rest)

end RetryPolicy

end ChatApi.Client
