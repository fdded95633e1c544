import ChatApi.Client.Error
import ChatApi.Client.Outcome

/-!
# How a call gets on

A call makes attempts until one settles it. `Progress.after` says what follows from the end of an
attempt: the result of the call, or another attempt after a wait.
-/

namespace ChatApi.Client

/-- How an attempt ended. -/
inductive AttemptEnd
  | noResponse
  /-- A response came. For one that was refused over a limit, how long to wait, and whether the
  limit of the account was hit. -/
  | response (r : Http.Response) (limited : Option (Span × Bool))
  deriving Inhabited

/-- How the end of an attempt counts. -/
def AttemptEnd.outcome : AttemptEnd → Outcome
  | noResponse => .networkFailure
  | response r limited => .ofResponse r.status limited

/-- What a call has behind it. -/
structure Progress where
  /-- Attempts made. -/
  attempts : Nat := 0
  /-- Server errors and network failures that were tried again. -/
  failures : Nat := 0
  deriving DecidableEq, Repr, Inhabited

/-- What follows from the end of an attempt. -/
inductive Verdict
  | finished (result : Except ApiError Http.Response)
  | again (delay : Span) (progress : Progress)
  deriving Inhabited

namespace Progress

/-- One attempt more. -/
def attempt (p : Progress) : Progress := { p with attempts := p.attempts + 1 }

/-- The progress of a call that is tried again after an outcome. -/
def retried (p : Progress) : Outcome → Progress
  | .serverError | .networkFailure => { p with failures := p.failures + 1 }
  | _ => p

/-- The error of a call on `route` that is not tried again. -/
def failure (p : Progress) (route : String) : AttemptEnd → ApiError
  | .noResponse => .transport route p.attempts
  | .response r limited =>
    match Outcome.ofResponse r.status limited with
    | .serverError => .serverError r.status route p.attempts
    | _ => .ofResponse route r

/-- What follows from the end of an attempt on `route`, which is counted already. -/
def after (p : Progress) (policy : RetryPolicy) (route : String) (e : AttemptEnd) (draws : Draws) :
    Verdict × Draws :=
  let (decision, draws) := policy.decide e.outcome p.failures draws
  let verdict := match decision, e with
    | .retry delay, _ => .again delay (p.retried e.outcome)
    | .done, .response r _ => .finished (.ok r)
    | .done, .noResponse | .fail, _ => .finished (.error (p.failure route e))
  (verdict, draws)

end Progress

end ChatApi.Client
