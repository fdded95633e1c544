import ChatApi.Client.Retry
import ChatApi.Http.Response

/-!
# How a response counts
-/

namespace ChatApi.Client

/-- The outcome that a status alone tells. -/
def Outcome.ofStatus (status : Http.Status) : Outcome :=
  if status.isSuccess then .success
  else if status.isServerError then .serverError
  else .clientError

/-- The outcome of an attempt that got a response. How long to wait after the status for too many
requests, and whether the limit of the account was hit, comes from the limits that saw the
response. -/
def Outcome.ofResponse (status : Http.Status) : (limited : Option (Span × Bool)) → Outcome
  | some (retryAfter, isGlobal) =>
    if status = .tooManyRequests then .rateLimited retryAfter isGlobal else .ofStatus status
  | none => .ofStatus status

end ChatApi.Client
