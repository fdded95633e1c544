import ChatApi.Http.Response
import ChatApi.Json.Codec
import ChatApi.Limit.Route

/-!
# What can go wrong with a call

Rate limits are waited out and never show up here. What reaches the caller is a request that the
service refused, a service that stayed unavailable, or a mistake in how the request was made.
-/

namespace ChatApi.Client

inductive ApiError
  /-- The service refused the request; the body if it was JSON. -/
  | refused (status : Http.Status) (route : String) (body : Option Json)
  /-- The service failed until the retries ran out. -/
  | serverError (status : Http.Status) (route : String) (attempts : Nat)
  /-- The service could not be reached until the retries ran out. -/
  | transport (route : String) (attempts : Nat)
  | badRoute (e : Limit.RouteError)
  /-- An argument outside of the range that the service accepts. -/
  | invalidArgument (reason : String)
  | cancelled
  | timedOut
  /-- The request cannot be put into the form in which it is sent. -/
  | unsendable
  /-- The response does not hold what it should. -/
  | undecodable (e : Json.DecodeError)
  /-- The response holds what it should not. -/
  | protocol (reason : String)
  deriving Inhabited

namespace ApiError

/-- The error for a refused response. -/
def ofResponse (route : String) (r : Http.Response) : ApiError :=
  .refused r.status route (Json.ofText r.body).toOption

/-- What a body says of the refusal. -/
def describeBody : Option Json → String
  | none => "no body"
  | some body =>
    match (body.get? "message").bind Json.asText? with
    | some message => message
    | none => body.write

/-- The text of an error, where it is made up here and not by those who send or decode. -/
def message? : ApiError → Option String
  | .refused status route body =>
    some (route ++ " failed with " ++ status.text ++ ": " ++ describeBody body)
  | .serverError status route attempts =>
    some (route ++ " failed with " ++ status.text ++ " after " ++ toString attempts ++ " attempts")
  | .badRoute e => some e.message
  | .invalidArgument reason => some ("invalid argument: " ++ reason)
  | .cancelled => some "request cancelled"
  | .timedOut => some "request timed out"
  | .protocol reason => some reason
  | .undecodable (.mismatch m) => some m.message
  | .undecodable (.grammar _) | .transport _ _ | .unsendable => none

/-- The status of the response that the error comes from. -/
def status? : ApiError → Option Http.Status
  | .refused status _ _ | .serverError status _ _ => some status
  | _ => none

/-- The number that the service has for the error. -/
def code? : ApiError → Option Nat
  | .refused _ _ (some body) => (body.get? "code").bind Json.asNat?
  | _ => none

/-- Whether the service was unavailable, as opposed to the request being wrong. -/
def isTransient : ApiError → Bool
  | .serverError _ _ _ | .transport _ _ | .timedOut => true
  | _ => false

/-- Whether the service refused the request itself. -/
def isClientError : ApiError → Bool
  | .refused _ _ _ => true
  | _ => false

def isNotFound (e : ApiError) : Bool := e.status? == some .notFound

def isForbidden (e : ApiError) : Bool := e.status? == some .forbidden

end ApiError

end ChatApi.Client
