import ChatApi.Json.Codec
import ChatApi.Limit.Report

/-!
# The body of a refused request

A request over a limit is answered with a JSON object that says how long to wait.
-/

namespace ChatApi.Limit

structure Refusal where
  message : String
  /-- The seconds to wait, as they were sent. -/
  retryAfter : Float
  /-- Whether the limit of the whole account was hit. -/
  isGlobal : Bool
  deriving Inhabited

namespace Refusal

open Json (Field Fields Codec) in
def record : Json.Record Refusal [String, Float, Bool] where
  name := "RateLimitedBody"
  fields :=
    .cons (.default "message" Codec.text "") <|
    .cons (.required "retry_after" Codec.float) <|
    .cons (.default "global" Codec.flag false) .nil
  build | (a, b, c, ()) => ⟨a, b, c⟩
  parts r := (r.message, r.retryAfter, r.isGlobal, ())

/-- The refusal in the body of a response, if it has the shape of one. -/
def ofBody? (body : ByteArray) : Option Refusal := (record.codec.readText body).toOption

/-- How long to wait, unless that is negative or absurdly long. -/
def wait? (r : Refusal) : Option Span := readWait? r.retryAfter

end Refusal

end ChatApi.Limit
