import ChatApi.Client.Error
import ChatApi.Client.Retry
import ChatApi.Text.Blank

/-!
# Settings and login
-/

namespace ChatApi.Client

/-- Where the interface of the service is found. -/
def defaultApiBase : String := "https://discord.com/api/v10"

/-- How the client introduces itself. -/
def defaultUserAgent : String := "DiscordBot (https://github.com/spiceswag/discord-tokio, 0.9.0)"

structure Config where
  apiBase : String := defaultApiBase
  userAgent : String := defaultUserAgent
  /-- How long one attempt may take. Whoever sends a request holds it to that: an attempt that takes longer has no
  response. -/
  attemptTimeout : Span := 30 * Span.second
  /-- Requests per second of the whole account; zero stands for any number. -/
  globalLimit : Nat := 50
  retry : RetryPolicy := .standard
  deriving DecidableEq, Repr, Inhabited

/-- The settings with another place to send requests to; slashes at its end are dropped. -/
def Config.withApiBase (c : Config) (apiBase : String) : Config :=
  { c with apiBase := String.ofList (Text.dropRight (· == '/') apiBase.toList) }

/-- What every request of a client needs. -/
structure Account where
  apiBase : String
  /-- What the client presents, as it is sent. -/
  token : String
  globalLimit : Nat
  retry : RetryPolicy
  deriving DecidableEq, Repr, Inhabited

/-- Logs in with the token of a bot. -/
def Config.logIn (c : Config) (token : String) : Except ApiError Account :=
  let token := "Bot " ++ Text.trim token
  if !Http.isHeaderValue token then
    .error (.invalidArgument "token is not a valid header value")
  else if !Http.isHeaderValue c.userAgent then .error .unsendable
  else .ok ⟨c.apiBase, token, c.globalLimit, c.retry⟩

end ChatApi.Client
