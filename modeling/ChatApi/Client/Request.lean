import ChatApi.Client.Error
import ChatApi.Http.Multipart
import ChatApi.Http.Url
import ChatApi.Limit.Scope
import ChatApi.Text.Base64
import ChatApi.Time.Span

/-!
# Requests

A request is put together once and sent as often as it takes. It names the route that it is limited
by and the path that it goes to. `Request.outgoing?` gives what one attempt sends.
-/

namespace ChatApi.Client

/-- A file to send along. -/
structure Upload where
  fileName : String
  contentType : Option String
  data : ByteArray
  deriving Inhabited

/-- What a request carries. -/
inductive Body
  | empty
  | json (payload : Json)
  | multipart (payload : Option Json) (files : List Upload)
  deriving Inhabited

structure Request where
  method : Http.Method
  /-- The template that the request is limited by. -/
  route : String
  /-- Where it is sent, below the address of the service. -/
  path : String
  query : List (String × String) := []
  body : Body := .empty
  headers : Http.Headers := []
  scope : Limit.Scope := .all
  /-- How long the caller waits, all waits and retries included. -/
  timeout : Option Span := none
  deriving Inhabited

/-- The field with the reason that is shown in the audit log. -/
def reasonHeader : String := "x-audit-log-reason"

namespace Request

def get (route path : String) : Request := { method := .get, route, path }

def withQuery (r : Request) (name value : String) : Request :=
  { r with query := r.query ++ [(name, value)] }

/-- Sets the payload. With files it becomes a part of its own. -/
def withJson (r : Request) (payload : Json) : Request :=
  { r with body := match r.body with
    | .multipart _ files => .multipart (some payload) files
    | _ => .json payload }

/-- Adds files. No files leave the body as it is. -/
def withFiles (r : Request) (files : List Upload) : Request :=
  if files.isEmpty then r
  else { r with body := match r.body with
    | .empty => .multipart none files
    | .json payload => .multipart (some payload) files
    | .multipart payload before => .multipart payload (before ++ files) }

def withHeader (r : Request) (h : Http.Header) : Request :=
  { r with headers := r.headers.set h.name h.value }

/-- Sets the reason for the audit log. The text is sent as it is. -/
def withReason (r : Request) (reason : String) : Except ApiError Request :=
  if Http.isHeaderValue reason then .ok (r.withHeader ⟨reasonHeader, reason⟩)
  else .error (.invalidArgument "audit log reason contains control characters")

def withReason? (r : Request) : Option String → Except ApiError Request
  | some reason => r.withReason reason
  | none => .ok r

/-- Takes the request out of the limit of the account. -/
def exemptFromGlobal (r : Request) : Request :=
  if r.scope = .all then { r with scope := .routeOnly } else r

/-- Takes the request out of every limit. -/
def exemptFromAll (r : Request) : Request := { r with scope := .exempt }

def withTimeout (r : Request) (timeout : Span) : Request := { r with timeout := some timeout }

end Request

/-- What an attempt sends. -/
structure Outgoing where
  method : Http.Method
  url : Http.Url
  headers : Http.Headers
  body : Option ByteArray

/-- A body in the form in which it is sent, and the media type that goes with it. -/
inductive Content
  | empty
  | json (text : String)
  | form (parts : List Http.Part)

namespace Upload

/-- The part of a form that holds file number `n`, if its media type is one. -/
def part? (u : Upload) (n : Nat) : Option Http.Part :=
  let name := "files[" ++ toString n ++ "]"
  match u.contentType with
  | none => some ⟨name, some u.fileName, none, u.data⟩
  | some t => (Http.mediaType? t).map fun t => ⟨name, some u.fileName, some t, u.data⟩

end Upload

namespace Body

/-- The parts of the files, the first of them being number `n`. -/
def fileParts? : (n : Nat) → List Upload → Option (List Http.Part)
  | _, [] => some []
  | n, u :: rest => do return (← u.part? n) :: (← fileParts? (n + 1) rest)

/-- The part that holds the payload. -/
def payloadPart (payload : Json) : Http.Part :=
  ⟨"payload_json", none, some "application/json", payload.write.toUTF8⟩

/-- The body in the form in which it is sent, unless the media type of a file is none. -/
def content? : Body → Option Content
  | .empty => some .empty
  | .json payload => some (.json payload.write)
  | .multipart payload files => do
    return .form ((payload.map payloadPart).toList ++ (← fileParts? 0 files))

end Body

namespace Request

/-- What a user and a password are presented as. -/
def basicAuthorization (user : String) (password : Option String) : String :=
  "Basic " ++ String.ofList (Text.Base64.encode (user ++ ":" ++ password.getD "").toUTF8.toList)

/-- The header fields of an attempt, `credentials` being those that its address and the token make
up. Fields of the request take their place, a payload has its media type unless the request names
another, and a form adds its own. -/
def outgoingHeaders (r : Request) (boundary : String) (credentials : Http.Headers)
    (content : Content) : Http.Headers :=
  let named := r.headers.any (·.name == "authorization")
  let base := if named then r.headers else credentials ++ r.headers
  match content with
  | .empty => base
  | .json _ =>
    if base.any (·.name == "content-type") then base
    else base ++ [⟨"content-type", "application/json"⟩]
  | .form _ => base ++ [⟨"content-type", "multipart/form-data; boundary=" ++ boundary⟩]

/-- What an attempt sends, unless its address or the token is unusable. -/
def outgoing? (r : Request) (boundary apiBase token : String) (content : Content) :
    Option Outgoing := do
  let path := String.ofList (r.path.toList.dropWhile (· = '/'))
  let (user, url) := (← Http.Url.parse? (apiBase ++ "/" ++ path)).takeUser
  if !Http.isHeaderValue token then none
  else
    let basic := (user.map fun u => ⟨"authorization", basicAuthorization u.1 u.2⟩).toList
    return {
      method := r.method
      url := url.addPairs r.query
      headers := r.outgoingHeaders boundary (basic ++ [⟨"authorization", token⟩]) content
      body := match content with
        | .empty => none
        | .json text => some text.toUTF8
        | .form parts => some (Http.multipart boundary parts) }

end Request

end ChatApi.Client
