import ChatApi.Http.Method
import ChatApi.Text.Blank
import ChatApi.Text.Pieces

/-!
# Routes and the keys they are limited by

A route template has its *major parameters* filled in (the segment after `channels`, `guilds`,
`webhooks` or `interactions`) and every other parameter left as a `:placeholder`. Requests with
one method and one template spend one budget. `RouteKey.resolve` reads a template or says what is
wrong with it; `RouteKey.majors` gives the major parameters back.
-/

namespace ChatApi.Limit

/-- The segments that a major parameter follows. -/
def majorNouns : List String := ["channels", "guilds", "webhooks", "interactions"]

/-- The segments of a template, which slashes separate. -/
def segments (template : String) : List String :=
  (Text.splitAt '/' template.toList).map String.ofList

/-- What can be wrong with a route template. -/
inductive RouteFault
  | query
  | empty
  | emptySegment
  | badPlaceholder
  | majorPlaceholder
  | minorValue
  deriving DecidableEq, Repr, Inhabited

/-- A template that was refused, and why. -/
structure RouteError where
  route : String
  fault : RouteFault
  deriving DecidableEq, Repr, Inhabited

def RouteFault.reason : RouteFault → String
  | .query => "query strings belong in the url"
  | .empty => "empty route template"
  | .emptySegment => "empty path segment"
  | .badPlaceholder => "malformed placeholder"
  | .majorPlaceholder => "major parameters must be substituted, not left as placeholders"
  | .minorValue => "minor parameters must be left as placeholders"

def RouteError.message (e : RouteError) : String :=
  "invalid route template \x60" ++ e.route ++ "\x60: " ++ e.fault.reason

/-- What requests are limited by: the method and the template without its outer slashes. -/
structure RouteKey where
  method : Http.Method
  template : String
  deriving DecidableEq, Inhabited

/-- The letters a placeholder's name is made of. -/
def isNameChar (c : Char) : Bool := ('a' ≤ c && c ≤ 'z') || c == '_'

/-- The first fault of a segment that comes after `previous`. -/
def segmentFault? (previous : Option String) (segment : String) : Option RouteFault :=
  let afterMajor := previous.any majorNouns.contains
  match segment.toList with
  | [] => some .emptySegment
  | ':' :: name =>
    if name.isEmpty || !name.all isNameChar then some .badPlaceholder
    else if afterMajor then some .majorPlaceholder
    else none
  | cs => if cs.all Char.isDigit && !afterMajor then some .minorValue else none

/-- The first fault of the segments that come after `previous`, from left to right. -/
def segmentsFault? : (previous : Option String) → List String → Option RouteFault
  | _, [] => none
  | previous, s :: rest => (segmentFault? previous s).or (segmentsFault? (some s) rest)

/-- A template without the slashes around it. -/
def trimSlashes (route : String) : String :=
  String.ofList (Text.dropAround (· == '/') route.toList)

namespace RouteKey

/-- The key of the requests made with `method` on `route`. -/
def resolve (method : Http.Method) (route : String) : Except RouteError RouteKey :=
  if route.toList.contains '?' then .error ⟨route, .query⟩
  else
    let template := trimSlashes route
    if template = "" then .error ⟨route, .empty⟩
    else match segmentsFault? none (segments template) with
      | some fault => .error ⟨route, fault⟩
      | none => .ok ⟨method, template⟩

/-- The key as it is shown. -/
def text (k : RouteKey) : String := k.method.name ++ " " ++ k.template

/-- Each major noun together with the segment that follows it; that segment is a value, and is not
looked at as a noun again. -/
def majorPairs : List String → List (String × String)
  | noun :: value :: rest =>
    if majorNouns.contains noun then (noun, value) :: majorPairs rest
    else majorPairs (value :: rest)
  | _ => []

/-- The major parameters with their nouns, such as `channels/10`; empty if there are none. -/
def majors (k : RouteKey) : String :=
  "/".intercalate ((majorPairs (segments k.template)).map fun p => p.1 ++ "/" ++ p.2)

/-- Keys are listed in the order of their texts. -/
def le (a b : RouteKey) : Bool := decide (a.text ≤ b.text)

/-- The keys of a list of requests in order and without repeats, or the first refusal. -/
def resolveAll (requests : List (Http.Method × String)) : Except RouteError (List RouteKey) := do
  let keys ← requests.mapM fun r => resolve r.1 r.2
  return (keys.mergeSort le).eraseDups

end RouteKey

end ChatApi.Limit
