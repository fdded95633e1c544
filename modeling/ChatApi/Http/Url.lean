import ChatApi.Http.Form
import ChatApi.Http.Host

/-!
# Addresses of requests

`Url.parse?` reads an address with a host and brings it into its normal form: the scheme and the
host in lower case, the usual port left out, dot segments resolved, and characters that cannot
stand in an address percent-encoded. What is percent-encoded already stays as it is.
-/

namespace ChatApi.Http

structure Url where
  scheme : String
  /-- The name of a user and a password, percent-encoded. -/
  user : String
  password : Option String
  host : String
  port : Option Nat
  /-- The segments of the path, each behind a slash. -/
  path : List String
  query : Option String
  fragment : Option String
  deriving DecidableEq, Repr, Inhabited

/-- The schemes of the web and their usual ports. -/
def webSchemes : List (String × Nat) :=
  [("http", 80), ("https", 443), ("ws", 80), ("wss", 443), ("ftp", 21)]

/-- A segment that stands for the one it is in. -/
def isSingleDot (segment : List Char) : Bool :=
  let s := segment.map Char.toLower
  s == ['.'] || s == "%2e".toList

/-- A segment that stands for the one above. -/
def isDoubleDot (segment : List Char) : Bool :=
  let s := segment.map Char.toLower
  ["..", ".%2e", "%2e.", "%2e%2e"].any fun t => s == t.toList

/-- The path that segments lead to, `done` of it being walked already, the last segment first. A
dot segment at the end leaves an empty one. -/
def walk (done : List (List Char)) : List (List Char) → List (List Char)
  | [] => done.reverse
  | [s] =>
    if isDoubleDot s then (([] : List Char) :: done.tail).reverse
    else if isSingleDot s then (([] : List Char) :: done).reverse
    else (s :: done).reverse
  | s :: rest =>
    if isDoubleDot s then walk done.tail rest
    else if isSingleDot s then walk done rest
    else walk (s :: done) rest

namespace Url

/-- A scheme in lower case and what is behind its colon. -/
def readScheme? (cs : List Char) : Option (String × List Char) :=
  let name := cs.takeWhile fun c => c.isAlphanum || c = '+' || c = '-' || c = '.'
  match name, cs.drop name.length with
  | first :: _, ':' :: rest =>
    if first.isAlpha then some (String.ofList (name.map Char.toLower), rest) else none
  | _, _ => none

/-- What comes before the last character `sep` and what after it, if there is one. -/
def atLast? (sep : Char) (cs : List Char) : Option (List Char × List Char) :=
  if cs.contains sep then
    let after := (cs.reverse.takeWhile (· ≠ sep)).reverse
    some (cs.take (cs.length - after.length - 1), after)
  else none

/-- The name of a user and a password, percent-encoded. An empty password is none. -/
def readUser (cs : List Char) : String × Option String :=
  let name := cs.takeWhile (· ≠ ':')
  let secret := cs.drop (name.length + 1)
  let encode (s : List Char) : String := String.ofList (percentEncode inUserSet s)
  (encode name, if secret.isEmpty then none else some (encode secret))

/-- A host with the colon and the digits of its port. Colons in brackets belong to the host. -/
def splitPort (cs : List Char) : List Char × List Char :=
  let bracketed := if cs.head? = some '[' then cs.takeWhile (· ≠ ']') else []
  let host := bracketed ++ (cs.drop bracketed.length).takeWhile (· ≠ ':')
  (host, cs.drop (host.length + 1))

/-- A port, if one is given; the usual one counts as none. -/
def readPort? (usual : Option Nat) (cs : List Char) : Option (Option Nat) :=
  match cs with
  | [] => some none
  | ds =>
    if !ds.all Char.isDigit then none
    else
      let n := Text.digitsValue ds
      if n ≥ 65536 then none else some (if usual = some n then none else some n)

/-- Reads an address that has a host; there is none where it cannot be read. -/
def parse? (s : String) : Option Url := do
  let isEdge (c : Char) : Bool := c.toNat ≤ 32
  let cs := ((s.toList.dropWhile isEdge).reverse.dropWhile isEdge).reverse.filter fun c =>
    !(c = '\t' || c = '\n' || c = '\r')
  let (scheme, rest) ← readScheme? cs
  let usual := webSchemes.lookup scheme
  let isWeb := usual.isSome
  let isSlash (c : Char) : Bool := c = '/' || (isWeb && c = '\\')
  let rest ← if isWeb then some (rest.dropWhile isSlash) else
    match rest with
    | '/' :: '/' :: rest => if scheme = "file" then none else some rest
    | _ => none
  let inAuthority (c : Char) : Bool := !(isSlash c || c = '?' || c = '#')
  let authority := rest.takeWhile inAuthority
  let rest := rest.dropWhile inAuthority
  let (userInfo, place) := (atLast? '@' authority).getD ([], authority)
  let (name, digits) := splitPort place
  let host ← Host.read? isWeb name
  let port ← readPort? usual digits
  let inPath (c : Char) : Bool := !(c = '?' || c = '#')
  let path := (rest.takeWhile inPath).map fun c => if isSlash c then '/' else c
  let rest := rest.dropWhile inPath
  let segments :=
    if path.isEmpty && !isWeb then [] else walk [] (Text.splitAt '/' (path.drop 1))
  let (query, rest) := match rest with
    | '?' :: more => (some (more.takeWhile (· ≠ '#')), more.dropWhile (· ≠ '#'))
    | more => (none, more)
  return {
    scheme := scheme
    user := (readUser userInfo).1
    password := (readUser userInfo).2
    host := String.ofList host
    port := port
    path := segments.map fun s => String.ofList (percentEncode inPathSet s)
    query := query.map fun q => String.ofList (percentEncode (inQuerySet isWeb) q)
    fragment := match rest with
      | '#' :: more => some (String.ofList (percentEncode inFragmentSet more))
      | _ => none }

/-- The path with its slashes. -/
def pathText (u : Url) : String := "".intercalate (u.path.map ("/" ++ ·))

/-- The user and the password with the sign behind them. -/
def userText (u : Url) : String :=
  if u.user = "" ∧ u.password.isNone then ""
  else u.user ++ ((u.password.map (":" ++ ·)).getD "") ++ "@"

def text (u : Url) : String :=
  u.scheme ++ "://" ++ u.userText ++ u.host ++ ((u.port.map fun p => ":" ++ toString p).getD "") ++
    u.pathText ++ ((u.query.map ("?" ++ ·)).getD "") ++ ((u.fragment.map ("#" ++ ·)).getD "")

/-- The address with pairs added behind its query. -/
def addPairs (u : Url) (pairs : List (String × String)) : Url :=
  if pairs.isEmpty then u
  else
    let before := match u.query with
      | some q => if q = "" then "" else q ++ "&"
      | none => ""
    { u with query := some (before ++ formText pairs) }

/-- The text that percent-encoded octets spell. -/
def decodedText? (s : String) : Option String :=
  String.fromUTF8? ⟨(percentDecode s.toList).toArray⟩

/-- The user and the password of an address, and the address without them. -/
def takeUser (u : Url) : Option (String × Option String) × Url :=
  match decodedText? u.user with
  | none => (none, u)
  | some user =>
    let password := u.password.bind decodedText?
    if user = "" ∧ password.isNone then (none, u)
    else (some (user, password), { u with user := "", password := none })

end Url

end ChatApi.Http
