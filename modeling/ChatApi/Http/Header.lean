import ChatApi.Http.Method

/-!
# Header fields

Names are kept in lower case. A message may carry a name more than once; reading takes the first.
-/

namespace ChatApi.Http

structure Header where
  name : String
  value : String
  deriving DecidableEq, Repr, Inhabited

/-- What a header value may hold: anything but control characters other than the tab. -/
def isValueChar (c : Char) : Bool := c = '\t' || (c.toNat ≥ 32 && c.toNat ≠ 127)

def isHeaderValue (value : String) : Bool := value.toList.all isValueChar

/-- The characters of a value that can be read as text. -/
def isVisible (c : Char) : Bool := c = '\t' || (32 ≤ c.toNat && c.toNat < 127)

abbrev Headers := List Header

/-- What can be wrong with a field. -/
inductive HeaderFault
  | badName
  | badValue
  deriving DecidableEq, Repr, Inhabited

def HeaderFault.reason : HeaderFault → String
  | .badName => "invalid HTTP header name"
  | .badValue => "failed to parse header value"

namespace Header

/-- A field with this name and value, if they can be sent. -/
def make (name value : String) : Except HeaderFault Header :=
  if name = "" || !name.toList.all isTokenChar then .error .badName
  else if !isHeaderValue value then .error .badValue
  else .ok ⟨name.map Char.toLower, value⟩

/-- Fields are listed by name, then by value. -/
def le (a b : Header) : Bool :=
  decide (a.name < b.name) || (a.name == b.name && decide (a.value ≤ b.value))

end Header

namespace Headers

/-- The first value under `name`. -/
def get? (hs : Headers) (name : String) : Option String :=
  (hs.find? (·.name == name)).map Header.value

/-- The first value under `name`, if it is visible text. -/
def text? (hs : Headers) (name : String) : Option String :=
  (get? hs name).filter fun v => v.toList.all isVisible

/-- The fields with every value under `name` replaced by `value`. -/
def set (hs : Headers) (name value : String) : Headers :=
  hs.filter (·.name != name) ++ [⟨name, value⟩]

def sorted (hs : Headers) : Headers := hs.mergeSort Header.le

end Headers

end ChatApi.Http
