/-!
# Request methods

A method is a non-empty token: letters, digits and a few marks, and so never a blank or a slash.
-/

namespace ChatApi.Http

/-- The characters of a token. -/
def isTokenChar (c : Char) : Bool :=
  c.isAlphanum || "!#$%&\x27*+-.^_\x60|~".toList.contains c

/-- The name of a request method, `GET` and the like. Case matters. -/
structure Method where
  name : String
  name_ne : name ≠ ""
  name_token : name.toList.all isTokenChar = true

namespace Method

/-- The method called `name`, if that is a token. -/
def ofName? (name : String) : Option Method :=
  if h : name ≠ "" ∧ name.toList.all isTokenChar = true then
    some ⟨name, h.1, h.2⟩
  else none

theorem ext_name {a b : Method} (h : a.name = b.name) : a = b := by
  cases a; cases b; cases h; rfl

instance : DecidableEq Method := fun a b =>
  if h : a.name = b.name then isTrue (ext_name h) else isFalse fun e => h (congrArg name e)

def get : Method := ⟨"GET", by decide, by decide⟩
def post : Method := ⟨"POST", by decide, by decide⟩
def put : Method := ⟨"PUT", by decide, by decide⟩
def delete : Method := ⟨"DELETE", by decide, by decide⟩

instance : Inhabited Method := ⟨get⟩

/-- A method holds no blank, so the first blank after it ends it. -/
theorem blank_notMem (m : Method) : ' ' ∉ m.name.toList := by
  intro h
  have := List.all_eq_true.1 m.name_token _ h
  revert this
  decide

end Method

end ChatApi.Http
