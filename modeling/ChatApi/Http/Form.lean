import ChatApi.Http.Percent

/-!
# Forms

Pairs of names and values as one text: a blank becomes a plus sign, and all but letters, digits and
a few marks is percent-encoded.
-/

namespace ChatApi.Http

/-- What stands for itself in a form. -/
def isBareInForm (c : Char) : Bool := c.isAlphanum || "*-._".toList.contains c

/-- A name or a value of a form. -/
def formEncode (cs : List Char) : List Char :=
  cs.flatMap fun c => if c = ' ' then ['+'] else percentChar (fun c => !isBareInForm c) c

/-- The pairs of a form as one text. -/
def formText (pairs : List (String × String)) : String :=
  "&".intercalate (pairs.map fun p =>
    String.ofList (formEncode p.1.toList ++ '=' :: formEncode p.2.toList))

end ChatApi.Http
