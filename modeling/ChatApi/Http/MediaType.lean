import ChatApi.Http.Method

/-!
# Media types

A media type is `type/subtype` with parameters behind semicolons. It is written in lower case,
values of parameters apart; the value of `charset` is written in lower case too.
-/

namespace ChatApi.Http

/-- What may stand between quotes in a parameter. -/
def isQuotable (c : Char) : Bool := c.toNat > 31 && c.toNat ≠ 127

def lower (cs : List Char) : List Char := cs.map Char.toLower

/-- The value of a parameter as it is written, and what is behind it and its blanks. -/
def readParameterValue? (cs : List Char) : Option (List Char × List Char) :=
  match cs with
  | '"' :: inner =>
    let value := inner.takeWhile fun c => isQuotable c && c ≠ '"'
    match value, inner.drop value.length with
    | _ :: _, '"' :: rest => some ('"' :: value ++ ['"'], rest)
    | _, _ => none
  | cs => some (cs.takeWhile isTokenChar, cs.dropWhile isTokenChar)

/-- The parameters behind a semicolon in normal form. -/
def readParameters? : (fuel : Nat) → List Char → Option (List Char)
  | _, [] => some []
  | 0, _ => none
  | fuel + 1, ' ' :: cs => (readParameters? fuel cs).map (' ' :: ·)
  | fuel + 1, cs => do
    let name := cs.takeWhile isTokenChar
    match name, cs.drop name.length with
    | _ :: _, '=' :: rest =>
      let (value, rest) ← readParameterValue? rest
      let quoted := value.head? == some '"'
      let blanks := if quoted then rest.takeWhile (· = ' ') else []
      let value' := if lower name = "charset".toList then lower value else value
      let shown := lower name ++ '=' :: value'
      match rest.drop blanks.length with
      | [] => some (shown ++ blanks)
      | ';' :: more =>
        if value.isEmpty then none
        else (readParameters? fuel more).map fun tail => shown ++ blanks ++ ';' :: tail
      | _ => none
    | _, _ => none

/-- A media type in normal form, if it is one. -/
def mediaType? (s : String) : Option String :=
  let cs := s.toList
  let main := cs.takeWhile isTokenChar
  match main, cs.drop main.length with
  | _ :: _, '/' :: rest =>
    let sub := rest.takeWhile isTokenChar
    let head := lower main ++ '/' :: lower sub
    match rest.drop sub.length with
    | [] => some (String.ofList head)
    | ';' :: more =>
      if sub.isEmpty then none
      else if more.all (· = ' ') then some (String.ofList head)
      else (readParameters? (more.length + 1) more).map fun tail =>
        String.ofList (head ++ ';' :: tail)
    | _ => none
  | _, _ => none

end ChatApi.Http
