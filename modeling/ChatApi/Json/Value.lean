import ChatApi.Decimal.Shortest
import ChatApi.Json.Reader

/-!
# JSON values

A value read from a text has the members of its objects in the order of their keys, each key once.
`Json.write` gives the compact text of a value with its members as they are listed.
-/

namespace ChatApi

open Json (Number Doc Items Members Fault)

inductive Json
  | null
  | flag (b : Bool)
  | num (n : Json.Number)
  | text (s : String)
  | list (items : List Json)
  | record (members : List (String × Json))
  deriving Inhabited

namespace Json

/-- Doubles from `0.00001` up to sixteen digits are written with the point in place. -/
def floatLayout : Decimal.Layout := ⟨-5, 15⟩

def Number.write : Number → String
  | .integer n => toString n
  | .float x => floatLayout.write x

/-- A character inside a string. Only quotes, backslashes and control characters are escaped. -/
def escapeChar (c : Char) : List Char :=
  match c with
  | '"' => ['\\', '"']
  | '\\' => ['\\', '\\']
  | '\x08' => ['\\', 'b']
  | '\x0c' => ['\\', 'f']
  | '\n' => ['\\', 'n']
  | '\r' => ['\\', 'r']
  | '\t' => ['\\', 't']
  | c =>
    if c.toNat < 32 then
      ['\\', 'u', '0', '0', Text.lowerHexDigit (c.toNat / 16), Text.lowerHexDigit (c.toNat % 16)]
    else [c]

/-- A string with its quotes. -/
def writeText (s : String) : List Char := '"' :: s.toList.flatMap escapeChar ++ ['"']

mutual

/-- The compact text of a value. -/
def chars : Json → List Char
  | .null => "null".toList
  | .flag true => "true".toList
  | .flag false => "false".toList
  | .num n => n.write.toList
  | .text s => writeText s
  | .list [] => ['[', ']']
  | .list (item :: items) => '[' :: chars item ++ itemsChars items
  | .record [] => ['\x7b', '\x7d']
  | .record ((key, value) :: members) =>
    '\x7b' :: writeText key ++ ':' :: chars value ++ membersChars members

/-- The values of an array behind the first, and its end. -/
def itemsChars : List Json → List Char
  | [] => [']']
  | item :: items => ',' :: chars item ++ itemsChars items

/-- The members of an object behind the first, and its end. -/
def membersChars : List (String × Json) → List Char
  | [] => ['\x7d']
  | (key, value) :: members => ',' :: writeText key ++ ':' :: chars value ++ membersChars members

end

def write (j : Json) : String := String.ofList j.chars

/-- Puts a member in its place among members in order; an earlier one of that key gives way. -/
def insertMember (key : String) (value : Json) : List (String × Json) → List (String × Json)
  | [] => [(key, value)]
  | (k, v) :: rest =>
    if key < k then (key, value) :: (k, v) :: rest
    else if key = k then (key, value) :: rest
    else (k, v) :: insertMember key value rest

mutual

/-- The value of a document, nested at most `depth` deep. -/
def ofDoc : (depth : Nat) → Doc → Except Fault Json
  | _, .null => .ok .null
  | _, .flag b => .ok (.flag b)
  | _, .num (some n) => .ok (.num n)
  | _, .text (some s) => .ok (.text s)
  | depth + 1, .list items => do return .list (← ofItems depth items)
  | depth + 1, .record members => do return .record (← ofMembers depth [] members)
  | _, .broken b => .error b.read
  | _, _ => .error .malformed

def ofItems : (depth : Nat) → Items → Except Fault (List Json)
  | _, .close => .ok []
  | _, .broken f => .error f
  | depth, .item d rest => do
    let first ← ofDoc depth d
    return first :: (← ofItems depth rest)

/-- The members read after those in `seen`. -/
def ofMembers : (depth : Nat) → (seen : List (String × Json)) → Members →
    Except Fault (List (String × Json))
  | _, seen, .close => .ok seen
  | _, _, .broken b => .error b.read
  | _, _, .member none _ _ => .error .malformed
  | depth, seen, .member (some key) value rest => do
    let v ← ofDoc depth value
    ofMembers depth (insertMember key v seen) rest

end

/-- The value that a whole text spells. -/
def ofText (bytes : ByteArray) : Except Fault Json :=
  let (d, whole) := Doc.ofText bytes
  match ofDoc maxDepth d with
  | .error f => .error f
  | .ok j => if whole then .ok j else .error .malformed

/-- The member of an object under `key`. -/
def get? (j : Json) (key : String) : Option Json :=
  match j with
  | .record members => (members.find? (·.1 == key)).map Prod.snd
  | _ => none

/-- A value that is a string. -/
def asText? : Json → Option String
  | .text s => some s
  | _ => none

/-- A value that is a whole number from zero up. -/
def asNat? : Json → Option Nat
  | .num (.integer n) => if n ≥ 0 then some n.toNat else none
  | _ => none

end Json

end ChatApi
