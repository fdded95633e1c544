import ChatApi.Text.Digits

/-!
# Percent encoding

A character that cannot stand in a part of an address is written octet by octet, each octet as a
percent sign and two digits. Which characters these are depends on the part; those outside ASCII
always are.
-/

namespace ChatApi.Http

/-- An octet as a percent sign and two digits. -/
def percentOctet (b : UInt8) : List Char :=
  ['%', Text.upperHexDigit (b.toNat / 16), Text.upperHexDigit (b.toNat % 16)]

/-- A character, percent-encoded octet by octet if it is of the class or not ASCII. -/
def percentChar (special : Char → Bool) (c : Char) : List Char :=
  if special c || c.toNat ≥ 128 then (String.singleton c).toUTF8.toList.flatMap percentOctet
  else [c]

def percentEncode (special : Char → Bool) (cs : List Char) : List Char :=
  cs.flatMap (percentChar special)

/-- The octets of a text with percent-encoded ones resolved. -/
def percentDecode : List Char → List UInt8
  | '%' :: a :: b :: rest =>
    match Text.hexValue? a, Text.hexValue? b with
    | some x, some y => (x * 16 + y).toUInt8 :: percentDecode rest
    | _, _ => '%'.toNat.toUInt8 :: percentDecode (a :: b :: rest)
  | c :: rest => (String.singleton c).toUTF8.toList ++ percentDecode rest
  | [] => []

def isControl (c : Char) : Bool := c.toNat < 32 || c.toNat = 127

/-- What is encoded in a fragment. -/
def inFragmentSet (c : Char) : Bool := isControl c || " \"<>\x60".toList.contains c

/-- What is encoded in a path. -/
def inPathSet (c : Char) : Bool := inFragmentSet c || "#?\x7b\x7d".toList.contains c

/-- What is encoded in the name of a user and in a password. -/
def inUserSet (c : Char) : Bool := inPathSet c || "/:;=@[\\]^|".toList.contains c

/-- What is encoded in a query. -/
def inQuerySet (isWeb : Bool) (c : Char) : Bool :=
  isControl c || " \"#<>".toList.contains c || (isWeb && c = '\x27')

end ChatApi.Http
