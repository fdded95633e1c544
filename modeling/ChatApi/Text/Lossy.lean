/-!
# Text from octets that may not be UTF-8

Every well-formed sequence gives its character. Of any other the longest beginning that could have
been continued, or else one octet, gives the replacement character.
-/

namespace ChatApi.Text

/-- What stands for octets that spell nothing. -/
def replacement : Char := '\ufffd'

def isBetween (low high : Nat) (b : UInt8) : Bool := low ≤ b.toNat && b.toNat ≤ high

def isTail (b : UInt8) : Bool := isBetween 0x80 0xBF b

/-- Whether `b` can follow the first octet of a longer sequence. -/
def isSecond (first b : UInt8) : Bool :=
  match first.toNat with
  | 0xE0 => isBetween 0xA0 0xBF b
  | 0xED => isBetween 0x80 0x9F b
  | 0xF0 => isBetween 0x90 0xBF b
  | 0xF4 => isBetween 0x80 0x8F b
  | _ => isTail b

/-- The bits that an octet behind the first one carries. -/
def tailBits (b : UInt8) : Nat := b.toNat % 64

/-- The character that begins with the octet `a`, and how many of the octets behind it belong to it
or are part of its broken sequence. -/
def charFrom (a : UInt8) (rest : List UInt8) : Char × Nat :=
  if a.toNat < 0x80 then (Char.ofNat a.toNat, 0)
  else if isBetween 0xC2 0xDF a then
    match rest with
    | b :: _ =>
      if isTail b then (Char.ofNat (a.toNat % 32 * 64 + tailBits b), 1) else (replacement, 0)
    | [] => (replacement, 0)
  else if isBetween 0xE0 0xEF a then
    match rest with
    | b :: c :: _ =>
      if !isSecond a b then (replacement, 0)
      else if !isTail c then (replacement, 1)
      else (Char.ofNat (a.toNat % 16 * 4096 + tailBits b * 64 + tailBits c), 2)
    | [b] => (replacement, if isSecond a b then 1 else 0)
    | [] => (replacement, 0)
  else if isBetween 0xF0 0xF4 a then
    match rest with
    | b :: c :: d :: _ =>
      if !isSecond a b then (replacement, 0)
      else if !isTail c then (replacement, 1)
      else if !isTail d then (replacement, 2)
      else
        (Char.ofNat (a.toNat % 8 * 262144 + tailBits b * 4096 + tailBits c * 64 + tailBits d), 3)
    | [b, c] => (replacement, if !isSecond a b then 0 else if isTail c then 2 else 1)
    | [b] => (replacement, if isSecond a b then 1 else 0)
    | [] => (replacement, 0)
  else (replacement, 0)

/-- The characters of octets, with the replacement character for what spells nothing. -/
def lossyChars : List UInt8 → List Char
  | [] => []
  | a :: rest =>
    let (c, taken) := charFrom a rest
    c :: lossyChars (rest.drop taken)
termination_by bytes => bytes.length
decreasing_by simp only [List.length_drop, List.length_cons]; omega

def lossy (bytes : ByteArray) : String := String.ofList (lossyChars bytes.toList)

end ChatApi.Text
