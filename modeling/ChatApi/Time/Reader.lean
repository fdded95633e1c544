import ChatApi.Text.Blank
import ChatApi.Time.Timestamp

/-!
# Reading timestamps

The reader takes more than is ever written: blanks around numbers and before the offset, fields of
one digit, any number of digits of the second, a `t`, a `T` or a blank before the time of day, and
an offset with or without its colon. What it refuses it refuses at the first place that is wrong.
-/

namespace ChatApi.Timestamp

open Calendar (Date)

/-- Why a text is no timestamp. -/
inductive Fault
  | invalid
  | outOfRange
  | tooShort
  | tooLong
  /-- The moment lies beyond the calendar in universal time. -/
  | impossible
  deriving DecidableEq, Repr, Inhabited

def Fault.reason : Fault → String
  | .invalid => "input contains invalid characters"
  | .outOfRange => "input is out of range"
  | .tooShort => "premature end of input"
  | .tooLong => "trailing input"
  | .impossible => "no possible date and time matching input"

def skipBlanks (cs : List Char) : List Char := cs.dropWhile Text.isBlank

/-- A number of the digits at hand, no more than `width` of them if that is given. -/
def readNumber (width : Option Nat) (cs : List Char) : Except Fault (Nat × List Char) :=
  match cs with
  | [] => .error .tooShort
  | _ =>
    let reach := match width with
      | some w => cs.take w
      | none => cs
    let digits := reach.takeWhile Char.isDigit
    let n := Text.digitsValue digits
    if digits.isEmpty then .error .invalid
    else if n ≥ 1 <<< 63 then .error .outOfRange
    else .ok (n, cs.drop digits.length)

/-- A field of one or two digits that lies between `low` and `high`, blanks before it aside. -/
def readField (low high : Nat) (cs : List Char) : Except Fault (Nat × List Char) := do
  let (n, rest) ← readNumber (some 2) (skipBlanks cs)
  if low ≤ n ∧ n ≤ high then return (n, rest) else .error .outOfRange

/-- One character, blanks before it aside. -/
def readMark (c : Char) (cs : List Char) : Except Fault (List Char) :=
  match skipBlanks cs with
  | [] => .error .tooShort
  | d :: rest => if d = c then .ok rest else .error .invalid

/-- A year: up to four digits, or a sign and any number of them. -/
def readYear (cs : List Char) : Except Fault (Int × List Char) := do
  let (y, rest) ← match skipBlanks cs with
    | '-' :: rest => do
      let (n, rest) ← readNumber none rest
      pure (-(n : Int), rest)
    | '+' :: rest => do
      let (n, rest) ← readNumber none rest
      pure ((n : Int), rest)
    | rest => do
      let (n, rest) ← readNumber (some 4) rest
      pure ((n : Int), rest)
  if Int32.minValue.toInt ≤ y ∧ y ≤ Int32.maxValue.toInt then return (y, rest)
  else .error .outOfRange

/-- What stands between the date and the time of day. -/
def readDayMark : List Char → Except Fault (List Char)
  | [] => .error .tooShort
  | c :: rest => if c = 't' ∨ c = 'T' ∨ c = ' ' then .ok rest else .error .invalid

/-- The part of the second behind the point, in nanoseconds; digits past the ninth are dropped. -/
def readFraction : List Char → Except Fault (Nat × List Char)
  | '.' :: cs => do
    let (n, rest) ← readNumber (some 9) cs
    let count := cs.length - rest.length
    return (n * Nat.pow 10 (9 - count), rest.dropWhile Char.isDigit)
  | cs => .ok (0, cs)

/-- Whether fewer than two octets are left. -/
def isShort : List Char → Bool
  | [] => true
  | [c] => c.toNat < 128
  | _ => false

/-- Two digits. -/
def readTwoDigits (cs : List Char) : Except Fault (Nat × List Char) :=
  if isShort cs then .error .tooShort
  else match cs with
    | a :: b :: rest =>
      if a.isDigit ∧ b.isDigit then .ok (Text.digitsValue [a, b], rest) else .error .invalid
    | _ => .error .invalid

/-- An offset from universal time in minutes. -/
def readOffset (cs : List Char) : Except Fault (Int × List Char) :=
  match cs with
  | [] => .error .tooShort
  | c :: rest =>
    if c = 'Z' ∨ c = 'z' then .ok (0, rest)
    else if (cs.take 3).map Char.toLower = ['u', 't', 'c'] then .ok (0, cs.drop 3)
    else if c = '+' ∨ c = '-' ∨ c = '\u2212' then do
      let (hours, rest) ← readTwoDigits rest
      let (minutes, rest) ← readTwoDigits (rest.dropWhile fun c => c = ':' || Text.isBlank c)
      if minutes ≥ 60 then .error .outOfRange
      else
        let total : Int := hours * 60 + minutes
        return (if c = '+' then total else -total, rest)
    else .error .invalid

/-- What a clock shows, as a text gives it. -/
def readClock (cs : List Char) : Except Fault (ClockTime × List Char) := do
  let (y, cs) ← readYear cs
  let (month, cs) ← readField 1 12 (← readMark '-' cs)
  let (day, cs) ← readField 1 31 (← readMark '-' cs)
  let (hour, cs) ← readField 0 23 (← readDayMark cs)
  let (minute, cs) ← readField 0 59 (← readMark ':' cs)
  let (second, cs) ← readField 0 60 (← readMark ':' cs)
  let (nano, cs) ← readFraction cs
  let (off, cs) ← readOffset (skipBlanks cs)
  return (⟨⟨y, month, day⟩, hour, minute, second, nano, off⟩, cs)

/-- The timestamp that a text spells. -/
def read (s : String) : Except Fault Timestamp := do
  let (t, rest) ← readClock s.toList
  if skipBlanks rest ≠ [] then .error .tooLong
  else if proper : t.isProper = true then
    if reachable : t.isReachable = true then return ⟨t, proper, reachable⟩
    else .error .impossible
  else .error .outOfRange

end ChatApi.Timestamp
