import ChatApi.Text.Digits
import ChatApi.Time.Calendar

/-!
# Timestamps

A moment as a date and a time of day at some offset from universal time. It is written with its
offset and with as many digits of the second as it needs: none, three, six or nine.
-/

namespace ChatApi

open Calendar (Date)

/-- The first and the last year that a date may have. -/
def firstYear : Int := -262143
def lastYear : Int := 262142

/-- A date and a time of day with the offset of the clock, in minutes east. -/
structure ClockTime where
  date : Date
  hour : Nat
  minute : Nat
  /-- Sixty in a leap second. -/
  second : Nat
  nano : Nat
  offset : Int
  deriving DecidableEq, Repr, Inhabited

namespace ClockTime

/-- The minutes from the epoch in universal time. -/
def utcMinutes (t : ClockTime) : Int := t.date.toDays * 1440 + t.hour * 60 + t.minute - t.offset

/-- Whether the clock can show this at its offset. -/
def isProper (t : ClockTime) : Bool :=
  firstYear ≤ t.date.year && t.date.year ≤ lastYear && t.date.isValid && t.hour < 24 &&
    t.minute < 60 && t.second ≤ 60 && t.nano < 1000000000 && t.offset.natAbs < 1440

/-- Whether the moment has a date in universal time. -/
def isReachable (t : ClockTime) : Bool :=
  (Date.mk firstYear 1 1).toDays * 1440 ≤ t.utcMinutes &&
    t.utcMinutes < ((Date.mk lastYear 12 31).toDays + 1) * 1440

end ClockTime

/-- A moment that the calendar has. -/
structure Timestamp extends ClockTime where
  proper : toClockTime.isProper = true
  reachable : toClockTime.isReachable = true
  deriving DecidableEq

namespace Timestamp

/-- Whether two timestamps name one moment, whatever their offsets. -/
def sameMoment (a b : Timestamp) : Bool :=
  a.utcMinutes == b.utcMinutes && a.second == b.second && a.nano == b.nano

/-- The year: four digits, or more than four with a sign in front. -/
def writeYear (year : Int) : List Char :=
  if 0 ≤ year ∧ year ≤ 9999 then Text.padded 4 year.toNat
  else (if year < 0 then '-' else '+') :: Text.padded 4 year.natAbs

/-- The digits of the second behind the point. -/
def writeFraction (nano : Nat) : List Char :=
  if nano = 0 then []
  else if nano % 1000000 = 0 then '.' :: Text.padded 3 (nano / 1000000)
  else if nano % 1000 = 0 then '.' :: Text.padded 6 (nano / 1000)
  else '.' :: Text.padded 9 nano

def writeOffset (offset : Int) : List Char :=
  if offset = 0 then ['Z']
  else
    (if offset < 0 then '-' else '+') ::
      (Text.padded 2 (offset.natAbs / 60) ++ ':' :: Text.padded 2 (offset.natAbs % 60))

/-- The date and the time of day up to the second. -/
def writeClock (t : ClockTime) : List Char :=
  writeYear t.date.year ++ '-' :: Text.padded 2 t.date.month ++ '-' :: Text.padded 2 t.date.day ++
    'T' :: Text.padded 2 t.hour ++ ':' :: Text.padded 2 t.minute ++ ':' :: Text.padded 2 t.second

def write (t : Timestamp) : String :=
  String.ofList (writeClock t.toClockTime ++ writeFraction t.nano ++ writeOffset t.offset)

end Timestamp

/-- What a clock in universal time shows that many milliseconds after the epoch. -/
def ClockTime.ofMillis (ms : Int) : ClockTime :=
  let ofDay := (ms % 86400000).toNat
  { date := Date.ofDays (ms / 86400000)
    hour := ofDay / 3600000
    minute := ofDay / 60000 % 60
    second := ofDay / 1000 % 60
    nano := ofDay % 1000 * 1000000
    offset := 0 }

/-- A moment in universal time with three digits of the second. -/
def ClockTime.writeMillis (t : ClockTime) : String :=
  String.ofList (Timestamp.writeClock t ++ '.' :: Text.padded 3 (t.nano / 1000000) ++ ['Z'])

end ChatApi
