import ChatApi.Text.Digits

/-!
# Reading a double from text

A numeral has an optional sign, digits with an optional point among or around them, and an optional
exponent; `inf`, `infinity` and `nan` are read in any case. The value is the double nearest to what
the numeral says.
-/

namespace ChatApi.Decimal

/-- The double nearest to `digits * 10 ^ exponent`. What is far outside the range of doubles is
settled by its number of digits, without computing the power. -/
def nearest (digits : Nat) (exponent : Int) : Float :=
  if digits = 0 then 0
  else
    let top : Int := (Nat.toDigits 10 digits).length + exponent
    if top > 400 then 1.0 / 0.0
    else if top < -400 then 0
    else Float.ofScientific digits (exponent < 0) exponent.natAbs

/-- The exponent of a numeral: nothing, or `e` and a signed run of digits. -/
def readExponent? : List Char → Option Int
  | [] => some 0
  | c :: rest =>
    if c = 'e' || c = 'E' then
      match rest with
      | '-' :: ds =>
        if ds.isEmpty || !ds.all Char.isDigit then none else some (-(Text.digitsValue ds))
      | ds => (Text.readNat? ds).map Int.ofNat
    else none

/-- A numeral without its sign. -/
def readUnsigned? (cs : List Char) : Option Float :=
  let lower := String.ofList (cs.map Char.toLower)
  if lower == "inf" || lower == "infinity" then some (1.0 / 0.0)
  else if lower == "nan" then some (0.0 / 0.0)
  else
    let whole := cs.takeWhile Char.isDigit
    let rest := cs.dropWhile Char.isDigit
    let (fraction, tail) := match rest with
      | '.' :: more => (more.takeWhile Char.isDigit, more.dropWhile Char.isDigit)
      | more => ([], more)
    if whole.isEmpty && fraction.isEmpty then none
    else (readExponent? tail).map fun e =>
      nearest (Text.digitsValue (whole ++ fraction)) (e - fraction.length)

/-- The double that a numeral spells. -/
def readFloat? (cs : List Char) : Option Float :=
  match cs with
  | '-' :: rest => (readUnsigned? rest).map (-·)
  | '+' :: rest => readUnsigned? rest
  | rest => readUnsigned? rest

end ChatApi.Decimal
