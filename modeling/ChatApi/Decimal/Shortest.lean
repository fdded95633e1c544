import ChatApi.Decimal.Binary
import ChatApi.Text.Digits

/-!
# The fewest digits that read back

A double stands for every real number that rounds to it. `shortest` gives the decimal with the
fewest digits among them, and of two with as few the one nearer to the double itself.
-/

namespace ChatApi.Decimal

/-- The numbers that round to `m * 2 ^ q`, as multiples of a quarter unit `2 ^ (q - 2)`. The lower
end is nearer where the exponent of the doubles changes. -/
structure Interval where
  low : Nat
  high : Nat
  closed : Bool

def interval (m : Nat) (q : Int) : Interval :=
  let below := if m = 1 <<< 52 && q > -1074 then 1 else 2
  ⟨4 * m - below, 4 * m + 2, m % 2 = 0⟩

/-- `10 ^ e` as a fraction. -/
def powTen (e : Int) : Nat × Nat :=
  if e ≥ 0 then (Nat.pow 10 e.toNat, 1) else (1, Nat.pow 10 (-e).toNat)

/-- `2 ^ e` as a fraction. -/
def powTwo (e : Int) : Nat × Nat :=
  if e ≥ 0 then (Nat.pow 2 e.toNat, 1) else (1, Nat.pow 2 (-e).toNat)

/-- The exponent `k` of the leading digit: `10 ^ k ≤ num / den < 10 ^ (k + 1)`. -/
def leadingExponent (num den : Nat) : Int :=
  if num ≥ den then (Nat.toDigits 10 (num / den)).length - 1
  else
    let j := (Nat.toDigits 10 (den / num)).length - 1
    if num * Nat.pow 10 j ≥ den then -(j : Int) else -(j : Int) - 1

/-- The decimal `d * 10 ^ e` of `n` digits nearest to `m * 2 ^ q` that lies in its interval. -/
def onGrid? (m : Nat) (q : Int) (lead : Int) (n : Nat) : Option (Nat × Int) :=
  let iv := interval m q
  let e := lead - n + 1
  let ten := powTen e
  let two := powTwo (q - 2)
  -- with the quarter unit `two.1 / two.2`, a grid point is `d * step / unit` quarters
  let step := ten.1 * two.2
  let unit := ten.2 * two.1
  let inside (d : Nat) : Bool :=
    if iv.closed then iv.low * unit ≤ d * step && d * step ≤ iv.high * unit
    else iv.low * unit < d * step && d * step < iv.high * unit
  let centre := 4 * m * unit
  let d := centre / step
  let gapDown := centre - d * step
  let gapUp := (d + 1) * step - centre
  match inside d, inside (d + 1) with
  | true, true =>
    if gapDown < gapUp || (gapDown == gapUp && d % 2 == 0) then some (d, e) else some (d + 1, e)
  | true, false => some (d, e)
  | false, true => some (d + 1, e)
  | false, false => none

/-- `d * 10 ^ e` without trailing zeros in `d`, which has at most `fuel` of them. -/
def stripZeros : (fuel : Nat) → Nat → Int → Nat × Int
  | 0, d, e => (d, e)
  | fuel + 1, d, e => if d % 10 = 0 then stripZeros fuel (d / 10) (e + 1) else (d, e)

/-- The digits and the exponent of the shortest decimal for `m * 2 ^ q`, which is not zero. -/
def shortest (m : Nat) (q : Int) : Nat × Int :=
  let two := powTwo q
  let lead := leadingExponent (m * two.1) two.2
  match (List.range 17).findSome? fun i => onGrid? m q lead (i + 1) with
  | some (d, e) => stripZeros 17 d e
  | none => (m, q)

/-- How a double is written out. -/
structure Layout where
  /-- The least exponent of the leading digit that is written with plain zeros. -/
  lowest : Int
  /-- The greatest one. -/
  highest : Int

namespace Layout

/-- Digits with the point in place, at least one digit on either side of it. -/
def positional (digits : List Char) (e : Int) : List Char :=
  let point : Int := digits.length + e
  if e ≥ 0 then digits ++ List.replicate e.toNat '0' ++ ['.', '0']
  else if point > 0 then digits.take point.toNat ++ '.' :: digits.drop point.toNat
  else '0' :: '.' :: List.replicate (-point).toNat '0' ++ digits

/-- One digit, the point if more follow, and an exponent with its sign. -/
def scientific (digits : List Char) (e : Int) : List Char :=
  let lead : Int := digits.length + e - 1
  let mantissa := match digits with
    | [] => []
    | [d] => [d]
    | d :: more => d :: '.' :: more
  mantissa ++ ['e', if lead < 0 then '-' else '+'] ++ Nat.toDigits 10 lead.natAbs

/-- A finite double in shortest form. -/
def write (l : Layout) (x : Float) : String :=
  let (m, q) := parts x
  let body :=
    if m = 0 then ['0', '.', '0']
    else
      let (d, e) := shortest m q
      let digits := Nat.toDigits 10 d
      let lead : Int := digits.length + e - 1
      if l.lowest ≤ lead && lead ≤ l.highest then positional digits e else scientific digits e
  String.ofList (if isNegative x then '-' :: body else body)

end Layout

end ChatApi.Decimal
