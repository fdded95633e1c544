/-!
# Binary fractions

A finite double is `m * 2 ^ q` for a whole number `m` and an integer `q`. `parts` takes them from
the bits; everything that rounds or prints a double works on them in exact arithmetic.
-/

namespace ChatApi.Decimal

/-- Where the exponent of a double sits. -/
def exponentField (bits : UInt64) : Nat := (bits.toNat >>> 52) % 2048

/-- Where the fraction of a double sits. -/
def fractionField (bits : UInt64) : Nat := bits.toNat % (1 <<< 52)

/-- The size of a finite double as `m` and `q` of `m * 2 ^ q`. -/
def parts (x : Float) : Nat × Int :=
  let e := exponentField x.toBits
  let f := fractionField x.toBits
  if e = 0 then (f, -1074) else ((1 <<< 52) + f, (e : Int) - 1075)

/-- Whether the sign bit is set. -/
def isNegative (x : Float) : Bool := x.toBits.toNat ≥ 1 <<< 63

/-- `num / den` to the nearest whole number, a half to the even one. -/
def roundHalfEven (num den : Nat) : Nat :=
  let q := num / den
  let r := num % den
  if 2 * r > den || (2 * r == den && q % 2 == 1) then q + 1 else q

end ChatApi.Decimal
