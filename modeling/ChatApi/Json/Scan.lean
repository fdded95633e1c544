import ChatApi.Json.Doc
import ChatApi.Text.Digits

/-!
# Strings and numbers in a JSON text

A text is looked at octet by octet, an octet being shown as the character with its number.
`scanText` reads a string up to its closing quote, `scanNumeral` a number up to the first octet
behind it.
-/

namespace ChatApi.Json

/-- The octets of a text, each as the character with its number. -/
def octets (bytes : ByteArray) : List Char := bytes.toList.map fun b => Char.ofNat b.toNat

/-- The string that octets spell in UTF-8. -/
def ofOctets? (cs : List Char) : Option String :=
  String.fromUTF8? ⟨(cs.map fun c => c.toNat.toUInt8).toArray⟩

/-- The octets of a character. -/
def charOctets (c : Char) : List Char := octets (String.singleton c).toUTF8

/-- What four hexadecimal digits count. -/
def hexFour? (a b c d : Char) : Option Nat := do
  return (((← Text.hexValue? a) * 16 + (← Text.hexValue? b)) * 16 + (← Text.hexValue? c)) * 16
    + (← Text.hexValue? d)

/-- What an escape of one letter stands for. -/
def shortEscape? : Char → Option Char
  | '"' => some '"'
  | '\\' => some '\\'
  | '/' => some '/'
  | 'b' => some '\x08'
  | 'f' => some '\x0c'
  | 'n' => some '\n'
  | 'r' => some '\r'
  | 't' => some '\t'
  | _ => none

/-- The first half of a surrogate pair. -/
def isHighSurrogate (n : Nat) : Bool := 0xD800 ≤ n && n < 0xDC00

/-- The second half of a surrogate pair. -/
def isLowSurrogate (n : Nat) : Bool := 0xDC00 ≤ n && n < 0xE000

def joinSurrogates (high low : Nat) : Nat := (high - 0xD800) * 0x400 + (low - 0xDC00) + 0x10000

/-- A string up to its closing quote. -/
inductive TextScan
  | closed (content : Option String) (rest : List Char)
  | broken (b : Break)

/-- What is known of a string while it is scanned. -/
structure TextState where
  /-- The octets so far, the last one first. -/
  content : List Char := []
  /-- The first half of a surrogate pair that was read just now. -/
  high : Option Nat := none
  /-- Whether the escapes so far pair up. -/
  sound : Bool := true

namespace TextState

/-- A half pair that nothing follows is not Unicode. -/
def settle (s : TextState) : TextState :=
  match s.high with
  | none => s
  | some _ => { s with high := none, sound := false }

/-- Takes octets that are no escape of half a pair. -/
def push (s : TextState) (cs : List Char) : TextState :=
  let s := s.settle
  { s with content := cs.reverse ++ s.content }

/-- Takes an escaped code unit. -/
def pushUnit (s : TextState) (n : Nat) : TextState :=
  match s.high with
  | some high =>
    if isLowSurrogate n then
      { s with content := (charOctets (Char.ofNat (joinSurrogates high n))).reverse ++ s.content,
               high := none }
    else { s.settle with sound := false }
  | none =>
    if isHighSurrogate n then { s with high := some n }
    else if isLowSurrogate n then { s with sound := false }
    else s.push (charOctets (Char.ofNat n))

/-- The fault `f` here, unless a reader has met one before. -/
def breakOff (s : TextState) (f : Fault) : Break := ⟨if s.sound then f else .malformed, f⟩

/-- The string at its closing quote. -/
def close (s : TextState) : Option String :=
  let s := s.settle
  if s.sound then ofOctets? s.content.reverse else none

end TextState

/-- Reads on in a string. -/
def scanText (s : TextState) : List Char → TextScan
  | [] => .broken (s.breakOff .early)
  | '"' :: rest => .closed s.close rest
  | '\\' :: [] => .broken (s.breakOff .early)
  | '\\' :: 'u' :: a :: b :: c :: d :: rest =>
    match hexFour? a b c d with
    | some n => scanText (s.pushUnit n) rest
    | none => .broken (s.breakOff .malformed)
  | '\\' :: 'u' :: _ => .broken (s.breakOff .early)
  | '\\' :: e :: rest =>
    match shortEscape? e with
    | some c => scanText (s.push [c]) rest
    | none => .broken (s.settle.breakOff .malformed)
  | c :: rest =>
    if c.toNat < 32 then .broken (s.settle.breakOff .malformed) else scanText (s.push [c]) rest

theorem length_lt_of_scanText {s : TextState} {cs rest : List Char} {t : Option String}
    (h : scanText s cs = .closed t rest) : rest.length < cs.length := by
  fun_induction scanText s cs <;> simp_all <;> omega

/-- The parts of a number as they are written. -/
structure Numeral where
  negative : Bool
  whole : List Char
  fraction : List Char
  /-- Whether there is a point or an exponent. -/
  plain : Bool
  exponent : Int

/-- The double at `significand * 10 ^ exponent`, by one multiplication or division once the
exponent is within the range of the doubles; nothing if that is too large. -/
def scaled : (fuel : Nat) → Float → Int → Option Float
  | 0, x, _ => some x
  | fuel + 1, x, e =>
    if e.natAbs ≤ 308 then
      let power := Float.ofScientific 1 false e.natAbs
      let y := if e ≥ 0 then x * power else x / power
      if y.isInf then none else some y
    else if x == 0 then some x
    else if e ≥ 0 then none
    else scaled fuel (x / Float.ofScientific 1 false 308) (e + 308)

/-- Appends digits to a significand while it has 64 bits, and says which are left over. -/
def takeDigits (n : Nat) : List Char → Nat × List Char
  | [] => (n, [])
  | c :: cs =>
    let more := n * 10 + Text.digitValue c
    if more < UInt64.size then takeDigits more cs else (n, c :: cs)

/-- The value of a numeral. Integers that fit 64 bits stay integers. Of all others the digits that
fit 64 bits are scaled by the exponent; later digits of the whole part only count their places and
later digits of the fraction are left out. -/
def Numeral.value (x : Numeral) : Option Number :=
  let (n, surplus) := takeDigits 0 x.whole
  let signed (y : Float) : Number := .float (if x.negative then -y else y)
  if x.plain && surplus.isEmpty then
    if x.negative then
      if 0 < n && n ≤ 1 <<< 63 then some (.integer (-(n : Int)))
      else some (signed n.toUInt64.toFloat)
    else some (.integer n)
  else
    let (m, left) := takeDigits n x.fraction
    let e : Int := surplus.length - (x.fraction.length - left.length : Nat) + x.exponent
    (scaled 4 m.toUInt64.toFloat e).map signed

/-- A run of digits, at least one, and what is behind it. -/
def someDigits (cs : List Char) : Except Break (List Char × List Char) :=
  match cs with
  | [] => .error ⟨.early, .malformed⟩
  | c :: _ =>
    if c.isDigit then .ok (cs.takeWhile Char.isDigit, cs.dropWhile Char.isDigit)
    else .error (.both .malformed)

/-- The whole part of a number: no zero stands before another digit. -/
def wholeDigits (cs : List Char) : Except Break (List Char × List Char) := do
  let (digits, rest) ← someDigits cs
  match digits with
  | '0' :: _ :: _ => .error (.both .malformed)
  | _ => return (digits, rest)

/-- The fraction behind a point, if there is one. -/
def fractionDigits : List Char → Except Break (Option (List Char) × List Char)
  | '.' :: rest => do
    let (digits, rest) ← someDigits rest
    return (some digits, rest)
  | rest => .ok (none, rest)

/-- The exponent, if there is one. -/
def exponentPart : List Char → Except Break (Option Int × List Char)
  | c :: rest =>
    if c = 'e' || c = 'E' then do
      let (negative, rest) := match rest with
        | '-' :: r => (true, r)
        | '+' :: r => (false, r)
        | r => (false, r)
      let (digits, rest) ← someDigits rest
      let n : Int := Text.digitsValue digits
      return (some (if negative then -n else n), rest)
    else .ok (none, c :: rest)
  | [] => .ok (none, [])

/-- A number, its sign being read already. -/
def scanNumeral (negative : Bool) (cs : List Char) : Except Break (Numeral × List Char) := do
  let (whole, rest) ← wholeDigits cs
  let (fraction, rest) ← fractionDigits rest
  let (exponent, rest) ← exponentPart rest
  return (⟨negative, whole, fraction.getD [], fraction.isNone && exponent.isNone,
    exponent.getD 0⟩, rest)

theorem length_dropWhile_le (p : Char → Bool) (cs : List Char) :
    (cs.dropWhile p).length ≤ cs.length :=
  (List.dropWhile_sublist p).length_le

theorem length_le_of_someDigits {cs ds rest : List Char} (h : someDigits cs = .ok (ds, rest)) :
    rest.length ≤ cs.length := by
  unfold someDigits at h
  split at h
  · cases h
  · split at h
    · cases h
      exact length_dropWhile_le _ _
    · cases h

theorem length_le_of_wholeDigits {cs ds rest : List Char} (h : wholeDigits cs = .ok (ds, rest)) :
    rest.length ≤ cs.length := by
  unfold wholeDigits at h
  cases hd : someDigits cs with
  | error b => simp [hd, bind, Except.bind] at h
  | ok p =>
    simp only [hd, bind, Except.bind] at h
    split at h
    · cases h
    · simp only [pure, Except.pure, Except.ok.injEq, Prod.mk.injEq] at h
      obtain ⟨rfl, rfl⟩ := h
      exact length_le_of_someDigits hd

theorem length_le_of_fractionDigits {cs rest : List Char} {ds : Option (List Char)}
    (h : fractionDigits cs = .ok (ds, rest)) : rest.length ≤ cs.length := by
  unfold fractionDigits at h
  split at h
  · rename_i r
    cases hd : someDigits r with
    | error b => simp [hd, bind, Except.bind] at h
    | ok p =>
      simp only [hd, bind, Except.bind, pure, Except.pure, Except.ok.injEq, Prod.mk.injEq] at h
      obtain ⟨-, rfl⟩ := h
      have := length_le_of_someDigits hd
      simp only [List.length_cons]
      omega
  · cases h
    exact Nat.le_refl _

theorem length_le_of_exponentPart {cs rest : List Char} {e : Option Int}
    (h : exponentPart cs = .ok (e, rest)) : rest.length ≤ cs.length := by
  unfold exponentPart at h
  split at h
  · rename_i c r
    split at h
    · revert h
      generalize hs : (match r with
        | '-' :: r => (true, r)
        | '+' :: r => (false, r)
        | r => (false, r) : Bool × List Char) = p
      intro h
      have hl : p.2.length ≤ r.length := by
        subst hs
        split <;> simp
      cases hd : someDigits p.2 with
      | error b => simp [hd, bind, Except.bind] at h
      | ok q =>
        simp only [hd, bind, Except.bind, pure, Except.pure, Except.ok.injEq, Prod.mk.injEq] at h
        obtain ⟨-, rfl⟩ := h
        have := length_le_of_someDigits hd
        simp only [List.length_cons]
        omega
    · cases h
      exact Nat.le_refl _
  · cases h
    exact Nat.le_refl _

/-- Nothing is added behind a number. -/
theorem length_le_of_scanNumeral {negative : Bool} {cs rest : List Char} {x : Numeral}
    (h : scanNumeral negative cs = .ok (x, rest)) : rest.length ≤ cs.length := by
  unfold scanNumeral at h
  cases hw : wholeDigits cs with
  | error b => simp [hw, bind, Except.bind] at h
  | ok w =>
    cases hf : fractionDigits w.2 with
    | error b => simp [hw, hf, bind, Except.bind] at h
    | ok f =>
      cases he : exponentPart f.2 with
      | error b => simp [hw, hf, he, bind, Except.bind] at h
      | ok e =>
        simp only [hw, hf, he, bind, Except.bind, pure, Except.pure, Except.ok.injEq,
          Prod.mk.injEq] at h
        obtain ⟨-, rfl⟩ := h
        have := length_le_of_wholeDigits hw
        have := length_le_of_fractionDigits hf
        have := length_le_of_exponentPart he
        omega

end ChatApi.Json
