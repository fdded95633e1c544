import ChatApi.Http.Percent
import ChatApi.Text.Lossy
import ChatApi.Text.Pieces

/-!
# Hosts

A host on the web is a name in lower case, four octets in decimal, or eight groups of hexadecimal
digits in brackets. Elsewhere a name may be anything that does not end it. Names are ASCII.
-/

namespace ChatApi.Http.Host

/-! ### Addresses of four octets -/

/-- A part of a numeric address: decimal, octal behind a zero, hexadecimal behind `0x`. -/
def octetPart? (cs : List Char) : Option Nat :=
  let inBase (base : Nat) (ds : List Char) : Option Nat :=
    ds.foldlM (fun n d => (Text.hexValue? d).bind fun v =>
      if v < base then some (n * base + v) else none) 0
  match cs with
  | [] => none
  | '0' :: 'x' :: ds => inBase 16 ds
  | '0' :: d :: ds => inBase 8 (d :: ds)
  | ds => inBase 10 ds

/-- The number that the parts of an address spell; the last part fills up the four octets. -/
def octetsNumber? (parts : List Nat) : Option Nat :=
  match parts.reverse with
  | [] => none
  | last :: front =>
    if front.length > 3 || front.any (· > 255) || last ≥ Nat.pow 256 (4 - front.length) then none
    else some (front.reverse.zipIdx.foldl (fun n p => n + p.1 * Nat.pow 256 (3 - p.2)) last)

/-- Four octets in decimal. -/
def octetsText (n : Nat) : List Char :=
  (".".intercalate ([n / 16777216, n / 65536 % 256, n / 256 % 256, n % 256].map toString)).toList

/-! ### Addresses of eight groups -/

/-- Four octets in decimal at the end of an address of groups, as two groups. -/
def octetGroups? (cs : List Char) : Option (List Nat) := do
  let octet? (ds : List Char) : Option Nat :=
    if ds.isEmpty || !ds.all Char.isDigit || (ds.length > 1 && ds.head? == some '0') then none
    else some (Text.digitsValue ds) |>.filter (· < 256)
  match ← (Text.splitAt '.' cs).mapM octet? with
  | [a, b, c, d] => some [a * 256 + b, c * 256 + d]
  | _ => none

/-- A group of up to four hexadecimal digits. -/
def group? (cs : List Char) : Option Nat :=
  if cs.isEmpty || cs.length > 4 then none
  else cs.foldlM (fun n d => (Text.hexValue? d).map (n * 16 + ·)) 0

/-- The groups between colons; four octets may stand for the last two. -/
def groups? : List (List Char) → Option (List Nat)
  | [] => some []
  | [last] => if last.contains '.' then octetGroups? last else (group? last).map ([·])
  | g :: rest => do return (← group? g) :: (← groups? rest)

/-- The texts on both sides of the first double colon. -/
def atDoubleColon? : List Char → Option (List Char × List Char)
  | ':' :: ':' :: rest => some ([], rest)
  | c :: rest => (atDoubleColon? rest).map fun s => (c :: s.1, s.2)
  | [] => none

/-- Eight groups; a double colon stands for as many zeros as are missing. -/
def readGroups? (cs : List Char) : Option (List Nat) := do
  let side (s : List Char) : Option (List Nat) :=
    if s.isEmpty then some [] else groups? (Text.splitAt ':' s)
  match atDoubleColon? cs with
  | none => (← groups? (Text.splitAt ':' cs)) |> some |>.filter (·.length = 8)
  | some (before, after) =>
    if before.contains '.' then none
    else
      let before ← side before
      let after ← side after
      let missing := 8 - (before.length + after.length)
      if before.length + after.length ≥ 8 then none
      else some (before ++ List.replicate missing 0 ++ after)

/-- How many zeros the groups begin with. -/
def zeros (groups : List Nat) : Nat := (groups.takeWhile (· = 0)).length

/-- The place and length of the first of the longest runs of zeros, the groups beginning at place
`i`. -/
def longestZeros (i : Nat) : List Nat → Nat × Nat
  | [] => (i, 0)
  | g :: rest =>
    let here := zeros (g :: rest)
    let later := longestZeros (i + 1) rest
    if later.2 > here then later else (i, here)

/-- Eight groups in brackets, the longest run of two zeros or more as a double colon. -/
def groupsText (groups : List Nat) : List Char :=
  let joined (gs : List Nat) : List Char :=
    [':'].intercalate (gs.map fun g => Nat.toDigits 16 g)
  let (place, length) := longestZeros 0 groups
  let inner :=
    if length < 2 then joined groups
    else joined (groups.take place) ++ [':', ':'] ++ joined (groups.drop (place + length))
  '[' :: inner ++ [']']

/-! ### Names -/

/-- What would end a host. -/
def isForbidden (c : Char) : Bool := "\x00\t\n\r #/:<>?@[\\]^|".toList.contains c

/-- What cannot stand in a name on the web. -/
def isForbiddenOnWeb (c : Char) : Bool :=
  isForbidden c || isControl c || c = '%' || c.toNat ≥ 128

/-- A name on the web. One whose last part is a number is an address of four octets. -/
def readName? (raw : List Char) : Option (List Char) :=
  let name := (Text.lossyChars (percentDecode raw)).map Char.toLower
  if name.isEmpty || name.any isForbiddenOnWeb then none
  else
    let parts := Text.splitAt '.' name
    let parts := if parts.length > 1 && parts.getLast? == some [] then parts.dropLast else parts
    let last := parts.getLast?.getD []
    let isNumber := !last.isEmpty && (last.all Char.isDigit || (octetPart? last).isSome)
    if isNumber then do
      return octetsText (← octetsNumber? (← parts.mapM octetPart?))
    else some name

/-- A host in normal form. -/
def read? (isWeb : Bool) (raw : List Char) : Option (List Char) :=
  match raw with
  | [] => none
  | '[' :: rest =>
    if rest.getLast? = some ']' then (readGroups? rest.dropLast).map groupsText else none
  | raw =>
    if isWeb then readName? raw
    else if raw.any isForbidden then none
    else some (percentEncode isControl raw)

end ChatApi.Http.Host
