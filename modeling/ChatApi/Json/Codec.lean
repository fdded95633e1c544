import ChatApi.Json.Value
import ChatApi.Text.Quoted

/-!
# Reading and writing typed values

A codec reads one type of value from a document and writes it. A record is read from an object, with
its members in any order and unknown ones skipped, or from an array of its fields in order; a field
with a default may be left out. The first thing that is wrong, from left to right, is what a failed
reading reports; that a required field is missing shows only at the end of the record.
-/

namespace ChatApi.Json

/-- What was found where something else was wanted. -/
inductive Got
  | null
  | flag (b : Bool)
  | num (n : Number)
  | text (s : String)
  | sequence
  | map
  deriving Inhabited

/-- How a text that follows the grammar fails to be of the type wanted. -/
inductive Mismatch
  | missingField (name : String)
  | duplicateField (name : String)
  | wrongType (got : Got) (want : String)
  | wrongValue (got : Got) (want : String)
  /-- An array ends before the fields that the record must have. -/
  | wrongLength (length : Nat) (record : String) (fields : Nat)
  /-- A string of a format of its own, refused for this reason. -/
  | unreadable (reason : String)
  deriving Inhabited

/-- Why reading failed. -/
inductive DecodeError
  | grammar (f : Fault)
  | mismatch (m : Mismatch)
  deriving Inhabited

def Got.describe : Got → String
  | .null => "null"
  | .flag b => "boolean \x60" ++ (if b then "true" else "false") ++ "\x60"
  | .num (.integer n) => "integer \x60" ++ toString n ++ "\x60"
  | .num (.float x) => "floating point \x60" ++ floatLayout.write x ++ "\x60"
  | .text s => "string " ++ Text.quoted s
  | .sequence => "sequence"
  | .map => "map"

def Mismatch.message : Mismatch → String
  | .missingField name => "missing field \x60" ++ name ++ "\x60"
  | .duplicateField name => "duplicate field \x60" ++ name ++ "\x60"
  | .wrongType got want => "invalid type: " ++ got.describe ++ ", expected " ++ want
  | .wrongValue got want => "invalid value: " ++ got.describe ++ ", expected " ++ want
  | .wrongLength n name fields =>
    "invalid length " ++ toString n ++ ", expected struct " ++ name ++ " with " ++
      toString fields ++ (if fields = 1 then " element" else " elements")
  | .unreadable reason => reason

abbrev Decoded (α : Type) := Except DecodeError α

def malformed {α : Type} : Decoded α := .error (.grammar .malformed)

/-- What stands at the head of a document. -/
def Doc.got : Doc → Except Fault Got
  | .null => .ok .null
  | .flag b => .ok (.flag b)
  | .num (some n) => .ok (.num n)
  | .text (some s) => .ok (.text s)
  | .num none | .text none => .error .malformed
  | .list _ => .ok .sequence
  | .record _ => .ok .map
  | .broken b => .error b.read

/-- Reports that a document is not what was wanted. -/
def Doc.refuse {α : Type} (d : Doc) (want : String) : Decoded α :=
  match d.got with
  | .ok got => .error (.mismatch (.wrongType got want))
  | .error f => .error (.grammar f)

/-- Reports the same for a value of any type that was entered before it was looked at. -/
def Doc.refuseEntered {α : Type} (depth : Nat) (d : Doc) (want : String) : Decoded α :=
  match depth, d with
  | 0, .list _ | 0, .record _ => malformed
  | _, d => d.refuse want

/-- How values of a type are read, nested at most `depth` deep, and written. -/
structure Codec (α : Type) where
  read : (depth : Nat) → Doc → Decoded α
  write : α → Json

namespace Codec

/-! ### Single values -/

def text : Codec String where
  read _ d := match d with
    | .text (some s) => .ok s
    | d => d.refuse "a string"
  write := .text

def flag : Codec Bool where
  read _ d := match d with
    | .flag b => .ok b
    | d => d.refuse "a boolean"
  write := .flag

/-- An integer from `low` up to `high`. -/
def readInteger (low high : Int) (want : String) (d : Doc) : Decoded Int :=
  match d with
  | .num (some (.integer n)) =>
    if low ≤ n ∧ n ≤ high then .ok n else .error (.mismatch (.wrongValue (.num (.integer n)) want))
  | d => d.refuse want

def uint8 : Codec UInt8 where
  read _ d := (readInteger 0 255 "u8" d).map fun n => UInt8.ofNat n.toNat
  write n := .num (.integer n.toNat)

def uint64 : Codec UInt64 where
  read _ d := (readInteger 0 (UInt64.size - 1) "u64" d).map fun n => UInt64.ofNat n.toNat
  write n := .num (.integer n.toNat)

def int64 : Codec Int64 where
  read _ d := (readInteger Int64.minValue.toInt Int64.maxValue.toInt "i64" d).map Int64.ofInt
  write n := .num (.integer n.toInt)

def float : Codec Float where
  read _ d := match d with
    | .num (some (.integer n)) =>
      .ok (if n < 0 then -(n.natAbs.toUInt64.toFloat) else n.natAbs.toUInt64.toFloat)
    | .num (some (.float x)) => .ok x
    | d => d.refuse "f64"
  write x := .num (.float x)

/-- A string of a format of its own. -/
def ofText {α : Type} (want : String) (read : String → Except String α) (write : α → String) :
    Codec α where
  read _ d := match d with
    | .text (some s) => (read s).mapError fun reason => .mismatch (.unreadable reason)
    | d => d.refuse want
  write x := .text (write x)

/-! ### Values that may be absent, and lists -/

def option {α : Type} (c : Codec α) : Codec (Option α) where
  read depth d := match d with
    | .null => .ok none
    | d => (c.read depth d).map some
  write
    | none => .null
    | some x => c.write x

def readItems {α : Type} (read : Doc → Decoded α) : Items → Decoded (List α)
  | .close => .ok []
  | .broken f => .error (.grammar f)
  | .item d rest => do
    let first ← read d
    return first :: (← readItems read rest)

def list {α : Type} (c : Codec α) : Codec (List α) where
  read depth d := match depth, d with
    | 0, .list _ => malformed
    | depth + 1, .list items => readItems (c.read depth) items
    | _, d => d.refuse "a sequence"
  write xs := .list (xs.map c.write)

end Codec

/-! ### Records -/

/-- A field of a record: its name, its codec, and its value when it is left out, if it may be. -/
structure Field (α : Type) where
  name : String
  codec : Codec α
  absent : Option α

/-- A field that must be there. -/
def Field.required {α : Type} (name : String) (codec : Codec α) : Field α := ⟨name, codec, none⟩

/-- A field with a value for when it is left out. -/
def Field.default {α : Type} (name : String) (codec : Codec α) (absent : α) : Field α :=
  ⟨name, codec, some absent⟩

/-- A field that is null or left out when there is nothing in it. -/
def Field.optional {α : Type} (name : String) (codec : Codec α) : Field (Option α) :=
  ⟨name, codec.option, some none⟩

/-- One value of each type. -/
def Values : List Type → Type
  | [] => Unit
  | α :: αs => α × Values αs

/-- What has been read of a record so far, field by field. -/
def Slots : List Type → Type
  | [] => Unit
  | α :: αs => Option α × Slots αs

/-- The fields of a record in order. -/
inductive Fields : List Type → Type 1
  | nil : Fields []
  | cons {α : Type} {αs : List Type} (field : Field α) (rest : Fields αs) : Fields (α :: αs)

namespace Fields

def size {ts : List Type} : Fields ts → Nat
  | nil => 0
  | cons _ rest => rest.size + 1

def emptySlots {ts : List Type} : Fields ts → Slots ts
  | nil => ()
  | cons _ rest => (none, rest.emptySlots)

/-- Reads a member into its slot. Nothing comes back where no field has its name. -/
def put {ts : List Type} (depth : Nat) (name : String) (d : Doc) :
    Fields ts → Slots ts → Option (Decoded (Slots ts))
  | nil, _ => none
  | cons field rest, (slot, slots) =>
    if field.name = name then
      some (match slot with
        | some _ => .error (.mismatch (.duplicateField name))
        | none => (field.codec.read depth d).map fun x => (some x, slots))
    else (rest.put depth name d slots).map fun r => r.map fun slots => (slot, slots)

/-- The values of the slots, with defaults where nothing was read. -/
def close {ts : List Type} : Fields ts → Slots ts → Decoded (Values ts)
  | nil, _ => .ok ()
  | cons field rest, (slot, slots) =>
    match slot.or field.absent with
    | none => .error (.mismatch (.missingField field.name))
    | some x => (rest.close slots).map fun xs => (x, xs)

/-- Reads the members of an object, skipping those that no field is named for. -/
def readMembers {ts : List Type} (fields : Fields ts) (depth : Nat) (slots : Slots ts) :
    Members → Decoded (Slots ts)
  | .close => .ok slots
  | .broken b => .error (.grammar b.read)
  | .member none _ _ => malformed
  | .member (some name) value rest =>
    match fields.put depth name value slots with
    | some (.ok slots) => fields.readMembers depth slots rest
    | some (.error e) => .error e
    | none =>
      match value.skipFault? with
      | some f => .error (.grammar f)
      | none => fields.readMembers depth slots rest

/-- Reads the values of an array into the fields, `seen` of which are read already. -/
def readItems {ts : List Type} (record : String) (total depth : Nat) :
    Fields ts → (seen : Nat) → Items → Decoded (Values ts)
  | nil, _, .close => .ok ()
  | nil, _, .broken f => .error (.grammar f)
  | nil, _, .item _ _ => malformed
  | cons _ _, _, .broken f => .error (.grammar f)
  | cons field rest, seen, .close =>
    match field.absent with
    | some x => (rest.readItems record total depth (seen + 1) .close).map fun xs => (x, xs)
    | none => .error (.mismatch (.wrongLength seen record total))
  | cons field rest, seen, .item d items => do
    let x ← field.codec.read depth d
    let xs ← rest.readItems record total depth (seen + 1) items
    return (x, xs)

def write {ts : List Type} : Fields ts → Values ts → List (String × Json)
  | nil, _ => []
  | cons field rest, (x, xs) => (field.name, field.codec.write x) :: rest.write xs

end Fields

/-- A record type `σ`: its name, its fields, and how it is put together and taken apart. -/
structure Record (σ : Type) (ts : List Type) where
  name : String
  fields : Fields ts
  build : Values ts → σ
  parts : σ → Values ts

namespace Record

variable {σ : Type} {ts : List Type}

/-- Reads a record from an object. -/
def readMembers (r : Record σ ts) (depth : Nat) (members : Members) : Decoded σ := do
  let slots ← r.fields.readMembers depth r.fields.emptySlots members
  return r.build (← r.fields.close slots)

def read (r : Record σ ts) : (depth : Nat) → Doc → Decoded σ
  | 0, .list _ | 0, .record _ => malformed
  | depth + 1, .list items =>
    (r.fields.readItems r.name r.fields.size depth 0 items).map r.build
  | depth + 1, .record members => r.readMembers depth members
  | _, d => d.refuse ("struct " ++ r.name)

def write (r : Record σ ts) (x : σ) : Json := .record (r.fields.write (r.parts x))

def codec (r : Record σ ts) : Codec σ := ⟨r.read, r.write⟩

end Record

/-! ### Whole texts -/

/-- Reads a whole text as one value. -/
def Codec.readText {α : Type} (c : Codec α) (bytes : ByteArray) : Decoded α :=
  let (d, whole) := Doc.ofText bytes
  match c.read maxDepth d with
  | .error e => .error e
  | .ok x => if whole then .ok x else malformed

/-- The compact text of a value. -/
def Codec.writeText {α : Type} (c : Codec α) (x : α) : String := (c.write x).write

end ChatApi.Json
