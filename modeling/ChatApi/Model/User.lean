import ChatApi.Model.Snowflake

/-!
# Users

`User.merge` brings a known user up to date with a fresher payload. Payloads embedded in other
entities leave some fields out; what is known of those is kept.
-/

namespace ChatApi

/-- The number behind a user's name, zero where users have none. -/
abbrev Discriminator := Fin 10000

namespace Discriminator

def want : String := "a u16 in [0, 9999] or parseable string"

def read (depth : Nat) (d : Json.Doc) : Json.Decoded Discriminator :=
  let check (n : Nat) (got : Json.Got) : Json.Decoded Discriminator :=
    if h : n < 10000 then .ok ⟨n, h⟩ else .error (.mismatch (.wrongValue got want))
  match d with
  | .num (some (.integer n)) =>
    if n ≥ 0 then check n.toNat (.num (.integer n))
    else .error (.mismatch (.wrongValue (.num (.integer n)) want))
  | .text (some s) =>
    match Text.readNatBelow? UInt64.size s.toList with
    | some n => check n (.num (.integer n))
    | none => .error (.mismatch (.wrongValue (.text s) want))
  | d => d.refuseEntered depth want

/-- A zero, or four digits. -/
def text (n : Discriminator) : String :=
  if n.val = 0 then "0" else String.ofList (Text.padded 4 n.val)

def codec : Json.Codec Discriminator where
  read := read
  write n := .text (text n)

end Discriminator

/-- The fresh value of a field that partial payloads leave out, or else the known one. -/
def keepKnown {α : Type} (known fresh : Option α) : Option α := fresh.or known

structure User where
  id : UserId
  name : String
  globalName : Option String
  discriminator : Discriminator
  avatar : Option String
  banner : Option String
  bot : Bool
  system : Bool
  deriving DecidableEq, Inhabited

namespace User

open Json (Field Fields Codec) in
def record : Json.Record User
    [UserId, String, Option String, Discriminator, Option String, Option String, Bool, Bool] where
  name := "User"
  fields :=
    .cons (.required "id" Snowflake.codec) <|
    .cons (.required "username" Codec.text) <|
    .cons (.optional "global_name" Codec.text) <|
    .cons (.default "discriminator" Discriminator.codec 0) <|
    .cons (.optional "avatar" Codec.text) <|
    .cons (.optional "banner" Codec.text) <|
    .cons (.default "bot" Codec.flag false) <|
    .cons (.default "system" Codec.flag false) .nil
  build | (a, b, c, d, e, f, g, h, ()) => ⟨a, b, c, d, e, f, g, h⟩
  parts u := (u.id, u.name, u.globalName, u.discriminator, u.avatar, u.banner, u.bot, u.system, ())

def codec : Json.Codec User := record.codec

/-- The user after a fresher payload. -/
def merge (known fresh : User) : User where
  id := known.id
  name := fresh.name
  globalName := keepKnown known.globalName fresh.globalName
  discriminator := fresh.discriminator
  avatar := fresh.avatar
  banner := keepKnown known.banner fresh.banner
  bot := fresh.bot
  system := fresh.system

/-- Where the user's avatar is found, if there is one. -/
def avatarUrl (u : User) : Option String :=
  u.avatar.map fun hash =>
    "https://cdn.discordapp.com/avatars/" ++ u.id.text ++ "/" ++ hash ++ ".png"

/-- The name that is shown. -/
def displayName (u : User) : String := u.globalName.getD u.name

end User

/-- The user who is logged in. -/
structure CurrentUser where
  user : User
  mfaEnabled : Bool
  verified : Bool
  locale : Option String
  deriving DecidableEq, Inhabited

namespace CurrentUser

open Json (Field Fields Codec Doc Members Decoded)

/-- The fields beside those of the user. -/
def ownFields : Fields [Bool, Bool, Option String] :=
  .cons (.default "mfa_enabled" Codec.flag false) <|
  .cons (.default "verified" Codec.flag false) <|
  .cons (.optional "locale" Codec.text) .nil

/-- Reads the fields beside those of the user. All other members must be values, of whatever
type. -/
def readOwn (depth : Nat) (slots : Json.Slots [Bool, Bool, Option String]) :
    Members → Decoded (Json.Slots [Bool, Bool, Option String])
  | .close => .ok slots
  | .broken b => .error (.grammar b.read)
  | .member none _ _ => Json.malformed
  | .member (some name) value rest =>
    match ownFields.put depth name value slots with
    | some (.ok slots) => readOwn depth slots rest
    | some (.error e) => .error e
    | none =>
      match value.readFault? depth with
      | some f => .error (.grammar f)
      | none => readOwn depth slots rest

/-- Reads the object, in which the user's fields stand beside the others. They are looked at when
the whole object has been read. -/
def read : (depth : Nat) → Doc → Decoded CurrentUser
  | 0, .record _ => Json.malformed
  | depth + 1, .record members => do
    let slots ← readOwn depth ownFields.emptySlots members
    let user ← User.record.readMembers depth members
    let (mfaEnabled, verified, locale, ()) ← ownFields.close slots
    return ⟨user, mfaEnabled, verified, locale⟩
  | _, d => d.refuse "struct CurrentUser"

def codec : Codec CurrentUser where
  read := read
  write u := .record (User.record.fields.write (User.record.parts u.user) ++
    ownFields.write (u.mfaEnabled, u.verified, u.locale, ()))

end CurrentUser

end ChatApi
