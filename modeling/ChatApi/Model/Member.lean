import ChatApi.Model.Guild
import ChatApi.Time.Reader

/-!
# Members of a guild
-/

namespace ChatApi

def Timestamp.codec : Json.Codec Timestamp :=
  Json.Codec.ofText "an RFC 3339 formatted date and time string"
    (fun s => (Timestamp.read s).mapError Fault.reason) Timestamp.write

structure Member where
  /-- The user who is a member, where the payload says. -/
  user : Option User
  /-- The guild, filled in when the member is stored. -/
  guildId : Option GuildId
  nick : Option String
  avatar : Option String
  roles : List RoleId
  joinedAt : Option Timestamp
  mute : Bool
  deaf : Bool
  flags : UInt64
  boostingSince : Option Timestamp
  disabledUntil : Option Timestamp
  deriving DecidableEq

namespace Member

open Json (Field Fields Codec) in
def record : Json.Record Member
    [Option User, Option GuildId, Option String, Option String, List RoleId, Option Timestamp, Bool,
      Bool, UInt64, Option Timestamp, Option Timestamp] where
  name := "Member"
  fields :=
    .cons (.optional "user" User.codec) <|
    .cons (.optional "guild_id" Snowflake.codec) <|
    .cons (.optional "nick" Codec.text) <|
    .cons (.optional "avatar" Codec.text) <|
    .cons (.default "roles" (Codec.list Snowflake.codec) []) <|
    .cons (.optional "joined_at" Timestamp.codec) <|
    .cons (.default "mute" Codec.flag false) <|
    .cons (.default "deaf" Codec.flag false) <|
    .cons (.default "flags" Codec.uint64 0) <|
    .cons (.optional "premium_since" Timestamp.codec) <|
    .cons (.optional "communication_disabled_until" Timestamp.codec) .nil
  build | (a, b, c, d, e, f, g, h, i, j, k, ()) => ⟨a, b, c, d, e, f, g, h, i, j, k⟩
  parts m := (m.user, m.guildId, m.nick, m.avatar, m.roles, m.joinedAt, m.mute, m.deaf, m.flags,
    m.boostingSince, m.disabledUntil, ())

def codec : Json.Codec Member := record.codec

def userId (m : Member) : Option UserId := m.user.map User.id

/-- The nickname, or else the name of the user. -/
def displayName (m : Member) : Option String := m.nick.or (m.user.map User.displayName)

/-- The user of a member after a fresher payload. -/
def mergeUser : (known fresh : Option User) → Option User
  | some u, some f => some (u.merge f)
  | some u, none => some u
  | none, f => f

/-- The member after a fresher payload. -/
def merge (known fresh : Member) : Member where
  user := mergeUser known.user fresh.user
  guildId := keepKnown known.guildId fresh.guildId
  nick := fresh.nick
  avatar := fresh.avatar
  roles := fresh.roles
  joinedAt := keepKnown known.joinedAt fresh.joinedAt
  mute := fresh.mute
  deaf := fresh.deaf
  flags := fresh.flags
  boostingSince := fresh.boostingSince
  disabledUntil := fresh.disabledUntil

/-- Whether two optional timestamps name one moment. -/
def sameMoment? : Option Timestamp → Option Timestamp → Bool
  | some a, some b => a.sameMoment b
  | none, none => true
  | _, _ => false

/-- Whether two members agree in everything, timestamps of one moment counting as equal. -/
def agrees (a b : Member) : Bool :=
  a.user == b.user && a.guildId == b.guildId && a.nick == b.nick && a.avatar == b.avatar &&
    a.roles == b.roles && sameMoment? a.joinedAt b.joinedAt && a.mute == b.mute &&
    a.deaf == b.deaf && a.flags == b.flags && sameMoment? a.boostingSince b.boostingSince &&
    sameMoment? a.disabledUntil b.disabledUntil

end Member

end ChatApi
