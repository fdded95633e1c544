import ChatApi.Model.User

/-!
# Guilds and their roles
-/

namespace ChatApi

/-- A set of permissions that members of a guild may have. -/
structure Role where
  id : RoleId
  name : String
  color : UInt64
  hoist : Bool
  managed : Bool
  position : Int64
  mentionable : Bool
  /-- The permissions as the decimal number that was sent. -/
  permissions : String
  deriving DecidableEq, Inhabited

namespace Role

open Json (Field Fields Codec) in
def record : Json.Record Role [RoleId, String, UInt64, Bool, Bool, Int64, Bool, String] where
  name := "Role"
  fields :=
    .cons (.required "id" Snowflake.codec) <|
    .cons (.required "name" Codec.text) <|
    .cons (.default "color" Codec.uint64 0) <|
    .cons (.default "hoist" Codec.flag false) <|
    .cons (.default "managed" Codec.flag false) <|
    .cons (.default "position" Codec.int64 0) <|
    .cons (.default "mentionable" Codec.flag false) <|
    .cons (.default "permissions" Codec.text "") .nil
  build | (a, b, c, d, e, f, g, h, ()) => ⟨a, b, c, d, e, f, g, h⟩
  parts r :=
    (r.id, r.name, r.color, r.hoist, r.managed, r.position, r.mentionable, r.permissions, ())

def codec : Json.Codec Role := record.codec

/-- The role after a fresher payload, which always has every field. -/
def merge (_known fresh : Role) : Role := fresh

/-- The permissions as a number of 64 bits. -/
def permissionBits (r : Role) : Option Nat := Text.readNatBelow? UInt64.size r.permissions.toList

end Role

structure Guild where
  id : GuildId
  name : String
  icon : Option String
  ownerId : Option UserId
  description : Option String
  mfaLevel : UInt8
  verificationLevel : UInt8
  preferredLocale : Option String
  /-- Present when counts were asked for. -/
  approximateMemberCount : Option UInt64
  roles : List Role
  deriving DecidableEq, Inhabited

namespace Guild

open Json (Field Fields Codec) in
def record : Json.Record Guild
    [GuildId, String, Option String, Option UserId, Option String, UInt8, UInt8, Option String,
      Option UInt64, List Role] where
  name := "Guild"
  fields :=
    .cons (.required "id" Snowflake.codec) <|
    .cons (.required "name" Codec.text) <|
    .cons (.optional "icon" Codec.text) <|
    .cons (.optional "owner_id" Snowflake.codec) <|
    .cons (.optional "description" Codec.text) <|
    .cons (.default "mfa_level" Codec.uint8 0) <|
    .cons (.default "verification_level" Codec.uint8 0) <|
    .cons (.optional "preferred_locale" Codec.text) <|
    .cons (.optional "approximate_member_count" Codec.uint64) <|
    .cons (.default "roles" (Codec.list Role.codec) []) .nil
  build | (a, b, c, d, e, f, g, h, i, j, ()) => ⟨a, b, c, d, e, f, g, h, i, j⟩
  parts g := (g.id, g.name, g.icon, g.ownerId, g.description, g.mfaLevel, g.verificationLevel,
    g.preferredLocale, g.approximateMemberCount, g.roles, ())

def codec : Json.Codec Guild := record.codec

/-- The guild after a fresher payload. A payload without roles leaves the known ones. -/
def merge (known fresh : Guild) : Guild where
  id := known.id
  name := fresh.name
  icon := fresh.icon
  ownerId := keepKnown known.ownerId fresh.ownerId
  description := fresh.description
  mfaLevel := fresh.mfaLevel
  verificationLevel := fresh.verificationLevel
  preferredLocale := keepKnown known.preferredLocale fresh.preferredLocale
  approximateMemberCount := keepKnown known.approximateMemberCount fresh.approximateMemberCount
  roles := if fresh.roles.isEmpty then known.roles else fresh.roles

/-- Where the guild's icon is found, if there is one. -/
def iconUrl (g : Guild) : Option String :=
  g.icon.map fun hash =>
    "https://cdn.discordapp.com/icons/" ++ g.id.text ++ "/" ++ hash ++ ".png"

end Guild

end ChatApi
