import ChatApi.Json.Codec
import ChatApi.Time.Timestamp

/-!
# Identifiers

An identifier is a number of 64 bits whose upper 42 bits count the milliseconds from the beginning
of 2015 to its creation. Each kind of entity has identifiers of a type of its own. They are written
as strings and read from strings or numbers.
-/

namespace ChatApi

/-- What an identifier names. -/
inductive IdKind
  | application
  | user
  | guild
  | channel
  | message
  | role
  | webhook
  | interaction
  deriving DecidableEq, Repr, Inhabited

def IdKind.name : IdKind → String
  | .application => "ApplicationId"
  | .user => "UserId"
  | .guild => "GuildId"
  | .channel => "ChannelId"
  | .message => "MessageId"
  | .role => "RoleId"
  | .webhook => "WebhookId"
  | .interaction => "InteractionId"

structure Snowflake (kind : IdKind) where
  value : UInt64
  deriving DecidableEq, Repr, Inhabited

abbrev UserId := Snowflake .user
abbrev GuildId := Snowflake .guild
abbrev ChannelId := Snowflake .channel
abbrev MessageId := Snowflake .message
abbrev RoleId := Snowflake .role
abbrev WebhookId := Snowflake .webhook
abbrev InteractionId := Snowflake .interaction

namespace Snowflake

variable {kind : IdKind}

/-- The beginning of 2015 in milliseconds of the calendar's epoch. -/
def epoch : Nat := 1420070400000

def text (id : Snowflake kind) : String := toString id.value.toNat

/-- The identifier with the name of its kind. -/
def describe (id : Snowflake kind) : String := kind.name ++ "(" ++ id.text ++ ")"

/-- When the entity was created, in milliseconds of the calendar's epoch. -/
def creationMillis (id : Snowflake kind) : Nat := epoch + (id.value.toNat >>> 22)

def creation (id : Snowflake kind) : ClockTime := ClockTime.ofMillis id.creationMillis

def want : String := "a u64 or parseable string"

def read (depth : Nat) (d : Json.Doc) : Json.Decoded (Snowflake kind) :=
  match d with
  | .num (some (.integer n)) =>
    if n ≥ 0 then .ok ⟨UInt64.ofNat n.toNat⟩
    else .error (.mismatch (.wrongValue (.num (.integer n)) want))
  | .text (some s) =>
    match Text.readNatBelow? UInt64.size s.toList with
    | some n => .ok ⟨UInt64.ofNat n⟩
    | none => .error (.mismatch (.wrongValue (.text s) want))
  | d => d.refuseEntered depth want

def codec : Json.Codec (Snowflake kind) where
  read := read
  write id := .text id.text

end Snowflake

/-- The role that every member of a guild has: it goes by the guild's own number. -/
def GuildId.everyone (id : GuildId) : RoleId := ⟨id.value⟩

end ChatApi
