import ChatApi.Model.Member

/-!
# Messages

A message may answer another one, which may answer a third: a message is a post together with the
posts that it answers, the nearest first.
-/

namespace ChatApi

structure Attachment where
  id : String
  filename : String
  contentType : Option String
  url : String
  proxyUrl : Option String
  size : UInt64
  deriving DecidableEq, Inhabited

namespace Attachment

open Json (Field Fields Codec) in
def record : Json.Record Attachment
    [String, String, Option String, String, Option String, UInt64] where
  name := "Attachment"
  fields :=
    .cons (.required "id" Codec.text) <|
    .cons (.required "filename" Codec.text) <|
    .cons (.optional "content_type" Codec.text) <|
    .cons (.required "url" Codec.text) <|
    .cons (.optional "proxy_url" Codec.text) <|
    .cons (.required "size" Codec.uint64) .nil
  build | (a, b, c, d, e, f, ()) => ⟨a, b, c, d, e, f⟩
  parts a := (a.id, a.filename, a.contentType, a.url, a.proxyUrl, a.size, ())

def codec : Json.Codec Attachment := record.codec

end Attachment

/-- A message without the one that it answers. -/
structure Post where
  id : MessageId
  channelId : ChannelId
  guildId : Option GuildId
  content : String
  attachments : List Attachment
  /-- Who wrote it; for a webhook a stand-in, which is no account. -/
  author : User
  member : Option Member
  webhookId : Option WebhookId
  timestamp : Timestamp
  editedTimestamp : Option Timestamp
  tts : Bool
  mentionEveryone : Bool
  mentions : List User
  mentionRoles : List RoleId
  pinned : Bool
  kind : UInt8
  flags : UInt64
  nonce : Option String
  deriving DecidableEq

/-- Whether the author is a webhook. -/
def Post.isWebhook (p : Post) : Bool := p.webhookId.isSome

structure Message where
  post : Post
  /-- The posts that are answered, each by the one before it. -/
  answered : List Post
  deriving DecidableEq

namespace Message

open Json (Field Fields Codec Doc Decoded)

/-- The post and all that it answers, directly or not. -/
def chain (m : Message) : List Post := m.post :: m.answered

def isWebhook (m : Message) : Bool := m.post.isWebhook

/-- A text that may also be anything else, which is then ignored. -/
def lenientText : Codec (Option String) where
  read depth d := match d.readFault? depth, d with
    | some f, _ => .error (.grammar f)
    | none, .text s => .ok s
    | none, _ => .ok none
  write
    | none => .null
    | some s => .text s

/-- The types of a message's fields in order. -/
abbrev fieldTypes : List Type :=
  [MessageId, ChannelId, Option GuildId, String, List Attachment, User, Option Member,
    Option WebhookId, Timestamp, Option Timestamp, Bool, Bool, List User, List RoleId, Bool, UInt8,
    List Post, UInt64, Option String]

/-- The fields of a message, given how the posts that it answers are read and written. -/
def record (answered : Codec (List Post)) : Json.Record Message fieldTypes where
  name := "Message"
  fields :=
    .cons (.required "id" Snowflake.codec) <|
    .cons (.required "channel_id" Snowflake.codec) <|
    .cons (.optional "guild_id" Snowflake.codec) <|
    .cons (.default "content" Codec.text "") <|
    .cons (.default "attachments" (Codec.list Attachment.codec) []) <|
    .cons (.required "author" User.codec) <|
    .cons (.optional "member" Member.codec) <|
    .cons (.optional "webhook_id" Snowflake.codec) <|
    .cons (.required "timestamp" Timestamp.codec) <|
    .cons (.optional "edited_timestamp" Timestamp.codec) <|
    .cons (.default "tts" Codec.flag false) <|
    .cons (.default "mention_everyone" Codec.flag false) <|
    .cons (.default "mentions" (Codec.list User.codec) []) <|
    .cons (.default "mention_roles" (Codec.list Snowflake.codec) []) <|
    .cons (.default "pinned" Codec.flag false) <|
    .cons (.default "type" Codec.uint8 0) <|
    .cons (.default "referenced_message" answered []) <|
    .cons (.default "flags" Codec.uint64 0) <|
    .cons (.default "nonce" lenientText none) .nil
  build
    | (a, b, c, d, e, f, g, h, i, j, k, l, m, n, o, p, q, r, s, ()) =>
      ⟨⟨a, b, c, d, e, f, g, h, i, j, k, l, m, n, o, p, r, s⟩, q⟩
  parts m :=
    let p := m.post
    (p.id, p.channelId, p.guildId, p.content, p.attachments, p.author, p.member, p.webhookId,
      p.timestamp, p.editedTimestamp, p.tts, p.mentionEveryone, p.mentions, p.mentionRoles,
      p.pinned, p.kind, m.answered, p.flags, p.nonce, ())

/-- The message that a chain of posts is, written out. -/
def writeChain : List Post → Json
  | [] => .null
  | p :: rest => (record ⟨fun _ _ => Json.malformed, fun _ => writeChain rest⟩).write ⟨p, rest⟩

/-- Reads a message. The one that it answers is nested one deeper. -/
def read : (depth : Nat) → Doc → Decoded Message
  | 0, d => (record ⟨fun _ _ => Json.malformed, writeChain⟩).read 0 d
  | depth + 1, d =>
    let answered (_ : Nat) (d : Doc) : Decoded (List Post) :=
      match d with
      | .null => .ok []
      | d => (read depth d).map chain
    (record ⟨answered, writeChain⟩).read (depth + 1) d

def codec : Codec Message where
  read := read
  write m := writeChain m.chain

end Message

end ChatApi
