import ChatApi.Cache.Basic
import ChatApi.Client.Request

/-!
# What can be asked of the service

`Endpoint.request` makes the request of a call, or says which argument is out of range.
`Endpoint.conclude` reads the response and merges what it holds into the cache.
-/

namespace ChatApi.Client

/-- Which messages of a channel are wanted. -/
inductive Excerpt
  | mostRecent
  | before (id : MessageId)
  | after (id : MessageId)
  | around (id : MessageId)
  deriving DecidableEq, Repr, Inhabited

inductive Endpoint
  | getUser (user : UserId)
  | getCurrentUser
  | createGuild (name : String)
  | getGuild (guild : GuildId) (withCounts : Bool)
  | getMember (guild : GuildId) (user : UserId)
  | listMembers (guild : GuildId) (limit : Nat) (after : Option UserId)
  | addMember (guild : GuildId) (user : UserId) (accessToken : String) (nick : Option String)
      (roles : List RoleId)
  | removeMember (guild : GuildId) (user : UserId) (reason : Option String)
  | getRoles (guild : GuildId)
  | createRole (guild : GuildId) (name : String) (color : Option Nat) (reason : Option String)
  | banMember (guild : GuildId) (user : UserId) (deleteSeconds : Nat) (reason : Option String)
  | getMessage (channel : ChannelId) (message : MessageId)
  | getMessages (channel : ChannelId) (excerpt : Excerpt) (limit : Option Nat)
  | sendMessage (channel : ChannelId) (content : String) (files : List Upload)
  | deleteMessage (channel : ChannelId) (message : MessageId) (reason : Option String)
  | executeWebhook (webhook : WebhookId) (token content : String) (files : List Upload)
      (wait : Bool)
  | respond (interaction : InteractionId) (token : String) (response : Json)
  /-- A request made by hand. -/
  | raw (request : Request)
  deriving Inhabited

/-- What a call gives back. -/
inductive Answer
  | nothing
  | user (h : Handle User)
  | currentUser (user : CurrentUser)
  | guild (h : Handle Guild)
  | member (h : Handle Member)
  | members (hs : List (Handle Member))
  | role (h : Handle Role)
  | roles (hs : List (Handle Role))
  | message (m : Message)
  | messages (ms : List Message)
  | response (r : Http.Response)
  deriving Inhabited

/-! ### Requests -/

/-- The longest time, in seconds, for which a ban deletes messages: seven days. -/
def maxBanDeleteSeconds : Nat := 604800

/-- An object with the given members. -/
def payload (members : List (String × Json)) : Json :=
  .record (members.foldl (fun ms m => Json.insertMember m.1 m.2 ms) [])

def number (n : Nat) : Json := .num (.integer n)

def flagText (b : Bool) : String := if b then "true" else "false"

/-- A member of an object, where there is a value for it. -/
def optionalMember {α : Type} (name : String) (f : α → Json) (x : Option α) :
    List (String × Json) :=
  (x.map fun a => (name, f a)).toList

namespace Request

/-- A request whose path is its own route. -/
def direct (method : Http.Method) (path : String) : Request := { method, route := path, path }

end Request

namespace Excerpt

/-- The query field that an excerpt is asked for with. -/
def addTo (r : Request) : Excerpt → Request
  | mostRecent => r
  | before id => r.withQuery "before" id.text
  | after id => r.withQuery "after" id.text
  | around id => r.withQuery "around" id.text

end Excerpt

/-- A message with its files. -/
def withMessage (r : Request) (content : String) (files : List Upload) : Request :=
  (r.withJson (payload [("content", .text content)])).withFiles files

/-- A message holds a text or files. -/
def checkMessage (content : String) (files : List Upload) : Except ApiError Unit :=
  if content = "" ∧ files.isEmpty then .error (.invalidArgument "a message needs content or files")
  else .ok ()

namespace Endpoint

/-- The request of a call. -/
def request : Endpoint → Except ApiError Request
  | getUser user => .ok (.get "users/:user_id" ("users/" ++ user.text))
  | getCurrentUser => .ok (.direct .get "users/@me")
  | createGuild name =>
    .ok ((Request.direct .post "guilds").withJson (payload [("name", .text name)]))
  | getGuild guild withCounts =>
    .ok ((Request.direct .get ("guilds/" ++ guild.text)).withQuery "with_counts"
      (flagText withCounts))
  | getMember guild user =>
    let base := "guilds/" ++ guild.text ++ "/members/"
    .ok (.get (base ++ ":user_id") (base ++ user.text))
  | listMembers guild limit after =>
    if limit < 1 ∨ 1000 < limit then
      .error (.invalidArgument "member limit must be between 1 and 1000")
    else
      let r := (Request.direct .get ("guilds/" ++ guild.text ++ "/members")).withQuery "limit"
        (toString limit)
      .ok (match after with
        | some id => r.withQuery "after" id.text
        | none => r)
  | addMember guild user accessToken nick roles =>
    let base := "guilds/" ++ guild.text ++ "/members/"
    let r : Request := { method := .put, route := base ++ ":user_id", path := base ++ user.text }
    let listed := if roles.isEmpty then none else some roles
    .ok (r.withJson (payload (("access_token", .text accessToken) ::
      optionalMember "nick" .text nick ++
      optionalMember "roles" (fun ids => .list (ids.map fun id => .text id.text)) listed)))
  | removeMember guild user reason =>
    let base := "guilds/" ++ guild.text ++ "/members/"
    let r : Request := { method := .delete, route := base ++ ":user_id", path := base ++ user.text }
    r.withReason? reason
  | getRoles guild => .ok (.direct .get ("guilds/" ++ guild.text ++ "/roles"))
  | createRole guild name color reason =>
    let r := Request.direct .post ("guilds/" ++ guild.text ++ "/roles")
    (r.withJson (payload (("name", .text name) :: optionalMember "color" number color))).withReason?
      reason
  | banMember guild user deleteSeconds reason =>
    if deleteSeconds > maxBanDeleteSeconds then
      .error (.invalidArgument "ban can delete at most seven days of messages")
    else
      let base := "guilds/" ++ guild.text ++ "/bans/"
      let r : Request := { method := .put, route := base ++ ":user_id", path := base ++ user.text }
      (r.withJson (payload [("delete_message_seconds", number deleteSeconds)])).withReason? reason
  | getMessage channel message =>
    let base := "channels/" ++ channel.text ++ "/messages/"
    .ok (.get (base ++ ":message_id") (base ++ message.text))
  | getMessages channel excerpt limit =>
    let limit := limit.getD 50
    if limit < 1 ∨ 100 < limit then
      .error (.invalidArgument "message limit must be between 1 and 100")
    else
      let r := Request.direct .get ("channels/" ++ channel.text ++ "/messages")
      .ok (excerpt.addTo (r.withQuery "limit" (toString limit)))
  | sendMessage channel content files => do
    checkMessage content files
    let r := Request.direct .post ("channels/" ++ channel.text ++ "/messages")
    return withMessage r content files
  | deleteMessage channel message reason =>
    let base := "channels/" ++ channel.text ++ "/messages/"
    let r : Request :=
      { method := .delete, route := base ++ ":message_id", path := base ++ message.text }
    r.withReason? reason
  | executeWebhook webhook token content files wait => do
    checkMessage content files
    let base := "webhooks/" ++ webhook.text ++ "/"
    let r : Request := { method := .post, route := base ++ ":webhook_token", path := base ++ token }
    return (withMessage (r.withQuery "wait" (flagText wait)) content files).exemptFromGlobal
  | respond interaction token response =>
    let base := "interactions/" ++ interaction.text ++ "/"
    let r : Request := {
      method := .post
      route := base ++ ":interaction_token/callback"
      path := base ++ token ++ "/callback" }
    .ok (r.withJson response).exemptFromAll
  | raw request => .ok request

/-! ### Responses -/

/-- The value in the body of a response. -/
def decode {α : Type} (codec : Json.Codec α) (r : Http.Response) : Except ApiError α :=
  (codec.readText r.body).mapError .undecodable

/-- Merges a member, which must come with its user. -/
def storeMember (c : Cache) (guild : GuildId) (m : Member) :
    Except ApiError (Handle Member) × Cache :=
  match c.storeMember guild m with
  | (some h, c) => (.ok h, c)
  | (none, c) => (.error (.protocol "guild member payload without a user"), c)

/-- Merges members up to the first that comes without its user. -/
def storeMembers (c : Cache) (guild : GuildId) :
    List Member → Except ApiError (List (Handle Member)) × Cache
  | [] => (.ok [], c)
  | m :: rest =>
    match storeMember c guild m with
    | (.error e, c) => (.error e, c)
    | (.ok h, c) =>
      let (hs, c) := storeMembers c guild rest
      (hs.map (h :: ·), c)

/-- Merges the roles of a guild. -/
def storeRoles (c : Cache) (guild : GuildId) : List Role → List (Handle Role) × Cache
  | [] => ([], c)
  | r :: rest =>
    let (h, c) := c.storeGuildRole guild r
    let (hs, c) := storeRoles c guild rest
    (h :: hs, c)

/-- Hands the value in the body of a response to `f`; the cache stays as it is if there is none. -/
def reading {α : Type} (codec : Json.Codec α) (c : Cache) (r : Http.Response)
    (f : α → Except ApiError Answer × Cache) : Except ApiError Answer × Cache :=
  match decode codec r with
  | .ok x => f x
  | .error e => (.error e, c)

/-- Reads a response and merges what it holds into the cache. -/
def conclude (e : Endpoint) (c : Cache) (r : Http.Response) : Except ApiError Answer × Cache :=
  let message (c : Cache) : Except ApiError Answer × Cache :=
    reading Message.codec c r fun m => (.ok (.message m), c.absorb m)
  match e with
  | getUser _ => reading User.codec c r fun u =>
    let (h, c) := c.storeUser u
    (.ok (.user h), c)
  | getCurrentUser => reading CurrentUser.codec c r fun u =>
    (.ok (.currentUser u), (c.storeUser u.user).2)
  | createGuild _ | getGuild _ _ => reading Guild.codec c r fun g =>
    let (h, c) := c.storeGuild g
    (.ok (.guild h), c)
  | getMember guild _ => reading Member.codec c r fun m =>
    let (h, c) := storeMember c guild m
    (h.map .member, c)
  | listMembers guild _ _ => reading (Json.Codec.list Member.codec) c r fun ms =>
    let (hs, c) := storeMembers c guild ms
    (hs.map .members, c)
  | addMember guild _ _ _ _ =>
    if r.status = .noContent then (.ok .nothing, c)
    else reading Member.codec c r fun m =>
      let (h, c) := storeMember c guild m
      (h.map .member, c)
  | getRoles guild => reading (Json.Codec.list Role.codec) c r fun rs =>
    let (hs, c) := storeRoles c guild rs
    (.ok (.roles hs), c)
  | createRole guild _ _ _ => reading Role.codec c r fun role =>
    let (h, c) := c.storeGuildRole guild role
    (.ok (.role h), c)
  | getMessage _ _ | sendMessage _ _ _ => message c
  | getMessages _ _ _ => reading (Json.Codec.list Message.codec) c r fun ms =>
    (.ok (.messages ms), ms.foldl Cache.absorb c)
  | executeWebhook _ _ _ _ wait =>
    if !wait ∨ r.status = .noContent then (.ok .nothing, c) else message c
  | removeMember _ _ _ | banMember _ _ _ _ | deleteMessage _ _ _ | respond _ _ _ =>
    (.ok .nothing, c)
  | raw _ => (.ok (.response r), c)

end Endpoint

end ChatApi.Client
