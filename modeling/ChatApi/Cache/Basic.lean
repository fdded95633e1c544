import ChatApi.Shelf
import ChatApi.Model.Message

/-!
# The cache of entities

Every entity that a response holds is merged into the cache, in the cell that its handle refers to, so
that a handle shows the freshest copy any call has seen. Copies are kept in step: a member holds the
cached copy of its user, and a guild holds the cached copies of its roles.
-/

namespace ChatApi

structure Cache where
  users : Shelf UserId User := .empty
  guilds : Shelf GuildId Guild := .empty
  members : Shelf (GuildId × UserId) Member := .empty
  roles : Shelf RoleId Role := .empty
  /-- The guilds in which a user is a cached member. -/
  memberships : Table UserId (List GuildId) := .empty
  /-- The guild that a role was last supplied for. -/
  roleGuilds : Table RoleId GuildId := .empty

namespace Cache

instance : Inhabited Cache := ⟨{}⟩

def guildsOf (c : Cache) (user : UserId) : List GuildId := (c.memberships.get? user).getD []

/-! ### Users and members -/

/-- Gives the members that a user is their copy of it. -/
def refreshMembers (user : User) (guilds : List GuildId)
    (members : Shelf (GuildId × UserId) Member) : Shelf (GuildId × UserId) Member :=
  guilds.foldl (fun ms guild => ms.modify (guild, user.id) fun m => { m with user := some user })
    members

/-- Merges a user, and brings the copies of it up to date. -/
def storeUser (c : Cache) (fresh : User) : Handle User × Cache :=
  let (cached, users) := c.users.upsert fresh.id fresh (·.merge fresh)
  let current := (users.at? cached).getD fresh
  (cached, { c with users, members := refreshMembers current (c.guildsOf fresh.id) c.members })

/-- Notes that a user is a member of a guild. -/
def join (c : Cache) (guild : GuildId) (user : UserId) : Cache :=
  let known := c.guildsOf user
  if guild ∈ known then c
  else { c with memberships := c.memberships.put user (known ++ [guild]) }

/-- Merges a member of a guild together with its user. One without a user is left out. -/
def storeMember (c : Cache) (guild : GuildId) (fresh : Member) : Option (Handle Member) × Cache :=
  match fresh.user with
  | none => (none, c)
  | some user =>
    let (cachedUser, c) := c.storeUser user
    let current := (c.users.at? cachedUser).getD user
    let (cached, members) := c.members.upsert (guild, user.id) fresh (·.merge fresh)
    let members := members.rewrite cached fun m => { m with guildId := some guild, user := some current }
    (some cached, { c with members }.join guild user.id)

/-! ### Roles and guilds -/

/-- Puts a role in the place of the first of its identifier, or behind the others. -/
def listRole (role : Role) : List Role → List Role
  | [] => [role]
  | r :: rest => if r.id = role.id then role :: rest else r :: listRole role rest

/-- Merges a role, and brings the list of its guild up to date. -/
def storeRole (c : Cache) (fresh : Role) : Handle Role × Cache :=
  let (cached, roles) := c.roles.upsert fresh.id fresh (·.merge fresh)
  let current := (roles.at? cached).getD fresh
  let guilds := match c.roleGuilds.get? fresh.id with
    | some guild => c.guilds.modify guild fun g => { g with roles := listRole current g.roles }
    | none => c.guilds
  (cached, { c with roles, guilds })

/-- Merges a role that is known to be one of a guild. -/
def storeGuildRole (c : Cache) (guild : GuildId) (fresh : Role) : Handle Role × Cache :=
  { c with roleGuilds := c.roleGuilds.put fresh.id guild }.storeRole fresh

/-- Merges a guild, the roles that it lists first. -/
def storeGuild (c : Cache) (fresh : Guild) : Handle Guild × Cache :=
  let c := fresh.roles.foldl (fun c role => (c.storeGuildRole fresh.id role).2) c
  let (cached, guilds) := c.guilds.upsert fresh.id fresh (·.merge fresh)
  (cached, { c with guilds })

/-! ### Messages -/

/-- Merges the author of a post and its member, which may come without its user. A webhook's
stand-in is no account and is left out. -/
def absorbAuthor (c : Cache) (p : Post) : Cache :=
  if p.isWebhook then c
  else
    let c := (c.storeUser p.author).2
    match p.guildId, p.member with
    | some guild, some member =>
      (c.storeMember guild { member with user := some (member.user.getD p.author) }).2
    | _, _ => c

/-- Merges the users that a post names. -/
def absorbPost (c : Cache) (p : Post) : Cache :=
  p.mentions.foldl (fun c user => (c.storeUser user).2) (c.absorbAuthor p)

/-- Merges the users that a message and those that it answers name. -/
def absorb (c : Cache) (m : Message) : Cache := m.chain.foldl absorbPost c

end Cache

end ChatApi
