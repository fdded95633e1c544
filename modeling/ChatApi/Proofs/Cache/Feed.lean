import ChatApi.Cache.Basic
import Mathlib.Data.List.Nodup

/-!
# What the cache is fed with

`Cache.run` is what a new cache becomes when it is fed one payload after another, in whatever order.
A message is nothing new: it stands for the users and members in it (`absorb_induction`). Users and
members do not touch guilds and roles (`sameRoles_absorb`), nor the other way round (`sameUsers_storeGuild`).
-/

namespace ChatApi.Cache

/-- A payload that is merged into the cache. -/
inductive Feed
  | user (fresh : User)
  | guild (fresh : Guild)
  | member (guild : GuildId) (fresh : Member)
  | role (fresh : Role)
  /-- A role that is known to be one of a guild. -/
  | guildRole (guild : GuildId) (fresh : Role)
  | message (m : Message)

/-- Merges a payload. -/
def feed (c : Cache) : Feed → Cache
  | .user fresh => (c.storeUser fresh).2
  | .guild fresh => (c.storeGuild fresh).2
  | .member guild fresh => (c.storeMember guild fresh).2
  | .role fresh => (c.storeRole fresh).2
  | .guildRole guild fresh => (c.storeGuildRole guild fresh).2
  | .message m => c.absorb m

/-- A new cache after some payloads. -/
def run (fs : List Feed) : Cache := fs.foldl feed {}

theorem run_concat (fs : List Feed) (f : Feed) : run (fs ++ [f]) = (run fs).feed f := by
  simp [run]

/-- What users and members keep, messages keep. -/
theorem absorb_induction {P : Cache → Prop} (huser : ∀ c u, P c → P (c.storeUser u).2)
    (hmember : ∀ c guild m, P c → P (c.storeMember guild m).2) {c : Cache} (h : P c) (m : Message) :
    P (c.absorb m) := by
  have hauthor : ∀ c p, P c → P (c.absorbAuthor p) := by
    intro c p h
    unfold absorbAuthor
    split
    · exact h
    · have h' := huser c p.author h
      dsimp only
      split
      · exact hmember _ _ _ h'
      · exact h'
  have hpost : ∀ c p, P c → P (c.absorbPost p) := by
    intro c p h
    exact List.foldlRecOn p.mentions _ (hauthor c p h) fun c h u _ => huser c u h
  exact List.foldlRecOn m.chain _ h fun c h p _ => hpost c p h

/-! ### What is left alone -/

/-- Guilds and roles are the same. -/
structure SameRoles (c d : Cache) : Prop where
  guilds : d.guilds = c.guilds
  roles : d.roles = c.roles
  roleGuilds : d.roleGuilds = c.roleGuilds

/-- Users and members are the same. -/
structure SameUsers (c d : Cache) : Prop where
  users : d.users = c.users
  members : d.members = c.members
  memberships : d.memberships = c.memberships

variable {a c d : Cache}

theorem SameRoles.refl (c : Cache) : SameRoles c c := ⟨rfl, rfl, rfl⟩

theorem SameRoles.trans (h : SameRoles a c) (h' : SameRoles c d) : SameRoles a d :=
  ⟨h'.guilds.trans h.guilds, h'.roles.trans h.roles, h'.roleGuilds.trans h.roleGuilds⟩

theorem SameUsers.refl (c : Cache) : SameUsers c c := ⟨rfl, rfl, rfl⟩

theorem SameUsers.trans (h : SameUsers a c) (h' : SameUsers c d) : SameUsers a d :=
  ⟨h'.users.trans h.users, h'.members.trans h.members, h'.memberships.trans h.memberships⟩

theorem sameRoles_storeUser (c : Cache) (fresh : User) : SameRoles c (c.storeUser fresh).2 :=
  ⟨rfl, rfl, rfl⟩

theorem sameRoles_join (c : Cache) (guild : GuildId) (user : UserId) : SameRoles c (c.join guild user) := by
  unfold join
  dsimp only
  split
  · exact .refl c
  · exact ⟨rfl, rfl, rfl⟩

theorem sameRoles_storeMember (c : Cache) (guild : GuildId) (fresh : Member) :
    SameRoles c (c.storeMember guild fresh).2 := by
  unfold storeMember
  split
  · exact .refl c
  · refine SameRoles.trans ?_ (sameRoles_join _ guild _)
    exact ⟨rfl, rfl, rfl⟩

theorem sameRoles_absorb (c : Cache) (m : Message) : SameRoles c (c.absorb m) :=
  absorb_induction (P := SameRoles c) (fun d u h => h.trans (sameRoles_storeUser d u))
    (fun d guild m h => h.trans (sameRoles_storeMember d guild m)) (.refl c) m

theorem sameUsers_storeRole (c : Cache) (fresh : Role) : SameUsers c (c.storeRole fresh).2 := ⟨rfl, rfl, rfl⟩

theorem sameUsers_storeGuildRole (c : Cache) (guild : GuildId) (fresh : Role) :
    SameUsers c (c.storeGuildRole guild fresh).2 := ⟨rfl, rfl, rfl⟩

theorem sameUsers_storeGuild (c : Cache) (fresh : Guild) : SameUsers c (c.storeGuild fresh).2 := by
  have hroles : SameUsers c (fresh.roles.foldl (fun c role => (c.storeGuildRole fresh.id role).2) c) :=
    List.foldlRecOn fresh.roles _ (.refl c) fun d h role _ => h.trans (sameUsers_storeGuildRole d _ role)
  exact hroles.trans ⟨rfl, rfl, rfl⟩

end ChatApi.Cache
