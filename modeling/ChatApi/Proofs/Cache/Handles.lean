import ChatApi.Proofs.Cache.Listing
import ChatApi.Proofs.Cache.Mirror
import ChatApi.Proofs.Shelf

/-!
# Handles of cached entities

Whatever the cache is fed with, entries are only added under keys that are new or written through the references
that they have (`Cache.Extends`). What is stored has the handle under which the cache holds it afterwards, and had before if it
was known (`gives_storeUser`, `gives_storeMember`, `gives_storeRole`, `gives_storeGuild`). And each entry is of the
entity whose identifier it is found under (`Identified`).
-/

namespace ChatApi.Cache

/-- All keys of `c` have their references in `d`. -/
structure Extends (c d : Cache) : Prop where
  users : c.users.Extends d.users
  guilds : c.guilds.Extends d.guilds
  members : c.members.Extends d.members
  roles : c.roles.Extends d.roles

/-- Cache `d` is what feeding makes of `c`. -/
def IsFed (c d : Cache) : Prop := ∃ fs : List Feed, d = fs.foldl feed c

/-- Whatever has an entry in `c` has the same handle in `d`, which shows the entry of its key. -/
structure KeepsHandles (c d : Cache) : Prop where
  user : Shelf.KeepsHandles (fun id u => u.id = id) c.users d.users
  guild : Shelf.KeepsHandles (fun id g => g.id = id) c.guilds d.guilds
  member : Shelf.KeepsHandles (fun key m => m.guildId = some key.1 ∧ m.userId = some key.2) c.members d.members
  role : Shelf.KeepsHandles (fun id r => r.id = id) c.roles d.roles

/-- Whatever is stored in `c` has the handle under which the cache holds it afterwards, and had before if it was
known. -/
structure GivesHandles (c : Cache) : Prop where
  user : ∀ u, c.users.Gives (c.storeUser u).2.users u.id (c.storeUser u).1
  guild : ∀ g, c.guilds.Gives (c.storeGuild g).2.guilds g.id (c.storeGuild g).1
  member : ∀ guild (m : Member) (u : User), m.user = some u →
    ∃ h, (c.storeMember guild m).1 = some h ∧ c.members.Gives (c.storeMember guild m).2.members (guild, u.id) h
  role : ∀ r, c.roles.Gives (c.storeRole r).2.roles r.id (c.storeRole r).1
  guildRole : ∀ guild r, c.roles.Gives (c.storeGuildRole guild r).2.roles r.id (c.storeGuildRole guild r).1

/-- Guilds and roles are found under their own identifiers. -/
structure Identified (c : Cache) : Prop where
  guild : ∀ id g, c.guilds.get? id = some g → g.id = id
  role : ∀ id r, c.roles.get? id = some r → r.id = id

variable {a c d : Cache} {fresh : Role} {guild : GuildId}

theorem Extends.refl (c : Cache) : c.Extends c := ⟨.refl _, .refl _, .refl _, .refl _⟩

theorem Extends.trans (h : a.Extends c) (h' : c.Extends d) : a.Extends d :=
  ⟨h.users.trans h'.users, h.guilds.trans h'.guilds, h.members.trans h'.members, h.roles.trans h'.roles⟩

theorem IsFed.refl (c : Cache) : c.IsFed c := ⟨[], rfl⟩

theorem IsFed.trans (h : a.IsFed c) (h' : c.IsFed d) : a.IsFed d := by
  obtain ⟨fs, rfl⟩ := h
  obtain ⟨gs, rfl⟩ := h'
  exact ⟨fs ++ gs, (List.foldl_append ..).symm⟩

theorem isFed_feed (c : Cache) (f : Feed) : c.IsFed (c.feed f) := ⟨[f], rfl⟩

theorem isFed_foldl {α : Type} {step : Cache → α → Cache} (h : ∀ (c : Cache) x, c.IsFed (step c x))
    (c : Cache) (xs : List α) : c.IsFed (xs.foldl step c) :=
  List.foldlRecOn xs step (.refl c) fun d hd x _ => hd.trans (h d x)

theorem Identified.congr (h : c.Identified) (hs : SameRoles c d) : d.Identified := by
  constructor
  · rw [hs.guilds]
    exact h.guild
  · rw [hs.roles]
    exact h.role

/-! ### Entries keep their references -/

theorem extends_refreshMembers (user : User) (guilds : List GuildId) (ms : Shelf (GuildId × UserId) Member) :
    ms.Extends (refreshMembers user guilds ms) :=
  List.foldlRecOn guilds _ (.refl ms) fun _ h _ _ => h.trans (Shelf.extends_modify ..)

theorem extends_storeUser (c : Cache) (fresh : User) : c.Extends (c.storeUser fresh).2 :=
  ⟨Shelf.extends_upsert .., .refl _, extends_refreshMembers .., .refl _⟩

theorem extends_join (c : Cache) (guild : GuildId) (user : UserId) : c.Extends (c.join guild user) := by
  unfold join
  dsimp only
  split
  · exact .refl c
  · exact ⟨.refl _, .refl _, .refl _, .refl _⟩

theorem extends_storeMember (c : Cache) (guild : GuildId) (fresh : Member) :
    c.Extends (c.storeMember guild fresh).2 := by
  unfold storeMember
  split
  · exact .refl c
  · rename_i user _
    refine (extends_storeUser c user).trans (.trans ?_ (extends_join _ guild user.id))
    exact ⟨.refl _, .refl _, (Shelf.extends_upsert ..).trans (Shelf.extends_rewrite ..), .refl _⟩

theorem extends_storeRole (c : Cache) (fresh : Role) : c.Extends (c.storeRole fresh).2 := by
  refine ⟨.refl _, ?_, .refl _, Shelf.extends_upsert ..⟩
  unfold storeRole
  dsimp only
  split
  · exact Shelf.extends_modify ..
  · exact .refl _

theorem extends_storeGuildRole (c : Cache) (guild : GuildId) (fresh : Role) :
    c.Extends (c.storeGuildRole guild fresh).2 := by
  have h := extends_storeRole { c with roleGuilds := c.roleGuilds.put fresh.id guild } fresh
  exact ⟨h.users, h.guilds, h.members, h.roles⟩

/-- The roles come first, and then the guild itself. -/
theorem extends_storeGuild (c : Cache) (fresh : Guild) : c.Extends (c.storeGuild fresh).2 := by
  have hroles : c.Extends (fresh.roles.foldl (fun c role => (c.storeGuildRole fresh.id role).2) c) :=
    List.foldlRecOn fresh.roles _ (.refl c) fun d h role _ => h.trans (extends_storeGuildRole d fresh.id role)
  refine hroles.trans ?_
  exact ⟨.refl _, Shelf.extends_upsert .., .refl _, .refl _⟩

theorem extends_absorb (c : Cache) (m : Message) : c.Extends (c.absorb m) :=
  absorb_induction (P := c.Extends) (fun d u h => h.trans (extends_storeUser d u))
    (fun d guild m h => h.trans (extends_storeMember d guild m)) (.refl c) m

theorem extends_feed (c : Cache) (f : Feed) : c.Extends (c.feed f) := by
  cases f with
  | user fresh => exact extends_storeUser c fresh
  | guild fresh => exact extends_storeGuild c fresh
  | member guild fresh => exact extends_storeMember c guild fresh
  | role fresh => exact extends_storeRole c fresh
  | guildRole guild fresh => exact extends_storeGuildRole c guild fresh
  | message m => exact extends_absorb c m

theorem IsFed.extends (h : c.IsFed d) : c.Extends d := by
  obtain ⟨fs, rfl⟩ := h
  exact List.foldlRecOn fs feed (.refl c) fun d h f _ => h.trans (extends_feed d f)

/-! ### What is stored is found under the handle that is given -/

theorem gives_storeUser (c : Cache) (fresh : User) :
    c.users.Gives (c.storeUser fresh).2.users fresh.id (c.storeUser fresh).1 :=
  Shelf.gives_upsert ..

/-- A member without its user is not stored. -/
theorem storeMember_of_none (c : Cache) (guild : GuildId) {fresh : Member} (hu : fresh.user = none) :
    c.storeMember guild fresh = (none, c) := by
  unfold storeMember
  rw [hu]

theorem gives_storeMember (c : Cache) (guild : GuildId) {fresh : Member} {user : User} (hu : fresh.user = some user) :
    ∃ h, (c.storeMember guild fresh).1 = some h ∧
      c.members.Gives (c.storeMember guild fresh).2.members (guild, user.id) h := by
  unfold storeMember
  rw [hu]
  refine ⟨_, rfl, ?_⟩
  dsimp only
  rw [(join_frame ..).2]
  -- the copies of the user are brought up to date first, and the guild is written into the member last
  refine (extends_storeUser c user).members.gives ?_
  exact (Shelf.gives_upsert ..).extends (Shelf.extends_rewrite ..)

theorem gives_storeRole (c : Cache) (fresh : Role) :
    c.roles.Gives (c.storeRole fresh).2.roles fresh.id (c.storeRole fresh).1 :=
  Shelf.gives_upsert ..

theorem gives_storeGuildRole (c : Cache) (guild : GuildId) (fresh : Role) :
    c.roles.Gives (c.storeGuildRole guild fresh).2.roles fresh.id (c.storeGuildRole guild fresh).1 :=
  Shelf.gives_upsert ..

theorem gives_storeGuild (c : Cache) (fresh : Guild) :
    c.guilds.Gives (c.storeGuild fresh).2.guilds fresh.id (c.storeGuild fresh).1 := by
  have hroles : c.Extends (fresh.roles.foldl (fun c role => (c.storeGuildRole fresh.id role).2) c) :=
    List.foldlRecOn fresh.roles _ (.refl c) fun d h role _ => h.trans (extends_storeGuildRole d fresh.id role)
  exact hroles.guilds.gives (Shelf.gives_upsert ..)

theorem givesHandles (c : Cache) : c.GivesHandles where
  user := gives_storeUser c
  guild := gives_storeGuild c
  member guild _ _ := gives_storeMember c guild
  role := gives_storeRole c
  guildRole := gives_storeGuildRole c

/-! ### Entries are found under their own identifiers -/

theorem identified_empty : Identified {} := by
  constructor <;> simp

theorem identified_storeRole (h : c.Identified) (fresh : Role) : (c.storeRole fresh).2.Identified := by
  constructor
  · intro id g hg
    rw [get?_guilds_storeRole] at hg
    split at hg
    · obtain ⟨known, hk, rfl⟩ := Option.map_eq_some_iff.1 hg
      exact h.guild id known hk
    · exact h.guild id g hg
  · intro id r hr
    rw [get?_roles_storeRole] at hr
    split at hr
    · rename_i hid
      cases hr
      exact hid.symm
    · exact h.role id r hr

theorem identified_storeGuildRole (h : c.Identified) (guild : GuildId) (fresh : Role) :
    (c.storeGuildRole guild fresh).2.Identified :=
  identified_storeRole (c := { c with roleGuilds := c.roleGuilds.put fresh.id guild }) ⟨h.guild, h.role⟩ fresh

/-- A guild keeps its identifier, whatever is merged into it. -/
theorem identified_storeGuild (h : c.Identified) (fresh : Guild) : (c.storeGuild fresh).2.Identified := by
  have hroles : (storeRoles c fresh.id fresh.roles).Identified :=
    List.foldlRecOn fresh.roles _ h fun d hd role _ => identified_storeGuildRole hd fresh.id role
  constructor
  · intro id g hg
    rw [get?_guilds_storeGuild] at hg
    by_cases hid : id = fresh.id
    · rw [if_pos hid] at hg
      cases hk : (storeRoles c fresh.id fresh.roles).guilds.get? fresh.id with
      | none =>
        rw [hk] at hg
        cases hg
        exact hid.symm
      | some known =>
        rw [hk] at hg
        cases hg
        exact (hroles.guild _ known hk).trans hid.symm
    · rw [if_neg hid] at hg
      exact hroles.guild id g hg
  · exact hroles.role

theorem identified_feed (h : c.Identified) (f : Feed) : (c.feed f).Identified := by
  cases f with
  | user fresh => exact h.congr (sameRoles_storeUser c fresh)
  | guild fresh => exact identified_storeGuild h fresh
  | member guild fresh => exact h.congr (sameRoles_storeMember c guild fresh)
  | role fresh => exact identified_storeRole h fresh
  | guildRole guild fresh => exact identified_storeGuildRole h guild fresh
  | message m => exact h.congr (sameRoles_absorb c m)

theorem identified_run (fs : List Feed) : (run fs).Identified :=
  List.foldlRecOn fs feed identified_empty fun _ h f _ => identified_feed h f

theorem Extends.keepsHandles {fs : List Feed} (h : c.Extends (run fs)) : c.KeepsHandles (run fs) where
  user := h.users.keepsHandles (mirrored_run fs).user_id
  guild := h.guilds.keepsHandles (identified_run fs).guild
  member := by
    refine h.members.keepsHandles fun (guild, id) m hm => ?_
    obtain ⟨u, hcached, hcopy⟩ := (mirrored_run fs).user guild id m hm
    have hid : m.userId = some id := by
      unfold Member.userId
      rw [hcopy, Option.map_some, (mirrored_run fs).user_id id u hcached]
    exact ⟨(mirrored_run fs).guild guild id m hm, hid⟩
  role := h.roles.keepsHandles (identified_run fs).role

/-- The handles of a cache last, as it is fed with more. -/
theorem IsFed.keepsHandles (hc : IsFed {} c) (h : c.IsFed d) : c.KeepsHandles d := by
  obtain ⟨fs, hfs⟩ := hc.trans h
  have hrun : d = run fs := hfs
  rw [hrun] at h ⊢
  exact h.extends.keepsHandles

end ChatApi.Cache
