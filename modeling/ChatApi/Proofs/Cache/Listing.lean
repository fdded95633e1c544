import ChatApi.Proofs.Cache.Feed
import ChatApi.Proofs.Shelf
import Mathlib.Data.List.Induction

/-!
# Guilds list the cached copies of their roles

A role is cached under its own identifier and copied into the list of its guild, which `storeRole` finds
through the guild that the role was last supplied for. Where no role is ever supplied for two guilds, that
is the guild that lists it. `Listed` says so: what a cached guild lists is cached, is known to be the
guild's, and has each identifier once. Roles and guilds keep that, in whatever order they come
(`listed_storeRole`, `listed_storeGuildRole`, `listed_storeGuild`).

Main theorem `guilds_list_cached_roles`.
-/

namespace ChatApi.Cache

/-- The roles that a payload supplies for a guild. -/
def Feed.supplies : Feed → List (GuildId × RoleId)
  | .guild fresh => fresh.roles.map fun r => (fresh.id, r.id)
  | .guildRole owner fresh => [(owner, fresh.id)]
  | .user _ | .member .. | .role _ | .message _ => []

/-- What some payloads supply for guilds. -/
def supplies (fs : List Feed) : List (GuildId × RoleId) := fs.flatMap Feed.supplies

/-- No role is supplied for two guilds. -/
def OneGuildEach (l : List (GuildId × RoleId)) : Prop := ∀ s ∈ l, ∀ t ∈ l, s.2 = t.2 → s.1 = t.1

instance (l : List (GuildId × RoleId)) : Decidable (OneGuildEach l) :=
  inferInstanceAs (Decidable (∀ s ∈ l, ∀ t ∈ l, _))

/-- What a guild lists is cached, is known to be its own, and has each identifier once. -/
structure ListedIn (c : Cache) (id : GuildId) (roles : List Role) : Prop where
  nodup : (roles.map Role.id).Nodup
  cached : ∀ r ∈ roles, c.roles.get? r.id = some r
  owned : ∀ r ∈ roles, c.roleGuilds.get? r.id = some id

/-- All guilds list cached roles of their own, and roles are known to be of guilds for which they were
supplied. -/
structure Listed (past : List (GuildId × RoleId)) (c : Cache) : Prop where
  supplied : ∀ id guild, c.roleGuilds.get? id = some guild → (guild, id) ∈ past
  guilds : ∀ id g, c.guilds.get? id = some g → ListedIn c id g.roles

variable {c d : Cache} {past more : List (GuildId × RoleId)} {roles : List Role} {guild : GuildId} {fresh : Role}

theorem listed_empty : Listed [] {} := ⟨by simp, by simp⟩

theorem ListedIn.congr (h : ListedIn c guild roles) (hr : d.roles = c.roles)
    (hg : d.roleGuilds = c.roleGuilds) : ListedIn d guild roles :=
  ⟨h.nodup, hr ▸ h.cached, hg ▸ h.owned⟩

theorem Listed.congr (h : Listed past c) (hs : SameRoles c d) : Listed past d :=
  ⟨hs.roleGuilds ▸ h.supplied, fun id g hg => (h.guilds id g (hs.guilds ▸ hg)).congr hs.roles hs.roleGuilds⟩

theorem Listed.mono (h : Listed past c) (hsub : past ⊆ more) : Listed more c :=
  ⟨fun id guild hg => hsub (h.supplied id guild hg), h.guilds⟩

/-! ### Lists of roles -/

theorem mem_listRole_self (role : Role) (l : List Role) : role ∈ listRole role l := by
  induction l with
  | nil => simp [listRole]
  | cons r rest ih =>
    unfold listRole
    split
    · exact List.mem_cons_self
    · exact List.mem_cons_of_mem _ ih

theorem ids_listRole (role : Role) (l : List Role) :
    (listRole role l).map Role.id =
      if role.id ∈ l.map Role.id then l.map Role.id else l.map Role.id ++ [role.id] := by
  induction l with
  | nil => simp [listRole]
  | cons r rest ih =>
    by_cases hr : r.id = role.id
    · simp [listRole, hr]
    · simp only [listRole, hr, if_false, List.map_cons, ih, List.mem_cons, Ne.symm hr, false_or]
      split <;> rfl

/-- In place of what had its identifier comes the role itself. -/
theorem mem_listRole {role r : Role} {l : List Role} (hn : (l.map Role.id).Nodup) (h : r ∈ listRole role l) :
    r = role ∨ r ∈ l ∧ r.id ≠ role.id := by
  induction l with
  | nil => exact .inl (List.mem_singleton.1 h)
  | cons x rest ih =>
    rw [List.map_cons, List.nodup_cons] at hn
    unfold listRole at h
    split at h
    · rename_i hx
      rcases List.mem_cons.1 h with rfl | hr
      · exact .inl rfl
      · exact .inr ⟨List.mem_cons_of_mem _ hr, fun he => hn.1 (hx ▸ he ▸ List.mem_map_of_mem hr)⟩
    · rename_i hx
      rcases List.mem_cons.1 h with rfl | hr
      · exact .inr ⟨List.mem_cons_self, hx⟩
      · exact (ih hn.2 hr).imp_right fun hr => ⟨List.mem_cons_of_mem _ hr.1, hr.2⟩

theorem nodup_listRole {role : Role} {l : List Role} (hn : (l.map Role.id).Nodup) :
    ((listRole role l).map Role.id).Nodup := by
  rw [ids_listRole]
  split
  · exact hn
  · rename_i hnot
    exact List.Nodup.append hn (List.nodup_singleton _) (List.disjoint_singleton.2 hnot)

/-! ### A role is stored -/

/-- Every part of a role is replaced by a fresh one. -/
theorem getD_map_merge (known : Option Role) (fresh : Role) : (known.map (·.merge fresh)).getD fresh = fresh := by
  cases known <;> rfl

theorem get?_roles_storeRole (c : Cache) (fresh : Role) (id : RoleId) :
    (c.storeRole fresh).2.roles.get? id = if id = fresh.id then some fresh else c.roles.get? id := by
  refine (Shelf.get?_upsert ..).trans ?_
  rw [getD_map_merge]

/-- The role is listed by the guild that it is known to be of, if that is cached. -/
theorem get?_guilds_storeRole (c : Cache) (fresh : Role) (id : GuildId) :
    (c.storeRole fresh).2.guilds.get? id =
      if c.roleGuilds.get? fresh.id = some id then
        (c.guilds.get? id).map fun g => { g with roles := listRole fresh g.roles }
      else c.guilds.get? id := by
  unfold storeRole
  dsimp only
  rw [Shelf.at?_upsert, getD_map_merge, Option.getD_some]
  cases c.roleGuilds.get? fresh.id with
  | none => simp
  | some guild =>
    dsimp only
    rw [Shelf.get?_modify]
    by_cases hid : id = guild
    · simp [hid]
    · simp [hid, Ne.symm hid]

/-- Roles of other identifiers stay as they are. -/
theorem ListedIn.storeRole_of_ne (h : ListedIn c guild roles) (hne : ∀ r ∈ roles, r.id ≠ fresh.id) :
    ListedIn (c.storeRole fresh).2 guild roles := by
  refine ⟨h.nodup, fun r hr => ?_, h.owned⟩
  rw [get?_roles_storeRole, if_neg (hne r hr)]
  exact h.cached r hr

theorem listed_storeRole (h : Listed past c) (fresh : Role) : Listed past (c.storeRole fresh).2 := by
  refine ⟨h.supplied, fun id g hg => ?_⟩
  rw [get?_guilds_storeRole] at hg
  split at hg
  · rename_i hown
    obtain ⟨known, hk, rfl⟩ := Option.map_eq_some_iff.1 hg
    have hl := h.guilds id known hk
    refine ⟨nodup_listRole hl.nodup, fun r hr => ?_, fun r hr => ?_⟩
    · rw [get?_roles_storeRole]
      rcases mem_listRole hl.nodup hr with rfl | ⟨hr, hne⟩
      · exact if_pos rfl
      · rw [if_neg hne]
        exact hl.cached r hr
    · rcases mem_listRole hl.nodup hr with rfl | ⟨hr, -⟩
      · exact hown
      · exact hl.owned r hr
  · -- A guild that does not own the role does not list it either.
    rename_i hown
    have hl := h.guilds id g hg
    exact hl.storeRole_of_ne fun r hr he => hown (he ▸ hl.owned r hr)

theorem listed_storeGuildRole (h : Listed past c) (hmem : (guild, fresh.id) ∈ past) (ho : OneGuildEach past) :
    Listed past (c.storeGuildRole guild fresh).2 := by
  refine listed_storeRole (c := { c with roleGuilds := c.roleGuilds.put fresh.id guild }) ?_ fresh
  refine ⟨fun id g hg => ?_, fun id g hg => ?_⟩
  · rw [Table.get?_put] at hg
    split at hg
    · cases hg
      rwa [‹id = fresh.id›]
    · exact h.supplied id g hg
  · have hl := h.guilds id g hg
    refine ⟨hl.nodup, hl.cached, fun r hr => ?_⟩
    have hown := hl.owned r hr
    rw [Table.get?_put]
    split
    · rename_i he
      exact congrArg some (ho _ hmem _ (h.supplied _ _ hown) he.symm)
    · exact hown

/-- A guild that is cached lists the role that is stored for it. -/
theorem mem_storeGuildRole (c : Cache) {g : Guild} (hg : c.guilds.get? guild = some g) (fresh : Role) :
    ∃ g', (c.storeGuildRole guild fresh).2.guilds.get? guild = some g' ∧ fresh ∈ g'.roles := by
  refine ⟨{ g with roles := listRole fresh g.roles }, ?_, mem_listRole_self fresh g.roles⟩
  unfold storeGuildRole
  rw [get?_guilds_storeRole, if_pos (Table.get?_put_self ..)]
  simp [hg]

/-! ### A guild is stored -/

/-- The roles that a guild lists are stored one after another. -/
def storeRoles (c : Cache) (guild : GuildId) (roles : List Role) : Cache :=
  roles.foldl (fun c role => (c.storeGuildRole guild role).2) c

theorem get?_roles_storeGuildRole (c : Cache) (guild : GuildId) (fresh : Role) (id : RoleId) :
    (c.storeGuildRole guild fresh).2.roles.get? id = if id = fresh.id then some fresh else c.roles.get? id :=
  get?_roles_storeRole ..

theorem get?_roleGuilds_storeGuildRole (c : Cache) (guild : GuildId) (fresh : Role) (id : RoleId) :
    (c.storeGuildRole guild fresh).2.roleGuilds.get? id =
      if id = fresh.id then some guild else c.roleGuilds.get? id :=
  Table.get?_put ..

/-- Of roles with different identifiers none takes the place of another. -/
theorem listedIn_storeRoles (c : Cache) (guild : GuildId) {roles : List Role} (hn : (roles.map Role.id).Nodup) :
    ListedIn (storeRoles c guild roles) guild roles := by
  unfold storeRoles
  induction roles using List.reverseRecOn with
  | nil => exact ⟨by simp, by simp, by simp⟩
  | append_singleton roles role ih =>
    obtain ⟨hbefore, -, hlast⟩ := List.nodup_append.1 (List.map_append ▸ hn)
    have hne : ∀ r ∈ roles, r.id ≠ role.id := fun r hr => hlast _ (List.mem_map_of_mem hr) _ (by simp)
    have hl := ih hbefore
    rw [List.foldl_append, List.foldl_cons, List.foldl_nil]
    refine ⟨hn, fun r hr => ?_, fun r hr => ?_⟩
    · rw [get?_roles_storeGuildRole]
      rcases List.mem_append.1 hr with hr | hr
      · rw [if_neg (hne r hr)]
        exact hl.cached r hr
      · rw [List.mem_singleton.1 hr, if_pos rfl]
    · rw [get?_roleGuilds_storeGuildRole]
      rcases List.mem_append.1 hr with hr | hr
      · rw [if_neg (hne r hr)]
        exact hl.owned r hr
      · rw [List.mem_singleton.1 hr, if_pos rfl]

theorem listed_storeRoles (h : Listed past c) (hmem : ∀ r ∈ roles, (guild, r.id) ∈ past)
    (ho : OneGuildEach past) : Listed past (storeRoles c guild roles) :=
  List.foldlRecOn roles _ h fun _ h r hr => listed_storeGuildRole h (hmem r hr) ho

/-- The guild itself comes last. -/
theorem get?_guilds_storeGuild (c : Cache) (fresh : Guild) (id : GuildId) :
    (c.storeGuild fresh).2.guilds.get? id =
      if id = fresh.id then
        some ((((storeRoles c fresh.id fresh.roles).guilds.get? fresh.id).map (·.merge fresh)).getD fresh)
      else (storeRoles c fresh.id fresh.roles).guilds.get? id :=
  Shelf.get?_upsert ..

/-- A payload without roles leaves the list as it is; any other brings a list of its own, whose roles
are stored by then. -/
theorem listed_storeGuild (h : Listed past c) {fresh : Guild} (hn : (fresh.roles.map Role.id).Nodup)
    (hmem : ∀ r ∈ fresh.roles, (fresh.id, r.id) ∈ past) (ho : OneGuildEach past) :
    Listed past (c.storeGuild fresh).2 := by
  have hstored := listedIn_storeRoles c fresh.id hn
  have hd : Listed past (storeRoles c fresh.id fresh.roles) := listed_storeRoles h hmem ho
  refine ⟨hd.supplied, fun id g hg => ?_⟩
  refine ListedIn.congr (c := storeRoles c fresh.id fresh.roles) ?_ rfl rfl
  rw [get?_guilds_storeGuild] at hg
  generalize storeRoles c fresh.id fresh.roles = d at hstored hd hg
  split at hg
  · rename_i hid
    cases hg
    rw [hid]
    cases hk : d.guilds.get? fresh.id with
    | none => exact hstored
    | some known =>
      show ListedIn d fresh.id (if fresh.roles.isEmpty then known.roles else fresh.roles)
      split
      · exact hd.guilds _ known hk
      · exact hstored
  · exact hd.guilds id g hg

/-! ### All payloads -/

theorem listed_feed (h : Listed past c) (f : Feed) (hn : (f.supplies.map Prod.snd).Nodup)
    (hmem : f.supplies ⊆ past) (ho : OneGuildEach past) : Listed past (c.feed f) := by
  cases f with
  | user fresh => exact h.congr (sameRoles_storeUser c fresh)
  | guild fresh =>
    refine listed_storeGuild h (by simpa [Feed.supplies, Function.comp_def] using hn) ?_ ho
    exact fun r hr => hmem (List.mem_map.2 ⟨r, hr, rfl⟩)
  | member guild fresh => exact h.congr (sameRoles_storeMember c guild fresh)
  | role fresh => exact listed_storeRole h fresh
  | guildRole guild fresh => exact listed_storeGuildRole h (hmem (List.mem_singleton.2 rfl)) ho
  | message m => exact h.congr (sameRoles_absorb c m)

theorem listed_run {fs : List Feed} (hn : ∀ f ∈ fs, (f.supplies.map Prod.snd).Nodup)
    (ho : OneGuildEach (supplies fs)) : Listed (supplies fs) (run fs) :=
  List.foldlRecOn fs feed (listed_empty.mono (List.nil_subset _)) fun _ h f hf =>
    listed_feed h f (hn f hf) (fun _ hs => List.mem_flatMap.2 ⟨f, hf, hs⟩) ho

/-- Where no payload names a role twice and no role is supplied for two guilds, each role that a cached
guild lists is the cached one and known to be of the guild, and none is listed twice. A role that is
supplied for a cached guild is listed by it at once. -/
theorem guilds_list_cached_roles (fs : List Feed) (hn : ∀ f ∈ fs, (f.supplies.map Prod.snd).Nodup)
    (ho : OneGuildEach (supplies fs)) :
    (∀ id g, (run fs).guilds.get? id = some g → (g.roles.map Role.id).Nodup ∧
      ∀ r ∈ g.roles, (run fs).roles.get? r.id = some r ∧ (run fs).roleGuilds.get? r.id = some id) ∧
    ∀ before guild r g, fs = before ++ [.guildRole guild r] → (run before).guilds.get? guild = some g →
      ∃ g', (run fs).guilds.get? guild = some g' ∧ r ∈ g'.roles := by
  refine ⟨fun id g hg => ?_, fun before guild r g heq hg => ?_⟩
  · have hl := (listed_run hn ho).guilds id g hg
    exact ⟨hl.nodup, fun r hr => ⟨hl.cached r hr, hl.owned r hr⟩⟩
  · rw [heq, run_concat]
    exact mem_storeGuildRole _ hg r

/-- A guild comes after one of its roles, a role comes again by itself, the guild comes again without its
roles, and last a role that is new to it. -/
theorem guild_lists_renamed_and_new_role :
    let role (id : UInt64) (name : String) : Role := { (default : Role) with id := ⟨id⟩, name }
    let guild (roles : List Role) : Guild := { (default : Guild) with id := ⟨1⟩, roles }
    let before : List Feed := [.guildRole ⟨1⟩ (role 5 "early"), .guild (guild [role 3 "all", role 4 "old"]),
      .role (role 4 "renamed"), .guild (guild [])]
    let fs := before ++ [.guildRole ⟨1⟩ (role 6 "new")]
    (∀ f ∈ fs, (f.supplies.map Prod.snd).Nodup) ∧ OneGuildEach (supplies fs) ∧
      ((run fs).guilds.get? ⟨1⟩).map Guild.roles = some [role 3 "all", role 4 "renamed", role 6 "new"] ∧
      ∀ g, (run fs).guilds.get? ⟨1⟩ = some g → (g.roles.map Role.id).Nodup ∧
        ∀ r ∈ g.roles, (run fs).roles.get? r.id = some r ∧ (run fs).roleGuilds.get? r.id = some ⟨1⟩ := by
  intro role guild before fs
  have hn : ∀ f ∈ fs, (f.supplies.map Prod.snd).Nodup := by decide
  have ho : OneGuildEach (supplies fs) := by decide
  exact ⟨hn, ho, by decide, fun g hg => (guilds_list_cached_roles fs hn ho).1 ⟨1⟩ g hg⟩

end ChatApi.Cache
