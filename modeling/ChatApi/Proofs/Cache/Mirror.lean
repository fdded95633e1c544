import ChatApi.Proofs.Cache.Feed
import ChatApi.Proofs.Shelf

/-!
# Members hold the cached copy of their user

A user is copied into each of its members, of whatever guild, and comes to the cache in many ways: by
itself, as a member, as the author of a message or as one whom it mentions. `Mirrored` says that all
copies are the cached one, and that the memberships of a user list just the guilds in which it is a
cached member, which is how `storeUser` finds the copies. Storing a user or a member keeps that
(`mirrored_storeUser`, `mirrored_storeMember`), and so do all payloads.

Main theorem `members_hold_cached_user`.
-/

namespace ChatApi.Cache

structure Mirrored (c : Cache) : Prop where
  user_id : ∀ id u, c.users.get? id = some u → u.id = id
  guild : ∀ guild id m, c.members.get? (guild, id) = some m → m.guildId = some guild
  user : ∀ guild id m, c.members.get? (guild, id) = some m →
    ∃ u, c.users.get? id = some u ∧ m.user = some u
  joined : ∀ guild id, guild ∈ c.guildsOf id ↔ (c.members.get? (guild, id)).isSome
  nodup : ∀ id, (c.guildsOf id).Nodup

variable {c d : Cache}

theorem mirrored_empty : Mirrored {} := by
  refine ⟨?_, ?_, ?_, ?_, ?_⟩ <;> simp [guildsOf]

theorem guildsOf_congr (h : d.memberships = c.memberships) (id : UserId) : d.guildsOf id = c.guildsOf id := by
  simp only [guildsOf, h]

theorem Mirrored.congr (hm : Mirrored c) (h : SameUsers c d) : Mirrored d := by
  refine ⟨?_, ?_, ?_, ?_, ?_⟩
  · rw [h.users]; exact hm.user_id
  · rw [h.members]; exact hm.guild
  · rw [h.members, h.users]; exact hm.user
  · intro guild id
    rw [guildsOf_congr h.memberships, h.members]
    exact hm.joined guild id
  · intro id
    rw [guildsOf_congr h.memberships]
    exact hm.nodup id

/-! ### A user is stored -/

/-- Just the members of the user in the given guilds get its new copy. -/
theorem get?_refreshMembers (user : User) (guilds : List GuildId) (ms : Shelf (GuildId × UserId) Member)
    (guild : GuildId) (id : UserId) :
    (refreshMembers user guilds ms).get? (guild, id) =
      if id = user.id ∧ guild ∈ guilds then
        (ms.get? (guild, id)).map fun m => { m with user := some user }
      else ms.get? (guild, id) := by
  unfold refreshMembers
  induction guilds generalizing ms with
  | nil => simp
  | cons g guilds ih =>
    rw [List.foldl_cons, ih, Shelf.get?_modify]
    by_cases hid : id = user.id
    · by_cases hg : guild = g
      · subst hid hg
        by_cases hmem : guild ∈ guilds <;> simp [hmem, Function.comp_def]
      · simp [hid, hg]
    · simp [hid]

/-- What the cache holds of a user once `fresh` is merged into it. -/
def mergedUser (c : Cache) (fresh : User) : User :=
  ((c.users.get? fresh.id).map (·.merge fresh)).getD fresh

/-- What is read of the user afterwards, through the handle that it has by then. -/
theorem at?_users_storeUser (c : Cache) (fresh : User) :
    (c.storeUser fresh).2.users.at? (c.storeUser fresh).1 = some (c.mergedUser fresh) :=
  Shelf.at?_upsert ..

/-- The members get what is read of the user. -/
theorem members_storeUser (c : Cache) (fresh : User) :
    (c.storeUser fresh).2.members = refreshMembers (c.mergedUser fresh) (c.guildsOf fresh.id) c.members := by
  show refreshMembers (((c.storeUser fresh).2.users.at? (c.storeUser fresh).1).getD fresh) _ _ = _
  rw [at?_users_storeUser, Option.getD_some]

/-- A cached user keeps its identifier. -/
theorem id_mergedUser (hk : ∀ id u, c.users.get? id = some u → u.id = id) (fresh : User) :
    (c.mergedUser fresh).id = fresh.id := by
  unfold mergedUser
  cases hu : c.users.get? fresh.id with
  | none => rfl
  | some u => exact hk _ u hu

theorem get?_users_storeUser (c : Cache) (fresh : User) (id : UserId) :
    (c.storeUser fresh).2.users.get? id =
      if id = fresh.id then some (c.mergedUser fresh) else c.users.get? id :=
  Shelf.get?_upsert ..

/-- The copies are found through the memberships, so none is left behind. -/
theorem get?_members_storeUser (hm : Mirrored c) (fresh : User) (guild : GuildId) (id : UserId) :
    (c.storeUser fresh).2.members.get? (guild, id) =
      if id = fresh.id then
        (c.members.get? (guild, id)).map fun m => { m with user := some (c.mergedUser fresh) }
      else c.members.get? (guild, id) := by
  rw [members_storeUser, get?_refreshMembers, id_mergedUser hm.user_id]
  by_cases hid : id = fresh.id
  · subst hid
    by_cases hg : guild ∈ c.guildsOf fresh.id
    · simp [hg]
    · have hnone : c.members.get? (guild, fresh.id) = none := by
        simpa using mt (hm.joined guild fresh.id).2 hg
      simp [hg, hnone]
  · simp [hid]

theorem mirrored_storeUser (hm : Mirrored c) (fresh : User) : Mirrored (c.storeUser fresh).2 := by
  refine ⟨?_, ?_, ?_, ?_, hm.nodup⟩
  · intro id u hu
    rw [get?_users_storeUser] at hu
    split at hu
    · cases hu
      rw [id_mergedUser hm.user_id, ‹id = fresh.id›]
    · exact hm.user_id id u hu
  · intro guild id m h
    rw [get?_members_storeUser hm] at h
    split at h
    · obtain ⟨known, hk, rfl⟩ := Option.map_eq_some_iff.1 h
      exact hm.guild guild id known hk
    · exact hm.guild guild id m h
  · intro guild id m h
    rw [get?_members_storeUser hm] at h
    rw [get?_users_storeUser]
    split at h
    · obtain ⟨known, -, rfl⟩ := Option.map_eq_some_iff.1 h
      rw [if_pos ‹id = fresh.id›]
      exact ⟨_, rfl, rfl⟩
    · rw [if_neg ‹id ≠ fresh.id›]
      exact hm.user guild id m h
  · intro guild id
    rw [get?_members_storeUser hm]
    refine (hm.joined guild id).trans ?_
    split <;> simp

/-! ### A member is stored -/

theorem join_frame (c : Cache) (guild : GuildId) (user : UserId) :
    (c.join guild user).users = c.users ∧ (c.join guild user).members = c.members := by
  unfold join
  dsimp only
  split <;> exact ⟨rfl, rfl⟩

theorem guildsOf_join (c : Cache) (guild : GuildId) (user id : UserId) :
    (c.join guild user).guildsOf id =
      if id = user ∧ guild ∉ c.guildsOf user then c.guildsOf id ++ [guild] else c.guildsOf id := by
  unfold join
  dsimp only
  by_cases hg : guild ∈ c.guildsOf user
  · simp [hg]
  · by_cases hid : id = user
    · subst hid
      simp only [hg, if_false, not_false_eq_true, and_self, if_true]
      simp only [guildsOf, Table.get?_put_self, Option.getD_some]
    · simp only [hg, hid, if_false, false_and]
      simp only [guildsOf, Table.get?_put_ne _ _ hid]

/-- What the cache holds of a member once `fresh` is merged into it. -/
def heldMember (c : Cache) (guild : GuildId) (fresh : Member) (user : User) : Member :=
  { (((c.storeUser user).2.members.get? (guild, user.id)).map (·.merge fresh)).getD fresh with
    guildId := some guild
    user := some (c.mergedUser user) }

/-- The user comes first. The member is then merged, and its guild and its user are written into it through the
handle that it has by then. -/
theorem storeMember_of_user (c : Cache) (guild : GuildId) {fresh : Member} {user : User}
    (hu : fresh.user = some user) :
    ∃ members, (c.storeMember guild fresh).2 = { (c.storeUser user).2 with members }.join guild user.id ∧
      ∀ key, members.get? key =
        if key = (guild, user.id) then some (c.heldMember guild fresh user)
        else (c.storeUser user).2.members.get? key := by
  unfold storeMember
  rw [hu]
  refine ⟨_, rfl, fun key => ?_⟩
  have hread : ((c.storeUser user).2.users.at? (c.storeUser user).1).getD user = c.mergedUser user := by
    rw [at?_users_storeUser, Option.getD_some]
  rw [hread, Shelf.get?_rewrite (Shelf.handle?_upsert ..), Shelf.get?_upsert, Shelf.get?_upsert, if_pos rfl]
  by_cases hkey : key = (guild, user.id)
  · rw [if_pos hkey, if_pos hkey]
    rfl
  · rw [if_neg hkey, if_neg hkey, if_neg hkey]

/-- A member with its guild and the cached copy of its user may take its place, if the user joins the
guild with it. -/
theorem Mirrored.join_of_member (hd : Mirrored d) {guild : GuildId} {user : UserId} {m : Member}
    {members : Shelf (GuildId × UserId) Member}
    (hkeys : ∀ key, members.get? key = if key = (guild, user) then some m else d.members.get? key)
    (hguild : m.guildId = some guild) (huser : ∃ u, d.users.get? user = some u ∧ m.user = some u) :
    Mirrored ({ d with members }.join guild user) := by
  obtain ⟨husers, hmembers⟩ := join_frame { d with members } guild user
  have hof := guildsOf_join { d with members } guild user
  generalize { d with members }.join guild user = e at *
  have hget : ∀ g id, e.members.get? (g, id) =
      if (g, id) = (guild, user) then some m else d.members.get? (g, id) := by
    intro g id
    rw [hmembers]
    exact hkeys (g, id)
  have hof : ∀ id, e.guildsOf id =
      if id = user ∧ guild ∉ d.guildsOf user then d.guildsOf id ++ [guild] else d.guildsOf id := hof
  refine ⟨husers ▸ hd.user_id, ?_, ?_, ?_, ?_⟩
  · intro g id m' h
    rw [hget] at h
    split at h
    · rename_i heq
      cases heq; cases h
      exact hguild
    · exact hd.guild g id m' h
  · intro g id m' h
    rw [hget] at h
    rw [husers]
    split at h
    · rename_i heq
      cases heq; cases h
      exact huser
    · exact hd.user g id m' h
  · intro g id
    rw [hget, hof]
    by_cases hid : id = user
    · subst hid
      by_cases hg : g = guild
      · subst hg
        by_cases hknown : g ∈ d.guildsOf id <;> simp [hknown]
      · by_cases hknown : guild ∈ d.guildsOf id <;> simp [hknown, hg, hd.joined]
    · simp [hid, hd.joined]
  · intro id
    rw [hof]
    split
    · rename_i hnew
      have hnot : guild ∉ d.guildsOf id := hnew.1 ▸ hnew.2
      exact List.Nodup.append (hd.nodup id) (List.nodup_singleton _) (List.disjoint_singleton.2 hnot)
    · exact hd.nodup id

theorem mirrored_storeMember (hm : Mirrored c) (guild : GuildId) (fresh : Member) :
    Mirrored (c.storeMember guild fresh).2 := by
  cases hu : fresh.user with
  | none =>
    have hsame : (c.storeMember guild fresh).2 = c := by simp [storeMember, hu]
    rwa [hsame]
  | some user =>
    obtain ⟨members, heq, hkeys⟩ := storeMember_of_user c guild hu
    rw [heq]
    refine (mirrored_storeUser hm user).join_of_member hkeys rfl ⟨_, ?_, rfl⟩
    rw [get?_users_storeUser, if_pos rfl]

/-! ### All payloads -/

theorem mirrored_feed (hm : Mirrored c) (f : Feed) : Mirrored (c.feed f) := by
  cases f with
  | user fresh => exact mirrored_storeUser hm fresh
  | guild fresh => exact hm.congr (sameUsers_storeGuild c fresh)
  | member guild fresh => exact mirrored_storeMember hm guild fresh
  | role fresh => exact hm.congr (sameUsers_storeRole c fresh)
  | guildRole guild fresh => exact hm.congr (sameUsers_storeGuildRole c guild fresh)
  | message m =>
    exact absorb_induction (P := Mirrored) (fun _ u h => mirrored_storeUser h u)
      (fun _ guild m h => mirrored_storeMember h guild m) hm m

theorem mirrored_run (fs : List Feed) : Mirrored (run fs) :=
  List.foldlRecOn fs feed mirrored_empty fun _ h f _ => mirrored_feed h f

/-- Whatever the cache is fed with, a cached member holds its guild and the cached copy of its user, and
the memberships of a user list the guilds in which it is a cached member, each once. -/
theorem members_hold_cached_user (fs : List Feed) :
    (∀ guild id m, (run fs).members.get? (guild, id) = some m →
      m.guildId = some guild ∧ ∃ u, m.user = some u ∧ u.id = id ∧ (run fs).users.get? id = some u) ∧
    ∀ id, ((run fs).guildsOf id).Nodup ∧
      ∀ guild, guild ∈ (run fs).guildsOf id ↔ ((run fs).members.get? (guild, id)).isSome := by
  have hm := mirrored_run fs
  refine ⟨fun guild id m h => ⟨hm.guild guild id m h, ?_⟩, fun id => ⟨hm.nodup id, fun guild => hm.joined guild id⟩⟩
  obtain ⟨u, hcached, hcopy⟩ := hm.user guild id m h
  exact ⟨u, hcopy, hm.user_id id u hcached, hcached⟩

end ChatApi.Cache
