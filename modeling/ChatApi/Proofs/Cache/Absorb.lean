import ChatApi.Proofs.Cache.Mirror
import ChatApi.Proofs.Model.Merge

/-!
# What a message changes in the cache

A message names users and shows members: its author, unless a webhook wrote it, the member behind the author,
those whom it mentions, and all that the messages it answers name and show. `Absorbs` says of every entry of
the cache what becomes of it by merging given users and members: an entry depends on the payloads of its own
key only, and on nothing else (`absorbs_storeUser`, `absorbs_storeMember`). The copies that members hold of
their users are the one thing that changes beside, since they follow the cached users.

Main theorem `absorb_merges_just_named`.
-/

namespace ChatApi

/-! ### Whom a message is about -/

/-- The member that a post shows, under its guild. It comes without its user where that is the author. -/
def Post.shown (p : Post) : List (GuildId × Member) :=
  match p.isWebhook, p.guildId, p.member with
  | false, some guild, some member => [(guild, { member with user := some (member.user.getD p.author) })]
  | _, _, _ => []

/-- The users that a post names. A webhook's stand-in is not one of them. -/
def Post.named (p : Post) : List User :=
  (if p.isWebhook then [] else [p.author]) ++ p.shown.filterMap (·.2.user) ++ p.mentions

namespace Message

/-- The users that a message and those that it answers name. -/
def named (m : Message) : List User := m.chain.flatMap Post.named

/-- The members that a message and those that it answers show. -/
def shown (m : Message) : List (GuildId × Member) := m.chain.flatMap Post.shown

/-- Whether `id` is mentioned in the chain of a message, or is the author of a post in it that no webhook wrote, or
the member behind such an author. -/
def IsAbout (m : Message) (id : UserId) : Prop :=
  ∃ p ∈ m.chain, (∃ u ∈ p.mentions, u.id = id) ∨
    p.isWebhook = false ∧ (p.author.id = id ∨ p.guildId.isSome ∧ ∃ member ∈ p.member, member.userId = some id)

instance (m : Message) (id : UserId) : Decidable (m.IsAbout id) :=
  inferInstanceAs (Decidable (∃ p ∈ m.chain, _))

end Message

theorem Post.mem_named {p : Post} {id : UserId} : (∃ u ∈ p.named, u.id = id) ↔
    (∃ u ∈ p.mentions, u.id = id) ∨ p.isWebhook = false ∧
      (p.author.id = id ∨ p.guildId.isSome ∧ ∃ member ∈ p.member, member.userId = some id) := by
  unfold named shown
  cases p.isWebhook with
  | true => simp
  | false =>
    cases p.guildId with
    | none => simp [or_comm]
    | some guild =>
      cases p.member with
      | none => simp [or_comm]
      | some member =>
        cases hu : member.user with
        | none => simp [Member.userId, hu, or_comm]
        | some user => simp [Member.userId, hu, or_comm, or_left_comm, or_assoc]

theorem Message.mem_named {m : Message} {id : UserId} : (∃ u ∈ m.named, u.id = id) ↔ m.IsAbout id := by
  unfold named IsAbout
  simp only [← Post.mem_named, List.mem_flatMap]
  constructor
  · rintro ⟨u, ⟨p, hp, hu⟩, hid⟩
    exact ⟨p, hp, u, hu, hid⟩
  · rintro ⟨p, hp, u, hu, hid⟩
    exact ⟨u, ⟨p, hp, hu⟩, hid⟩

namespace Cache

/-- The payloads of one user. -/
def usersOf (named : List User) (id : UserId) : List User := named.filter (·.id = id)

/-- The payloads of one member. -/
def membersOf (shown : List (GuildId × Member)) (guild : GuildId) (id : UserId) : List Member :=
  (shown.filter fun s => s.1 = guild ∧ s.2.userId = some id).map Prod.snd

/-- Each cached user is found under its own identifier. -/
def Keyed (c : Cache) : Prop := ∀ id u, c.users.get? id = some u → u.id = id

/-- The copy that a member holds of its user follows the cached one: a payload of it came, or one of its user
when the cache knew it for a member. -/
def Follows (c : Cache) (named : List User) (shown : List (GuildId × Member)) (guild : GuildId) (id : UserId) :
    Prop :=
  membersOf shown guild id ≠ [] ∨ usersOf named id ≠ [] ∧ guild ∈ c.guildsOf id

instance (c : Cache) (named : List User) (shown : List (GuildId × Member)) (guild : GuildId) (id : UserId) :
    Decidable (c.Follows named shown guild id) := inferInstanceAs (Decidable (_ ∨ _))

/-- Cache `d` is cache `c` with the users `named` and the members `shown` merged into it. -/
structure Absorbs (c : Cache) (named : List User) (shown : List (GuildId × Member)) (d : Cache) : Prop where
  users : ∀ id, d.users.get? id = mergeAll User.merge ((c.users.get? id).toList ++ usersOf named id)
  /-- A member is merged from its payloads. Its guild is filled in, and what it holds as its user is a copy. -/
  members : ∀ guild id, ∃ copy,
    d.members.get? (guild, id) =
      (mergeAll Member.merge ((c.members.get? (guild, id)).toList ++ membersOf shown guild id)).map (fun m =>
        { m with user := copy, guildId := if membersOf shown guild id = [] then m.guildId else some guild }) ∧
    (c.Keyed → copy = if c.Follows named shown guild id then d.users.get? id
      else (c.members.get? (guild, id)).bind Member.user)
  joined : ∀ guild id, guild ∈ d.guildsOf id ↔ guild ∈ c.guildsOf id ∨ membersOf shown guild id ≠ []
  others : SameRoles c d

variable {c d : Cache} {named more : List User} {shown further : List (GuildId × Member)} {guild : GuildId}
  {id : UserId}

/-! ### Payloads of one key -/

theorem usersOf_append (named more : List User) (id : UserId) :
    usersOf (named ++ more) id = usersOf named id ++ usersOf more id :=
  List.filter_append ..

theorem membersOf_append (shown further : List (GuildId × Member)) (guild : GuildId) (id : UserId) :
    membersOf (shown ++ further) guild id = membersOf shown guild id ++ membersOf further guild id := by
  simp [membersOf]

theorem usersOf_self (u : User) : usersOf [u] u.id = [u] := by simp [usersOf]

theorem usersOf_of_ne {u : User} (h : id ≠ u.id) : usersOf [u] id = [] := by
  simp [usersOf, Ne.symm h]

theorem usersOf_ne_nil : usersOf named id ≠ [] ↔ ∃ u ∈ named, u.id = id := by
  simp [usersOf]

theorem membersOf_self {m : Member} {u : User} (hu : m.user = some u) : membersOf [(guild, m)] guild u.id = [m] := by
  simp [membersOf, Member.userId, hu]

theorem membersOf_of_ne {m : Member} {u : User} {other : GuildId} (hu : m.user = some u)
    (h : (guild, id) ≠ (other, u.id)) : membersOf [(other, m)] guild id = [] := by
  have hne : ¬(other = guild ∧ u.id = id) := by
    rintro ⟨rfl, rfl⟩
    exact h rfl
  simp [membersOf, Member.userId, hu, hne]

/-! ### One payload more -/

theorem absorbs_refl (c : Cache) : Absorbs c [] [] c := by
  refine ⟨?_, ?_, ?_, .refl c⟩
  · intro id
    cases c.users.get? id <;> simp [usersOf, mergeAll]
  · intro guild id
    refine ⟨(c.members.get? (guild, id)).bind Member.user, ?_, ?_⟩
    · cases c.members.get? (guild, id) <;> simp [membersOf, mergeAll]
    · simp [Follows, usersOf, membersOf]
  · simp [membersOf]

/-- A user that is merged from payloads of one identifier has that identifier. -/
theorem Absorbs.keyed (h : Absorbs c named shown d) (hk : c.Keyed) : d.Keyed := by
  intro id u hu
  rw [h.users] at hu
  cases hc : c.users.get? id with
  | some x =>
    rw [hc] at hu
    cases hu
    exact (User.id_foldl_merge x _).trans (hk id x hc)
  | none =>
    rw [hc] at hu
    cases hl : usersOf named id with
    | nil =>
      rw [hl] at hu
      cases hu
    | cons x fs =>
      rw [hl] at hu
      cases hu
      have hmem : x ∈ usersOf named id := hl ▸ List.mem_cons_self
      exact (User.id_foldl_merge x fs).trans (by simpa using (List.mem_filter.1 hmem).2)

/-- A copy that follows its user is that of a member whom the cache knows by then. -/
theorem Absorbs.joined_of_follows (h : Absorbs c named shown d) (hf : c.Follows named shown guild id) :
    guild ∈ d.guildsOf id := by
  rw [h.joined]
  rcases hf with hshown | ⟨-, hknown⟩
  · exact .inr hshown
  · exact .inl hknown

theorem Absorbs.follows_self_iff (h : Absorbs c named shown d) (u : User) :
    c.Follows (named ++ [u]) shown guild u.id ↔ guild ∈ d.guildsOf u.id := by
  rw [h.joined, or_comm, Follows, usersOf_append, usersOf_self]
  simp

theorem follows_iff_of_ne {u : User} (h : id ≠ u.id) :
    c.Follows (named ++ [u]) shown guild id ↔ c.Follows named shown guild id := by
  unfold Follows
  rw [usersOf_append, usersOf_of_ne h, List.append_nil]

/-- The user changes, and the copies that its members hold of it. -/
theorem absorbs_storeUser (h : Absorbs c named shown d) (u : User) :
    Absorbs c (named ++ [u]) shown (d.storeUser u).2 := by
  refine ⟨?_, ?_, h.joined, h.others.trans (sameRoles_storeUser d u)⟩
  · intro id
    rw [get?_users_storeUser, usersOf_append]
    by_cases hid : id = u.id
    · subst hid
      rw [if_pos rfl, usersOf_self, ← List.append_assoc, mergeAll_concat, ← h.users]
      rfl
    · rw [if_neg hid, usersOf_of_ne hid, List.append_nil]
      exact h.users id
  · intro guild id
    obtain ⟨copy, heq, hcopy⟩ := h.members guild id
    have hget : (d.storeUser u).2.members.get? (guild, id) =
        if id = (d.mergedUser u).id ∧ guild ∈ d.guildsOf u.id then
          (d.members.get? (guild, id)).map fun m => { m with user := some (d.mergedUser u) }
        else d.members.get? (guild, id) := by rw [members_storeUser, get?_refreshMembers]
    rw [hget, heq]
    by_cases hfresh : id = (d.mergedUser u).id ∧ guild ∈ d.guildsOf u.id
    · -- a copy is replaced
      refine ⟨some (d.mergedUser u), ?_, ?_⟩
      · rw [if_pos hfresh, Option.map_map]
        rfl
      · intro hk
        have hid : id = u.id := hfresh.1.trans (id_mergedUser (h.keyed hk) u)
        subst hid
        rw [if_pos ((h.follows_self_iff u).2 hfresh.2), get?_users_storeUser, if_pos rfl]
    · -- the copy is that of another user, or not known for one
      refine ⟨copy, by rw [if_neg hfresh], ?_⟩
      intro hk
      rw [id_mergedUser (h.keyed hk)] at hfresh
      rw [hcopy hk]
      by_cases hid : id = u.id
      · subst hid
        have hout : guild ∉ d.guildsOf u.id := fun hmem => hfresh ⟨rfl, hmem⟩
        rw [if_neg (mt h.joined_of_follows hout), if_neg (mt (h.follows_self_iff u).1 hout)]
      · simp only [follows_iff_of_ne hid, get?_users_storeUser, if_neg hid]

theorem users_storeMember (c : Cache) (place : GuildId) {m : Member} {u : User} (hu : m.user = some u) :
    (c.storeMember place m).2.users = (c.storeUser u).2.users := by
  obtain ⟨members, heq, -⟩ := storeMember_of_user c place hu
  rw [heq]
  exact (join_frame ..).1

theorem get?_members_storeMember (c : Cache) (place : GuildId) {m : Member} {u : User} (hu : m.user = some u)
    (key : GuildId × UserId) :
    (c.storeMember place m).2.members.get? key =
      if key = (place, u.id) then some (c.heldMember place m u) else (c.storeUser u).2.members.get? key := by
  obtain ⟨members, heq, hkeys⟩ := storeMember_of_user c place hu
  rw [heq, (join_frame ..).2]
  exact hkeys key

theorem mem_guildsOf_storeMember (c : Cache) (place : GuildId) {m : Member} {u : User} (hu : m.user = some u)
    (guild : GuildId) (id : UserId) :
    guild ∈ (c.storeMember place m).2.guildsOf id ↔ guild ∈ c.guildsOf id ∨ (guild, id) = (place, u.id) := by
  obtain ⟨members, heq, -⟩ := storeMember_of_user c place hu
  rw [heq, guildsOf_join]
  show guild ∈ (if id = u.id ∧ place ∉ c.guildsOf u.id then c.guildsOf id ++ [place] else c.guildsOf id) ↔ _
  by_cases hid : id = u.id
  · subst hid
    by_cases hknown : place ∈ c.guildsOf u.id
    · -- the member is known there already
      simp only [hknown, not_true_eq_false, and_false, if_false, Prod.mk.injEq, and_true]
      constructor
      · exact Or.inl
      · rintro (hmem | rfl)
        · exact hmem
        · exact hknown
    · simp [hknown]
  · simp [hid]

/-- Its guild and the copy of its user do not matter for what else a member holds. -/
theorem heldMember_eq {d : Cache} {guild : GuildId} {fresh : Member} {user : User} {merged : Option Member}
    {copy : Option User} {f : Member → Option GuildId}
    (h : (d.storeUser user).2.members.get? (guild, user.id) =
      merged.map fun m => { m with user := copy, guildId := f m }) :
    d.heldMember guild fresh user =
      { (merged.map (·.merge fresh)).getD fresh with
        guildId := some guild
        user := some (d.mergedUser user) } := by
  unfold heldMember
  rw [h]
  cases merged <;> rfl

/-- The member and its user change, and the other copies of that user. -/
theorem absorbs_storeMember (h : Absorbs c named shown d) (place : GuildId) {m : Member} {u : User}
    (hu : m.user = some u) : Absorbs c (named ++ [u]) (shown ++ [(place, m)]) (d.storeMember place m).2 := by
  have hd := absorbs_storeUser h u
  refine ⟨?_, ?_, ?_, h.others.trans (sameRoles_storeMember d place m)⟩
  · intro id
    rw [users_storeMember d place hu]
    exact hd.users id
  · intro guild id
    rw [get?_members_storeMember d place hu, users_storeMember d place hu]
    by_cases hkey : (guild, id) = (place, u.id)
    · cases hkey
      obtain ⟨copy, heq, -⟩ := hd.members place u.id
      refine ⟨some (d.mergedUser u), ?_, ?_⟩
      · rw [if_pos rfl, heldMember_eq heq, membersOf_append, membersOf_self hu, ← List.append_assoc, mergeAll_concat]
        simp
      · intro _
        have hfollows : c.Follows (named ++ [u]) (shown ++ [(place, m)]) place u.id := by
          left
          rw [membersOf_append, membersOf_self hu]
          simp
        rw [if_pos hfollows, get?_users_storeUser, if_pos rfl]
    · obtain ⟨copy, heq, hcopy⟩ := hd.members guild id
      have hsame : membersOf (shown ++ [(place, m)]) guild id = membersOf shown guild id := by
        rw [membersOf_append, membersOf_of_ne hu hkey, List.append_nil]
      have hfollows : c.Follows (named ++ [u]) (shown ++ [(place, m)]) guild id ↔
          c.Follows (named ++ [u]) shown guild id := by
        unfold Follows
        rw [hsame]
      refine ⟨copy, ?_, ?_⟩
      · rw [if_neg hkey, hsame]
        exact heq
      · simp only [hfollows]
        exact hcopy
  · intro guild id
    rw [mem_guildsOf_storeMember d place hu, h.joined, membersOf_append, or_assoc]
    refine or_congr_right ?_
    by_cases hkey : (guild, id) = (place, u.id)
    · cases hkey
      simp [membersOf_self hu]
    · rw [membersOf_of_ne hu hkey, List.append_nil]
      simp only [hkey, or_false]

/-! ### Messages -/

theorem absorbs_mentions (h : Absorbs c named shown d) (mentions : List User) :
    Absorbs c (named ++ mentions) shown (mentions.foldl (fun d u => (d.storeUser u).2) d) := by
  induction mentions generalizing named d with
  | nil => simpa using h
  | cons u mentions ih =>
    have := ih (absorbs_storeUser h u)
    simpa using this

/-- The author comes first, and then the member behind it. -/
theorem absorbs_absorbAuthor (h : Absorbs c named shown d) (p : Post) :
    Absorbs c (named ++ ((if p.isWebhook then [] else [p.author]) ++ p.shown.filterMap (·.2.user)))
      (shown ++ p.shown) (d.absorbAuthor p) := by
  unfold absorbAuthor Post.shown
  cases p.isWebhook with
  | true => simpa using h
  | false =>
    have hauthor := absorbs_storeUser h p.author
    cases p.guildId with
    | none => simpa using hauthor
    | some guild =>
      cases p.member with
      | none => simpa using hauthor
      | some member =>
        have := absorbs_storeMember hauthor guild
          (m := { member with user := some (member.user.getD p.author) }) rfl
        simpa using this

theorem absorbs_absorbPost (h : Absorbs c named shown d) (p : Post) :
    Absorbs c (named ++ p.named) (shown ++ p.shown) (d.absorbPost p) := by
  have := absorbs_mentions (absorbs_absorbAuthor h p) p.mentions
  rwa [List.append_assoc] at this

theorem absorbs_chain (h : Absorbs c named shown d) (chain : List Post) :
    Absorbs c (named ++ chain.flatMap Post.named) (shown ++ chain.flatMap Post.shown) (chain.foldl absorbPost d) := by
  induction chain generalizing named shown d with
  | nil => simpa using h
  | cons p chain ih =>
    have := ih (absorbs_absorbPost h p)
    simpa using this

theorem absorbs_absorb (c : Cache) (m : Message) : Absorbs c m.named m.shown (c.absorb m) :=
  absorbs_chain (absorbs_refl c) m.chain

/-- Who has no payload stays as it is. -/
theorem Absorbs.users_of_notMem (h : Absorbs c named shown d) (hid : ¬∃ u ∈ named, u.id = id) :
    d.users.get? id = c.users.get? id := by
  have hnone : usersOf named id = [] := not_not.1 (mt usersOf_ne_nil.1 hid)
  rw [h.users, hnone, List.append_nil]
  cases c.users.get? id <;> rfl

theorem Absorbs.isSome_users (h : Absorbs c named shown d) :
    (d.users.get? id).isSome ↔ (c.users.get? id).isSome ∨ ∃ u ∈ named, u.id = id := by
  rw [h.users, ← usersOf_ne_nil]
  cases c.users.get? id with
  | some u => simp [mergeAll]
  | none => cases usersOf named id <;> simp [mergeAll]

theorem keyed_run (fs : List Feed) : (run fs).Keyed := (mirrored_run fs).user_id

/-- A message, with all that it answers, changes just this in the cache: the users that it names are merged, and
the members that it shows with the guild and the cached user of each; the copies of a user follow it. All
other users, what other members hold beside those copies, guilds and roles stay as they are. A user whom the cache
does not know enters it only if the message is about it, which it is not for having a webhook's stand-in
as an author. -/
theorem absorb_merges_just_named (c : Cache) (m : Message) :
    Absorbs c m.named m.shown (c.absorb m) ∧
    (∀ id, ((c.absorb m).users.get? id).isSome ↔ (c.users.get? id).isSome ∨ m.IsAbout id) ∧
    ∀ id, ¬m.IsAbout id → (c.absorb m).users.get? id = c.users.get? id := by
  have h := absorbs_absorb c m
  refine ⟨h, fun id => ?_, fun id hid => ?_⟩
  · rw [h.isSome_users, Message.mem_named]
  · exact h.users_of_notMem (mt Message.mem_named.1 hid)

/-- A webhook's message mentions one user and answers a member of a guild: both are cached, its own author is
not. -/
theorem webhook_author_left_out :
    let user (id : UInt64) : User := { (default : User) with id := ⟨id⟩ }
    let member : Member := ⟨none, none, none, none, [⟨8⟩], none, false, false, 0, none, none⟩
    let post (author : UInt64) (webhook : Option WebhookId) (mentions : List User) : Post :=
      ⟨⟨1⟩, ⟨2⟩, some ⟨7⟩, "", [], user author, some member, webhook,
        ⟨⟨⟨2020, 1, 1⟩, 0, 0, 0, 0, 0⟩, by decide, by decide⟩, none, false, false, mentions, [], false, 0, 0, none⟩
    let m : Message := ⟨post 3 (some ⟨3⟩) [user 4], [post 5 none []]⟩
    let c : Cache := run [.user (user 4)]
    ¬m.IsAbout ⟨3⟩ ∧ (c.absorb m).users.get? ⟨3⟩ = none ∧ ((c.absorb m).users.get? ⟨5⟩).isSome ∧
      ∃ e, (c.absorb m).members.get? (⟨7⟩, ⟨5⟩) = some e ∧ e.roles = [⟨8⟩] ∧
        e.user = (c.absorb m).users.get? ⟨5⟩ := by
  intro user member post m c
  have habout : ¬m.IsAbout ⟨3⟩ := by decide
  obtain ⟨habsorbs, hsome, hsame⟩ := absorb_merges_just_named c m
  obtain ⟨copy, heq, hcopy⟩ := habsorbs.members ⟨7⟩ ⟨5⟩
  refine ⟨habout, hsame ⟨3⟩ habout, (hsome ⟨5⟩).2 (.inr (by decide)), _, heq, rfl, ?_⟩
  exact (hcopy (keyed_run _)).trans (if_pos (.inl (by decide)))

end Cache

end ChatApi
