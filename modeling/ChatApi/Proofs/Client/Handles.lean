import ChatApi.Proofs.Cache.Handles
import ChatApi.Proofs.Client.Failure
import ChatApi.Proofs.Json.Source
import Mathlib.Data.List.Forall2

/-!
# Calls give the handles that the cache holds

A call feeds the cache with what it reads in the response, and with nothing else (`Endpoint.isFed_conclude`). So the cache
of a client is one that was fed, whatever calls it has seen, and its handles last (`handles_last`). What a call
gives back are the handles of just the entities in the response, in their order (`Endpoint.Answers`).
-/

namespace ChatApi.Client

/-- Something that happens to the cache: it is fed, or a call reads a response. -/
inductive Change
  | feed (f : Cache.Feed)
  | call (e : Endpoint) (r : Http.Response)

def Change.applyTo (c : Cache) : Change → Cache
  | .feed f => c.feed f
  | .call e r => (e.conclude c r).2

/-- A new cache after some changes. -/
def cacheAfter (changes : List Change) : Cache := changes.foldl Change.applyTo {}

/-- The cache holds under `h` the member of a guild that a payload is about. -/
def HoldsMember (c : Cache) (guild : GuildId) (m : Member) (h : Handle Member) : Prop :=
  ∃ u, m.user = some u ∧ c.members.handle? (guild, u.id) = some h

namespace Endpoint

/-- The answer of a call has the handles of the entities in the response, one after another, under which cache
`c` holds them. -/
def Answers (e : Endpoint) (r : Http.Response) (c : Cache) (a : Answer) : Prop :=
  match e with
  | getUser _ => ∃ u h, decode User.codec r = .ok u ∧ a = .user h ∧ c.users.handle? u.id = some h
  | createGuild _ | getGuild _ _ =>
    ∃ g h, decode Guild.codec r = .ok g ∧ a = .guild h ∧ c.guilds.handle? g.id = some h
  | getMember guild _ => ∃ m h, decode Member.codec r = .ok m ∧ a = .member h ∧ HoldsMember c guild m h
  | addMember guild _ _ _ _ =>
    r.status = .noContent ∧ a = .nothing ∨
      ∃ m h, decode Member.codec r = .ok m ∧ a = .member h ∧ HoldsMember c guild m h
  | listMembers guild _ _ =>
    ∃ ms hs, decode (Json.Codec.list Member.codec) r = .ok ms ∧ a = .members hs ∧
      List.Forall₂ (HoldsMember c guild) ms hs
  | getRoles _ =>
    ∃ rs hs, decode (Json.Codec.list Role.codec) r = .ok rs ∧ a = .roles hs ∧
      List.Forall₂ (fun role h => c.roles.handle? role.id = some h) rs hs
  | createRole _ _ _ _ =>
    ∃ role h, decode Role.codec r = .ok role ∧ a = .role h ∧ c.roles.handle? role.id = some h
  | getCurrentUser | removeMember _ _ _ | banMember _ _ _ _ | getMessage _ _ | getMessages _ _ _
  | sendMessage _ _ _ | deleteMessage _ _ _ | executeWebhook _ _ _ _ _ | respond _ _ _ | raw _ => True

variable {c d : Cache} {r : Http.Response} {guild : GuildId} {a : Answer}

/-! ### What a call feeds the cache with -/

theorem storeMember_snd (c : Cache) (guild : GuildId) (m : Member) :
    (storeMember c guild m).2 = (c.storeMember guild m).2 := by
  unfold storeMember
  cases (c.storeMember guild m) with
  | mk h d => cases h <;> rfl

theorem isFed_storeMembers (c : Cache) (guild : GuildId) (ms : List Member) :
    c.IsFed (storeMembers c guild ms).2 := by
  induction ms generalizing c with
  | nil => exact .refl c
  | cons m ms ih =>
    have hm : c.IsFed (storeMember c guild m).2 := storeMember_snd c guild m ▸ Cache.isFed_feed c (.member guild m)
    unfold storeMembers
    split
    · rename_i e d heq
      rw [heq] at hm
      exact hm
    · rename_i h d heq
      rw [heq] at hm
      exact hm.trans (ih d)

theorem isFed_storeRoles (c : Cache) (guild : GuildId) (rs : List Role) : c.IsFed (storeRoles c guild rs).2 := by
  induction rs generalizing c with
  | nil => exact .refl c
  | cons role rs ih => exact (Cache.isFed_feed c (.guildRole guild role)).trans (ih _)

/-- A response that cannot be read feeds the cache with nothing. -/
theorem isFed_reading {α : Type} {codec : Json.Codec α} {f : α → Except ApiError Answer × Cache}
    (h : ∀ x, c.IsFed (f x).2) : c.IsFed (reading codec c r f).2 := by
  unfold reading
  split
  · exact h _
  · exact .refl c

theorem isFed_conclude (e : Endpoint) (c : Cache) (r : Http.Response) : c.IsFed (e.conclude c r).2 := by
  have member (guild : GuildId) (m : Member) : c.IsFed (storeMember c guild m).2 := by
    rw [storeMember_snd]
    exact Cache.isFed_feed c (.member guild m)
  have message (m : Message) : c.IsFed (c.absorb m) := Cache.isFed_feed c (.message m)
  cases e with
  | getUser _ => exact isFed_reading fun u => Cache.isFed_feed c (.user u)
  | getCurrentUser => exact isFed_reading fun u => Cache.isFed_feed c (.user u.user)
  | createGuild _ | getGuild _ _ => exact isFed_reading fun g => Cache.isFed_feed c (.guild g)
  | getMember guild _ => exact isFed_reading fun m => member guild m
  | listMembers guild _ _ => exact isFed_reading fun ms => isFed_storeMembers c guild ms
  | addMember guild _ _ _ _ =>
    unfold conclude
    dsimp only
    split
    · exact .refl c
    · exact isFed_reading fun m => member guild m
  | getRoles guild => exact isFed_reading fun rs => isFed_storeRoles c guild rs
  | createRole guild _ _ _ => exact isFed_reading fun role => Cache.isFed_feed c (.guildRole guild role)
  | getMessage _ _ | sendMessage _ _ _ => exact isFed_reading message
  | getMessages _ _ _ =>
    exact isFed_reading fun ms => Cache.isFed_foldl (fun c m => Cache.isFed_feed c (.message m)) c ms
  | executeWebhook _ _ _ _ _ =>
    unfold conclude
    dsimp only
    split
    · exact .refl c
    · exact isFed_reading message
  | removeMember _ _ _ | banMember _ _ _ _ | deleteMessage _ _ _ | respond _ _ _ | raw _ => exact .refl c

/-! ### What a call gives back -/

theorem holdsMember_of_storeMember {m : Member} {h : Handle Member} (hm : (storeMember c guild m).1 = .ok h) :
    HoldsMember (storeMember c guild m).2 guild m h := by
  rw [storeMember_snd]
  cases hu : m.user with
  | none =>
    unfold storeMember at hm
    rw [Cache.storeMember_of_none c guild hu] at hm
    cases hm
  | some u =>
    obtain ⟨h', hh, hgives⟩ := Cache.gives_storeMember c guild hu
    unfold storeMember at hm
    split at hm
    · rename_i heq
      rw [heq] at hh
      cases hm; cases hh
      exact ⟨u, hu, hgives.after⟩
    · cases hm

theorem HoldsMember.extends {m : Member} {h : Handle Member} (hm : HoldsMember c guild m h) (he : c.Extends d) :
    HoldsMember d guild m h := by
  obtain ⟨u, hu, hh⟩ := hm
  exact ⟨u, hu, he.members.handle? hh⟩

/-- Members that come later leave the handles of those before as they are. -/
theorem forall₂_storeMembers {ms : List Member} {hs : List (Handle Member)}
    (h : (storeMembers c guild ms).1 = .ok hs) :
    List.Forall₂ (HoldsMember (storeMembers c guild ms).2 guild) ms hs := by
  induction ms generalizing c hs with
  | nil =>
    cases h
    exact .nil
  | cons m ms ih =>
    unfold storeMembers at h ⊢
    split at h
    · cases h
    · rename_i handle d heq
      have hm : (storeMember c guild m).1 = .ok handle := by rw [heq]
      have hheld := holdsMember_of_storeMember hm
      rw [heq] at hheld
      have hext := (isFed_storeMembers d guild ms).extends
      dsimp only at h ⊢
      cases hs' : (storeMembers d guild ms).1 with
      | error e =>
        rw [hs'] at h
        cases h
      | ok rest =>
        rw [hs'] at h
        cases h
        exact .cons (HoldsMember.extends hheld hext) (ih hs')

theorem forall₂_storeRoles (c : Cache) (guild : GuildId) (rs : List Role) :
    List.Forall₂ (fun role h => (storeRoles c guild rs).2.roles.handle? role.id = some h) rs
      (storeRoles c guild rs).1 := by
  induction rs generalizing c with
  | nil => exact .nil
  | cons role rs ih =>
    have hgives := Cache.gives_storeGuildRole c guild role
    have hext := (isFed_storeRoles (c.storeGuildRole guild role).2 guild rs).extends
    exact .cons (hext.roles.handle? hgives.after) (ih _)

/-- A call that succeeds has read the response. -/
theorem ok_of_reading {α : Type} {codec : Json.Codec α} {f : α → Except ApiError Answer × Cache}
    (h : (reading codec c r f).1 = .ok a) :
    ∃ x, decode codec r = .ok x ∧ (f x).1 = .ok a ∧ (reading codec c r f).2 = (f x).2 := by
  unfold reading at h ⊢
  cases hd : decode codec r with
  | error e =>
    rw [hd] at h
    cases h
  | ok x =>
    rw [hd] at h
    exact ⟨x, rfl, h, rfl⟩

theorem answers_conclude {e : Endpoint} (h : (e.conclude c r).1 = .ok a) : e.Answers r (e.conclude c r).2 a := by
  have member (guild : GuildId)
      (h : (reading Member.codec c r fun m => ((storeMember c guild m).1.map .member, (storeMember c guild m).2)).1 =
        .ok a) :
      ∃ m h', decode Member.codec r = .ok m ∧ a = .member h' ∧
        HoldsMember (reading Member.codec c r fun m =>
          ((storeMember c guild m).1.map .member, (storeMember c guild m).2)).2 guild m h' := by
    obtain ⟨m, hread, hm, hcache⟩ := ok_of_reading h
    obtain ⟨h', hok, rfl⟩ := Json.ok_of_map hm
    rw [hcache]
    exact ⟨m, h', hread, rfl, holdsMember_of_storeMember hok⟩
  cases e with
  | getUser _ =>
    obtain ⟨u, hread, hu, hcache⟩ := ok_of_reading h
    cases hu
    refine ⟨u, _, hread, rfl, ?_⟩
    rw [conclude, hcache]
    exact (Cache.gives_storeUser c u).after
  | createGuild _ | getGuild _ _ =>
    obtain ⟨g, hread, hg, hcache⟩ := ok_of_reading h
    cases hg
    refine ⟨g, _, hread, rfl, ?_⟩
    rw [conclude, hcache]
    exact (Cache.gives_storeGuild c g).after
  | getMember guild _ => exact member guild h
  | listMembers guild _ _ =>
    obtain ⟨ms, hread, hms, hcache⟩ := ok_of_reading h
    obtain ⟨hs, hok, rfl⟩ := Json.ok_of_map hms
    refine ⟨ms, hs, hread, rfl, ?_⟩
    rw [conclude, hcache]
    exact forall₂_storeMembers hok
  | addMember guild _ _ _ _ =>
    unfold conclude at h ⊢
    dsimp only at h ⊢
    split at h
    · rename_i hstatus
      cases h
      exact .inl ⟨hstatus, rfl⟩
    · rename_i hstatus
      rw [if_neg hstatus]
      exact .inr (member guild h)
  | getRoles guild =>
    obtain ⟨rs, hread, hrs, hcache⟩ := ok_of_reading h
    cases hrs
    refine ⟨rs, _, hread, rfl, ?_⟩
    rw [conclude, hcache]
    exact forall₂_storeRoles c guild rs
  | createRole guild _ _ _ =>
    obtain ⟨role, hread, hrole, hcache⟩ := ok_of_reading h
    cases hrole
    refine ⟨role, _, hread, rfl, ?_⟩
    rw [conclude, hcache]
    exact (Cache.gives_storeGuildRole c guild role).after
  | getCurrentUser | removeMember _ _ _ | banMember _ _ _ _ | getMessage _ _ | getMessages _ _ _
  | sendMessage _ _ _ | deleteMessage _ _ _ | executeWebhook _ _ _ _ _ | respond _ _ _ | raw _ => trivial

end Endpoint

/-! ### All changes -/

theorem isFed_applyTo (c : Cache) (change : Change) : c.IsFed (change.applyTo c) := by
  cases change with
  | feed f => exact Cache.isFed_feed c f
  | call e r => exact Endpoint.isFed_conclude e c r

/-- Whatever happens to a cache, it is fed by it. -/
theorem isFed_cacheAfter (before after : List Change) :
    (cacheAfter before).IsFed (cacheAfter (before ++ after)) := by
  unfold cacheAfter
  rw [List.foldl_append]
  exact Cache.isFed_foldl isFed_applyTo _ after

namespace Session

variable {x y : Session} {i : Nat}

theorem isFed_of_settles {c d : Call} {e : AttemptEnd} (h : c.Settles x e d) :
    x.client.cache.IsFed (d.leftCache?.getD x.client.cache) := by
  cases h with
  | again _ => exact .refl _
  | failed _ => exact .refl _
  | answered _ => exact Endpoint.isFed_conclude ..

theorem isFed_stepCall (h : x.stepCall i = some y) : x.client.cache.IsFed y.client.cache := by
  obtain ⟨c, d, sent, -, -, moves, hcache⟩ := cache_stepCall h
  rw [hcache]
  cases moves with
  | unsent _ _ settles | unanswered _ _ settles | landed _ _ settles => exact isFed_of_settles settles
  | _ => exact .refl _

/-- Whatever calls do side by side, the cache changes only by being fed. -/
theorem Leads.isFed (hl : Leads x y) : x.client.cache.IsFed y.client.cache := by
  induction hl with
  | refl => exact .refl _
  | @tail y z _ hn ih =>
    refine ih.trans ?_
    cases hn with
    | step step => exact isFed_stepCall step
    | drop drops =>
      obtain ⟨hc, -, error⟩ := drops
      exact (keeps_finish y _ _ _).cache ▸ .refl _
    | cancel i =>
      rw [client_cancel]
      exact .refl _
    | schedule later => exact .refl _
    | start e delay cancelAfter =>
      rw [client_start]
      exact .refl _

end Session

/-- Whatever happens to a new cache, and whatever calls do to it side by side, who has an entry keeps the handle
of it, and who comes gets one of its own, which shows the entry of that key and no other from then on. Whatever
is stored has the handle that the cache holds it under. So a call that succeeds gives the handles of the entities
in the response, one after another. -/
theorem handles_last (before after : List Change) :
    let c := cacheAfter before
    let d := cacheAfter (before ++ after)
    c.KeepsHandles d ∧ d.GivesHandles ∧
    (∀ (e : Endpoint) (r : Http.Response) (a : Answer), (e.conclude d r).1 = .ok a →
      e.Answers r (e.conclude d r).2 a) ∧
    ∀ (x y : Session), x.client.cache = c → x.Leads y → c.KeepsHandles y.client.cache := by
  intro c d
  have hfed : Cache.IsFed {} c := isFed_cacheAfter [] before
  refine ⟨hfed.keepsHandles (isFed_cacheAfter before after), Cache.givesHandles d,
    fun e r a h => Endpoint.answers_conclude h, fun x y hx hl => ?_⟩
  exact hfed.keepsHandles (hx ▸ hl.isFed)

/-- A user is fetched again after its name has changed: the handle is the one from before, it shows the new name,
and it is the one that a client holds after another call was started. -/
theorem renamed_user_keeps_handle :
    let alice : User := { (default : User) with id := ⟨7⟩, name := "alice" }
    let renamed : User := { alice with name := "alice2" }
    let r : Http.Response := ⟨.ok, [], (User.codec.writeText renamed).toUTF8⟩
    let c := cacheAfter [.feed (.user alice)]
    let d := cacheAfter [.feed (.user alice), .call (.getUser ⟨7⟩) r]
    let account : Account := ⟨"https://discord.com/api/v10", "Bot token", 50, .never⟩
    let x : Session := {
      epoch := 0, client := { State.ofAccount account [] with cache := c }, replies := [], boundary := "line" }
    ∃ h, c.users.handle? ⟨7⟩ = some h ∧ d.users.handle? ⟨7⟩ = some h ∧
      ((Endpoint.getUser ⟨7⟩).conclude d r).1 = .ok (.user h) ∧
      (d.users.at? h).map User.name = some "alice2" ∧
      (x.start (.getUser ⟨7⟩) 0 none).client.cache.users.handle? ⟨7⟩ = some h := by
  intro alice renamed r c d account x
  have hread : Endpoint.decode User.codec r = .ok renamed := by
    have hlawful : User.codec.Lawful 1 := User.codec_lawful
    rw [Endpoint.decode, hlawful.readText_writeText (by decide)]
    rfl
  have hconclude (c : Cache) :
      (Endpoint.getUser ⟨7⟩).conclude c r = (.ok (.user (c.storeUser renamed).1), (c.storeUser renamed).2) := by
    show Endpoint.reading User.codec c r _ = _
    unfold Endpoint.reading
    rw [hread]
  obtain ⟨keeps, gives, answers, sessions⟩ := handles_last [.feed (.user alice)] [.call (.getUser ⟨7⟩) r]
  have hd : d = (c.storeUser renamed).2 := congrArg Prod.snd (hconclude c)
  obtain ⟨h, hbefore, hafter⟩ := keeps.user.kept ⟨7⟩ rfl
  refine ⟨h, hbefore, hafter, ?_, ?_, ?_⟩
  · obtain ⟨u, h', -, ha, -⟩ := answers (.getUser ⟨7⟩) r _ (congrArg Prod.fst (hconclude d))
    rw [hconclude, ha, (gives.user renamed).before h hafter]
    cases ha
    rfl
  · obtain ⟨u, hat, hget, -⟩ := keeps.user.shown ⟨7⟩ h hafter
    have hmerged : d.users.get? ⟨7⟩ = some (c.mergedUser renamed) := by
      rw [hd, Cache.get?_users_storeUser, if_pos rfl]
    cases hget.symm.trans hmerged
    exact congrArg (Option.map User.name) hat
  · obtain ⟨h', hheld, hkept⟩ := (sessions x _ rfl (.single (.start (.getUser ⟨7⟩) 0 none))).user.kept ⟨7⟩ rfl
    cases hbefore.symm.trans hheld
    exact hkept

end ChatApi.Client
