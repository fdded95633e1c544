import ChatApi.Model.Member
import Mathlib.Data.List.Induction

/-!
# Payloads merged one after another

When a payload is merged, each field of an entity follows one of three rules: the payload's value replaces the
known one, or does so only where it is present (`keepKnown`), or is merged into it in turn (`Member.mergeUser`).
`IsUpdate` says what that comes to for payloads of one entity, however many there are: to merge one twice
changes nothing, to merge some among themselves first changes nothing, and the outcome is the last payload, with
the latest known value of each field that payloads may leave out (`latestKnown`).

Main theorem `merged_payloads_keep_latest`.
-/

namespace ChatApi

section

variable {α β ι : Type} {merge : α → α → α}

/-- The first of some payloads, with all others merged into it in order. -/
def mergeAll (merge : α → α → α) : List α → Option α
  | [] => none
  | x :: fs => some (fs.foldl merge x)

/-- The last value of a field among `fs`, or else that of `x`. -/
def latestKnown (field : α → Option β) (x : α) (fs : List α) : Option β :=
  (fs.filterMap field).getLast?.or (field x)

/-- What merging payloads of one entity comes to: `id` gives the identifier of an entity, if it has one, `known`
are the tests whether a field has a value, and `latest x before last` is what `x` becomes by the payloads
`before` and then `last`. -/
structure IsUpdate (merge : α → α → α) (id : α → Option ι) (known : List (α → Bool))
    (latest : α → List α → α → α) : Prop where
  idem : ∀ x f, merge (merge x f) f = merge x f
  assoc : ∀ x f g, merge (merge x f) g = merge x (merge f g)
  keeps_id : ∀ (x : α) (fs : List α) (i : ι), id x = some i → (∀ f ∈ fs, ∀ j ∈ id f, j = i) →
    id (fs.foldl merge x) = some i
  keeps_known : ∀ has ∈ known, ∀ (x : α) (fs : List α), has x → has (fs.foldl merge x)
  eq_latest : ∀ (x : α) (before : List α) (last : α), (before ++ [last]).foldl merge x = latest x before last

/-! ### Fields that payloads may leave out -/

theorem keepKnown_self (x : Option α) : keepKnown x x = x := by
  cases x <;> rfl

theorem keepKnown_keepKnown_self (x f : Option α) : keepKnown (keepKnown x f) f = keepKnown x f := by
  cases f <;> rfl

theorem keepKnown_assoc (x f g : Option α) :
    keepKnown (keepKnown x f) g = keepKnown x (keepKnown f g) := by
  cases g <;> rfl

theorem isSome_keepKnown {x : Option α} (h : x.isSome) (f : Option α) : (keepKnown x f).isSome := by
  cases f with
  | none => exact h
  | some y => rfl

theorem latestKnown_concat (field : α → Option β) (x : α) (fs : List α) (f : α) :
    latestKnown field x (fs ++ [f]) = keepKnown (latestKnown field x fs) (field f) := by
  unfold latestKnown keepKnown
  rw [List.filterMap_append]
  cases hf : field f with
  | none => simp [hf]
  | some y => simp [hf]

/-- A field that each payload replaces where it has a value keeps the last value. -/
theorem field_foldl (merge : α → α → α) (field : α → Option β)
    (step : ∀ x f, field (merge x f) = keepKnown (field x) (field f)) (x : α) (fs : List α) :
    field (fs.foldl merge x) = latestKnown field x fs := by
  induction fs using List.reverseRecOn with
  | nil => rfl
  | append_singleton fs f ih =>
    rw [List.foldl_append, List.foldl_cons, List.foldl_nil, step, ih, latestKnown_concat]

/-- What is known stays known if one payload never takes it away. -/
theorem known_foldl {known : List (α → Bool)} (step : ∀ has ∈ known, ∀ x f, has x → has (merge x f)) :
    ∀ has ∈ known, ∀ (x : α) (fs : List α), has x → has (fs.foldl merge x) := by
  intro has hmem x fs h
  exact List.foldlRecOn fs merge h fun y hy f _ => step has hmem y f hy

theorem mergeAll_concat (merge : α → α → α) (fs : List α) (f : α) :
    mergeAll merge (fs ++ [f]) = some (((mergeAll merge fs).map (merge · f)).getD f) := by
  cases fs with
  | nil => rfl
  | cons x fs => simp [mergeAll]

end

/-! ### Users -/

namespace User

/-- A user after some payloads. -/
def latest (x : User) (before : List User) (last : User) : User :=
  { last with
    id := x.id
    globalName := latestKnown globalName x (before ++ [last])
    banner := latestKnown banner x (before ++ [last]) }

theorem merge_self (f : User) : f.merge f = f := by
  simp [merge, keepKnown_self]

theorem merge_merge_self (x f : User) : (x.merge f).merge f = x.merge f := by
  simp [merge, keepKnown_keepKnown_self]

theorem merge_assoc (x f g : User) : (x.merge f).merge g = x.merge (f.merge g) := by
  simp [merge, keepKnown_assoc]

theorem id_foldl_merge (x : User) (fs : List User) : (fs.foldl merge x).id = x.id := by
  induction fs using List.reverseRecOn with
  | nil => rfl
  | append_singleton fs f ih =>
    rw [List.foldl_append]
    exact ih

theorem foldl_merge (x : User) (before : List User) (last : User) :
    (before ++ [last]).foldl merge x = x.latest before last := by
  have hname := field_foldl merge globalName (fun _ _ => rfl) x (before ++ [last])
  have hbanner := field_foldl merge banner (fun _ _ => rfl) x (before ++ [last])
  have hid := id_foldl_merge x (before ++ [last])
  unfold latest
  rw [← hname, ← hbanner, ← hid]
  simp [merge]

theorem isUpdate_merge :
    IsUpdate merge (fun u => some u.id) [(·.globalName.isSome), (·.banner.isSome)] latest where
  idem := merge_merge_self
  assoc := merge_assoc
  keeps_id := by
    intro x fs i hx _
    rw [id_foldl_merge]
    exact hx
  keeps_known := by
    apply known_foldl
    intro has hmem x f h
    simp only [List.mem_cons, List.not_mem_nil, or_false] at hmem
    rcases hmem with rfl | rfl
    · exact isSome_keepKnown h f.globalName
    · exact isSome_keepKnown h f.banner
  eq_latest := foldl_merge

end User

/-! ### Roles -/

/-- A payload has every field of a role. -/
theorem Role.isUpdate_merge : IsUpdate Role.merge (fun r => some r.id) [] (fun _ _ last => last) where
  idem _ _ := rfl
  assoc _ _ _ := rfl
  keeps_id := by
    intro x fs i hx hfs
    induction fs using List.reverseRecOn with
    | nil => exact hx
    | append_singleton fs f _ =>
      rw [List.foldl_append]
      exact congrArg some (hfs f (by simp) f.id rfl)
  keeps_known := by simp
  eq_latest := by simp [Role.merge]

/-! ### Guilds -/

namespace Guild

/-- The roles of a guild, unless it lists none. -/
def listed? (g : Guild) : Option (List Role) := if g.roles.isEmpty then none else some g.roles

/-- A guild after some payloads. -/
def latest (x : Guild) (before : List Guild) (last : Guild) : Guild :=
  { last with
    id := x.id
    ownerId := latestKnown ownerId x (before ++ [last])
    preferredLocale := latestKnown preferredLocale x (before ++ [last])
    approximateMemberCount := latestKnown approximateMemberCount x (before ++ [last])
    roles := (latestKnown listed? x (before ++ [last])).getD [] }

theorem getD_listed? (g : Guild) : g.listed?.getD [] = g.roles := by
  unfold listed?
  split
  · rename_i h
    rw [List.isEmpty_iff] at h
    rw [h]
    rfl
  · rfl

/-- A payload without roles leaves the list as it is. -/
theorem listed?_merge (x f : Guild) : (x.merge f).listed? = keepKnown x.listed? f.listed? := by
  by_cases h : f.roles.isEmpty <;> simp [merge, listed?, keepKnown, h]

theorem merge_merge_self (x f : Guild) : (x.merge f).merge f = x.merge f := by
  by_cases h : f.roles.isEmpty <;> simp [merge, keepKnown_keepKnown_self, h]

theorem merge_assoc (x f g : Guild) : (x.merge f).merge g = x.merge (f.merge g) := by
  by_cases hg : g.roles.isEmpty <;> simp [merge, keepKnown_assoc, hg]

theorem id_foldl_merge (x : Guild) (fs : List Guild) : (fs.foldl merge x).id = x.id := by
  induction fs using List.reverseRecOn with
  | nil => rfl
  | append_singleton fs f ih =>
    rw [List.foldl_append]
    exact ih

theorem foldl_merge (x : Guild) (before : List Guild) (last : Guild) :
    (before ++ [last]).foldl merge x = x.latest before last := by
  have howner := field_foldl merge ownerId (fun _ _ => rfl) x (before ++ [last])
  have hlocale := field_foldl merge preferredLocale (fun _ _ => rfl) x (before ++ [last])
  have hcount := field_foldl merge approximateMemberCount (fun _ _ => rfl) x
    (before ++ [last])
  have hroles := field_foldl merge listed? listed?_merge x (before ++ [last])
  have hid := id_foldl_merge x (before ++ [last])
  unfold latest
  rw [← howner, ← hlocale, ← hcount, ← hroles, ← hid, getD_listed?]
  simp [merge]

theorem isUpdate_merge :
    IsUpdate merge (fun g => some g.id)
      [(·.ownerId.isSome), (·.preferredLocale.isSome), (·.approximateMemberCount.isSome), (!·.roles.isEmpty)]
      latest where
  idem := merge_merge_self
  assoc := merge_assoc
  keeps_id := by
    intro x fs i hx _
    rw [id_foldl_merge]
    exact hx
  keeps_known := by
    apply known_foldl
    intro has hmem x f h
    simp only [List.mem_cons, List.not_mem_nil, or_false] at hmem
    rcases hmem with rfl | rfl | rfl | rfl
    · exact isSome_keepKnown h f.ownerId
    · exact isSome_keepKnown h f.preferredLocale
    · exact isSome_keepKnown h f.approximateMemberCount
    · by_cases hf : f.roles.isEmpty <;> simp_all [merge]
  eq_latest := foldl_merge

end Guild

/-! ### Members -/

namespace Member

/-- A member after some payloads. Its user is what becomes of all users that are there. -/
def latest (x : Member) (before : List Member) (last : Member) : Member :=
  { last with
    user := mergeAll User.merge ((x :: (before ++ [last])).filterMap user)
    guildId := latestKnown guildId x (before ++ [last])
    joinedAt := latestKnown joinedAt x (before ++ [last]) }

theorem mergeUser_mergeUser_self (x f : Option User) : mergeUser (mergeUser x f) f = mergeUser x f := by
  cases x with
  | none =>
    cases f with
    | none => rfl
    | some f => simp [mergeUser, User.merge_self]
  | some x =>
    cases f with
    | none => rfl
    | some f => simp [mergeUser, User.merge_merge_self]

theorem mergeUser_assoc (x f g : Option User) :
    mergeUser (mergeUser x f) g = mergeUser x (mergeUser f g) := by
  cases x with
  | none => cases f <;> rfl
  | some x =>
    cases f with
    | none => cases g <;> rfl
    | some f =>
      cases g with
      | none => rfl
      | some g => simp [mergeUser, User.merge_assoc]

theorem merge_merge_self (x f : Member) : (x.merge f).merge f = x.merge f := by
  simp [merge, keepKnown_keepKnown_self, mergeUser_mergeUser_self]

theorem merge_assoc (x f g : Member) : (x.merge f).merge g = x.merge (f.merge g) := by
  simp [merge, keepKnown_assoc, mergeUser_assoc]

/-- One payload's user is merged behind those before it. -/
theorem mergeUser_mergeAll (us : List User) (f : Option User) :
    mergeUser (mergeAll User.merge us) f = mergeAll User.merge (us ++ f.toList) := by
  cases f with
  | none =>
    cases us with
    | nil => rfl
    | cons u us => simp [mergeAll, mergeUser]
  | some f =>
    rw [Option.toList_some, mergeAll_concat]
    cases us with
    | nil => rfl
    | cons u us => rfl

theorem user_foldl_merge (x : Member) (fs : List Member) :
    (fs.foldl merge x).user = mergeAll User.merge ((x :: fs).filterMap user) := by
  induction fs using List.reverseRecOn with
  | nil => cases hx : x.user <;> simp [hx, mergeAll]
  | append_singleton fs f ih =>
    rw [List.foldl_append, List.foldl_cons, List.foldl_nil]
    show mergeUser (fs.foldl merge x).user f.user = _
    rw [ih, mergeUser_mergeAll, ← List.cons_append, List.filterMap_append]
    cases hf : f.user <;> simp [hf]

theorem foldl_merge (x : Member) (before : List Member) (last : Member) :
    (before ++ [last]).foldl merge x = x.latest before last := by
  have huser := user_foldl_merge x (before ++ [last])
  have hguild := field_foldl merge guildId (fun _ _ => rfl) x (before ++ [last])
  have hjoined := field_foldl merge joinedAt (fun _ _ => rfl) x (before ++ [last])
  unfold latest
  rw [← huser, ← hguild, ← hjoined]
  simp [merge]

theorem userId_merge {x : Member} {i : UserId} (h : x.userId = some i) (f : Member) :
    (x.merge f).userId = some i := by
  obtain ⟨u, hu, rfl⟩ := Option.map_eq_some_iff.1 h
  cases hf : f.user <;> simp [merge, userId, mergeUser, User.merge, hu, hf]

theorem isUpdate_merge :
    IsUpdate merge userId [(·.user.isSome), (·.guildId.isSome), (·.joinedAt.isSome)] latest where
  idem := merge_merge_self
  assoc := merge_assoc
  keeps_id := by
    intro x fs i hx _
    exact List.foldlRecOn (motive := fun y => y.userId = some i) fs merge hx fun y hy f _ => userId_merge hy f
  keeps_known := by
    apply known_foldl
    intro has hmem x f h
    simp only [List.mem_cons, List.not_mem_nil, or_false] at hmem
    rcases hmem with rfl | rfl | rfl
    · obtain ⟨u, hu⟩ := Option.isSome_iff_exists.1 h
      cases hf : f.user <;> simp [merge, mergeUser, hu, hf]
    · exact isSome_keepKnown h f.guildId
    · exact isSome_keepKnown h f.joinedAt
  eq_latest := foldl_merge

end Member

/-- Users, roles, guilds and members are brought up to date by payloads. A payload merged twice counts once, and
payloads may be merged among themselves first. An entity keeps its identifier. After any payloads it is the
last of them, but that fields which payloads may leave out have their latest known value, and the user of a
member is merged from all users that came with it; so nothing that is known of such a field is lost. -/
theorem merged_payloads_keep_latest :
    IsUpdate User.merge (fun u => some u.id) [(·.globalName.isSome), (·.banner.isSome)] User.latest ∧
    IsUpdate Role.merge (fun r => some r.id) [] (fun _ _ last => last) ∧
    IsUpdate Guild.merge (fun g => some g.id)
      [(·.ownerId.isSome), (·.preferredLocale.isSome), (·.approximateMemberCount.isSome), (!·.roles.isEmpty)]
      Guild.latest ∧
    IsUpdate Member.merge Member.userId [(·.user.isSome), (·.guildId.isSome), (·.joinedAt.isSome)]
      Member.latest :=
  ⟨User.isUpdate_merge, Role.isUpdate_merge, Guild.isUpdate_merge, Member.isUpdate_merge⟩

end ChatApi
