import ChatApi.Client.Endpoint
import ChatApi.Proofs.Limit.Substitution
import ChatApi.Proofs.Text.Digits
import Mathlib.Data.List.Nodup

/-!
# The routes of the endpoints

The route of a call is made of a major parameter with its noun, if the call is about one, and of segments
that are the same for all calls of its endpoint (`Endpoint.pieces`). So it has a key, and nothing but its
endpoint and its major parameter decides which: `keys_tell_endpoint_and_major`.

The two are read off a key again: its numbers are the major parameter, since no other segment is a number,
and all else is the `Endpoint.shape`, which no two endpoints have in common.
-/

namespace ChatApi.Client

open Limit (RouteKey segments segmentsFault? majorNouns isNumber)

/-- The major parameter of a call: what kind of thing it is about, and which one. -/
structure Major where
  noun : String
  id : UInt64
  deriving DecidableEq

namespace Major

def value (m : Major) : String := toString m.id.toNat

/-- The major parameter with its noun, such as `channels/10`. -/
def text (m : Major) : String := m.noun ++ "/" ++ m.value

@[simp] theorem value_mk {kind : IdKind} (noun : String) (id : Snowflake kind) :
    value ⟨noun, id.value⟩ = id.text := rfl

variable {m m' : Major}

theorem toList_value (m : Major) : m.value.toList = Nat.toDigits 10 m.id.toNat := by
  rw [value, Nat.toString_eq_repr, Nat.toList_repr]

theorem isNumber_value (m : Major) : isNumber m.value := by
  rw [isNumber, toList_value]
  exact List.all_eq_true.2 fun c hc => Text.isDigit_of_mem_toDigits hc

theorem value_ne_empty (m : Major) : m.value ≠ "" := by
  intro h
  have hnil := toList_value m
  rw [h] at hnil
  exact Nat.toDigits_ne_nil hnil.symm

theorem id_eq_of_value (h : m.value = m'.value) : m.id = m'.id := by
  have hdigits : Nat.toDigits 10 m.id.toNat = Nat.toDigits 10 m'.id.toNat := by
    rw [← toList_value, ← toList_value, h]
  have hvalue := congrArg Text.digitsValue hdigits
  rw [Text.digitsValue_toDigits, Text.digitsValue_toDigits] at hvalue
  exact UInt64.toNat_inj.1 hvalue

end Major

namespace Request

/-- What decides how a request is limited. -/
def place (r : Request) : Http.Method × String := (r.method, r.route)

variable {r : Request}

@[simp] theorem place_mk {method : Http.Method} {route path : String} {query : List (String × String)}
    {body : Body} {headers : Http.Headers} {scope : Limit.Scope} {timeout : Option Span} :
    place ⟨method, route, path, query, body, headers, scope, timeout⟩ = (method, route) := rfl

@[simp] theorem place_direct (method : Http.Method) (path : String) :
    (direct method path).place = (method, path) := rfl

@[simp] theorem place_get (route path : String) : (get route path).place = (.get, route) := rfl

@[simp] theorem place_withQuery (name value : String) : (r.withQuery name value).place = r.place := rfl

@[simp] theorem place_withJson (payload : Json) : (r.withJson payload).place = r.place := rfl

@[simp] theorem place_withFiles (files : List Upload) : (r.withFiles files).place = r.place := by
  unfold withFiles
  split <;> rfl

@[simp] theorem place_withMessage (content : String) (files : List Upload) :
    (withMessage r content files).place = r.place := by
  rw [withMessage, place_withFiles, place_withJson]

@[simp] theorem place_exemptFromGlobal : r.exemptFromGlobal.place = r.place := by
  unfold exemptFromGlobal
  split <;> rfl

@[simp] theorem place_exemptFromAll : r.exemptFromAll.place = r.place := rfl

@[simp] theorem place_addTo (excerpt : Excerpt) : (excerpt.addTo r).place = r.place := by
  cases excerpt <;> rfl

theorem place_of_withReason? {reason : Option String} {r' : Request} (h : r.withReason? reason = .ok r') :
    r'.place = r.place := by
  unfold withReason? withReason at h
  split at h
  · split at h <;> cases h
    rfl
  · cases h
    rfl

theorem error_of_withReason? {reason : Option String} {err : ApiError}
    (h : r.withReason? reason = .error err) : ∃ text, err = .invalidArgument text := by
  unfold withReason? withReason at h
  split at h
  · split at h <;> cases h
    exact ⟨_, rfl⟩
  · cases h

end Request

theorem error_of_checkMessage {content : String} {files : List Upload} {f : Unit → Request} {err : ApiError}
    (h : (checkMessage content files >>= fun u => .ok (f u)) = .error err) :
    ∃ text, err = .invalidArgument text := by
  unfold checkMessage at h
  split at h
  · cases h
    exact ⟨_, rfl⟩
  · cases h

theorem ok_of_checkMessage {content : String} {files : List Upload} {f : Unit → Except ApiError Request}
    {r : Request} (h : (checkMessage content files >>= f) = .ok r) : f () = .ok r := by
  unfold checkMessage at h
  split at h
  · cases h
  · exact h

namespace Endpoint

/-- A call of the service, and not a request made by hand. -/
def IsTyped : Endpoint → Prop
  | raw _ => False
  | _ => True

/-- Two calls of one endpoint, with whatever arguments. -/
def SameEndpoint (e e' : Endpoint) : Prop := e.ctorIdx = e'.ctorIdx

/-- The guild, channel, webhook or interaction that a call is about. -/
def major? : Endpoint → Option Major
  | getUser _ | getCurrentUser | createGuild _ | raw _ => none
  | getGuild guild _ | getMember guild _ | listMembers guild _ _ | addMember guild _ _ _ _
  | removeMember guild _ _ | getRoles guild | createRole guild _ _ _ | banMember guild _ _ _ =>
    some ⟨"guilds", guild.value⟩
  | getMessage channel _ | getMessages channel _ _ | sendMessage channel _ _
  | deleteMessage channel _ _ => some ⟨"channels", channel.value⟩
  | executeWebhook webhook _ _ _ _ => some ⟨"webhooks", webhook.value⟩
  | respond interaction _ _ => some ⟨"interactions", interaction.value⟩

/-- The method of a call, and the segments of its route but for the major parameter. -/
def shape : Endpoint → Http.Method × List String
  | getUser _ => (.get, ["users", ":user_id"])
  | getCurrentUser => (.get, ["users", "@me"])
  | createGuild _ => (.post, ["guilds"])
  | getGuild _ _ => (.get, [])
  | getMember _ _ => (.get, ["members", ":user_id"])
  | listMembers _ _ _ => (.get, ["members"])
  | addMember _ _ _ _ _ => (.put, ["members", ":user_id"])
  | removeMember _ _ _ => (.delete, ["members", ":user_id"])
  | getRoles _ => (.get, ["roles"])
  | createRole _ _ _ _ => (.post, ["roles"])
  | banMember _ _ _ _ => (.put, ["bans", ":user_id"])
  | getMessage _ _ => (.get, ["messages", ":message_id"])
  | getMessages _ _ _ => (.get, ["messages"])
  | sendMessage _ _ _ => (.post, ["messages"])
  | deleteMessage _ _ _ => (.delete, ["messages", ":message_id"])
  | executeWebhook _ _ _ _ _ => (.post, [":webhook_token"])
  | respond _ _ _ => (.post, [":interaction_token", "callback"])
  | raw r => (r.method, [r.route])

/-- The segments of the route of a call. -/
def pieces (e : Endpoint) : List String :=
  (e.major?.toList.flatMap fun m => [m.noun, m.value]) ++ e.shape.2

variable {e e' : Endpoint} {r r' : Request}

theorem place_of_request (ht : e.IsTyped) (h : e.request = .ok r) :
    r.place = (e.shape.1, "/".intercalate e.pieces) := by
  cases e with
  | raw r => cases ht
  | getUser | getCurrentUser | createGuild | getGuild | getMember | addMember | getRoles | getMessage
  | respond =>
    cases h
    simp [pieces, major?, shape, String.append_assoc]
  | removeMember | createRole | deleteMessage =>
    rw [Request.place_of_withReason? h]
    simp [pieces, major?, shape, String.append_assoc]
  | banMember =>
    simp only [request] at h
    split at h
    · cases h
    · rw [Request.place_of_withReason? h]
      simp [pieces, major?, shape, String.append_assoc]
  | listMembers guild limit after =>
    simp only [request] at h
    split at h <;> cases h
    cases after <;> simp [pieces, major?, shape, String.append_assoc]
  | getMessages =>
    simp only [request] at h
    split at h <;> cases h
    simp [pieces, major?, shape, String.append_assoc]
  | sendMessage | executeWebhook =>
    cases ok_of_checkMessage h
    simp [pieces, major?, shape, String.append_assoc]

/-! ### Shapes -/

/-- One call of each endpoint, in the order of the constructors. -/
def samples : List Endpoint :=
  [.getUser default, .getCurrentUser, .createGuild default, .getGuild default default,
    .getMember default default, .listMembers default default default,
    .addMember default default default default default, .removeMember default default default,
    .getRoles default, .createRole default default default default,
    .banMember default default default default, .getMessage default default,
    .getMessages default default default, .sendMessage default default default,
    .deleteMessage default default default, .executeWebhook default default default default default,
    .respond default default default]

/-- The shape of a call does not depend on its arguments. -/
theorem shape_sample (ht : e.IsTyped) : (samples.map shape)[e.ctorIdx]? = some e.shape := by
  cases e <;> first | rfl | cases ht

theorem shapes_nodup : (samples.map shape).Nodup := by
  decide

/-- No two endpoints have one shape. -/
theorem shape_eq_iff (ht : e.IsTyped) (ht' : e'.IsTyped) : e.shape = e'.shape ↔ e.SameEndpoint e' := by
  have hsample := shape_sample ht
  have hsample' := shape_sample ht'
  constructor
  · intro h
    rw [← h, ← hsample] at hsample'
    have hlt : e.ctorIdx < (samples.map shape).length := (List.getElem?_eq_some_iff.1 hsample).1
    exact ((List.getElem?_inj hlt shapes_nodup).1 hsample'.symm)
  · intro h
    rw [SameEndpoint] at h
    rw [h, hsample'] at hsample
    exact (Option.some.inj hsample).symm

/-- What stands in a route beside the major parameter: no number, and no noun with a value. -/
structure IsTail (l : List String) : Prop where
  faultless : segmentsFault? none l = none
  nounless : RouteKey.majorPairs l = []
  plain : ∀ s ∈ l, isNumber s = false ∧ '/' ∉ s.toList ∧ '?' ∉ s.toList

instance (l : List String) : Decidable (IsTail l) :=
  decidable_of_iff (segmentsFault? none l = none ∧ RouteKey.majorPairs l = [] ∧
      ∀ s ∈ l, isNumber s = false ∧ '/' ∉ s.toList ∧ '?' ∉ s.toList)
    ⟨fun h => ⟨h.1, h.2.1, h.2.2⟩, fun h => ⟨h.faultless, h.nounless, h.plain⟩⟩

theorem isTail_shape (ht : e.IsTyped) : IsTail e.shape.2 := by
  have hall : ∀ place ∈ samples.map shape, IsTail place.2 := by decide
  exact hall _ (List.mem_of_getElem? (shape_sample ht))

theorem noun_of_major? {m : Major} (h : e.major? = some m) : m.noun ∈ majorNouns := by
  cases e <;> cases h <;> simp [majorNouns]

/-! ### Segments -/

theorem pieces_of_major {m : Major} (h : e.major? = some m) : e.pieces = m.noun :: m.value :: e.shape.2 := by
  simp [pieces, h]

theorem pieces_of_none (h : e.major? = none) : e.pieces = e.shape.2 := by
  simp [pieces, h]

theorem pieces_ne_nil (ht : e.IsTyped) : e.pieces ≠ [] := by
  cases e <;> first | cases ht; done | simp [pieces, major?, shape]

theorem pieces_plain (ht : e.IsTyped) : ∀ s ∈ e.pieces, '/' ∉ s.toList ∧ '?' ∉ s.toList := by
  have htail : ∀ s ∈ e.shape.2, '/' ∉ s.toList ∧ '?' ∉ s.toList := fun s hs => ((isTail_shape ht).plain s hs).2
  cases hm : e.major? with
  | none =>
    rw [pieces_of_none hm]
    exact htail
  | some m =>
    rw [pieces_of_major hm]
    refine List.forall_mem_cons.2 ⟨?_, List.forall_mem_cons.2 ⟨?_, htail⟩⟩
    · exact ⟨RouteKey.notMem_noun (noun_of_major? hm) (by decide),
        RouteKey.notMem_noun (noun_of_major? hm) (by decide)⟩
    · exact ⟨Limit.notMem_of_isNumber m.isNumber_value (by decide),
        Limit.notMem_of_isNumber m.isNumber_value (by decide)⟩

theorem areSegments_pieces (ht : e.IsTyped) : Limit.AreSegments e.pieces := by
  rw [← Limit.areSegments_iff]
  have htail := (isTail_shape ht).faultless
  cases hm : e.major? with
  | none => rwa [pieces_of_none hm]
  | some m =>
    rw [pieces_of_major hm]
    rwa [Limit.segmentsFault?_substituted (noun_of_major? hm) m.isNumber_value m.value_ne_empty]

theorem majorPairs_pieces (ht : e.IsTyped) :
    RouteKey.majorPairs e.pieces = e.major?.toList.map fun m => (m.noun, m.value) := by
  have htail := (isTail_shape ht).nounless
  cases hm : e.major? with
  | none =>
    rw [pieces_of_none hm, htail]
    rfl
  | some m =>
    have hnoun : majorNouns.contains m.noun = true := by simpa using noun_of_major? hm
    rw [pieces_of_major hm, RouteKey.majorPairs, if_pos hnoun, htail]
    rfl

/-- The numbers of a route are its major parameter. -/
theorem numbers_pieces (ht : e.IsTyped) : e.pieces.filter isNumber = e.major?.toList.map Major.value := by
  have htail : e.shape.2.filter isNumber = [] :=
    List.filter_eq_nil_iff.2 fun s hs => by simp [((isTail_shape ht).plain s hs).1]
  cases hm : e.major? with
  | none =>
    rw [pieces_of_none hm, htail]
    rfl
  | some m =>
    have hnoun : ¬ isNumber m.noun = true := by simp [Limit.isNumber_noun (noun_of_major? hm)]
    rw [pieces_of_major hm, List.filter_cons_of_neg hnoun, List.filter_cons_of_pos m.isNumber_value, htail]
    rfl

/-- Two routes are of the same segments exactly if they have the same major parameter and the same other
segments. -/
theorem pieces_eq_iff (ht : e.IsTyped) (ht' : e'.IsTyped) :
    e.pieces = e'.pieces ↔ e.major? = e'.major? ∧ e.shape.2 = e'.shape.2 := by
  refine ⟨fun h => ?_, fun ⟨hm, hs⟩ => by rw [pieces, pieces, hm, hs]⟩
  have hnumbers := congrArg (List.filter isNumber) h
  rw [numbers_pieces ht, numbers_pieces ht'] at hnumbers
  cases hm : e.major? with
  | none =>
    cases hm' : e'.major? with
    | none =>
      rw [pieces_of_none hm, pieces_of_none hm'] at h
      exact ⟨rfl, h⟩
    | some m' => simp [hm, hm'] at hnumbers
  | some m =>
    cases hm' : e'.major? with
    | none => simp [hm, hm'] at hnumbers
    | some m' =>
      rw [pieces_of_major hm, pieces_of_major hm'] at h
      simp only [List.cons.injEq] at h
      obtain ⟨hnoun, hvalue, htail⟩ := h
      obtain ⟨noun, id⟩ := m
      obtain ⟨noun', id'⟩ := m'
      obtain rfl : noun = noun' := hnoun
      obtain rfl : id = id' := Major.id_eq_of_value hvalue
      exact ⟨rfl, htail⟩

/-! ### Keys -/

/-- The key of the requests of a call. -/
def key (e : Endpoint) : RouteKey := ⟨e.shape.1, "/".intercalate e.pieces⟩

theorem resolve_key (ht : e.IsTyped) :
    RouteKey.resolve e.key.method e.key.template = .ok e.key ∧ segments e.key.template = e.pieces :=
  RouteKey.resolve_intercalate _ (pieces_ne_nil ht) (pieces_plain ht) (areSegments_pieces ht)

/-- The requests of a call are limited by its key. -/
theorem resolve_of_request (ht : e.IsTyped) (h : e.request = .ok r) :
    RouteKey.resolve r.method r.route = .ok e.key := by
  obtain ⟨hmethod, hroute⟩ := Prod.mk.inj (place_of_request ht h)
  rw [hmethod, hroute]
  exact (resolve_key ht).1

theorem majors_key (ht : e.IsTyped) : e.key.majors = (e.major?.map Major.text).getD "" := by
  rw [RouteKey.majors, (resolve_key ht).2, majorPairs_pieces ht]
  cases e.major? <;> simp [Major.text]

theorem key_eq_iff (ht : e.IsTyped) (ht' : e'.IsTyped) :
    e.key = e'.key ↔ e.SameEndpoint e' ∧ e.major? = e'.major? := by
  have htemplate : e.key.template = e'.key.template ↔ e.pieces = e'.pieces := by
    refine ⟨fun h => ?_, fun h => by rw [key, key, h]⟩
    rw [← (resolve_key ht).2, ← (resolve_key ht').2, h]
  have hkey : e.key = e'.key ↔ e.shape.1 = e'.shape.1 ∧ e.pieces = e'.pieces :=
    ⟨fun h => ⟨congrArg RouteKey.method h, htemplate.1 (congrArg RouteKey.template h)⟩,
      fun ⟨hmethod, hpieces⟩ => by rw [key, key, hmethod, hpieces]⟩
  rw [hkey, pieces_eq_iff ht ht', ← shape_eq_iff ht ht', Prod.ext_iff]
  exact ⟨fun ⟨hmethod, hmajor, htail⟩ => ⟨⟨hmethod, htail⟩, hmajor⟩,
    fun ⟨⟨hmethod, htail⟩, hmajor⟩ => ⟨hmethod, hmajor, htail⟩⟩

/-- A call makes a request unless its arguments are invalid. -/
theorem error_of_request (ht : e.IsTyped) {err : ApiError} (h : e.request = .error err) :
    ∃ text, err = .invalidArgument text := by
  cases e with
  | raw r => cases ht
  | getUser | getCurrentUser | createGuild | getGuild | getMember | addMember | getRoles | getMessage
  | respond => cases h
  | removeMember | createRole | deleteMessage => exact Request.error_of_withReason? h
  | banMember =>
    simp only [request] at h
    split at h
    · cases h
      exact ⟨_, rfl⟩
    · exact Request.error_of_withReason? h
  | listMembers | getMessages =>
    simp only [request] at h
    split at h <;> cases h
    exact ⟨_, rfl⟩
  | sendMessage | executeWebhook => exact error_of_checkMessage h

/-- A call makes a request unless its arguments are invalid, and the request has a key. Its major parameters
are those of the call, and two calls have one key exactly if they are calls of one endpoint about one guild,
channel, webhook or interaction, whatever else they are given. -/
theorem keys_tell_endpoint_and_major (e : Endpoint) (ht : e.IsTyped) :
    (∀ err, e.request = .error err → ∃ text, err = .invalidArgument text) ∧
    ∀ r, e.request = .ok r → ∃ k, RouteKey.resolve r.method r.route = .ok k ∧
      k.majors = (e.major?.map Major.text).getD "" ∧
      ∀ e' r' k', e'.IsTyped → e'.request = .ok r' → RouteKey.resolve r'.method r'.route = .ok k' →
        (k.text = k'.text ↔ e.SameEndpoint e' ∧ e.major? = e'.major?) := by
  refine ⟨fun err => error_of_request ht, fun r hr => ⟨e.key, resolve_of_request ht hr, majors_key ht, ?_⟩⟩
  intro e' r' k' ht' hr' hk'
  rw [resolve_of_request ht' hr', Except.ok.injEq] at hk'
  rw [← hk', RouteKey.text_inj, key_eq_iff ht ht']

/-- Bans of two members of one guild have one key, a ban in another guild has another. -/
theorem bans_share_key_of_guild :
    let e : Endpoint := .banMember ⟨7⟩ ⟨8⟩ 0 none
    let e' : Endpoint := .banMember ⟨7⟩ ⟨9⟩ 60 (some "spam")
    let other : Endpoint := .banMember ⟨70⟩ ⟨8⟩ 0 none
    e.IsTyped ∧ ∃ r r' s k k' l,
      (e.request = .ok r ∧ e'.request = .ok r' ∧ other.request = .ok s) ∧
      (RouteKey.resolve r.method r.route = .ok k ∧ RouteKey.resolve r'.method r'.route = .ok k' ∧
        RouteKey.resolve s.method s.route = .ok l) ∧
      k.majors = "guilds/7" ∧ k.text = k'.text ∧ k.text ≠ l.text := by
  intro e e' other
  obtain ⟨r, hr⟩ : ∃ r, e.request = .ok r := ⟨_, rfl⟩
  obtain ⟨r', hr'⟩ : ∃ r', e'.request = .ok r' := ⟨_, rfl⟩
  obtain ⟨s, hs⟩ : ∃ s, other.request = .ok s := ⟨_, rfl⟩
  obtain ⟨k, hk, hmajors, hothers⟩ := (keys_tell_endpoint_and_major e trivial).2 r hr
  obtain ⟨k', hk', -⟩ := (keys_tell_endpoint_and_major e' trivial).2 r' hr'
  obtain ⟨l, hl, -⟩ := (keys_tell_endpoint_and_major other trivial).2 s hs
  refine ⟨trivial, r, r', s, k, k', l, ⟨hr, hr', hs⟩, ⟨hk, hk', hl⟩, ?_, ?_, ?_⟩
  · rw [hmajors]
    decide
  · exact (hothers e' r' k' trivial hr' hk').2 ⟨rfl, rfl⟩
  · intro h
    exact absurd ((hothers other s l trivial hs hl).1 h).2 (by decide)

end Endpoint

end ChatApi.Client
