import ChatApi.Proofs.Client.Cancel
import ChatApi.Proofs.Model.Records

/-!
# What a failed call leaves in the cache

A call changes the cache only as it ends, by what it reads in the last response (`cache_stepCall`). If it fails
it has changed nothing, but for a list of members of which one comes without its user: those before it are
stored by then (`Endpoint.FailsMidway`).
-/

namespace ChatApi.Client

namespace Endpoint

/-- The response lists a member without its user; the members before it are stored when it is found. -/
inductive FailsMidway (c : Cache) (r : Http.Response) : Endpoint → ApiError → Cache → Prop
  | mk {guild : GuildId} {limit : Nat} {after : Option UserId} {stored rest : List Member} {bare : Member}
      (listed : decode (Json.Codec.list Member.codec) r = .ok (stored ++ bare :: rest))
      (complete : ∀ m ∈ stored, m.user.isSome) (without : bare.user = none) :
      FailsMidway c r (.listMembers guild limit after) (.protocol "guild member payload without a user")
        (stored.foldl (fun c m => (c.storeMember guild m).2) c)

variable {c : Cache} {r : Http.Response} {guild : GuildId} {error : ApiError}

/-- A member is left out only if it comes without its user. -/
theorem storeMember_cases (c : Cache) (guild : GuildId) (m : Member) :
    (m.user = none ∧ storeMember c guild m = (.error (.protocol "guild member payload without a user"), c)) ∨
      (m.user.isSome ∧ ∃ h, storeMember c guild m = (.ok h, (c.storeMember guild m).2)) := by
  unfold storeMember Cache.storeMember
  cases m.user with
  | none => exact .inl ⟨rfl, rfl⟩
  | some user => exact .inr ⟨rfl, _, rfl⟩

/-- Members are stored up to the first that comes without its user. -/
theorem storeMembers_error {ms : List Member} (h : (storeMembers c guild ms).1 = .error error) :
    ∃ stored bare rest, ms = stored ++ bare :: rest ∧ (∀ m ∈ stored, m.user.isSome) ∧ bare.user = none ∧
      error = .protocol "guild member payload without a user" ∧
      (storeMembers c guild ms).2 = stored.foldl (fun c m => (c.storeMember guild m).2) c := by
  induction ms generalizing c with
  | nil => cases h
  | cons m ms ih =>
    rcases storeMember_cases c guild m with ⟨hnone, hm⟩ | ⟨hsome, handle, hm⟩
    · simp only [storeMembers, hm] at h ⊢
      cases h
      exact ⟨[], m, ms, rfl, by simp, hnone, rfl, rfl⟩
    · simp only [storeMembers, hm] at h ⊢
      have hrest : (storeMembers (c.storeMember guild m).2 guild ms).1 = .error error := by
        cases hs : (storeMembers (c.storeMember guild m).2 guild ms).1 with
        | ok hs' => rw [hs] at h; cases h
        | error e => rw [hs] at h; exact h
      obtain ⟨stored, bare, rest, rfl, hcomplete, hbare, herror, hleft⟩ := ih hrest
      refine ⟨m :: stored, bare, rest, rfl, fun m' hm' => ?_, hbare, herror, hleft⟩
      rcases List.mem_cons.1 hm' with rfl | hm'
      · exact hsome
      · exact hcomplete m' hm'

/-- What is read from a response that cannot be decoded changes nothing. -/
theorem reading_error {α : Type} {codec : Json.Codec α} {f : α → Except ApiError Answer × Cache}
    {P : Cache → Prop} (h : (reading codec c r f).1 = .error error) (unread : P c)
    (read : ∀ a, decode codec r = .ok a → (f a).1 = .error error → P (f a).2) : P (reading codec c r f).2 := by
  unfold reading at h ⊢
  cases hd : decode codec r with
  | error e => exact unread
  | ok a =>
    simp only [hd] at h
    exact read a hd h

/-- A response from which nothing is got leaves the cache alone, unless it is a list of members. -/
theorem conclude_error {e : Endpoint} (h : (e.conclude c r).1 = .error error) :
    (e.conclude c r).2 = c ∨ FailsMidway c r e error (e.conclude c r).2 := by
  -- whatever is stored at once is stored with success
  have stored {α : Type} {codec : Json.Codec α} {f : α → Except ApiError Answer × Cache}
      (hf : ∀ a, (f a).1 = .error error → (f a).2 = c)
      (h : (reading codec c r f).1 = .error error) : (reading codec c r f).2 = c :=
    reading_error (P := (· = c)) h rfl fun a _ => hf a
  have member (guild : GuildId) (m : Member)
      (h : ((storeMember c guild m).1.map Answer.member) = .error error) : (storeMember c guild m).2 = c := by
    rcases storeMember_cases c guild m with ⟨-, hm⟩ | ⟨-, handle, hm⟩
    · rw [hm]
    · rw [hm] at h
      cases h
  cases e with
  | listMembers guild limit after =>
    refine reading_error (P := fun c' => c' = c ∨ FailsMidway c r _ error c') h (.inl rfl) fun ms hms hf => ?_
    have herror : (storeMembers c guild ms).1 = .error error := by
      cases hs : (storeMembers c guild ms).1 with
      | ok hs' => simp only [hs] at hf; cases hf
      | error e => simp only [hs] at hf; cases hf; rfl
    obtain ⟨stored, bare, rest, rfl, hcomplete, hbare, rfl, hleft⟩ := storeMembers_error herror
    exact .inr (hleft ▸ .mk hms hcomplete hbare)
  | getMember guild user => exact .inl (stored (member guild) h)
  | addMember guild user token nick roles =>
    left
    unfold conclude at h ⊢
    dsimp only at h ⊢
    split at h
    · cases h
    · rename_i hs
      rw [if_neg hs]
      exact stored (member guild) h
  | executeWebhook webhook token content files wait =>
    left
    unfold conclude at h ⊢
    dsimp only at h ⊢
    split at h
    · cases h
    · rename_i hs
      rw [if_neg hs]
      exact stored (fun _ h => by cases h) h
  | getUser _ | getCurrentUser | createGuild _ | getGuild _ _ | getRoles _ | createRole _ _ _ _ | getMessage _ _
  | sendMessage _ _ _ | getMessages _ _ _ => exact .inl (stored (fun _ h => by cases h) h)
  | removeMember _ _ _ | banMember _ _ _ _ | deleteMessage _ _ _ | respond _ _ _ | raw _ => cases h

end Endpoint

/-- The cache as a call that is over left it. -/
def Call.leftCache? (c : Call) : Option Cache :=
  match c.stage with
  | .ended _ _ cache => some cache
  | _ => none

/-- The attempt of the call that is in flight has got this response. -/
def Call.HasGot (c : Call) (r : Http.Response) : Prop := ∃ till, c.stage = .inFlight till (some r)

/-- No move of a call makes another one of it. -/
theorem Call.Moves.endpoint {x : Session} {c d : Call} {sent : List Sent} (h : c.Moves x d sent) :
    d.endpoint = c.endpoint := by
  cases h with
  | unsent _ _ settles | unanswered _ _ settles | landed _ _ settles => exact settles.frame.1
  | _ => rfl

namespace Session

variable {x y z : Session} {i : Nat} {c d : Call}

/-! ### When the cache changes -/

/-- Call `i` has become `d`, and the cache is as it was unless the call is over. -/
structure Keeps (x : Session) (i : Nat) (d : Call) (y : Session) : Prop where
  calls : y.calls = x.calls.set i d
  cache : y.client.cache = d.leftCache?.getD x.client.cache

theorem Keeps.congr (h : Keeps y i d z) (hcalls : y.calls = x.calls) (hcache : y.client.cache = x.client.cache) :
    Keeps x i d z :=
  ⟨hcalls ▸ h.calls, hcache ▸ h.cache⟩

theorem Unmoved.keeps (h : Unmoved x y) (hz : Keeps y i d z) : Keeps x i d z := hz.congr h.calls h.cache

/-- Whoever ends leaves the cache as it is. -/
theorem keeps_finish (x : Session) (i : Nat) (c : Call) (result : Except ApiError Answer) :
    Keeps x i (c.over x result x.client.cache) (x.finish i c result) :=
  ⟨(became_finish x i c result).calls, rfl⟩

theorem keeps_settleAttempt (x : Session) (i : Nat) (c : Call) (e : AttemptEnd) :
    ∃ d, Keeps x i d (x.settleAttempt i c e) := by
  unfold settleAttempt
  cases c.progress.after x.client.account.retry c.request.route e x.client.draws with
  | mk verdict draws =>
    rcases verdict with (error | r) | ⟨delay, progress⟩
    · exact ⟨_, (keeps_finish { x with client := { x.client with draws } } i c (.error error)).congr rfl rfl⟩
    · refine ⟨_, (became_finish { x with client := { x.client with
        draws, cache := (c.endpoint.conclude x.client.cache r).2 } } i c _).calls, rfl⟩
    · exact ⟨_, rfl, rfl⟩

theorem keeps_endWithout (x : Session) (i : Nat) (c : Call) : ∃ d, Keeps x i d (x.endWithout i c) := by
  obtain ⟨d, hd⟩ := keeps_settleAttempt { (x.happen (.withdraw i)).1 with
    client := { (x.happen (.withdraw i)).1.client with
      metrics := (x.happen (.withdraw i)).1.client.metrics.record none } } i c .noResponse
  exact ⟨d, ((unmoved_happen x (.withdraw i)).trans (unmoved_count _ none)).keeps hd⟩

theorem keeps_endWith (x : Session) (i : Nat) (c : Call) (r : Http.Response) :
    ∃ d, Keeps x i d (x.endWith i c r) := by
  have settled (a : Limit.Event) (e : AttemptEnd) : ∃ d, Keeps x i d (({ x with client := { x.client with
      metrics := x.client.metrics.record (some r.status) } }.happen a).1.settleAttempt i c e) := by
    obtain ⟨d, hd⟩ := keeps_settleAttempt ({ x with client := { x.client with
      metrics := x.client.metrics.record (some r.status) } }.happen a).1 i c e
    exact ⟨d, ((unmoved_count x (some r.status)).trans (unmoved_happen _ a)).keeps hd⟩
  unfold endWith
  dsimp only
  split
  · exact settled _ _
  · exact settled _ _

theorem keeps_begin (x : Session) (i : Nat) (c : Call) : ∃ d, Keeps x i d (x.begin i c) := by
  unfold begin
  extract_lets z
  have hz : Unmoved x z := by
    dsimp only [z]
    split
    · exact ⟨⟨rfl, rfl, rfl, rfl⟩, rfl, rfl, rfl, rfl⟩
    · exact .refl x
  clear_value z
  split
  · exact ⟨_, hz.keeps (keeps_finish ..)⟩
  · split
    · exact ⟨_, hz.keeps (keeps_finish ..)⟩
    · rename_i request _ _ _ _
      cases request.timeout with
      | none => exact ⟨_, hz.keeps ⟨rfl, rfl⟩⟩
      | some time => exact ⟨_, hz.keeps ⟨rfl, rfl⟩⟩

theorem keeps_send (x : Session) (i : Nat) (c : Call) : ∃ d, Keeps x i d (x.send i c) := by
  unfold send
  split
  · exact ⟨_, keeps_finish ..⟩
  · dsimp only
    split
    · exact keeps_endWithout ..
    · rename_i outgoing _
      -- what is sent is noted first, and then the reply is looked for
      have taken := unmoved_takeReply { x with sent := x.sent ++ [Sent.mk x.now outgoing] } outgoing
      split
      · rename_i y hy
        rw [hy] at taken
        obtain ⟨d, hd⟩ := keeps_endWithout y i c.tried
        exact ⟨d, hd.congr taken.calls taken.cache⟩
      · rename_i reply y hy
        rw [hy] at taken
        exact ⟨_, Keeps.congr ⟨rfl, rfl⟩ taken.calls taken.cache⟩

theorem keeps_ask {a : Limit.Event} (h : x.ask i c a = some y) : ∃ d, Keeps x i d y := by
  have moved := unmoved_happen x a
  unfold ask at h
  dsimp only at h
  split at h
  · cases h
    obtain ⟨d, hd⟩ := keeps_send { (x.happen a).1 with agenda := (x.happen a).1.agenda.unset (.call i) .step } i c
    exact ⟨d, hd.congr moved.calls moved.cache⟩
  · cases h
    exact ⟨_, moved.keeps ⟨rfl, rfl⟩⟩
  · cases h
    exact ⟨_, moved.keeps ⟨rfl, rfl⟩⟩
  · cases h

theorem keeps_advanceCall (h : x.advanceCall i c = some y) : ∃ d, Keeps x i d y := by
  unfold advanceCall at h
  split at h
  · split at h
    · cases h
      exact keeps_begin ..
    · cases h
  · exact keeps_ask h
  · exact keeps_ask h
  · split at h
    · cases h
    · rename_i response _ _
      cases response with
      | none => cases h; exact keeps_endWithout ..
      | some r => cases h; exact keeps_endWith ..
  · split at h
    · cases h
    · cases h
      exact ⟨_, rfl, rfl⟩
  · cases h

/-- A step changes the cache only as the call ends. -/
theorem keeps_stepCall (h : x.stepCall i = some y) : ∃ d, Keeps x i d y := by
  obtain ⟨c, -, -, ⟨-, rfl⟩ | ⟨-, advanced⟩ | ⟨-, -, rfl⟩⟩ := stepCall_cases h
  · exact ⟨_, keeps_finish ..⟩
  · exact keeps_advanceCall advanced
  · exact ⟨_, keeps_finish ..⟩

/-! ### Calls that fail -/

/-- What a call that becomes `d` does to the cache does no harm: it leaves it alone unless it is over, and if
it has failed, unless it did so midway through a response of which `Ended` holds. -/
def Harmless (Ended : Http.Response → CallStage → Prop) (c : Cache) (e : Endpoint) (d : Call) (c' : Cache) :
    Prop :=
  match d.stage with
  | .ended moment (.error error) cache =>
    c' = cache ∧ (cache = c ∨ ∃ r, Ended r (.ended moment (.error error) cache) ∧ e.FailsMidway c r error cache)
  | .ended _ (.ok _) cache => c' = cache
  | _ => c' = c

variable {Ended Ended' : Http.Response → CallStage → Prop} {cache cache' : Cache} {e : Endpoint}

theorem Harmless.mono (h : Harmless Ended cache e d cache') (himp : ∀ r, Ended r d.stage → Ended' r d.stage) :
    Harmless Ended' cache e d cache' := by
  unfold Harmless at h ⊢
  cases hs : d.stage with
  | ended moment result left =>
    rw [hs] at h himp
    cases result with
    | ok answer => exact h
    | error error => exact ⟨h.1, h.2.imp_right fun ⟨r, hr, hmidway⟩ => ⟨r, himp r hr, hmidway⟩⟩
  | due _ | asking | waiting | inFlight _ _ | resting _ =>
    rw [hs] at h
    exact h

theorem harmless_over (x : Session) (c : Call) (e : Endpoint) (error : ApiError) :
    Harmless Ended x.client.cache e (c.over x (.error error) x.client.cache) x.client.cache :=
  ⟨rfl, .inl rfl⟩

/-- Only a response can have settled a call with success. -/
theorem response_of_finished {p : Progress} {policy : RetryPolicy} {route : String} {a : AttemptEnd}
    {draws : Draws} {r : Http.Response} (h : (p.after policy route a draws).1 = .finished (.ok r)) :
    ∃ limited, a = .response r limited := by
  unfold Progress.after at h
  dsimp only at h
  split at h
  · cases h
  · rename_i limited _
    cases h
    exact ⟨limited, rfl⟩
  · cases h
  · cases h

theorem response_of_attemptEnd {response : Option Http.Response} {r : Http.Response}
    {limited : Option (Span × Bool)} (h : x.attemptEnd response = .response r limited) : response = some r := by
  cases response with
  | none => cases h
  | some r' =>
    unfold attemptEnd at h
    dsimp only at h
    split at h
    · cases h; rfl
    · cases h; rfl

theorem harmless_of_settles {a : AttemptEnd} (h : c.Settles x a d)
    (hresponse : ∀ r limited, a = .response r limited → ∀ stage, Ended r stage) :
    Harmless Ended x.client.cache c.endpoint d (d.leftCache?.getD x.client.cache) := by
  cases h with
  | again _ => exact rfl
  | failed _ => exact harmless_over ..
  | @answered r verdict =>
    obtain ⟨limited, ha⟩ := response_of_finished verdict
    unfold Harmless Call.over
    dsimp only
    cases hr : (c.endpoint.conclude x.client.cache r).1 with
    | ok answer => exact rfl
    | error error =>
      exact ⟨rfl, (Endpoint.conclude_error hr).imp_right fun h => ⟨r, hresponse r limited ha _, h⟩⟩

/-- The cache after a step is the one that the call has left, if the step has ended it. -/
theorem cache_stepCall (h : x.stepCall i = some y) : ∃ c d sent, x.calls[i]? = some c ∧ y.calls[i]? = some d ∧
    c.Moves x d sent ∧ y.client.cache = d.leftCache?.getD x.client.cache := by
  obtain ⟨c, d, sent, hc, -, moves, hb⟩ := moves_of_stepCall h
  obtain ⟨d', hk⟩ := keeps_stepCall h
  have hd : y.calls[i]? = some d := by
    rw [hb.calls, List.getElem?_set_self (List.getElem?_eq_some_iff.1 hc).1]
  cases eq_of_get_set (hk.calls ▸ hd)
  exact ⟨c, d, sent, hc, hd, moves, hk.cache⟩

/-- No step of any call does harm to the cache, and one that fails midway does so on the response that the
attempt of the call has got. -/
theorem harmless_stepCall (h : x.stepCall i = some y) (hc : x.calls[i]? = some c) (hd : y.calls[i]? = some d) :
    Harmless (fun r _ => c.HasGot r) x.client.cache c.endpoint d y.client.cache := by
  obtain ⟨c', d', sent, hc', hd', moves, hcache⟩ := cache_stepCall h
  cases hc.symm.trans hc'
  cases hd.symm.trans hd'
  rw [hcache]
  cases moves with
  | cancelled _ | timedOut _ _ | unmade _ _ | misrouted _ _ _ | unsendable _ _ => exact harmless_over ..
  | begun _ _ _ | waits _ | sent _ _ _ _ | rested _ _ => exact rfl
  | unsent _ _ settles | unanswered _ _ settles =>
    exact harmless_of_settles (c := c.tried) settles fun _ _ h => by cases h
  | @landed till _ _ stage _ settles =>
    refine harmless_of_settles settles fun r limited ha _ => ⟨till, ?_⟩
    rw [stage, response_of_attemptEnd ha]

/-! ### A call on its own -/

/-- Somewhere on the way from `x`, call `i` has got the response `r` and takes the step that makes it `stage`. -/
def EndsOn (x : Session) (i : Nat) (r : Http.Response) (stage : CallStage) : Prop :=
  ∃ y z c, Leads x y ∧ y.calls[i]? = some c ∧ c.HasGot r ∧ y.stepCall i = some z ∧
    z.calls[i]?.map Call.stage = some stage

/-- Call `i` alone goes on from `x₀`, and has done no harm to the cache `c`. -/
structure Behaves (x₀ : Session) (c : Cache) (e : Endpoint) (i : Nat) (x : Session) : Prop where
  reached : Leads x₀ x
  others : ∀ (j : Nat) (d : Call), x.calls[j]? = some d → d.isOver = false → j = i
  endpoint : ∀ (d : Call), x.calls[i]? = some d → d.endpoint = e
  harmless : ∀ (d : Call), x.calls[i]? = some d → Harmless (EndsOn x₀ i) c e d x.client.cache

variable {x₀ : Session}

theorem Behaves.step {j : Nat} (h : Behaves x₀ cache e i x) (hy : x.stepCall j = some y) :
    Behaves x₀ cache e i y := by
  obtain ⟨c, d, sent, hc, on, moves, hb⟩ := moves_of_stepCall hy
  cases h.others j c hc on
  have hd : y.calls[i]? = some d := by
    rw [hb.calls, List.getElem?_set_self (List.getElem?_eq_some_iff.1 hc).1]
  -- the call was not over, and so had left the cache alone
  have before : x.client.cache = cache := by
    have harmless := h.harmless c hc
    unfold Call.isOver at on
    unfold Harmless at harmless
    cases hs : c.stage with
    | ended _ _ _ => rw [hs] at on; cases on
    | due _ | asking | waiting | inFlight _ _ | resting _ => rw [hs] at harmless; exact harmless
  refine ⟨h.reached.tail (.step hy), fun k d' hd' on' => ?_, fun d' hd' => ?_, fun d' hd' => ?_⟩
  · by_cases hk : k = i
    · exact hk
    · rw [hb.calls, List.getElem?_set_ne (Ne.symm hk)] at hd'
      exact h.others k d' hd' on'
  · cases hd.symm.trans hd'
    exact moves.endpoint.trans (h.endpoint c hc)
  · cases hd.symm.trans hd'
    have harmless := harmless_stepCall hy hc hd
    rw [before, h.endpoint c hc] at harmless
    exact harmless.mono fun r got => ⟨x, y, c, h.reached, hc, got, hy, by rw [hd]; rfl⟩

theorem Behaves.cancel (h : Behaves x₀ cache e i x) (j : Nat) : Behaves x₀ cache e i (x.cancel j) := by
  -- a call that is cancelled stays where it is
  refine ⟨h.reached.tail (.cancel j), fun k d hd on => ?_, fun d hd => ?_, fun d hd => ?_⟩
  · obtain ⟨c, hc, rfl⟩ := getElem?_of_cancel hd
    exact h.others k c hc on
  · obtain ⟨c, hc, rfl⟩ := getElem?_of_cancel hd
    exact h.endpoint c hc
  · obtain ⟨c, hc, rfl⟩ := getElem?_of_cancel hd
    rw [client_cancel]
    exact h.harmless c hc

/-- A call that is started behind calls that are over. -/
theorem behaves_start (idle : ∀ c ∈ x.calls, c.isOver = true) (e : Endpoint) (delay : Span)
    (cancelAfter : Option Span) :
    Behaves (x.start e delay cancelAfter) x.client.cache e x.calls.length (x.start e delay cancelAfter) := by
  have hcalls := (x.start_frame e delay cancelAfter).1
  have hcache : (x.start e delay cancelAfter).client.cache = x.client.cache := by
    rw [client_start]
  have last {d : Call} (hd : (x.start e delay cancelAfter).calls[x.calls.length]? = some d) :
      d = { endpoint := e, cancelAfter, stage := .due (x.now + delay) } := by
    rw [hcalls, List.getElem?_concat_length] at hd
    exact (Option.some.inj hd).symm
  refine ⟨.refl, fun j d hd on => ?_, fun d hd => by rw [last hd], fun d hd => ?_⟩
  · rw [hcalls, List.getElem?_append] at hd
    split at hd
    · rw [idle d (List.mem_of_getElem? hd)] at on
      cases on
    · have := (List.getElem?_eq_some_iff.1 hd).1
      rw [List.length_singleton] at this
      omega
  · rw [last hd, hcache]
    exact rfl

/-- A call that fails leaves the cache alone, whatever it asks for and whatever the responses to it are; the
one exception is a list of members of which one comes without its user, for which those before it are stored.
In every state, with any calls side by side, a step of a call leaves the cache alone unless the call succeeds
by it, or fails midway through such a list, which is in the response that its attempt has got. So whoever
calls alone finds the cache after a failure as it was before the call, or with the first members of the list
in the response that has ended the call. -/
theorem failed_call_leaves_cache (x : Session) :
    (∀ (y : Session) (i : Nat) (c d : Call), x.stepCall i = some y → x.calls[i]? = some c →
      y.calls[i]? = some d →
      (∃ moment answer cache, d.stage = .ended moment (.ok answer) cache) ∨ y.client.cache = x.client.cache ∨
        ∃ moment error r, c.HasGot r ∧ d.stage = .ended moment (.error error) y.client.cache ∧
          c.endpoint.FailsMidway x.client.cache r error y.client.cache) ∧
    ∀ (e : Endpoint) (delay : Span) (cancelAfter : Option Span) (moment : Instant) (error : ApiError)
      (cache : Cache), (∀ c ∈ x.calls, c.isOver = true) →
      (x.start e delay cancelAfter).run.calls[x.calls.length]?.map Call.stage =
        some (.ended moment (.error error) cache) →
      (x.start e delay cancelAfter).run.client.cache = cache ∧
        (cache = x.client.cache ∨ ∃ r,
          EndsOn (x.start e delay cancelAfter) x.calls.length r (.ended moment (.error error) cache) ∧
          e.FailsMidway x.client.cache r error cache) := by
  refine ⟨fun y i c d h hc hd => ?_, fun e delay cancelAfter moment error cache idle hend => ?_⟩
  · have harmless := harmless_stepCall h hc hd
    unfold Harmless at harmless
    cases hs : d.stage with
    | ended moment result cache =>
      rw [hs] at harmless
      cases result with
      | ok answer => exact .inl ⟨moment, answer, cache, rfl⟩
      | error error =>
        obtain ⟨rfl, hkept | ⟨r, got, hr⟩⟩ := harmless
        · exact .inr (.inl hkept)
        · exact .inr (.inr ⟨moment, error, r, got, rfl, hr⟩)
    | due _ | asking | waiting | inFlight _ _ | resting _ =>
      rw [hs] at harmless
      exact .inr (.inl harmless)
  · have h : Behaves (x.start e delay cancelAfter) x.client.cache e x.calls.length
        (x.start e delay cancelAfter).run :=
      holds_runWith (fun _ _ _ hy h => h.step hy) (fun _ j h => h.cancel j)
        (fun _ _ later h => ⟨h.reached.tail (.schedule later), h.others, h.endpoint, h.harmless⟩) _
        (behaves_start idle e delay cancelAfter)
    obtain ⟨d, hd, hstage⟩ := Option.map_eq_some_iff.1 hend
    have harmless := h.harmless d hd
    unfold Harmless at harmless
    rw [hstage] at harmless
    exact harmless

/-- Whether a call has ended with an error. -/
def hasFailed (c : Call) : Bool :=
  match c.stage with
  | .ended _ (.error _) _ => true
  | _ => false

/-- A member that the service does not give away is not in the cache afterwards. -/
theorem refused_member_not_cached :
    let account : Account := ⟨"https://discord.com/api/v10", "Bot token", 50, .never⟩
    let x : Session := {
      epoch := 0
      client := .ofAccount account []
      replies := [("GET /api/v10/guilds/9/members/2", [⟨0, some ⟨.forbidden, [], .empty⟩⟩])]
      boundary := "line" }
    let z : Session := { x with
      calls := [⟨.getMember ⟨9⟩ ⟨2⟩, none, .resting 0, default, default, none, false, {}⟩] }
    (x.start (.getMember ⟨9⟩ ⟨2⟩) 0 none).run.client.cache = x.client.cache ∧
      ∃ y, z.stepCall 0 = some y ∧ y.client.cache = z.client.cache := by
  intro account x z
  have refused : (x.start (.getMember ⟨9⟩ ⟨2⟩) 0 none).run.calls[x.calls.length]?.any hasFailed = true := by
    decide +kernel
  have rested : ∃ y, z.stepCall 0 = some y ∧ y.client.cache = z.client.cache := by
    refine ⟨_, rfl, ?_⟩
    rcases (failed_call_leaves_cache z).1 _ 0 _ _ rfl rfl rfl with ⟨_, _, _, hs⟩ | hkept | ⟨_, _, _, -, hs, -⟩
    · cases hs
    · exact hkept
    · cases hs
  have alone := fun moment error cache =>
    (failed_call_leaves_cache x).2 (.getMember ⟨9⟩ ⟨2⟩) 0 none moment error cache (by simp [x])
  generalize (x.start (.getMember ⟨9⟩ ⟨2⟩) 0 none).run = w at refused alone ⊢
  refine ⟨?_, rested⟩
  obtain ⟨d, hd, hfailed⟩ := (Option.any_eq_true _ _).1 refused
  unfold hasFailed at hfailed
  split at hfailed
  · rename_i moment error cache hs
    obtain ⟨hcache, hkept | ⟨r, -, hmidway⟩⟩ := alone moment error cache (by rw [hd, ← hs]; rfl)
    · exact hcache.trans hkept
    · cases hmidway
  · cases hfailed

/-- The first member of a list is in the cache although the call fails, as the second one comes without its
user. -/
theorem first_member_cached_by_failed_call :
    let alice : User := { (default : User) with id := ⟨7⟩, name := "alice" }
    let bare : Member := ⟨none, none, none, none, [], none, false, false, 0, none, none⟩
    let listed : List Member := [{ bare with user := some alice }, bare]
    let r : Http.Response := ⟨.ok, [], ((Json.Codec.list Member.codec).writeText listed).toUTF8⟩
    let account : Account := ⟨"https://discord.com/api/v10", "Bot token", 50, .never⟩
    let c : Call := {
      endpoint := .listMembers ⟨9⟩ 2 none
      cancelAfter := none
      stage := .inFlight 0 (some r)
      progress := ⟨1, 0⟩ }
    let x : Session := {
      epoch := 0, client := .ofAccount account [], replies := [], boundary := "line", calls := [c] }
    ∃ y, x.stepCall 0 = some y ∧ y.calls[0]?.map Call.stage =
        some (.ended 0 (.error (.protocol "guild member payload without a user")) y.client.cache) ∧
      x.client.cache.users.size = 0 ∧ y.client.cache.users.size = 1 ∧
      y.client.cache.users.get? ⟨7⟩ = some alice := by
  intro alice bare listed r account c x
  have hread : Endpoint.decode (Json.Codec.list Member.codec) r = .ok listed := by
    have hlawful : (Json.Codec.list Member.codec).Lawful 3 := Json.Codec.list_lawful (Member.codec_lawful (n := 0))
    rw [Endpoint.decode, hlawful.readText_writeText (by decide)]
    rfl
  have hconclude : c.endpoint.conclude x.client.cache r =
      (.error (.protocol "guild member payload without a user"),
        (x.client.cache.storeMember ⟨9⟩ { bare with user := some alice }).2) := by
    show Endpoint.reading (Json.Codec.list Member.codec) x.client.cache r _ = _
    unfold Endpoint.reading
    rw [hread]
    rfl
  -- the response is a success, and so it is taken up
  have hverdict : (c.progress.after x.client.account.retry c.request.route (x.attemptEnd (some r))
      x.client.draws).1 = .finished (.ok r) := rfl
  have hstep : x.stepCall 0 = some (x.endWith 0 c r) := rfl
  obtain ⟨d, settles, hb⟩ := became_endWith x 0 c r
  obtain ⟨d', hkeeps⟩ := keeps_endWith x 0 c r
  have hd : (x.endWith 0 c r).calls[0]? = some d := by rw [hb.calls]; rfl
  cases eq_of_get_set (hkeeps.calls ▸ hd)
  cases settles with
  | again verdict => cases hverdict.symm.trans verdict
  | failed verdict => cases hverdict.symm.trans verdict
  | answered verdict =>
    cases hverdict.symm.trans verdict
    have hcache := hkeeps.cache
    rw [hconclude] at hd hcache
    refine ⟨_, hstep, ?_, rfl, ?_, ?_⟩
    · rw [hd, hcache]
      rfl
    · rw [hcache]
      rfl
    · rw [hcache]
      rfl

end Session

end ChatApi.Client
