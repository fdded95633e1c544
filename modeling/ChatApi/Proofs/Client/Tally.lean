import ChatApi.Proofs.Client.Cancel
import ChatApi.Proofs.Client.Ledger

/-!
# Every attempt is counted once

`Session.ending?` says which attempt a step of a call ends, from nothing but the call before and after. A step
counts just that attempt (`metrics_stepCall`), and nothing else that can happen counts any. So the counts of a
client are the ledger of how its attempts ended and of when the counts were read (`attempts_conserved`).
-/

namespace ChatApi.Client

/-- Whether an attempt is under way. -/
def Call.isOut (c : Call) : Bool :=
  match c.stage with
  | .inFlight _ _ => true
  | _ => false

/-- An attempt was made as a call became `d`, and is not under way: it failed at once. -/
def Call.failsAtOnce (c d : Call) : Bool := c.progress.attempts < d.progress.attempts && !d.isOut

namespace Session

/-- The attempt that ends as call `i` steps to `y`: one that was under way and is due, or one that fails at
once. A call that is cancelled is dropped with its attempt. -/
def ending? (x : Session) (i : Nat) (y : Session) : Option AttemptEnd :=
  match x.calls[i]?, y.calls[i]? with
  | some c, some d =>
    if c.isCancelled then none
    else match c.stage with
      | .inFlight till response => if till ≤ x.now then some (x.attemptEnd response) else none
      | .asking | .waiting => if c.failsAtOnce d then some .noResponse else none
      | _ => none
  | _, _ => none

/-- The courses of a session, with what becomes of its counts. -/
inductive Recounts (x : Session) : List Deed → Session → Prop
  | refl : Recounts x [] x
  | step {deeds : List Deed} {i : Nat} {y z : Session} (earlier : Recounts x deeds y)
      (step : y.stepCall i = some z) : Recounts x (deeds ++ ((y.ending? i z).map .ended).toList) z
  | drop {deeds : List Deed} {i : Nat} {y z : Session} (earlier : Recounts x deeds y)
      (drops : Drops i y z) : Recounts x deeds z
  | cancel {deeds : List Deed} {y : Session} (earlier : Recounts x deeds y) (i : Nat) :
      Recounts x deeds (y.cancel i)
  | schedule {deeds : List Deed} {y : Session} {agenda : Agenda Task} (earlier : Recounts x deeds y)
      (later : y.now ≤ agenda.now) : Recounts x deeds { y with agenda }
  | start {deeds : List Deed} {y : Session} (earlier : Recounts x deeds y) (e : Endpoint) (delay : Span)
      (cancelAfter : Option Span) : Recounts x deeds (y.start e delay cancelAfter)
  | read {deeds : List Deed} {y : Session} (earlier : Recounts x deeds y) (sinceLast : Bool) :
      Recounts x (deeds ++ [.read sinceLast])
        { y with client := { y.client with metrics := (y.client.metrics.read sinceLast).2 } }

variable {x y z : Session} {i : Nat} {c d : Call} {deeds : List Deed}

/-- However a session goes on while nobody reads its counts, it takes one of these courses. -/
theorem Leads.recounts (h : Leads x y) : ∃ deeds, Recounts x deeds y := by
  induction h with
  | refl => exact ⟨[], .refl⟩
  | tail _ hn ih =>
    obtain ⟨deeds, ih⟩ := ih
    cases hn with
    | step step => exact ⟨_, ih.step step⟩
    | drop drops => exact ⟨_, ih.drop drops⟩
    | cancel i => exact ⟨_, ih.cancel i⟩
    | schedule later => exact ⟨_, ih.schedule later⟩
    | start e delay cancelAfter => exact ⟨_, ih.start e delay cancelAfter⟩

/-! ### What a step counts -/

theorem metrics_settleAttempt (x : Session) (i : Nat) (c : Call) (e : AttemptEnd) :
    (x.settleAttempt i c e).client.metrics = x.client.metrics := by
  unfold settleAttempt
  cases c.progress.after x.client.account.retry c.request.route e x.client.draws with
  | mk verdict draws => rcases verdict with (_ | _) | _ <;> rfl

theorem metrics_endWithout (x : Session) (i : Nat) (c : Call) :
    (x.endWithout i c).client.metrics = x.client.metrics.record none :=
  metrics_settleAttempt ..

theorem metrics_endWith (x : Session) (i : Nat) (c : Call) (r : Http.Response) :
    (x.endWith i c r).client.metrics = x.client.metrics.record (some r.status) := by
  unfold endWith
  dsimp only
  split
  · exact metrics_settleAttempt ..
  · exact metrics_settleAttempt ..

theorem metrics_begin (x : Session) (i : Nat) (c : Call) :
    (x.begin i c).client.metrics = x.client.metrics := by
  unfold begin
  extract_lets z
  have hz : z.client = x.client := by
    dsimp only [z]
    split <;> rfl
  clear_value z
  rw [← hz]
  split
  · rfl
  · split
    · rfl
    · rename_i request _ _ _ _
      cases request.timeout <;> rfl

/-- Whoever goes on has made as many attempts as before. -/
theorem attempts_of_again {p q : Progress} {policy : RetryPolicy} {route : String} {e : AttemptEnd}
    {draws : Draws} {delay : Span} (h : (p.after policy route e draws).1 = .again delay q) :
    q.attempts = p.attempts := by
  rw [eq_retried_of_again h]
  unfold Progress.retried
  split <;> rfl

/-- The end of an attempt is no attempt more. -/
theorem attempts_of_settles {e : AttemptEnd} (h : c.Settles x e d) : d.progress.attempts = c.progress.attempts := by
  cases h with
  | again verdict => exact attempts_of_again verdict
  | failed _ | answered _ => rfl

/-- It leaves none under way. -/
theorem isOut_of_settles {e : AttemptEnd} (h : c.Settles x e d) : d.isOut = false := by
  cases h <;> rfl

theorem failsAtOnce_of_settles {e : AttemptEnd} (h : c.tried.Settles x e d) : c.failsAtOnce d = true := by
  have attempts : d.progress.attempts = c.progress.attempts + 1 := attempts_of_settles h
  simp [Call.failsAtOnce, attempts, isOut_of_settles h]

/-- The counts of a session as call `i` goes on from `c`, which asks: they count an attempt if it fails at
once. -/
def Asked (x : Session) (i : Nat) (c : Call) (y : Session) : Prop :=
  ∃ d, y.calls = x.calls.set i d ∧ y.client.metrics =
    if c.failsAtOnce d then x.client.metrics.record none else x.client.metrics

theorem asked_of_same (hcalls : y.calls = x.calls.set i d) (same : d.progress = c.progress)
    (hmetrics : y.client.metrics = x.client.metrics) : x.Asked i c y :=
  ⟨d, hcalls, by simpa [Call.failsAtOnce, same] using hmetrics⟩

theorem asked_endWithout (x : Session) (i : Nat) (c : Call) : x.Asked i c (x.endWithout i c.tried) := by
  obtain ⟨d, hd, hb⟩ := became_endWithout x i c.tried
  exact ⟨d, hb.calls, by rw [failsAtOnce_of_settles hd]; exact metrics_endWithout ..⟩

/-- A call that asks, in a session that differs in nothing that is looked at here. -/
theorem Asked.congr (h : y.Asked i c z) (hcalls : y.calls = x.calls)
    (hmetrics : y.client.metrics = x.client.metrics) : x.Asked i c z := by
  obtain ⟨d, hd, hm⟩ := h
  exact ⟨d, hcalls ▸ hd, hmetrics ▸ hm⟩

theorem asked_send (x : Session) (i : Nat) (c : Call) : x.Asked i c (x.send i c) := by
  unfold send
  split
  · exact asked_of_same (became_finish x i c _).calls rfl rfl
  · dsimp only
    split
    · exact asked_endWithout x i c
    · rename_i outgoing _
      -- what is sent is noted first, and then the reply is looked for
      have htaken := unmoved_takeReply { x with sent := x.sent ++ [Sent.mk x.now outgoing] } outgoing
      have hclient := client_takeReply { x with sent := x.sent ++ [Sent.mk x.now outgoing] } outgoing
      split
      · rename_i y hy
        rw [hy] at htaken hclient
        exact (asked_endWithout y i c).congr htaken.calls (congrArg State.metrics hclient)
      · rename_i reply y hy
        rw [hy] at htaken hclient
        refine Asked.congr ⟨_, rfl, ?_⟩ htaken.calls (congrArg State.metrics hclient)
        simp [Call.failsAtOnce, Call.isOut, waitTill, setCall]

theorem asked_ask {a : Limit.Event} (h : x.ask i c a = some y) : x.Asked i c y := by
  have hcalls := (unmoved_happen x a).calls
  have waits {y : Session} (hy : y.calls = (x.happen a).1.calls.set i { c with stage := .waiting })
      (hm : y.client.metrics = x.client.metrics) : x.Asked i c y :=
    asked_of_same (d := { c with stage := .waiting }) (hcalls ▸ hy) rfl hm
  unfold ask at h
  dsimp only at h
  split at h
  · cases h
    exact (asked_send _ i c).congr hcalls rfl
  · cases h
    exact waits rfl rfl
  · cases h
    exact waits rfl rfl
  · cases h

/-- The counts after an attempt that may have ended. -/
def counted (x : Session) (ending : Option AttemptEnd) : Metrics :=
  match ending with
  | some e => x.client.metrics.record e.status?
  | none => x.client.metrics

theorem Asked.counted (h : x.Asked i c y) (hc : x.calls[i]? = some c) (wanted : c.isCancelled = false)
    (asks : c.asks) : y.client.metrics = x.counted (x.ending? i y) := by
  obtain ⟨d, hcalls, hm⟩ := h
  have hd : y.calls[i]? = some d := by
    rw [hcalls, List.getElem?_set_self (List.getElem?_eq_some_iff.1 hc).1]
  have hend : x.ending? i y = if c.failsAtOnce d then some .noResponse else none := by
    rcases asks with hs | hs <;> simp [ending?, hc, hd, wanted, hs]
  rw [hm, hend]
  cases c.failsAtOnce d <;> rfl

theorem status?_attemptEnd (x : Session) (response : Option Http.Response) :
    (x.attemptEnd response).status? = response.map (·.status) := by
  cases response with
  | none => rfl
  | some r =>
    unfold attemptEnd
    dsimp only
    split <;> rfl

/-- A step that the call takes by itself counts the attempt that it ends, if it ends one. -/
theorem metrics_advanceCall (hc : x.calls[i]? = some c) (wanted : c.isCancelled = false)
    (h : x.advanceCall i c = some y) : y.client.metrics = x.counted (x.ending? i y) := by
  have hi : i < x.calls.length := (List.getElem?_eq_some_iff.1 hc).1
  obtain ⟨d, _, -, hb⟩ := moves_of_advanceCall h
  have hd : y.calls[i]? = some d := by rw [hb.calls, List.getElem?_set_self hi]
  unfold advanceCall at h
  cases hs : c.stage with
  | due start =>
    rw [hs] at h
    dsimp only at h
    split at h
    · cases h
      have hend : x.ending? i (x.begin i c) = none := by simp [ending?, hc, hd, wanted, hs]
      rw [hend]
      exact metrics_begin x i c
    · cases h
  | asking =>
    rw [hs] at h
    exact (asked_ask h).counted hc wanted (.inl hs)
  | waiting =>
    rw [hs] at h
    exact (asked_ask h).counted hc wanted (.inr hs)
  | inFlight till response =>
    rw [hs] at h
    dsimp only at h
    split at h
    · cases h
    · rename_i hn
      have hend : x.ending? i y = some (x.attemptEnd response) := by
        simp [ending?, hc, hd, wanted, hs, Nat.le_of_not_lt hn]
      rw [hend, counted, status?_attemptEnd]
      cases h
      cases response with
      | none => exact metrics_endWithout x i c
      | some r => exact metrics_endWith x i c r
  | resting till =>
    rw [hs] at h
    dsimp only at h
    split at h
    · cases h
    · have hend : x.ending? i y = none := by simp [ending?, hc, hd, wanted, hs]
      rw [hend]
      cases h
      rfl
  | ended moment result cache =>
    rw [hs] at h
    cases h

/-- A call that would have to wait has no attempt that is due. -/
theorem lt_of_waits {till : Instant} {response : Option Http.Response} (waits : x.advanceCall i c = none)
    (hs : c.stage = .inFlight till response) : x.now < till := by
  simpa [advanceCall, hs] using waits

/-- A call that is dropped ends no attempt. Any other step is one that the call takes by itself. -/
theorem dropped_or_advances (h : x.stepCall i = some y) :
    (x.ending? i y = none ∧ y.client.metrics = x.client.metrics) ∨
      ∃ c, x.calls[i]? = some c ∧ c.isCancelled = false ∧ x.advanceCall i c = some y := by
  obtain ⟨c, hc, -, hcases⟩ := stepCall_cases h
  have finished (error : ApiError) : (x.finish i c (.error error)).calls[i]? =
      some (c.over x (.error error) x.client.cache) := by
    rw [(became_finish x i c _).calls, List.getElem?_set_self (List.getElem?_eq_some_iff.1 hc).1]
  rcases hcases with ⟨cancelled, rfl⟩ | ⟨wanted, advanced⟩ | ⟨waits, -, rfl⟩
  · exact .inl ⟨by simp [ending?, hc, finished, cancelled], rfl⟩
  · exact .inr ⟨c, hc, wanted, advanced⟩
  · refine .inl ⟨?_, rfl⟩
    cases hs : c.stage with
    | inFlight till response =>
      have early := lt_of_waits waits hs
      simp [ending?, hc, finished, hs, early]
    | asking | waiting => simp [ending?, hc, finished, hs, Call.failsAtOnce, Call.over]
    | due _ | resting _ | ended _ _ _ => simp [ending?, hc, finished, hs]

/-- A step counts the attempt that it ends, if it ends one. -/
theorem metrics_stepCall (h : x.stepCall i = some y) : y.client.metrics = x.counted (x.ending? i y) := by
  rcases dropped_or_advances h with ⟨hend, hm⟩ | ⟨c, hc, wanted, hadvance⟩
  · rw [hend]
    exact hm
  · exact metrics_advanceCall hc wanted hadvance

/-- The end of an attempt is what the call goes by. -/
def Judged (x : Session) (i : Nat) (e : AttemptEnd) (y : Session) : Prop :=
  ∃ c d, (x.calls[i]? = some c ∨ x.calls[i]?.map Call.tried = some c) ∧ y.calls[i]? = some d ∧ c.Settles x e d

theorem judged_of_ending? {e : AttemptEnd} (h : x.stepCall i = some y) (hend : x.ending? i y = some e) :
    x.Judged i e y := by
  rcases dropped_or_advances h with ⟨hnone, -⟩ | ⟨c, hc, wanted, hadvance⟩
  · rw [hnone] at hend
    cases hend
  obtain ⟨d, sent, moves, hb⟩ := moves_of_advanceCall hadvance
  have hi : i < x.calls.length := (List.getElem?_eq_some_iff.1 hc).1
  have hd : y.calls[i]? = some d := by rw [hb.calls, List.getElem?_set_self hi]
  -- of the moves of a call that asks, only an end is an attempt more that is not under way
  have asked (asks : c.asks) (hfails : c.failsAtOnce d = true) : c.tried.Settles x .noResponse d := by
    cases moves with
    | unsent _ _ settles | unanswered _ _ settles => exact settles
    | cancelled hcancelled => rw [wanted] at hcancelled; cases hcancelled
    | timedOut _ _ | waits _ | unsendable _ _ | sent _ _ _ _ =>
      simp [Call.failsAtOnce, Call.over, Call.tried, Call.isOut] at hfails
    | unmade stage _ | misrouted stage _ _ | begun stage _ _ | landed stage _ _ | rested stage _ =>
      rcases asks with hs | hs <;> cases hs.symm.trans stage
  cases hs : c.stage with
  | inFlight till response =>
    simp only [advanceCall, hs] at hadvance
    split at hadvance
    · cases hadvance
    · rename_i hn
      simp only [ending?, hc, hd, wanted, hs, Nat.le_of_not_lt hn, if_true, Bool.false_eq_true, if_false,
        Option.some.injEq] at hend
      cases hend
      cases hadvance
      cases response with
      | none =>
        obtain ⟨d', hd', hb'⟩ := became_endWithout x i c
        exact ⟨c, d', .inl hc, by rw [hb'.calls, List.getElem?_set_self hi], hd'⟩
      | some r =>
        obtain ⟨d', hd', hb'⟩ := became_endWith x i c r
        exact ⟨c, d', .inl hc, by rw [hb'.calls, List.getElem?_set_self hi], hd'⟩
  | asking =>
    simp only [ending?, hc, hd, wanted, hs, Bool.false_eq_true, if_false, Option.ite_none_right_eq_some,
      Option.some.injEq] at hend
    obtain ⟨hfails, rfl⟩ := hend
    exact ⟨c.tried, d, .inr (by rw [hc]; rfl), hd, asked (.inl hs) hfails⟩
  | waiting =>
    simp only [ending?, hc, hd, wanted, hs, Bool.false_eq_true, if_false, Option.ite_none_right_eq_some,
      Option.some.injEq] at hend
    obtain ⟨hfails, rfl⟩ := hend
    exact ⟨c.tried, d, .inr (by rw [hc]; rfl), hd, asked (.inr hs) hfails⟩
  | due _ | resting _ | ended _ _ _ => simp [ending?, hc, hd, hs] at hend

/-! ### What a course counts -/

theorem isSeen_attemptEnd (x : Session) (response : Option Http.Response) : (x.attemptEnd response).IsSeen := by
  cases response with
  | none => trivial
  | some r =>
    unfold attemptEnd
    dsimp only
    split
    · exact fun _ => rfl
    · rename_i hr
      exact fun h => absurd h hr

/-- The limits have seen every refusal that ends an attempt. -/
theorem isSeen_of_ending? {e : AttemptEnd} (h : x.ending? i y = some e) : e.IsSeen := by
  unfold ending? at h
  split at h
  · split at h
    · cases h
    · split at h
      · split at h
        · cases h
          exact isSeen_attemptEnd ..
        · cases h
      · split at h
        · cases h
          trivial
        · cases h
      · split at h
        · cases h
          trivial
        · cases h
      · cases h
  · cases h

/-- However a session goes on, its counts are those of the attempts that ended. -/
theorem Recounts.metrics (fresh : x.client.metrics = {}) (h : Recounts x deeds y) :
    y.client.metrics = (Ledger.run (deeds.map Deed.op)).metrics ∧ ∀ e, .ended e ∈ deeds → e.IsSeen := by
  induction h with
  | refl => exact ⟨fresh, by simp⟩
  | @step deeds i y z _ step ih =>
    obtain ⟨hmetrics, hseen⟩ := ih
    rw [metrics_stepCall step]
    cases he : y.ending? i z with
    | none => simpa using ⟨hmetrics, hseen⟩
    | some e =>
      refine ⟨?_, fun e' he' => ?_⟩
      · rw [List.map_append, Ledger.run, List.foldl_append, counted, hmetrics]
        rfl
      · rcases List.mem_append.1 he' with he' | he'
        · exact hseen e' he'
        · cases List.mem_singleton.1 he'
          exact isSeen_of_ending? he
  | drop _ drops ih =>
    obtain ⟨-, -, error⟩ := drops
    exact ih
  | cancel _ i ih =>
    rw [client_cancel]
    exact ih
  | schedule _ _ ih => exact ih
  | start _ e delay cancelAfter ih =>
    rw [client_start]
    exact ih
  | read _ sinceLast ih =>
    obtain ⟨hmetrics, hseen⟩ := ih
    refine ⟨?_, fun e he => hseen e (by simpa using he)⟩
    rw [List.map_append, Ledger.run, List.foldl_append, hmetrics]
    rfl

/-- Attempts are conserved. Whatever is counted and read, the total is that of all classes, in the counts
that there are and in all that were read; what was read of the counts since the last time makes up the counts
of the lifetime together with those that are still to be read; and no count gets out of 64 bits before as many
attempts are counted. However the calls of a fresh client go on, each step counts the attempt that it ends and
nothing else counts; so the counts tell the outcomes of the attempts, which are those that the calls go by. -/
theorem attempts_conserved :
    (∀ ops : List Metrics.Op,
      (∀ c ∈ (Ledger.run ops).all, c.total = c.classes.sum) ∧
      (Ledger.run ops).taken.sum + (Ledger.run ops).metrics.interval = (Ledger.run ops).metrics.lifetime ∧
      (ops.countP Metrics.Op.isCount < UInt64.size →
        ∀ c ∈ (Ledger.run ops).all, ∀ n ∈ c.total :: c.classes, n < UInt64.size)) ∧
    (∀ (x y : Session), x.Leads y → ∃ deeds, x.Recounts deeds y) ∧
    (∀ (x y : Session) (i : Nat) (e : AttemptEnd), x.stepCall i = some y → x.ending? i y = some e →
      x.Judged i e y) ∧
    ∀ (x y : Session) (deeds : List Deed), x.client.metrics = {} → x.Recounts deeds y →
      y.client.metrics = (Ledger.run (deeds.map Deed.op)).metrics ∧
      y.client.metrics.lifetime.Tells (Deed.ends deeds) ∧
      y.client.metrics.interval.Tells (Deed.recent deeds) := by
  refine ⟨fun ops => ?_, fun _ _ h => h.recounts, fun _ _ _ _ => judged_of_ending?, fun x y deeds fresh h => ?_⟩
  · have sound := Ledger.sound_run ops
    refine ⟨sound.balanced, sound.conserved, fun hlt c hc n hn => ?_⟩
    exact Nat.lt_of_le_of_lt (Nat.le_trans ((sound.balanced c hc).le_total n hn) (sound.bounded c hc)) hlt
  · obtain ⟨hmetrics, hseen⟩ := h.metrics fresh
    rw [hmetrics]
    exact ⟨rfl, Ledger.tells_run hseen⟩

/-- An attempt that nobody answers ends the call, and is counted and read once. -/
theorem unanswered_attempt_counted :
    let account : Account := ⟨"https://discord.com/api/v10", "Bot token", 50, .never⟩
    let x : Session := { epoch := 0, client := .ofAccount account [], replies := [], boundary := "line" }
    let x₁ := x.start (.raw (.direct .get "users/@me")) 0 none
    let x₂ := (x₁.stepCall 0).getD x₁
    let x₃ := (x₂.stepCall 0).getD x₂
    let y := { x₃ with client := { x₃.client with metrics := (x₃.client.metrics.read true).2 } }
    let ops : List Metrics.Op := [.count none, .read true]
    (Ledger.run ops).taken.map Counters.total = [1] ∧
      (∀ c ∈ (Ledger.run ops).all, ∀ n ∈ c.total :: c.classes, n < UInt64.size) ∧
      (∃ deeds, x₁.Recounts deeds x₃) ∧ x₂.Judged 0 .noResponse x₃ ∧
      y.client.metrics.lifetime.transportFailures = 1 ∧ y.client.metrics.interval.total = 0 := by
  intro account x x₁ x₂ x₃ y ops
  have stepped {z : Session} (h : (z.stepCall 0).isSome = true) :
      z.stepCall 0 = some ((z.stepCall 0).getD z) := by
    obtain ⟨w, hw⟩ := Option.isSome_iff_exists.1 h
    rw [hw]
    rfl
  have h₁ : x₁.stepCall 0 = some x₂ := stepped (by decide +kernel)
  have h₂ : x₂.stepCall 0 = some x₃ := stepped (by decide +kernel)
  have began : x₁.ending? 0 x₂ = none := Option.isNone_iff_eq_none.1 (by decide +kernel)
  have hstatus : (x₂.ending? 0 x₃).map AttemptEnd.status? = some none := by decide +kernel
  have failed : x₂.ending? 0 x₃ = some .noResponse := by
    obtain ⟨e, he, hnone⟩ := Option.map_eq_some_iff.1 hstatus
    cases e with
    | noResponse => exact he
    | response r limited => cases hnone
  have course : x₁.Recounts [.ended .noResponse, .read true] y := by
    have := ((Recounts.refl (x := x₁)).step h₁).step h₂
    rw [began, failed] at this
    exact this.read true
  obtain ⟨conserved, courses, judged, counts⟩ := attempts_conserved
  obtain ⟨-, htells, hrecent⟩ := counts x₁ y _ rfl course
  exact ⟨by decide, (conserved ops).2.2 (by decide),
    courses x₁ x₃ (.tail (.single (.step h₁)) (.step h₂)), judged x₂ x₃ 0 _ h₂ failed,
    htells.kinds .networkFailure, hrecent.total⟩

end Session

end ChatApi.Client
