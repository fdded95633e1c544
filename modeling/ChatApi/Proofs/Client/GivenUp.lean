import ChatApi.Proofs.Client.Tally

/-!
# Attempts that are given up

An attempt is counted when it ends. A call that is cancelled, out of time or dropped while an attempt of it is under
way leaves nobody behind who waits for the end, so that attempt is handed over and never counted. Nothing else is
lost: along every course, the attempts handed over are those that were counted, those that were given up and those
that are under way (`Squares`).
-/

namespace ChatApi.Client

/-- Whether a call gives up an attempt if it takes a step: one is under way, and the call is cancelled or would have
to wait for its end. -/
def Call.givesUp (now : Instant) (c : Call) : Bool :=
  match c.stage with
  | .inFlight till _ => c.isCancelled || now < till
  | _ => false

/-- The attempts of a call, if they could be put together. -/
def Call.attemptsSent (x : Session) (c : Call) : Nat :=
  if (c.outgoing? x).isSome then c.progress.attempts else 0

namespace Session

/-- The attempts handed over so far, those that could not be put together among them. -/
def handed (x : Session) : Nat := (x.calls.map (·.progress.attempts)).sum

/-- The attempts that are under way. -/
def underWay (x : Session) : Nat := (x.calls.map (·.isOut.toNat)).sum

/-- The courses of a session, with how many attempts are given up. -/
inductive Forgoes (x : Session) : Nat → Session → Prop
  | refl : Forgoes x 0 x
  | step {n i : Nat} {y z : Session} (earlier : Forgoes x n y) (step : y.stepCall i = some z) :
      Forgoes x (n + (y.calls[i]?.any (·.givesUp y.now)).toNat) z
  | drop {n i : Nat} {y z : Session} (earlier : Forgoes x n y) (drops : Drops i y z) :
      Forgoes x (n + (y.calls[i]?.any Call.isOut).toNat) z
  | cancel {n : Nat} {y : Session} (earlier : Forgoes x n y) (i : Nat) : Forgoes x n (y.cancel i)
  | schedule {n : Nat} {y : Session} {agenda : Agenda Task} (earlier : Forgoes x n y)
      (later : y.now ≤ agenda.now) : Forgoes x n { y with agenda }
  | start {n : Nat} {y : Session} (earlier : Forgoes x n y) (e : Endpoint) (delay : Span)
      (cancelAfter : Option Span) : Forgoes x n (y.start e delay cancelAfter)
  | read {n : Nat} {y : Session} (earlier : Forgoes x n y) (sinceLast : Bool) :
      Forgoes x n { y with client := { y.client with metrics := (y.client.metrics.read sinceLast).2 } }

variable {x y z : Session} {i n : Nat} {c d : Call} {sent : List Sent}

/-- However a session goes on while nobody reads its counts, it takes one of these courses. -/
theorem Leads.forgoes (h : Leads x y) : ∃ n, Forgoes x n y := by
  induction h with
  | refl => exact ⟨0, .refl⟩
  | tail _ hn ih =>
    obtain ⟨n, ih⟩ := ih
    cases hn with
    | step step => exact ⟨_, ih.step step⟩
    | drop drops => exact ⟨_, ih.drop drops⟩
    | cancel i => exact ⟨_, ih.cancel i⟩
    | schedule later => exact ⟨_, ih.schedule later⟩
    | start e delay cancelAfter => exact ⟨_, ih.start e delay cancelAfter⟩

/-! ### One call -/

/-- A move leaves a call with the attempts it had and none under way, unless the call asked and made one more. -/
theorem attempts_of_moves (h : c.Moves x d sent) :
    (d.progress.attempts = c.progress.attempts ∧ d.isOut = false) ∨
      c.asks ∧ d.progress.attempts = c.progress.attempts + 1 := by
  cases h with
  | cancelled _ | timedOut _ _ | unmade _ _ | misrouted _ _ _ | begun _ _ _ | waits _ | unsendable _ _ | rested _ _ =>
    exact .inl ⟨rfl, rfl⟩
  | unsent asks _ settles | unanswered asks _ settles => exact .inr ⟨asks, attempts_of_settles settles⟩
  | sent _ _ asks _ => exact .inr ⟨asks, rfl⟩
  | landed _ _ settles => exact .inl ⟨attempts_of_settles settles, isOut_of_settles settles⟩

theorem request_of_settles {e : AttemptEnd} (h : c.Settles x e d) : d.request = c.request := by
  cases h <;> rfl

theorem attemptsSent_congr (request : d.request = c.request) (attempts : d.progress.attempts = c.progress.attempts) :
    d.attemptsSent x = c.attemptsSent x := by
  unfold Call.attemptsSent Call.outgoing?
  rw [request, attempts]

/-- What a move sends is one attempt more of those that could be put together. -/
theorem attemptsSent_of_moves (h : c.Moves x d sent)
    (early : ∀ start, c.stage = .due start → c.progress.attempts = 0) :
    d.attemptsSent x = c.attemptsSent x + sent.length := by
  have settled {c d : Call} {e : AttemptEnd} (settles : c.Settles x e d) : d.attemptsSent x = c.attemptsSent x :=
    attemptsSent_congr (request_of_settles settles) (attempts_of_settles settles)
  have tried {o : Option Outgoing} (built : c.outgoing? x = o) :
      c.tried.attemptsSent x = c.attemptsSent x + o.isSome.toNat := by
    have same : c.tried.outgoing? x = o := built
    rw [Call.attemptsSent, Call.attemptsSent, same, built]
    cases o <;> rfl
  cases h with
  | cancelled _ | timedOut _ _ | unmade _ _ | misrouted _ _ _ | waits _ | unsendable _ _ | rested _ _ => rfl
  | begun stage _ _ => simp [Call.attemptsSent, early _ stage]
  | unsent _ unbuilt settles => exact (settled settles).trans (tried unbuilt)
  | unanswered _ built settles => exact (settled settles).trans (tried built)
  | sent till response _ built =>
    exact (attemptsSent_congr (d := { c.tried with stage := .inFlight till response }) rfl rfl).trans (tried built)
  | landed _ _ settles => exact settled settles

/-- Whatever a move makes of a call has begun. -/
theorem begun_of_moves (h : c.Moves x d sent) (start : Instant) : d.stage ≠ .due start := by
  have settled {c d : Call} {e : AttemptEnd} (settles : c.Settles x e d) : d.stage ≠ .due start := by
    cases settles <;> simp [Call.over]
  cases h with
  | cancelled _ | timedOut _ _ | unmade _ _ | misrouted _ _ _ | begun _ _ _ | waits _ | unsendable _ _ | sent _ _ _ _
  | rested _ _ => simp [Call.over]
  | unsent _ _ settles | unanswered _ _ settles | landed _ _ settles => exact settled settles

/-- A call that is dropped gives up what it has under way. -/
theorem givesUp_of_dropped (why : c.isCancelled = true ∨ x.advanceCall i c = none) : c.givesUp x.now = c.isOut := by
  cases hs : c.stage with
  | inFlight till response =>
    rcases why with cancelled | waits
    · simp [Call.givesUp, Call.isOut, hs, cancelled]
    · simp [Call.givesUp, Call.isOut, hs, lt_of_waits waits hs]
  | due _ | asking | waiting | resting _ | ended _ _ _ => simp [Call.givesUp, Call.isOut, hs]

/-- A call that goes on by itself waits for the end of its attempt. -/
theorem le_of_advanceCall {till : Instant} {response : Option Http.Response} (h : x.advanceCall i c = some y)
    (hs : c.stage = .inFlight till response) : till ≤ x.now := by
  by_contra hn
  simp [advanceCall, hs, Nat.lt_of_not_le hn] at h

theorem not_givesUp_of_advanceCall (wanted : c.isCancelled = false) (h : x.advanceCall i c = some y) :
    c.givesUp x.now = false := by
  cases hs : c.stage with
  | inFlight till response => simp [Call.givesUp, hs, wanted, Nat.not_lt_of_le (le_of_advanceCall h hs)]
  | due _ | asking | waiting | resting _ | ended _ _ _ => simp [Call.givesUp, hs]

theorem isOut_of_asks (asks : c.asks) : c.isOut = false := by
  rcases asks with hs | hs <;> simp [Call.isOut, hs]

/-- An attempt that was made before or is made now has ended or is under way. -/
theorem attempts_of_advanceCall (hc : x.calls[i]? = some c) (wanted : c.isCancelled = false)
    (h : x.advanceCall i c = some y) (hd : y.calls[i]? = some d) (moves : c.Moves x d sent) :
    d.isOut.toNat + (x.ending? i y).isSome.toNat + c.progress.attempts =
      c.isOut.toNat + d.progress.attempts := by
  rcases attempts_of_moves moves with ⟨same, landed⟩ | ⟨asks, more⟩
  · have ends : (x.ending? i y).isSome = c.isOut := by
      cases hs : c.stage with
      | inFlight till response =>
        simp [ending?, hc, hd, wanted, hs, le_of_advanceCall h hs, Call.isOut]
      | due _ | asking | waiting | resting _ | ended _ _ _ =>
        simp [ending?, hc, hd, wanted, hs, Call.failsAtOnce, same, Call.isOut]
    rw [ends, landed, same]
    simp
  · have ends : (x.ending? i y).isSome = !d.isOut := by
      rcases asks with hs | hs <;> cases ho : d.isOut <;> simp [ending?, hc, hd, wanted, hs, Call.failsAtOnce, more, ho]
    rw [ends, isOut_of_asks asks, more]
    cases d.isOut <;> simp [Nat.add_comm]

/-! ### All calls -/

/-- A sum over all calls changes by what it changes for the one call that becomes another. -/
theorem sum_map_set (f : Call → Nat) {calls : List Call} (hc : calls[i]? = some c) :
    ((calls.set i d).map f).sum + f c = (calls.map f).sum + f d := by
  induction calls generalizing i with
  | nil => cases hc
  | cons b calls ih =>
    cases i with
    | zero =>
      cases hc
      simp [Nat.add_comm, Nat.add_left_comm]
    | succ i =>
      have := ih (i := i) (by simpa using hc)
      simp only [List.set_cons_succ, List.map_cons, List.sum_cons]
      omega

theorem attemptsSent_of_alike (h : Alike x y) (c : Call) : c.attemptsSent y = c.attemptsSent x := by
  unfold Call.attemptsSent Call.outgoing?
  rw [h.account, h.boundary]

/-- The attempts handed over are those that were counted, the `n` that were given up and those that are under way.
Those that could be put together were sent. -/
structure Squares (x : Session) (n : Nat) : Prop where
  early : ∀ c ∈ x.calls, ∀ start, c.stage = .due start → c.progress.attempts = 0
  sent : x.sent.length = (x.calls.map (·.attemptsSent x)).sum
  handed : x.client.metrics.lifetime.total + n + x.underWay = x.handed

/-- A call becomes another whose attempts square with what is sent, counted and given up. -/
theorem Squares.became {m : Nat} (h : Squares x n) (hc : x.calls[i]? = some c) (hb : Became x i d sent y)
    (early : ∀ start, d.stage = .due start → d.progress.attempts = 0)
    (log : d.attemptsSent x = c.attemptsSent x + sent.length)
    (balance : y.client.metrics.lifetime.total + m + d.isOut.toNat + c.progress.attempts =
      x.client.metrics.lifetime.total + c.isOut.toNat + d.progress.attempts) : Squares y (n + m) := by
  refine ⟨fun e he => ?_, ?_, ?_⟩
  · rw [hb.calls] at he
    rcases List.mem_or_eq_of_mem_set he with he | rfl
    · exact h.early e he
    · exact early
  · have hsum := sum_map_set (d := d) (·.attemptsSent x) hc
    have hsent := h.sent
    simp only [attemptsSent_of_alike hb.alike, hb.calls, hb.sent, List.length_append]
    omega
  · have hout := sum_map_set (d := d) (·.isOut.toNat) hc
    have hattempts := sum_map_set (d := d) (·.progress.attempts) hc
    have hhanded := h.handed
    unfold underWay Session.handed at hhanded ⊢
    rw [hb.calls]
    omega

/-- A call that is dropped gives up the attempt that it has under way. -/
theorem Squares.finish (h : Squares x n) (hc : x.calls[i]? = some c) (result : Except ApiError Answer) :
    Squares (x.finish i c result) (n + c.isOut.toNat) :=
  h.became hc (became_finish x i c result) (fun _ hs => by cases hs) rfl rfl

theorem total_counted (x : Session) (e : Option AttemptEnd) :
    (x.counted e).lifetime.total = x.client.metrics.lifetime.total + e.isSome.toNat := by
  cases e with
  | none => rfl
  | some e => exact Counters.total_record ..

theorem Squares.stepCall (h : Squares x n) (step : x.stepCall i = some y) :
    Squares y (n + (x.calls[i]?.any (·.givesUp x.now)).toNat) := by
  obtain ⟨c, hc, -, hcases⟩ := stepCall_cases step
  rw [hc, Option.any_some]
  rcases hcases with ⟨cancelled, rfl⟩ | ⟨wanted, advanced⟩ | ⟨waits, -, rfl⟩
  · rw [givesUp_of_dropped (i := i) (.inl cancelled)]
    exact h.finish hc _
  · obtain ⟨d, sent, moves, hb⟩ := moves_of_advanceCall advanced
    have hd : y.calls[i]? = some d := by
      rw [hb.calls, List.getElem?_set_self (List.getElem?_eq_some_iff.1 hc).1]
    have balance := attempts_of_advanceCall hc wanted advanced hd moves
    have htotal := total_counted x (x.ending? i y)
    rw [← metrics_advanceCall hc wanted advanced] at htotal
    rw [not_givesUp_of_advanceCall wanted advanced]
    refine h.became hc hb ?_ ?_ ?_
    · exact fun start hs => absurd hs (begun_of_moves moves start)
    · exact attemptsSent_of_moves moves (h.early c (List.mem_of_getElem? hc))
    · simp only [Bool.toNat_false]
      omega
  · rw [givesUp_of_dropped (.inr waits)]
    exact h.finish hc _

theorem Squares.cancel (h : Squares x n) (i : Nat) : Squares (x.cancel i) n := by
  unfold Session.cancel
  split
  · exact h
  · rename_i c hc
    have hb : Became x i { c with isCancelled := true } []
        { x.setCall i { c with isCancelled := true } with agenda := x.agenda.wake (.call i) } :=
      ⟨⟨rfl, rfl, rfl, Agenda.now_wake ..⟩, rfl, (List.append_nil _).symm⟩
    exact h.became (m := 0) hc hb (h.early c (List.mem_of_getElem? hc)) rfl rfl

/-- A call that is started has no attempts. -/
theorem Squares.start (h : Squares x n) (e : Endpoint) (delay : Span) (cancelAfter : Option Span) :
    Squares (x.start e delay cancelAfter) n := by
  obtain ⟨calls, alike⟩ := x.start_frame e delay cancelAfter
  have silent : (x.start e delay cancelAfter).sent = x.sent := by
    unfold Session.start
    dsimp only
    split <;> rfl
  refine ⟨fun c hc start hs => ?_, ?_, ?_⟩
  · rw [calls, List.mem_append, List.mem_singleton] at hc
    rcases hc with hc | rfl
    · exact h.early c hc start hs
    · rfl
  · simp only [attemptsSent_of_alike alike, calls, silent, h.sent]
    simp [Call.attemptsSent]
  · have hhanded := h.handed
    unfold underWay Session.handed at hhanded ⊢
    simpa [calls, client_start, Call.isOut] using hhanded

/-- However a session goes on, its attempts square. -/
theorem Forgoes.squares (h : Forgoes x n y) (fresh : Squares x 0) : Squares y n := by
  induction h with
  | refl => exact fresh
  | step _ step ih => exact ih.stepCall step
  | drop _ drops ih =>
    obtain ⟨hc, -, error⟩ := drops
    rw [hc, Option.any_some]
    exact ih.finish hc _
  | cancel _ i ih => exact ih.cancel i
  | schedule _ _ ih => exact ⟨ih.early, ih.sent, ih.handed⟩
  | start _ e delay cancelAfter ih => exact ih.start e delay cancelAfter
  | read _ sinceLast ih =>
    refine ⟨ih.early, ih.sent, ?_⟩
    cases sinceLast <;> exact ih.handed

/-- However the calls of a client go on that has sent nothing yet, the attempts handed over are those that were
counted, those that were given up and those that are under way; and the ones that could be put together were sent.
So while no attempt is under way, all of them are counted exactly if none was given up. -/
theorem counted_unless_given_up (x : Session) (calls : x.calls = []) (silent : x.sent = [])
    (uncounted : x.client.metrics = {}) :
    (∀ y, x.Leads y → ∃ n, x.Forgoes n y) ∧
    ∀ y n, x.Forgoes n y →
      y.client.metrics.lifetime.total + n + y.underWay = y.handed ∧
      y.sent.length = (y.calls.map (·.attemptsSent y)).sum ∧
      (y.underWay = 0 → (y.client.metrics.lifetime.total = y.handed ↔ n = 0)) := by
  refine ⟨fun y h => h.forgoes, fun y n h => ?_⟩
  have fresh : Squares x 0 := by
    refine ⟨?_, ?_, ?_⟩
    · simp [calls]
    · simp [calls, silent]
    · simp [underWay, Session.handed, calls, uncounted]
  have squares := h.squares fresh
  refine ⟨squares.handed, squares.sent, fun idle => ?_⟩
  have hhanded := squares.handed
  omega

/-- Of two attempts the first is cancelled under way and the second gets its response. One of them is counted. -/
theorem one_given_up_of_two :
    let account : Account := ⟨"https://discord.com/api/v10", "Bot token", 50, .never⟩
    let reply : Reply := ⟨Span.second, some ⟨.ok, [], .empty⟩⟩
    let x : Session := {
      epoch := 0
      client := .ofAccount account []
      replies := [("GET /api/v10/users/@me", [reply, reply])]
      boundary := "line" }
    let stepped (y : Session) (i : Nat) := (y.stepCall i).getD y
    let x₁ := (x.start .getCurrentUser 0 none).start (.raw (.direct .get "users/@me")) 0 none
    let x₂ := (stepped (stepped x₁ 0) 0).cancel 0
    let x₃ := stepped (stepped (stepped x₂ 0) 1) 1
    let y := stepped { x₃ with agenda := { x₃.agenda with now := Span.second } } 1
    x.calls = [] ∧ x.sent = [] ∧ x.client.metrics = {} ∧ x.Forgoes 1 y ∧
      y.client.metrics.lifetime.total + 1 + y.underWay = y.handed ∧ y.handed = 2 ∧ y.sent.length = 2 ∧
      y.underWay = 0 := by
  intro account reply x stepped x₁ x₂ x₃ y
  let z := { x₃ with agenda := { x₃.agenda with now := Span.second } }
  -- every turn is one that its call can take; in the third of them the cancelled call gives up
  have turns : ((x₁.stepCall 0).isSome ∧ ((stepped x₁ 0).stepCall 0).isSome) ∧
      ((x₂.stepCall 0).isSome ∧ ((stepped x₂ 0).stepCall 1).isSome ∧
        ((stepped (stepped x₂ 0) 1).stepCall 1).isSome ∧ (z.stepCall 1).isSome) ∧ x₃.now ≤ Span.second := by
    decide +kernel
  have goes {w : Session} {i n : Nat} (earlier : x.Forgoes n w) (can : (w.stepCall i).isSome) :
      x.Forgoes (n + (w.calls[i]?.any (·.givesUp w.now)).toNat) (stepped w i) := by
    obtain ⟨w', hw⟩ := Option.isSome_iff_exists.1 can
    have hstepped : stepped w i = w' := by simp [stepped, hw]
    rw [hstepped]
    exact earlier.step hw
  obtain ⟨⟨first, second⟩, ⟨third, fourth, fifth, sixth⟩, later⟩ := turns
  have begun : x.Forgoes _ x₁ := (Forgoes.refl.start ..).start ..
  have cancelled : x.Forgoes _ x₂ := (goes (goes begun first) second).cancel 0
  have waiting : x.Forgoes _ z := (goes (goes (goes cancelled third) fourth) fifth).schedule later
  obtain ⟨_, course, rfl⟩ : ∃ n, x.Forgoes n y ∧ n = 1 := ⟨_, goes waiting sixth, by decide +kernel⟩
  obtain ⟨squares, -, -⟩ := (counted_unless_given_up x rfl rfl rfl).2 y 1 course
  refine ⟨rfl, rfl, rfl, course, squares, ?_⟩
  decide +kernel

/-- An attempt whose call is cancelled after half of a second, when a response would take a whole one, was sent and
is not counted. -/
theorem cancelled_attempt_uncounted :
    let account : Account := ⟨"https://discord.com/api/v10", "Bot t", 50, .standard⟩
    let x : Session := {
      epoch := 0
      client := .ofAccount account []
      replies := [("GET /api/v10/users/@me", [⟨Span.ofMillis 1000, some ⟨.ok, [], .empty⟩⟩])]
      boundary := "line" }
    let y := (x.start .getCurrentUser 0 (some (Span.ofMillis 500))).run
    x.Leads y ∧ y.sent.length = 1 ∧ y.handed = 1 ∧ y.underWay = 0 ∧ y.client.metrics.lifetime.total = 0 := by
  intro account x y
  have leads : x.Leads y := (Relation.ReflTransGen.single (.start ..)).trans (leads_run _)
  refine ⟨leads, ?_⟩
  decide +kernel

end Session

end ChatApi.Client
