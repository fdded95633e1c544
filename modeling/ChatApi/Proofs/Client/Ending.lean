import ChatApi.Proofs.Client.Cancel
import ChatApi.Proofs.Client.Execution

/-!
# A call on its own comes to its end

`Session.Completes` says what a session comes to in which no call goes on but one, without the fuel of a
run: a run with fuel enough comes to the same (`Completes.runs`). Whatever its request is, such a call is
over in the end (`Alone.completes`), since each attempt uses up a reply or a retry.
-/

namespace ChatApi.Client

variable {request : Request} {i n m : Nat} {x y z : Session} {c d : Call} {sent : List Sent}

/-! ### What the moves of a call leave alone -/

/-- Call `d` goes on with what `c` has begun. -/
structure Call.Resumes (c d : Call) : Prop where
  endpoint : d.endpoint = c.endpoint
  cancelAfter : d.cancelAfter = c.cancelAfter
  request : d.request = c.request
  deadline : d.deadline = c.deadline
  isCancelled : d.isCancelled = c.isCancelled
  begun : ∀ start, d.stage ≠ .due start

theorem Call.Settles.resumes {e : AttemptEnd} (h : c.Settles x e d) : c.Resumes d := by
  cases h <;> exact ⟨rfl, rfl, rfl, rfl, rfl, by simp [Call.over]⟩

theorem Call.Moves.resumes (h : c.Moves x d sent) (begun : ∀ start, c.stage ≠ .due start) : c.Resumes d := by
  cases h with
  | unmade stage _ | misrouted stage _ _ | begun stage _ _ => exact absurd stage (begun _)
  | unsent _ _ settles | unanswered _ _ settles =>
    have h := settles.resumes
    exact ⟨h.endpoint, h.cancelAfter, h.request, h.deadline, h.isCancelled, h.begun⟩
  | landed _ _ settles => exact settles.resumes
  | _ => exact ⟨rfl, rfl, rfl, rfl, rfl, by simp [Call.over]⟩

/-- What a call sends in a step it sends now. -/
theorem Call.Moves.sent_now (h : c.Moves x d sent) : ∀ s ∈ sent, s.moment = x.now := by
  cases h with
  | unanswered _ _ _ | sent _ _ _ _ => simp
  | _ => simp

/-- A call that ends in a step ends now. -/
theorem Call.Moves.ended_now {moment : Instant} {result : Except ApiError Answer} {cache : Cache}
    (h : c.Moves x d sent) (stage : d.stage = .ended moment result cache) : moment = x.now := by
  have settled {c : Call} {e : AttemptEnd} (h : c.Settles x e d) : moment = x.now := by
    cases h <;> cases stage <;> rfl
  cases h with
  | unsent _ _ settles | unanswered _ _ settles | landed _ _ settles => exact settled settles
  | _ => cases stage <;> rfl

/-- What follows from the end of an attempt never takes a failure back, and a call that goes on after an
attempt without a response has failed once more. -/
theorem Progress.failures_of_again {p q : Progress} {policy : RetryPolicy} {route : String} {e : AttemptEnd}
    {draws : Draws} {delay : Span} (h : (p.after policy route e draws).1 = .again delay q) :
    p.failures ≤ q.failures ∧
      (e = .noResponse → p.failures < policy.maxRetries ∧ q.failures = p.failures + 1) := by
  by_cases ht : e.outcome = .serverError ∨ e.outcome = .networkFailure
  · rw [after_of_transient ht] at h
    split at h
    · cases h
    · rename_i hlt
      cases h
      exact ⟨Nat.le_succ _, fun _ => ⟨Nat.lt_of_not_le hlt, rfl⟩⟩
  · refine ⟨?_, fun he => absurd (.inr (by rw [he]; rfl)) ht⟩
    rw [eq_retried_of_again h]
    unfold Progress.retried
    split <;> simp

theorem Call.Settles.failures_le {e : AttemptEnd} (h : c.Settles x e d) :
    c.progress.failures ≤ d.progress.failures := by
  cases h with
  | again verdict => exact (Progress.failures_of_again verdict).1
  | failed _ | answered _ => exact Nat.le_refl _

theorem Call.Moves.failures_le (h : c.Moves x d sent) : c.progress.failures ≤ d.progress.failures := by
  cases h with
  | unsent _ _ settles | unanswered _ _ settles | landed _ _ settles => exact settles.failures_le
  | _ => exact Nat.le_refl _

/-- A call that asks, and goes on after an attempt that failed at once, has used up a retry. -/
theorem Call.Moves.failed_once (h : c.Moves x d sent) (asks : c.asks) (left : d.left) (on : d.isOver = false) :
    c.progress.failures < x.client.account.retry.maxRetries ∧
      d.progress.failures = c.progress.failures + 1 := by
  have settled (h : c.tried.Settles x .noResponse d) :
      c.progress.failures < x.client.account.retry.maxRetries ∧
        d.progress.failures = c.progress.failures + 1 := by
    cases h with
    | again verdict => exact (Progress.failures_of_again verdict).2 rfl
    | failed _ | answered _ => cases on
  cases h with
  | unsent _ _ settles | unanswered _ _ settles => exact settled settles
  | unmade stage _ | misrouted stage _ _ | begun stage _ _ | landed stage _ _ | rested stage _ =>
    rcases asks with ha | ha <;> rw [ha] at stage <;> cases stage
  | waits _ | sent _ _ _ _ => rcases left with ⟨_, hs⟩ | ⟨_, _, _, hs⟩ <;> cases hs
  | cancelled _ | timedOut _ _ | unsendable _ _ => cases on

namespace Session

/-! ### Runs without fuel -/

/-- What a session comes to in which no call goes on but `i`, and a bound on the steps and turns that this
takes. -/
inductive Completes (i : Nat) : Nat → Session → Session → Prop
  | ended {n : Nat} {x : Session} (idle : x.calls.all Call.isOver = true) : Completes i n x x
  | step {n : Nat} {x y z : Session} (goes : x.stepCall i = some y) (rest : Completes i n y z) :
      Completes i (n + 1) x z
  | sleep {n : Nat} {x z : Session} {due : Instant} {agenda : Agenda Task}
      (on : x.calls.all Call.isOver = false) (stuck : x.stepCall i = none) (ready : x.agenda.ready = [])
      (next : x.agenda.next? = some due) (woken : (x.agenda.ring due).pop? = some (.call i, agenda))
      (enough : n ≤ x.stepsLeft) (rest : Completes i n { x with agenda } z) : Completes i (n + 2) x z

theorem stepCall_of_all_over (h : x.calls.all Call.isOver = true) (i : Nat) : x.stepCall i = none := by
  cases hc : x.calls[i]? with
  | none => rw [stepCall, hc]
  | some c => exact stepCall_of_over hc (List.all_eq_true.1 h c (List.mem_of_getElem? hc))

/-- A run with fuel enough comes to what the session completes to. -/
theorem Completes.runs (h : Completes i n x z) {steps turns : Nat} (hs : n ≤ steps) (ht : n ≤ turns) :
    (x.runCall steps i).runWith turns = z := by
  induction h generalizing steps turns with
  | @ended n x idle =>
    have stuck := stepCall_of_all_over idle i
    cases steps <;> simp only [runCall, stuck, runWith_of_over idle]
  | @step n x y z goes rest ih =>
    obtain ⟨steps, rfl⟩ : ∃ k, steps = k + 1 := ⟨steps - 1, by omega⟩
    rw [runCall, goes]
    exact ih (by omega) (by omega)
  | @sleep n x z due agenda on stuck ready next woken enough rest ih =>
    obtain ⟨steps, rfl⟩ : ∃ k, steps = k + 1 := ⟨steps - 1, by omega⟩
    obtain ⟨turns, rfl⟩ : ∃ k, turns = k + 2 := ⟨turns - 2, by omega⟩
    rw [runCall, stuck]
    exact (runWith_of_ring on ready next woken turns).trans (ih enough (by omega))

theorem now_of_ring {due : Instant} {task : Task} {agenda : Agenda Task}
    (woken : (x.agenda.ring due).pop? = some (task, agenda)) : agenda.now = max x.now due :=
  (Agenda.now_of_pop? woken).trans (Agenda.now_ring ..)

/-- How call `i` ended, if it did. -/
def Ends (x : Session) (i : Nat) (moment : Instant) (result : Except ApiError Answer) (cache : Cache) : Prop :=
  x.calls[i]?.map Call.stage = some (.ended moment result cache)

/-- What has been sent stays so, and nothing is sent in the past. -/
theorem Completes.sends_later (h : Completes i n x z) :
    ∃ sent, z.sent = x.sent ++ sent ∧ ∀ s ∈ sent, x.now ≤ s.moment := by
  induction h with
  | ended _ => exact ⟨[], (List.append_nil _).symm, by simp⟩
  | @step n x y z goes rest ih =>
    obtain ⟨_, _, new, -, -, moves, hb⟩ := moves_of_stepCall goes
    obtain ⟨sent, hsent, hlater⟩ := ih
    refine ⟨new ++ sent, by rw [hsent, hb.sent, List.append_assoc], fun s hs => ?_⟩
    rcases List.mem_append.1 hs with hs | hs
    · exact Nat.le_of_eq (moves.sent_now s hs).symm
    · exact hb.alike.now ▸ hlater s hs
  | @sleep n x z due agenda _ _ _ _ woken _ _ ih =>
    obtain ⟨sent, hsent, hlater⟩ := ih
    refine ⟨sent, hsent, fun s hs => Nat.le_trans ?_ (hlater s hs)⟩
    show x.now ≤ agenda.now
    rw [now_of_ring woken]
    exact Nat.le_max_left _ _

/-- A call that is not over yet does not end in the past. -/
theorem Completes.ends_later (h : Completes i n x z) {moment : Instant} {result : Except ApiError Answer}
    {cache : Cache} (ended : z.Ends i moment result cache) :
    x.Ends i moment result cache ∨ x.now ≤ moment := by
  induction h with
  | ended _ => exact .inl ended
  | @step n x y z goes rest ih =>
    obtain ⟨c, d, _, hc, -, moves, hb⟩ := moves_of_stepCall goes
    rcases ih ended with hy | hy
    · have hi : i < x.calls.length := (List.getElem?_eq_some_iff.1 hc).1
      rw [Ends, hb.calls, List.getElem?_set_self hi] at hy
      exact .inr (Nat.le_of_eq (moves.ended_now (Option.some.inj hy)).symm)
    · exact .inr (hb.alike.now ▸ hy)
  | @sleep n x z due agenda _ _ _ _ woken _ _ ih =>
    refine (ih ended).imp id fun hle => Nat.le_trans ?_ hle
    show x.now ≤ agenda.now
    rw [now_of_ring woken]
    exact Nat.le_max_left _ _

/-- Where every call ends up over, so does the one that goes on. -/
theorem Completes.ends (h : Completes i n x z) (hi : i < x.calls.length) :
    ∃ moment result cache, z.Ends i moment result cache := by
  induction h with
  | @ended n x idle =>
    have hover := List.all_eq_true.1 idle _ (List.getElem_mem hi)
    unfold Ends
    rw [List.getElem?_eq_getElem hi]
    unfold Call.isOver at hover
    split at hover
    · rename_i moment result cache hs
      exact ⟨moment, result, cache, congrArg some hs⟩
    · cases hover
  | step goes _ ih =>
    obtain ⟨_, _, _, -, -, -, hb⟩ := moves_of_stepCall goes
    exact ih (by rw [hb.calls, List.length_set]; exact hi)
  | sleep _ _ _ _ _ _ _ ih => exact ih hi

/-! ### A call that goes on alone -/

/-- Call `i` has begun on `request`, for which the caller has all the time, and no other call goes on. -/
structure Alone (request : Request) (i : Nat) (x : Session) (c : Call) : Prop where
  call : x.calls[i]? = some c
  endpoint : c.endpoint = .raw request
  wanted : c.isCancelled = false
  untimed : c.deadline = none
  request : c.request = request
  begun : ∀ start, c.stage ≠ .due start
  agenda : x.agenda.Only (.call i)
  others : ∀ (j : Nat) (d : Call), j ≠ i → x.calls[j]? = some d → d.isOver = true

/-- What a call on `request` can still use up: the replies to come to what it sends, and its retries. -/
def chances (x : Session) (request : Request) (c : Call) : Nat :=
  (x.repliesTo (request.body.content?.bind (request.outgoing? x.boundary x.client.account.apiBase
    x.client.account.token))).length + (x.client.account.retry.maxRetries + 1 - c.progress.failures)

/-- A bound on the steps still to come of a call on `request`, `n` of them before the next attempt, and on
how often it is still to be woken. -/
def ahead (x : Session) (request : Request) (c : Call) (n : Nat) : Nat :=
  if c.isOver then 0 else 2 * (8 * x.chances request c + n) + if x.agenda.alarms.isEmpty then 0 else 1

theorem Alone.all_over (h : Alone request i x c) : x.calls.all Call.isOver = c.isOver :=
  all_isOver h.call h.others

/-- Steps use up chances, or bring the next attempt nearer. -/
theorem Goes.chances_lt (h : Goes (request.body.content?.bind (request.outgoing? x.boundary
      x.client.account.apiBase x.client.account.token)) x y c d n m)
    (alike : Alike x y) (moves : c.Moves x d sent) (hn : 1 ≤ n) (on : d.isOver = false) :
    8 * y.chances request d + m < 8 * x.chances request c + n := by
  unfold chances
  rw [alike.account, alike.boundary]
  have hfailures := moves.failures_le
  cases h with
  | waits replies _ _ less | landed replies _ _ less =>
    rw [repliesTo_congr replies]
    omega
  | answered _ script left _ bound =>
    rw [left, script, List.length_cons]
    omega
  | unanswered asks script replies left bound =>
    obtain ⟨hlt, hd⟩ := moves.failed_once asks left on
    rw [repliesTo_congr replies, hd]
    omega

/-- A call that goes on alone is over, waits for a moment, or takes a step that uses up some of what is
ahead. -/
theorem Alone.step (h : Alone request i x c) (hp : x.Poised i c n) :
    c.isOver = true ∨ (x.stepCall i = none ∧ ∃ till, x.Dozes i c till) ∨
      ∃ y d m, x.stepCall i = some y ∧ Alone request i y d ∧ y.Poised i d m ∧
        y.ahead request d m < x.ahead request c n := by
  have begins : ∀ start, c.stage = .due start → x.begin i c = x.setCall i
      { c with request := c.request, key := c.key, deadline := none, stage := .asking } :=
    fun start hs => absurd hs (h.begun start)
  rcases goes_stepCall h.call h.wanted h.untimed begins (fun _ => rfl) h.agenda hp with
    (hover | hdozes) | ⟨y, d, m, hy, hd, honly, hp', hgoes⟩
  · exact .inl hover
  · exact .inr (.inl hdozes)
  · obtain ⟨c', d', _, hc, on, moves, hb⟩ := moves_of_stepCall hy
    cases h.call.symm.trans hc
    have hi : i < x.calls.length := (List.getElem?_eq_some_iff.1 hc).1
    obtain rfl : d = d' := by
      rw [hb.calls, List.getElem?_set_self hi] at hd
      exact (Option.some.inj hd).symm
    have resumes := moves.resumes h.begun
    refine .inr (.inr ⟨y, d, m, hy, ⟨hd, resumes.endpoint.trans h.endpoint,
      resumes.isCancelled.trans h.wanted, resumes.deadline.trans h.untimed, resumes.request.trans h.request,
      resumes.begun, honly, fun j e hj he => ?_⟩, hp', ?_⟩)
    · rw [hb.calls, List.getElem?_set_ne (Ne.symm hj)] at he
      exact h.others j e hj he
    · have hn := hp.bounds.1 on
      unfold ahead
      rw [on]
      cases hover : d.isOver with
      | true => simp only [if_true, Bool.false_eq_true, if_false]; omega
      | false =>
        rw [Call.outgoing?, h.request] at hgoes
        have := hgoes.chances_lt hb.alike moves hn hover
        simp only [Bool.false_eq_true, if_false]
        split <;> split <;> omega

/-- A call that is woken goes on from where it waited. -/
theorem Alone.awake {till : Instant} (h : Alone request i x c) (on : c.isOver = false) (hp : x.Poised i c n)
    (dozes : x.Dozes i c till) :
    Alone request i (x.awake (wholeMillis till)) c ∧ (x.awake (wholeMillis till)).Poised i c n ∧
      (x.awake (wholeMillis till)).ahead request c n < x.ahead request c n := by
  refine ⟨⟨h.call, h.endpoint, h.wanted, h.untimed, h.request, h.begun, ⟨rfl, by simp [Session.awake]⟩,
    h.others⟩, hp.awake dozes.alarms, ?_⟩
  unfold ahead
  rw [on, dozes.alarms]
  exact Nat.lt_succ_self _

/-- No call takes more steps and turns than a session allows for. -/
theorem Alone.ahead_le (h : Alone request i x c) (hn : n ≤ 6) : 2 * x.ahead request c n + 2 ≤ x.stepsLeft := by
  have hi : i < x.calls.length := (List.getElem?_eq_some_iff.1 h.call).1
  have hreplies (o : Option Outgoing) :
      (x.repliesTo o).length ≤ x.replies.foldl (fun n e => n + e.2.length) 0 := by
    cases o with
    | none => exact Nat.zero_le _
    | some o => exact x.length_script_le o
  have hretries : x.client.account.retry.maxRetries + 1 - c.progress.failures ≤
      x.calls.length * (x.client.account.retry.maxRetries + 1) :=
    Nat.le_trans (Nat.sub_le _ _) (Nat.le_mul_of_pos_left _ (by omega))
  have hchances : x.chances request c ≤ x.attemptsLeft := Nat.add_le_add (hreplies _) hretries
  unfold ahead stepsLeft
  split
  · omega
  · split <;> omega

/-- A call that goes on alone is over in the end. -/
theorem Alone.completes (h : Alone request i x c) (hp : x.Poised i c n) :
    ∃ k z, k ≤ 2 * x.ahead request c n ∧ Completes i k x z := by
  generalize hm : x.ahead request c n = bound
  induction bound using Nat.strongRecOn generalizing x c n with
  | _ bound ih =>
    cases hover : c.isOver with
    | true => exact ⟨0, x, Nat.zero_le _, .ended (h.all_over.trans hover)⟩
    | false =>
      rcases h.step hp with hc | ⟨stuck, till, dozes⟩ | ⟨y, d, m, hy, h', hp', hless⟩
      · rw [hover] at hc
        cases hc
      · obtain ⟨h', hp', hless⟩ := h.awake hover hp dozes
        obtain ⟨k, z, hk, hz⟩ := ih _ (hm ▸ hless) h' hp' rfl
        obtain ⟨next, woken⟩ := next?_of_alarm h.agenda.ready dozes.alarms
        refine ⟨k + 2, z, by omega, .sleep (h.all_over.trans hover) stuck h.agenda.ready next woken ?_ hz⟩
        exact Nat.le_trans hk (Nat.le_of_add_right_le (h'.ahead_le hp'.bounds.2))
      · obtain ⟨k, z, hk, hz⟩ := ih _ (hm ▸ hless) h' hp' rfl
        exact ⟨k + 1, z, by omega, .step hy hz⟩

end Session

end ChatApi.Client
