import ChatApi.Proofs.Client.Alone

/-!
# A request is pursued to its end

Where nothing else goes on, a call takes up the replies to its request one after another, and takes
its attempts to have failed once none is left. Each of its steps uses up some of what `stepsAhead`
counts (`Progression.step`), so the run of a session ends, and with it the call. Its rests end on time
(`Punctual`).
-/

namespace ChatApi.Client

/-- The replies to a request were taken up one after another, and their responses seen in that order. -/
structure Scripted (script : List Reply) (o : Outgoing) (x : Session) (c : Call) (sent : List Sent)
    (landings : List Landing) : Prop where
  left : x.script o = script.drop sent.length
  seen : ∀ (j : Nat) (l : Landing), landings[j]? = some l → l.response = script[j]?.bind Reply.response
  awaited : ∀ till response, c.stage = .inFlight till response →
    response = script[landings.length]?.bind Reply.response

/-- A call that rests goes on as soon as its rest is over, up to the millisecond of its alarm. While it rests no
time has passed, or just the time until its alarm. -/
structure Punctual (landings : List Landing) (wakes : List Instant) (now : Instant) (c : Call) : Prop where
  woke : ∀ (j : Nat) (w : Instant), wakes[j]? = some w → ∃ l, landings[j]? = some l ∧ l.wakesAt? = some w
  resting : ∀ till, c.stage = .resting till → ∀ l ∈ landings.getLast?,
    now = l.moment ∨ l.moment < till ∧ now = wholeMillis till

/-- Call `i` has gone on from `x₀` to `x`, and no other. -/
structure Progression (policy : RetryPolicy) (request : Request) (o : Outgoing) (script : List Reply)
    (i : Nat) (x₀ : Session) (sent : List Sent) (landings : List Landing) (wakes : List Instant) (x : Session)
    (c : Call) : Prop where
  reaches : x₀.Reaches i sent landings wakes x
  pursues : x.Pursues policy request o i sent landings wakes c
  punctual : Punctual landings wakes x.now c
  scripted : Scripted script o x c sent landings
  sent : x.sent = x₀.sent ++ sent
  agenda : x.agenda.Only (.call i)
  others : ∀ (j : Nat) (d : Call), j ≠ i → x.calls[j]? = some d → d.isOver = true

/-- A bound on the steps still to come, `n` of them before the next attempt. -/
def stepsAhead (policy : RetryPolicy) (script : List Reply) (sent : List Sent) (landings : List Landing)
    (n : Nat) : Nat :=
  8 * (script.length - sent.length + (policy.maxRetries + 1 - landings.countP Landing.isTransient)) + n

variable {policy : RetryPolicy} {request : Request} {o : Outgoing} {script : List Reply} {i : Nat}
  {x₀ x y : Session} {sent : List Sent} {landings : List Landing} {wakes : List Instant} {c d : Call}
  {n m : Nat}

theorem Scripted.land {x y : Session} (h : Scripted script o x c sent landings) {l : Landing}
    (hl : l.response = script[landings.length]?.bind Reply.response) {sent' : List Sent}
    (left : y.script o = script.drop sent'.length) (hd : ∀ till response, d.stage ≠ .inFlight till response) :
    Scripted script o y d sent' (landings ++ [l]) := by
  refine ⟨left, fun j l' hj => ?_, fun till response hs => absurd hs (hd till response)⟩
  by_cases hlt : j < landings.length
  · rw [List.getElem?_append_left hlt] at hj
    exact h.seen j l' hj
  · have hj' : j = landings.length := by
      have := (List.getElem?_eq_some_iff.1 hj).1
      rw [List.length_append, List.length_singleton] at this
      omega
    subst hj'
    rw [List.getElem?_concat_length] at hj
    cases hj
    exact hl

theorem Session.script_congr (h : y.replies = x.replies) : y.script o = x.script o := by
  rw [Session.script, Session.script, h]

/-- Steps use up what is ahead: fewer are left before the next attempt, or fewer attempts. -/
theorem Session.Goes.progress {now : Instant} {sent' : List Sent} {landings' : List Landing}
    {wakes' : List Instant} (h : Goes (some o) x y c d n m) (hn : c.asks → 1 ≤ n)
    (hc : c.Stands policy request x.now sent landings wakes)
    (hd : d.Stands policy request now sent' landings' wakes')
    (hl : landings' = landings ++ (x.landing? c d).toList) (hs : Scripted script o x c sent landings) :
    Scripted script o y d sent' landings' ∧
      stepsAhead policy script sent' landings' m < stepsAhead policy script sent landings n := by
  unfold stepsAhead
  cases h with
  | waits replies was asks less =>
    rw [landing?_eq_none was asks, Option.toList_none, List.append_nil] at hl
    subst hl
    have hsent : sent'.length = sent.length := by
      rw [hd.length_sent asks.not_inFlight, hc.length_sent was]
    refine ⟨⟨?_, hs.seen, fun till response h => absurd h (asks.not_inFlight till response)⟩, ?_⟩
    · rw [script_congr replies, hs.left, hsent]
    · rw [hsent]
      omega
  | landed replies stage left less =>
    rw [landing?_of_landed stage, Option.toList_some] at hl
    subst hl
    have hsent : sent'.length = sent.length := by
      rw [hd.length_sent left.not_inFlight, (hc.of_inFlight stage).2.2.2.1, List.length_append,
        List.length_singleton]
    refine ⟨hs.land (hs.awaited _ _ stage) ?_ left.not_inFlight, ?_⟩
    · rw [script_congr replies, hs.left, hsent]
    · rw [hsent, List.countP_append]
      omega
  | @answered reply rest till asks hscript left stage bound =>
    rw [repliesTo_some] at hscript left
    rw [landing?_of_sent asks stage, Option.toList_none, List.append_nil] at hl
    subst hl
    obtain ⟨-, pursued, -, hsame, -, -⟩ := hc.of_asks asks
    have hsent : sent'.length = sent.length + 1 := by
      rw [(hd.of_inFlight stage).2.2.2.1, hsame]
    have hdrop : script.drop sent.length = reply :: rest := hs.left.symm.trans hscript
    have hlt : sent.length < script.length := by
      refine Nat.lt_of_not_le fun hle => ?_
      rw [List.drop_eq_nil_of_le hle] at hdrop
      cases hdrop
    have hget : script[sent.length]? = some reply := by
      rw [← List.head?_drop, hdrop]
      rfl
    refine ⟨⟨?_, hs.seen, fun till' response h' => ?_⟩, ?_⟩
    · rw [left, hsent, ← List.tail_drop, hdrop]
      rfl
    · cases stage.symm.trans h'
      rw [← hsame, hget]
      rfl
    · have hn := hn asks
      omega
  | unanswered asks hscript replies left bound =>
    rw [repliesTo_some] at hscript
    rw [landing?_of_left asks left, Option.toList_some] at hl
    subst hl
    obtain ⟨-, pursued, -, hsame, -, -⟩ := hc.of_asks asks
    have hsent : sent'.length = sent.length + 1 := by
      rw [hd.length_sent left.not_inFlight, hsame, List.length_append, List.length_singleton]
    have hle : script.length ≤ sent.length := List.drop_eq_nil_iff.1 (hs.left.symm.trans hscript)
    refine ⟨hs.land ?_ ?_ left.not_inFlight, ?_⟩
    · rw [List.getElem?_eq_none (hsame ▸ hle)]
      rfl
    · rw [script_congr replies, hscript, List.drop_eq_nil_of_le (by omega)]
    · have hcount : [x.landing none d].countP Landing.isTransient = 1 := rfl
      have hretries := pursued.countP_le
      have hn := hn asks
      rw [List.countP_append, hcount]
      omega

/-- A rest that is over ends at once where no time was lost, and else as the alarm goes off. -/
theorem Session.Goes.punctual (h : Goes (some o) x y c d n m)
    (hc : c.Stands policy request x.now sent landings wakes) (hp : Punctual landings wakes x.now c)
    (due : ∀ till, c.stage = .resting till → till ≤ x.now) :
    Punctual (landings ++ (x.landing? c d).toList) (wakes ++ (x.wake? c d).toList) x.now d := by
  -- whoever did not rest does not wake, and an attempt that ends does so now
  have lands (l : Landing) (hl : x.landing? c d = some l) (hm : l.moment = x.now)
      (was : ∀ till, c.stage ≠ .resting till) :
      Punctual (landings ++ (x.landing? c d).toList) (wakes ++ (x.wake? c d).toList) x.now d := by
    rw [hl, wake?_eq_none (.inl was), Option.toList_some, Option.toList_none, List.append_nil]
    refine ⟨fun j w hw => ?_, fun till _ m hlast => ?_⟩
    · obtain ⟨m, hm, hat⟩ := hp.woke j w hw
      exact ⟨m, by rw [List.getElem?_append_left (List.getElem?_eq_some_iff.1 hm).1, hm], hat⟩
    · rw [List.getLast?_concat] at hlast
      cases hlast
      exact .inl hm.symm
  cases h with
  | landed replies stage left less =>
    exact lands _ (landing?_of_landed stage) rfl (by simp [stage])
  | unanswered asks script replies left bound => exact lands _ (landing?_of_left asks left) rfl asks.not_resting
  | @answered reply rest till asks script left stage bound =>
    rw [landing?_of_sent asks stage, wake?_eq_none (.inl asks.not_resting), Option.toList_none, Option.toList_none,
      List.append_nil, List.append_nil]
    exact ⟨hp.woke, fun till hs => (by rw [stage] at hs; cases hs)⟩
  | waits replies was asks less =>
    rw [landing?_eq_none was asks, Option.toList_none, List.append_nil]
    refine ⟨fun j w hw => ?_, fun till hs => absurd hs (asks.not_resting till)⟩
    by_cases hj : j < wakes.length
    · rw [List.getElem?_append_left hj] at hw
      exact hp.woke j w hw
    -- the rest behind the last landing ends now
    obtain ⟨till, hrest, hw⟩ : ∃ till, c.stage = .resting till ∧ j = wakes.length ∧ w = x.now := by
      rw [List.getElem?_append_right (Nat.le_of_not_lt hj)] at hw
      unfold wake? at hw
      split at hw
      · rename_i till hrest _
        have hend : j - wakes.length = 0 := by
          have := (List.getElem?_eq_some_iff.1 hw).1
          simp only [Option.toList_some, List.length_singleton] at this
          omega
        rw [hend] at hw
        exact ⟨till, hrest, by omega, (Option.some.inj hw).symm⟩
      · simp at hw
    obtain ⟨rfl, rfl⟩ := hw
    obtain ⟨-, -, -, -, length, last⟩ := hc.of_resting hrest
    have hlt : wakes.length < landings.length := by omega
    have hlast : landings[wakes.length] ∈ landings.getLast? := by
      rw [List.getLast?_eq_getElem?, ← length]
      exact List.getElem?_eq_getElem hlt
    refine ⟨_, List.getElem?_eq_getElem hlt, ?_⟩
    rw [Landing.wakesAt?, last _ hlast, Option.map_some]
    have hdue := due till hrest
    rcases hp.resting till hrest _ hlast with hnow | ⟨hlater, hnow⟩
    · rw [if_pos (hnow ▸ hdue), hnow]
    · rw [if_neg (Nat.not_le.2 hlater), hnow]

theorem Session.Poised.bounds (h : x.Poised i c n) : (c.isOver = false → 1 ≤ n) ∧ n ≤ 6 := by
  cases h with
  | waiting _ _ _ waits _ =>
    obtain ⟨hpos, hle⟩ := waits.bounds
    exact ⟨fun _ => hpos, by omega⟩
  | ended stage _ _ => exact ⟨fun on => (by rw [Call.isOver, stage] at on; cases on), by omega⟩
  | due _ _ _ | asking _ _ | inFlight _ _ _ _ | resting _ _ _ => exact ⟨fun _ => by omega, by omega⟩

theorem Call.asks.isOver (h : c.asks) : c.isOver = false := by
  rcases h with hs | hs <;> rw [Call.isOver, hs]

/-- The call has no step to take, and has its alarm set for a moment that has not come yet. -/
def Session.Sleeps (x : Session) (i : Nat) : Prop :=
  x.stepCall i = none ∧ ∃ till, x.now < till ∧ x.agenda.alarms = [⟨wholeMillis till, .call i, .step⟩]

/-- A call that goes on alone is over, sleeps, or takes a step that uses up some of what is ahead. -/
theorem Progression.step (h : Progression policy request o script i x₀ sent landings wakes x c)
    (untimed : request.timeout = none) (hp : x.Poised i c n) :
    c.isOver = true ∨ x.Sleeps i ∨
      ∃ y d sent' landings' wakes' m, x.stepCall i = some y ∧
        Progression policy request o script i x₀ sent' landings' wakes' y d ∧ y.Poised i d m ∧
        stepsAhead policy script sent' landings' m < stepsAhead policy script sent landings n := by
  obtain ⟨key, hkey⟩ := h.pursues.sendable.route
  rcases Session.goes_stepCall h.pursues.call h.pursues.wanted h.pursues.untimed
    (fun _ _ => Session.begin_of_untimed h.pursues.uncancelled h.pursues.made hkey untimed) h.pursues.built
    h.agenda hp with (hover | ⟨hstuck, till, hdozes⟩) | ⟨y, d, m, hy, hd, honly, hp', hgoes⟩
  · exact .inl hover
  · exact .inr (.inl ⟨hstuck, till, hdozes.early, hdozes.alarms⟩)
  · obtain ⟨d', hd', hpursues⟩ := h.pursues.own untimed hy
    cases hd.symm.trans hd'
    obtain ⟨hscripted, hless⟩ :=
      hgoes.progress (fun asks => hp.bounds.1 asks.isOver) h.pursues.stands hpursues.stands rfl h.scripted
    obtain ⟨_, _, _, -, -, -, hb⟩ := Session.moves_of_stepCall hy
    -- a call that rests does not step before its rest is over
    have due (till : Instant) (hs : c.stage = .resting till) : till ≤ x.now := by
      refine Nat.le_of_not_lt fun hlt => ?_
      rw [Session.stepCall_eq h.pursues.call (by rw [Call.isOver, hs]) h.pursues.wanted h.pursues.untimed,
        Session.advanceCall, hs] at hy
      dsimp only at hy
      rw [if_pos hlt] at hy
      cases hy
    have hpunctual := hgoes.punctual h.pursues.stands h.punctual due
    refine .inr (.inr ⟨y, d, _, _, _, m, hy, ⟨?_, hpursues, hb.alike.now.symm ▸ hpunctual, hscripted, ?_, honly,
      fun j e hj he => ?_⟩, hp', hless⟩)
    · exact h.reaches.own h.pursues.call hy hd
    · rw [hb.sent, List.drop_left, h.sent, List.append_assoc]
    · rw [hb.calls, List.getElem?_set_ne (Ne.symm hj)] at he
      exact h.others j e hj he

/-- A call that goes on alone goes on until it is over or sleeps. -/
theorem Progression.runCall (untimed : request.timeout = none) (fuel : Nat) :
    ∀ {x : Session} {sent : List Sent} {landings : List Landing} {wakes : List Instant} {c : Call} {n : Nat},
      Progression policy request o script i x₀ sent landings wakes x c → x.Poised i c n →
      stepsAhead policy script sent landings n ≤ fuel →
      ∃ d sent' landings' wakes' m,
        Progression policy request o script i x₀ sent' landings' wakes' (x.runCall fuel i) d ∧
        (x.runCall fuel i).Poised i d m ∧ (d.isOver = true ∨ (x.runCall fuel i).Sleeps i) ∧
        stepsAhead policy script sent' landings' m ≤ stepsAhead policy script sent landings n ∧
        (c.isOver = false → ¬ x.Sleeps i →
          stepsAhead policy script sent' landings' m < stepsAhead policy script sent landings n) := by
  induction fuel with
  | zero =>
    intro x sent landings wakes c n h hp hfuel
    refine ⟨c, sent, landings, wakes, n, h, hp, ?_⟩
    rcases h.step untimed hp with hover | hsleeps | ⟨y, d, sent', landings', wakes', m, -, -, -, hless⟩
    · exact ⟨.inl hover, Nat.le_refl _, fun on => by rw [on] at hover; cases hover⟩
    · exact ⟨.inr hsleeps, Nat.le_refl _, fun _ hn => absurd hsleeps hn⟩
    · omega
  | succ fuel ih =>
    intro x sent landings wakes c n h hp hfuel
    rcases h.step untimed hp with hover | hsleeps | ⟨y, d, sent', landings', wakes', m, hy, h', hp', hless⟩
    · have hstuck : x.stepCall i = none := by
        rw [Session.stepCall, h.pursues.call]
        exact if_pos hover
      rw [show x.runCall (fuel + 1) i = x by rw [Session.runCall, hstuck]]
      exact ⟨c, sent, landings, wakes, n, h, hp, .inl hover, Nat.le_refl _,
        fun on => by rw [on] at hover; cases hover⟩
    · rw [show x.runCall (fuel + 1) i = x by rw [Session.runCall, hsleeps.1]]
      exact ⟨c, sent, landings, wakes, n, h, hp, .inr hsleeps, Nat.le_refl _, fun _ hn => absurd hsleeps hn⟩
    · rw [show x.runCall (fuel + 1) i = y.runCall fuel i by rw [Session.runCall, hy]]
      obtain ⟨e, sent'', landings'', wakes'', k, h'', hp'', hend, hle, -⟩ := ih h' hp' (by omega)
      exact ⟨e, sent'', landings'', wakes'', k, h'', hp'', hend, by omega, fun _ _ => by omega⟩

/-- No call takes more steps than a session allows for. -/
theorem Progression.stepsAhead_le (h : Progression policy request o script i x₀ sent landings wakes x c)
    (hn : n ≤ 6) : 2 * stepsAhead policy script sent landings n + 1 ≤ x.stepsLeft := by
  have hi : i < x.calls.length := (List.getElem?_eq_some_iff.1 h.pursues.call).1
  have hscript : script.length - sent.length ≤ x.replies.foldl (fun n e => n + e.2.length) 0 := by
    rw [← List.length_drop, ← h.scripted.left]
    exact Session.length_script_le x o
  have hretries : policy.maxRetries + 1 ≤ x.calls.length * (x.client.account.retry.maxRetries + 1) := by
    rw [h.pursues.account]
    exact Nat.le_mul_of_pos_left _ (by omega)
  unfold stepsAhead Session.stepsLeft Session.attemptsLeft
  omega

/-- The session in which call `i` is woken by its alarm. -/
def Session.awake (x : Session) (due : Instant) : Session :=
  { x with agenda := { now := max x.now due, alarms := [], ready := [] } }

/-- Where no task is ready, the clock moves to the next alarm, and the call that it wakes has a turn. -/
theorem Session.runWith_of_ring {due : Instant} {agenda : Agenda Task} (on : x.calls.all Call.isOver = false)
    (ready : x.agenda.ready = []) (next : x.agenda.next? = some due)
    (woken : (x.agenda.ring due).pop? = some (.call i, agenda)) (fuel : Nat) :
    x.runWith (fuel + 2) = runWith fuel (({ x with agenda } : Session).runCall x.stepsLeft i) := by
  have hpop : x.agenda.pop? = none := by rw [Agenda.pop?, ready]
  have on' : ({ x with agenda := x.agenda.ring due } : Session).calls.all Call.isOver = false := on
  rw [runWith, on]
  simp only [Bool.false_eq_true, if_false, hpop, next]
  rw [runWith, on']
  simp only [Bool.false_eq_true, if_false, woken]
  rfl

theorem Session.next?_of_alarm {due : Instant} (ready : x.agenda.ready = [])
    (alarms : x.agenda.alarms = [⟨due, .call i, .step⟩]) :
    x.agenda.next? = some due ∧ (x.agenda.ring due).pop? = some (.call i, (x.awake due).agenda) := by
  refine ⟨by rw [Agenda.next?, alarms]; rfl, ?_⟩
  simp [Agenda.ring, Agenda.pop?, alarms, ready, Agenda.wakeAll, Agenda.wake, Session.awake, Session.now]

/-- Where only one alarm is set, the clock moves to it, and its call has a turn. -/
theorem Session.runWith_of_alarm {due : Instant} (on : x.calls.all Call.isOver = false)
    (ready : x.agenda.ready = []) (alarms : x.agenda.alarms = [⟨due, .call i, .step⟩]) (fuel : Nat) :
    x.runWith (fuel + 2) = runWith fuel ((x.awake due).runCall (x.awake due).stepsLeft i) :=
  have hnext := x.next?_of_alarm ready alarms
  x.runWith_of_ring on ready hnext.1 hnext.2 fuel

/-- Whatever a call waits for has come when it is woken. -/
theorem Session.Poised.awake {till : Instant} (hp : x.Poised i c n)
    (alarms : x.agenda.alarms = [⟨wholeMillis till, .call i, .step⟩]) :
    (x.awake (wholeMillis till)).Poised i c n := by
  have later : x.now ≤ (x.awake (wholeMillis till)).now := Nat.le_max_left _ _
  have alarm {till' : Instant} (ha : x.Alarmed i till') : (x.awake (wholeMillis till)).Alarmed i till' := by
    refine .inl ?_
    rcases ha with ha | ha
    · exact Nat.le_trans ha later
    · have hdue : wholeMillis till = wholeMillis till' :=
        congrArg Alarm.due (List.cons.inj (alarms.symm.trans ha)).1
      calc till' ≤ wholeMillis till' := le_wholeMillis till'
        _ = wholeMillis till := hdue.symm
        _ ≤ (x.awake (wholeMillis till)).now := Nat.le_max_right _ _
  cases hp with
  | due stage begins limits => exact .due stage (Nat.le_trans begins later) limits
  | asking stage limits => exact .asking stage limits
  | waiting stage caller inLine waits ha => exact .waiting stage caller inLine waits (alarm ha)
  | inFlight stage caller held ha => exact .inFlight stage caller held (alarm ha)
  | resting stage limits ha => exact .resting stage limits (alarm ha)
  | ended stage limits _ => exact .ended stage limits rfl

theorem Session.not_sleeps_awake (x : Session) (due : Instant) (i : Nat) : ¬ (x.awake due).Sleeps i := by
  rintro ⟨-, _, -, ha⟩
  cases ha

/-- A call that was asleep is where it was when it is woken, and its moment has come. -/
theorem Progression.awake {till : Instant}
    (h : Progression policy request o script i x₀ sent landings wakes x c) (hp : x.Poised i c n)
    (stuck : x.stepCall i = none) (early : x.now < till)
    (alarms : x.agenda.alarms = [⟨wholeMillis till, .call i, .step⟩]) :
    Progression policy request o script i x₀ sent landings wakes (x.awake (wholeMillis till)) c ∧
      (x.awake (wholeMillis till)).Poised i c n ∧ ¬ (x.awake (wholeMillis till)).Sleeps i := by
  have aside : Session.Aside i x (x.awake (wholeMillis till)) := .schedule (Nat.le_max_left _ _)
  have later : x.now ≤ wholeMillis till := Nat.le_trans (Nat.le_of_lt early) (le_wholeMillis till)
  have now : (x.awake (wholeMillis till)).now = wholeMillis till := Nat.max_eq_right later
  refine ⟨⟨h.reaches.aside aside, h.pursues.aside aside, ⟨h.punctual.woke, fun till' hs l hl => ?_⟩,
    ⟨h.scripted.left, h.scripted.seen, h.scripted.awaited⟩, h.sent, ⟨rfl, by simp [Session.awake]⟩, h.others⟩,
    hp.awake alarms, x.not_sleeps_awake _ i⟩
  -- a call that rests has no step to take only because its rest is not over
  have hlt : x.now < till' := by
    rw [Session.stepCall_eq h.pursues.call (by rw [Call.isOver, hs]) h.pursues.wanted h.pursues.untimed,
      Session.advanceCall, hs] at stuck
    dsimp only at stuck
    split at stuck
    · assumption
    · cases stuck
  have hdue : wholeMillis till = wholeMillis till' := by
    cases hp with
    | resting stage _ alarm =>
      cases hs.symm.trans stage
      have halarm := alarm.resolve_left (Nat.not_le.2 hlt)
      exact congrArg Alarm.due (List.cons.inj (alarms.symm.trans halarm)).1
    | due stage _ _ | asking stage _ | waiting stage _ _ _ _ | inFlight stage _ _ _ | ended stage _ _ =>
      cases hs.symm.trans stage
  rw [now, hdue]
  refine .inr ⟨?_, rfl⟩
  rcases h.punctual.resting till' hs l hl with hnow | ⟨hlater, -⟩
  · exact hnow ▸ hlt
  · exact hlater

/-- Where all other calls are over, all are as soon as one is. -/
theorem Session.all_isOver (call : x.calls[i]? = some c)
    (others : ∀ (j : Nat) (d : Call), j ≠ i → x.calls[j]? = some d → d.isOver = true) :
    x.calls.all Call.isOver = c.isOver := by
  cases hc : c.isOver with
  | true =>
    rw [List.all_eq_true]
    intro d hd
    obtain ⟨j, hj⟩ := List.getElem?_of_mem hd
    by_cases hji : j = i
    · subst hji
      cases call.symm.trans hj
      exact hc
    · exact others j d hji hj
  | false =>
    rw [List.all_eq_false]
    exact ⟨c, List.mem_of_getElem? call, by rw [hc]; exact Bool.false_ne_true⟩

theorem Progression.all_over (h : Progression policy request o script i x₀ sent landings wakes x c) :
    x.calls.all Call.isOver = c.isOver :=
  Session.all_isOver h.pursues.call h.others

theorem Session.runWith_of_over (h : x.calls.all Call.isOver = true) (fuel : Nat) : x.runWith fuel = x := by
  cases fuel with
  | zero => rfl
  | succ fuel => rw [runWith, if_pos h]

/-- A call that goes on alone is over once its session has run. -/
theorem Progression.runWith (untimed : request.timeout = none) (fuel : Nat) :
    ∀ {x : Session} {sent : List Sent} {landings : List Landing} {wakes : List Instant} {c : Call} {n : Nat},
      Progression policy request o script i x₀ sent landings wakes x c → x.Poised i c n →
      c.isOver = true ∨ x.Sleeps i → 2 * stepsAhead policy script sent landings n ≤ fuel →
      ∃ d sent' landings' wakes' m,
        Progression policy request o script i x₀ sent' landings' wakes' (x.runWith fuel) d ∧
        (x.runWith fuel).Poised i d m ∧ d.isOver = true := by
  induction fuel using Nat.strongRecOn with
  | _ fuel ih =>
    intro x sent landings wakes c n h hp hend hfuel
    cases hover : c.isOver with
    | true =>
      rw [Session.runWith_of_over (h.all_over.trans hover)]
      exact ⟨c, sent, landings, wakes, n, h, hp, hover⟩
    | false =>
      obtain ⟨stuck, till, early, alarms⟩ := hend.resolve_left (by rw [hover]; exact Bool.false_ne_true)
      obtain ⟨h', hp', hawake⟩ := h.awake hp stuck early alarms
      obtain ⟨hpos, hn⟩ := hp.bounds
      have hpos := hpos hover
      obtain ⟨d, sent', landings', wakes', m, h'', hp'', hend', -, hless⟩ :=
        h'.runCall untimed (x.awake (wholeMillis till)).stepsLeft hp'
          (by have := h'.stepsAhead_le hn; omega)
      have hless := hless hover hawake
      obtain ⟨fuel, rfl⟩ : ∃ f, fuel = f + 2 := ⟨fuel - 2, by unfold stepsAhead at hfuel; omega⟩
      rw [Session.runWith_of_alarm (h.all_over.trans hover) h.agenda.ready alarms]
      exact ih fuel (by omega) h'' hp'' hend' (by omega)

/-- A session in which nothing goes on but a call that was just started and has its first turn. -/
def Session.opened (x : Session) (request : Request) : Session :=
  { x.start (.raw request) 0 none with agenda := x.agenda }

/-- All calls but the one that was just started are over. -/
theorem Session.Idle.others (h : x.Idle) (request : Request) {j : Nat} (hj : j ≠ x.calls.length)
    (hd : (x.opened request).calls[j]? = some d) : d.isOver = true := by
  have hd : (x.calls ++ [_])[j]? = some d := hd
  rw [List.getElem?_append] at hd
  split at hd
  · exact h.ended d (List.mem_of_getElem? hd)
  · have := (List.getElem?_eq_some_iff.1 hd).1
    rw [List.length_singleton] at this
    omega

theorem Session.Idle.opened (h : x.Idle) (sendable : x.Sendable request o) :
    ∃ c, Progression x.client.account.retry request o (x.script o) x.calls.length
        (x.start (.raw request) 0 none) [] [] [] (x.opened request) c ∧
      (x.opened request).Poised x.calls.length c 5 := by
  obtain ⟨c, hc⟩ := pursues_start x sendable 0
  have aside : Aside x.calls.length (x.start (.raw request) 0 none) (x.opened request) :=
    .schedule (Nat.le_of_eq (Agenda.now_wake ..))
  have hcalls : (x.start (.raw request) 0 none).calls =
      x.calls ++ [{ endpoint := .raw request, cancelAfter := none, stage := .due (x.now + 0) }] := rfl
  have hstage : c.stage = .due (x.now + 0) := by
    have := hc.call
    rw [hcalls, List.getElem?_concat_length] at this
    cases this
    rfl
  refine ⟨c, ⟨Reaches.refl.aside aside, hc.aside aside, ⟨by simp, by simp⟩, ⟨rfl, ?_, ?_⟩,
    (List.append_nil _).symm, ?_, ?_⟩, ?_⟩
  · intro j l hl
    simp at hl
  · intro till response hs
    rw [hstage] at hs
    cases hs
  · exact ⟨h.ready, by rw [show (x.opened request).agenda = x.agenda from rfl, h.alarms]; simp⟩
  · exact fun j d hj hd => h.others request hj hd
  · exact .due hstage (Nat.le_refl _) h.limits

/-- A run begins with the turn of the call that was just started. -/
theorem Session.Idle.run_start (h : x.Idle) (request : Request) :
    ∃ fuel, (x.opened request).stepsLeft = fuel + 1 ∧ (x.start (.raw request) 0 none).run =
      ((x.opened request).runCall (x.opened request).stepsLeft x.calls.length).runWith fuel := by
  have hsteps : (x.start (.raw request) 0 none).stepsLeft = (x.opened request).stepsLeft := rfl
  obtain ⟨fuel, hfuel⟩ : ∃ fuel, (x.opened request).stepsLeft = fuel + 1 :=
    ⟨(x.opened request).stepsLeft - 1, by unfold stepsLeft; omega⟩
  refine ⟨fuel, hfuel, ?_⟩
  have hpop : (x.start (.raw request) 0 none).agenda.pop? =
      some (.call x.calls.length, { x.agenda with ready := [] }) := by
    have : (x.start (.raw request) 0 none).agenda = x.agenda.wake (.call x.calls.length) := rfl
    rw [this]
    simp [Agenda.wake, Agenda.pop?, h.ready]
  have hagenda : { x.agenda with ready := [] } = x.agenda := by
    rw [← h.ready]
  have hon : (x.start (.raw request) 0 none).calls.all Call.isOver = false := by
    rw [List.all_eq_false]
    exact ⟨_, List.mem_append_right _ (List.mem_singleton.2 rfl), Bool.false_ne_true⟩
  rw [run, hsteps, hfuel, runWith, hon]
  simp only [Bool.false_eq_true, if_false, hpop]
  rw [hagenda, ← hfuel]
  rfl

/-- What a call on `route` has come to, given what it has sent, how its attempts ended and when its rests did. -/
def Call.Accords (policy : RetryPolicy) (route : String) (c : Call) (sent : List Sent)
    (landings : List Landing) (wakes : List Instant) : Prop :=
  match c.stage with
  | .ended _ result _ =>
    Settled policy route landings result ∧ sent.length = landings.length ∧ wakes.length + 1 = landings.length
  | .inFlight _ _ =>
    Pursued policy route landings ∧ sent.length = landings.length + 1 ∧ wakes.length = landings.length
  | .resting till =>
    Pursued policy route landings ∧ sent.length = landings.length ∧ wakes.length + 1 = landings.length ∧
      ∀ l ∈ landings.getLast?, l.restsTill = some till
  | _ => Pursued policy route landings ∧ sent.length = landings.length ∧ wakes.length = landings.length

theorem Call.Stands.accords {now : Instant} (h : c.Stands policy request now sent landings wakes) :
    c.Accords policy request.route sent landings wakes := by
  unfold Call.Accords
  cases h with
  | due stage _ => rw [stage]; exact ⟨.start, rfl, rfl⟩
  | asks asks _ pursued _ length rests _ =>
    rcases asks with ha | ha <;> rw [ha] <;> exact ⟨pursued, length, rests⟩
  | inFlight stage _ pursued _ length rests => rw [stage]; exact ⟨pursued, length, rests⟩
  | resting stage _ pursued _ length rests last => rw [stage]; exact ⟨pursued, length, rests, last⟩
  | ended stage settled length rests => rw [stage]; exact ⟨settled, length, rests⟩

/-- A call that rests goes on to ask for its slots just from the moment on at which its rest is over. -/
theorem Session.Pursues.stepCall_of_resting {till : Instant}
    (h : Session.Pursues policy request o i sent landings wakes x c) (stage : c.stage = .resting till) :
    x.stepCall i = if x.now < till then none else some (x.setCall i { c with stage := .asking }) := by
  rw [Session.stepCall_eq h.call (by rw [Call.isOver, stage]) h.wanted h.untimed, Session.advanceCall, stage]

theorem Progression.idle (h : Progression policy request o script i x₀ sent landings wakes x c)
    (hp : x.Poised i c n) (ended : c.isOver = true) : x.Idle := by
  have hall := List.all_eq_true.1 (h.all_over.trans ended)
  cases hp with
  | ended _ limits alarms => exact ⟨limits, alarms, h.agenda.ready, hall⟩
  | due stage _ _ | asking stage _ | waiting stage _ _ _ _ | inFlight stage _ _ _ | resting stage _ _ =>
    rw [Call.isOver, stage] at ended
    cases ended

/-- A request that can be sent, for which the caller has all the time, is attempted until the end of an
attempt settles it, whatever else the session does: each attempt sends the same, no landing before the
last settles the call, each of them is followed by just the rest that it asks for, and the last gives
the result. A call that rests goes on from the moment on at which the rest is over, and asks for its slots then;
no attempt is sent before. Where nothing else goes on, the replies to come are taken up in order, a connection
fails once none is left, each rest ends on time, up to the millisecond of its alarm, and the call does end; the
session is then as idle as before. -/
theorem request_pursued_until_settled (sendable : x.Sendable request o) (untimed : request.timeout = none) :
    (∀ delay sent landings wakes y,
      (x.start (.raw request) delay none).Reaches x.calls.length sent landings wakes y →
      (∀ s ∈ sent, s.outgoing = o) ∧ Spaced sent landings wakes ∧
      ∃ c, y.calls[x.calls.length]? = some c ∧
        c.Accords x.client.account.retry request.route sent landings wakes ∧
        ∀ till, c.stage = .resting till → y.stepCall x.calls.length =
          if y.now < till then none else some (y.setCall x.calls.length { c with stage := .asking })) ∧
    (x.Idle → ∃ y sent landings wakes moment result cache,
      (x.start (.raw request) 0 none).run = y ∧
      (x.start (.raw request) 0 none).Reaches x.calls.length sent landings wakes y ∧
      y.calls[x.calls.length]?.map Call.stage = some (.ended moment result cache) ∧
      Settled x.client.account.retry request.route landings result ∧
      sent.length = landings.length ∧ wakes.length + 1 = landings.length ∧ y.sent = x.sent ++ sent ∧
      (∀ (j : Nat) (l : Landing), landings[j]? = some l → l.response = (x.script o)[j]?.bind Reply.response) ∧
      (∀ (j : Nat) (w : Instant), wakes[j]? = some w → ∃ l, landings[j]? = some l ∧ l.wakesAt? = some w) ∧
      y.Idle) := by
  refine ⟨fun delay sent landings wakes y h => ?_, fun idle => ?_⟩
  · obtain ⟨c, hc⟩ := h.pursues untimed (Session.pursues_start x sendable delay)
    exact ⟨hc.outgoing, hc.spaced, c, hc.call, hc.stands.accords, fun till hs => hc.stepCall_of_resting hs⟩
  · obtain ⟨c, hc, hp⟩ := idle.opened sendable
    obtain ⟨fuel, hfuel, hrun⟩ := idle.run_start request
    have hsteps := hc.stepsAhead_le hp.bounds.2
    obtain ⟨d, sent, landings, wakes, m, hd, hp', hend, hle, -⟩ :=
      hc.runCall untimed (x.opened request).stepsLeft hp (by omega)
    obtain ⟨e, sent', landings', wakes', k, he, hp'', ended⟩ := hd.runWith untimed fuel hp' hend (by omega)
    rw [hrun]
    have haccords := he.pursues.stands.accords
    unfold Call.Accords at haccords
    cases hs : e.stage with
    | ended moment result cache =>
      rw [hs] at haccords
      exact ⟨_, sent', landings', wakes', moment, result, cache, rfl, he.reaches,
        by rw [he.pursues.call, ← hs]; rfl, haccords.1, haccords.2.1, haccords.2.2, he.sent, he.scripted.seen,
        he.punctual.woke, he.idle hp'' ended⟩
    | due _ | asking | waiting | inFlight _ _ | resting _ =>
      rw [Call.isOver, hs] at ended
      cases ended

/-- A fresh client whose request meets a server error first and then succeeds tries twice. -/
theorem request_answered_at_second_attempt :
    let account : Account := ⟨"https://discord.com/api/v10", "Bot token", 50, ⟨1, 0, 0⟩⟩
    let failure : Http.Response := ⟨⟨503, by decide⟩, [], .empty⟩
    let success : Http.Response := ⟨.ok, [], .empty⟩
    let x : Session := {
      epoch := 0
      client := .ofAccount account []
      replies := [("GET /api/v10/users/@me", [⟨0, some failure⟩, ⟨0, some success⟩])]
      boundary := "line" }
    let y := (x.start (.raw (.direct .get "users/@me")) 0 none).run
    y.sent.length = 2 ∧ ∃ moment cache,
      y.calls[0]?.map Call.stage = some (.ended moment (.ok (.response success)) cache) := by
  intro account failure success x y
  have hkey : ((Request.direct .get "users/@me").body.content?.bind
      ((Request.direct .get "users/@me").outgoing? "line" account.apiBase account.token)).map
        (fun o => o.method.name ++ " " ++ o.url.pathText) = some "GET /api/v10/users/@me" := by
    decide +kernel
  obtain ⟨o, ho, hk⟩ := Option.map_eq_some_iff.1 hkey
  have sendable : x.Sendable (.direct .get "users/@me") o := ⟨⟨⟨.get, "users/@me"⟩, rfl⟩, ho⟩
  have idle : x.Idle := ⟨Limit.Limits.vacant_ofLimit 50, rfl, rfl, by simp [x]⟩
  obtain ⟨_, sent, landings, _, moment, result, cache, rfl, -, hstage,
    ⟨before, l, r, rfl, pursued, settled, rfl⟩, hlength, -, hsent, hseen, -⟩ :=
    (request_pursued_until_settled sendable rfl).2 idle
  have hscript : x.script o = [⟨0, some failure⟩, ⟨0, some success⟩] := by
    rw [Session.script, hk]
    rfl
  rw [hscript] at hseen
  have first {a : Landing} (ha : a.response = some failure) :
      a.result? ⟨1, 0, 0⟩ "users/@me" [] = none := by
    rw [Landing.result?, ha]
    rfl
  have second {a b : Landing} (hb : b.response = some success) :
      b.result? ⟨1, 0, 0⟩ "users/@me" [a] = some (.ok success) := by
    rw [Landing.result?, hb]
    rfl
  -- the last landing is neither the first nor behind the second
  rcases before with _ | ⟨a, _ | ⟨b, rest⟩⟩
  · have hl : l.response = some failure := hseen 0 l rfl
    cases (first hl).symm.trans settled
  · have hl : l.response = some success := hseen 1 l rfl
    cases (second hl).symm.trans settled
    refine ⟨?_, moment, cache, hstage⟩
    rw [hsent, List.length_append, hlength]
    rfl
  · have hb : b.response = some success := hseen 1 b rfl
    have unsettled : b.result? ⟨1, 0, 0⟩ "users/@me" [a] = none := pursued.unsettled rfl
    cases (second hb).symm.trans unsettled

end ChatApi.Client
