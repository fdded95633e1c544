import ChatApi.Proofs.Client.Pursuit
import ChatApi.Proofs.Limit.Solo

/-!
# A call on its own

Where only one call is under way, every step of it is known exactly: it waits for an alarm that is
set, or goes on. `Session.Poised` says what the limits and the agenda are like at each stage of such a
call, with a bound on the steps that it makes before the next attempt is sent or settled.
-/

namespace ChatApi

namespace Agenda

variable {τ : Type} [DecidableEq τ]

/-- Only the given alarms of one task are set, and no task is ready. -/
structure Only (a : Agenda τ) (task : τ) : Prop where
  ready : a.ready = []
  alarms : ∀ x ∈ a.alarms, x.task = task ∧ x.purpose = .step

variable {a : Agenda τ} {task : τ}

theorem Only.set (h : a.Only task) (till : Instant) :
    (a.set task .step till).Only task ∧
      (a.set task .step till).alarms = [⟨wholeMillis till, task, .step⟩] := by
  have halarms : (a.set task .step till).alarms = [⟨wholeMillis till, task, .step⟩] := by
    have : a.alarms.filter (fun x => ¬(x.task = task ∧ x.purpose = .step)) = [] := by
      rw [List.filter_eq_nil_iff]
      intro x hx
      simp [h.alarms x hx]
    simp only [Agenda.set, unset, this, List.nil_append]
  refine ⟨⟨h.ready, fun x hx => ?_⟩, halarms⟩
  rw [halarms, List.mem_singleton] at hx
  rw [hx]
  exact ⟨rfl, rfl⟩

theorem Only.unset (h : a.Only task) : (a.unset task .step).Only task :=
  ⟨h.ready, fun x hx => h.alarms x (List.mem_filter.1 hx).1⟩

/-- A task that is forgotten leaves an agenda empty where there was no other. -/
theorem Only.forget (h : a.Only task) : (a.forget task).alarms = [] ∧ (a.forget task).ready = [] := by
  refine ⟨List.filter_eq_nil_iff.2 fun x hx => ?_, ?_⟩
  · simp [(h.alarms x hx).1]
  · simp [Agenda.forget, h.ready]

end Agenda

namespace Client.Session

variable {x y : Session} {i : Nat} {c d : Call}

/-! ### Steps that leave no trace elsewhere -/

/-- An event that wakes nobody changes nothing but the limits. -/
theorem happen_of_quiet {e : Limit.Event} (h : (x.client.limits.step x.now e).1.woken = []) :
    x.happen e = ({ x with client := { x.client with limits := (x.client.limits.step x.now e).1 } },
      (x.client.limits.step x.now e).2) := by
  unfold happen Limit.Limits.takeWoken
  dsimp only
  rw [h]
  refine Prod.ext ?_ rfl
  have hlimits : { (x.client.limits.step x.now e).1 with woken := [] } = (x.client.limits.step x.now e).1 := by
    rw [← h]
  simp only [hlimits]
  rfl

/-- The replies still to come to what `o` asks. -/
def script (x : Session) (o : Outgoing) : List Reply :=
  (x.replies.lookup (o.method.name ++ " " ++ o.url.pathText)).getD []

theorem takeReply_of_nil {o : Outgoing} (h : x.script o = []) : x.takeReply o = (none, x) := by
  unfold script at h
  unfold takeReply
  dsimp only
  split
  · rename_i reply rest hr
    rw [hr] at h
    cases h
  · rfl

theorem lookup_map_used {key : String} {rest : List Reply} {l : List (String × List Reply)}
    (h : (l.lookup key).isSome) :
    (l.map fun e => if e.1 = key then (e.1, rest) else e).lookup key = some rest := by
  induction l with
  | nil => cases h
  | cons e l ih =>
    by_cases hk : e.1 = key
    · simp [hk]
    · have hk' : (key == e.1) = false := by simpa using Ne.symm hk
      rw [List.lookup_cons, hk'] at h
      rw [List.map_cons, if_neg hk, List.lookup_cons, hk']
      exact ih h

theorem takeReply_of_cons {o : Outgoing} {reply : Reply} {rest : List Reply}
    (h : x.script o = reply :: rest) :
    ∃ replies, x.takeReply o = (some reply, { x with replies }) ∧
      Session.script { x with replies } o = rest := by
  unfold script at h
  cases hl : x.replies.lookup (o.method.name ++ " " ++ o.url.pathText) with
  | none => rw [hl] at h; cases h
  | some replies =>
    rw [hl] at h
    cases h
    refine ⟨x.replies.map fun e => if e.1 = o.method.name ++ " " ++ o.url.pathText then (e.1, rest) else e,
      ?_, ?_⟩
    · unfold takeReply
      dsimp only
      rw [hl]
    · unfold script
      dsimp only
      rw [lookup_map_used (by rw [hl]; rfl)]
      rfl

/-- No more replies are to come to one request than to all. -/
theorem length_script_le (x : Session) (o : Outgoing) :
    (x.script o).length ≤ x.replies.foldl (fun n e => n + e.2.length) 0 := by
  have sum (l : List (String × List Reply)) (n : Nat) :
      l.foldl (fun n e => n + e.2.length) n = n + l.foldl (fun n e => n + e.2.length) 0 := by
    induction l generalizing n with
    | nil => rfl
    | cons e l ih =>
      rw [List.foldl_cons, List.foldl_cons, ih, ih (0 + _)]
      omega
  unfold script
  generalize o.method.name ++ " " ++ o.url.pathText = key
  induction x.replies with
  | nil => exact Nat.le_refl _
  | cons e l ih =>
    rw [List.foldl_cons, sum, List.lookup_cons]
    cases key == e.1 with
    | true => simp
    | false =>
      dsimp only
      omega

/-! ### Steps of a call on its own -/

/-- Nobody waits for the limits, and only alarms of call `i` are set. -/
structure Quiet (x : Session) (i : Nat) : Prop where
  limits : x.client.limits.Vacant
  agenda : x.agenda.Only (.call i)

/-- Nothing goes on. -/
structure Idle (x : Session) : Prop where
  limits : x.client.limits.Vacant
  alarms : x.agenda.alarms = []
  ready : x.agenda.ready = []
  ended : ∀ c ∈ x.calls, c.isOver = true

/-- An event that leaves nobody waiting wakes nobody. -/
theorem quiet_happen {e : Limit.Event} (h : (x.client.limits.step x.now e).1.Vacant)
    (ha : x.agenda.Only (.call i)) :
    Quiet (x.happen e).1 i ∧ (x.happen e).1.replies = x.replies ∧ (x.happen e).1.calls = x.calls := by
  rw [happen_of_quiet h.woken]
  exact ⟨⟨h, ha⟩, rfl, rfl⟩

/-- The session is left as it is between the attempts of call `i`, which rests or is over. -/
structure Between (x : Session) (i : Nat) (y : Session) : Prop where
  replies : y.replies = x.replies
  limits : y.client.limits.Vacant
  agenda : y.agenda.Only (.call i)
  call : ∃ d, y.calls[i]? = some d ∧
    ((∃ till, d.stage = .resting till ∧ y.agenda.alarms = [⟨wholeMillis till, .call i, .step⟩]) ∨
      (∃ moment result cache, d.stage = .ended moment result cache) ∧ y.agenda.alarms = [])

/-- Where the slots that a call held are the only ones, the session is idle once it is over. -/
theorem between_finish (h : (x.client.limits.step x.now (.withdraw i)).1.Vacant) (ha : x.agenda.Only (.call i))
    (hi : i < x.calls.length) (c : Call) (result : Except ApiError Answer) :
    Between x i (x.finish i c result) := by
  obtain ⟨hq, hr, hc⟩ := quiet_happen h ha
  obtain ⟨ha, hn⟩ := hq.agenda.forget
  have alarms : (x.finish i c result).agenda.alarms = [] := by
    show (((x.happen (.withdraw i)).1.agenda.forget (.call i)).forget (.canceller i)).alarms = []
    rw [Agenda.forget, ha]
    rfl
  refine ⟨hr, hq.limits, ⟨?_, by rw [alarms]; simp⟩, ?_⟩
  · show (((x.happen (.withdraw i)).1.agenda.forget (.call i)).forget (.canceller i)).ready = []
    rw [Agenda.forget, hn]
    rfl
  · refine ⟨c.over x result x.client.cache, ?_, .inr ⟨⟨_, _, _, rfl⟩, alarms⟩⟩
    rw [(became_finish x i c result).calls]
    exact List.getElem?_set_self hi

theorem Quiet.finish (h : Quiet x i) (hi : i < x.calls.length) (c : Call)
    (result : Except ApiError Answer) : Between x i (x.finish i c result) :=
  between_finish (h.limits.withdraw x.now i) h.agenda hi c result

theorem Quiet.settleAttempt (h : Quiet x i) (hi : i < x.calls.length) (c : Call) (e : AttemptEnd) :
    Between x i (x.settleAttempt i c e) := by
  unfold Session.settleAttempt
  cases c.progress.after x.client.account.retry c.request.route e x.client.draws with
  | mk verdict draws =>
    cases verdict with
    | again delay progress =>
      obtain ⟨honly, halarms⟩ := h.agenda.set (x.now + delay)
      exact ⟨rfl, h.limits, honly, _, List.getElem?_set_self hi, .inl ⟨_, rfl, halarms⟩⟩
    | finished result =>
      cases result with
      | error error =>
        have hq : Quiet { x with client := { x.client with draws } } i := ⟨h.limits, h.agenda⟩
        have hb := hq.finish hi c (.error error)
        exact ⟨hb.replies, hb.limits, hb.agenda, hb.call⟩
      | ok r =>
        have hq : Quiet { x with client := { x.client with
            draws, cache := (c.endpoint.conclude x.client.cache r).2 } } i := ⟨h.limits, h.agenda⟩
        have hb := hq.finish hi c (c.endpoint.conclude x.client.cache r).1
        exact ⟨hb.replies, hb.limits, hb.agenda, hb.call⟩

/-- Where the slots that a call held are the only ones, the end of its attempt leaves nobody waiting. -/
theorem between_endWithout (h : (x.client.limits.step x.now (.withdraw i)).1.Vacant)
    (ha : x.agenda.Only (.call i)) (hi : i < x.calls.length) (c : Call) :
    Between x i (x.endWithout i c) := by
  obtain ⟨hq, hr, hc⟩ := quiet_happen h ha
  have hq' : Quiet { (x.happen (.withdraw i)).1 with client := { (x.happen (.withdraw i)).1.client with
      metrics := (x.happen (.withdraw i)).1.client.metrics.record none } } i := ⟨hq.limits, hq.agenda⟩
  have hb := hq'.settleAttempt (hc ▸ hi) c .noResponse
  exact ⟨hb.replies.trans hr, hb.limits, hb.agenda, hb.call⟩

theorem between_endWith {t : Limit.Ticket} (h : x.client.limits.Held t) (hc : t.caller = i)
    (ha : x.agenda.Only (.call i)) (hi : i < x.calls.length) (c : Call) (r : Http.Response) :
    Between x i (x.endWith i c r) := by
  subst hc
  have counted {e : Limit.Event} {end' : AttemptEnd}
      (hv : (x.client.limits.step x.now e).1.Vacant) :
      Between x t.caller (({ x with client := { x.client with
        metrics := x.client.metrics.record (some r.status) } }.happen e).1.settleAttempt t.caller c end') := by
    obtain ⟨hq, hr, hcalls⟩ := quiet_happen (x := { x with client := { x.client with
        metrics := x.client.metrics.record (some r.status) } }) hv ha
    have hb := hq.settleAttempt (by rw [hcalls]; exact hi) c end'
    exact ⟨hb.replies.trans hr, hb.limits, hb.agenda, hb.call⟩
  unfold endWith
  dsimp only
  split
  · exact counted (h.refuse _ _ _)
  · exact counted (h.record _ _)

/-- Call `i` waits for a moment, for which its alarm is set unless it has come. -/
def Alarmed (x : Session) (i : Nat) (till : Instant) : Prop :=
  till ≤ x.now ∨ x.agenda.alarms = [⟨wholeMillis till, .call i, .step⟩]

/-- A session with its clock at another moment. -/
def clockAt (x : Session) (now : Instant) : Session := { x with agenda := { x.agenda with now } }

/-- Call `i` waits for a moment: its alarm is set, and there is no step for it to take before. -/
structure Dozes (x : Session) (i : Nat) (c : Call) (till : Instant) : Prop where
  early : x.now < till
  alarms : x.agenda.alarms = [⟨wholeMillis till, .call i, .step⟩]
  stuck : ∀ now < till, (x.clockAt now).advanceCall i c = none

/-- What the rest of a session is like while only call `i` goes on, and how many steps it may take
until its next attempt is sent, or the last one is dealt with. -/
inductive Poised (x : Session) (i : Nat) (c : Call) : Nat → Prop
  | due {start : Instant} (stage : c.stage = .due start) (begins : start ≤ x.now)
      (limits : x.client.limits.Vacant) : Poised x i c 5
  | asking (stage : c.stage = .asking) (limits : x.client.limits.Vacant) : Poised x i c 4
  | waiting {p : Limit.Pending} {till : Instant} {n : Nat} (stage : c.stage = .waiting)
      (caller : p.caller = i) (inLine : x.client.limits.InLine p (.asleep till))
      (waits : x.client.limits.WaitsFor till p.stage n) (alarm : x.Alarmed i till) : Poised x i c n
  | inFlight {till : Instant} {response : Option Http.Response} {t : Limit.Ticket}
      (stage : c.stage = .inFlight till response) (caller : t.caller = i)
      (held : x.client.limits.Held t) (alarm : x.Alarmed i till) : Poised x i c 6
  | resting {till : Instant} (stage : c.stage = .resting till) (limits : x.client.limits.Vacant)
      (alarm : x.Alarmed i till) : Poised x i c 5
  | ended {moment : Instant} {result : Except ApiError Answer} {cache : Cache}
      (stage : c.stage = .ended moment result cache) (limits : x.client.limits.Vacant) (alarms : x.agenda.alarms = []) :
      Poised x i c 0

/-- The replies still to come to what an attempt sends, if it sends anything. -/
def repliesTo (x : Session) (o : Option Outgoing) : List Reply := o.elim [] x.script

theorem repliesTo_some (x : Session) (o : Outgoing) : x.repliesTo (some o) = x.script o := rfl

theorem repliesTo_congr (h : y.replies = x.replies) (o : Option Outgoing) : y.repliesTo o = x.repliesTo o := by
  cases o with
  | none => rfl
  | some o => rw [repliesTo_some, repliesTo_some, script, script, h]

/-- How call `i` goes on as `c` becomes `d`, given the replies still to come to what it sends. -/
inductive Goes (o : Option Outgoing) (x y : Session) (c d : Call) (n m : Nat) : Prop
  | waits (replies : y.replies = x.replies) (was : ∀ till response, c.stage ≠ .inFlight till response)
      (asks : d.asks) (less : m < n)
  | landed {till : Instant} {response : Option Http.Response} (replies : y.replies = x.replies)
      (stage : c.stage = .inFlight till response) (left : d.left) (less : m < n)
  | answered {reply : Reply} {rest : List Reply} {till : Instant} (asks : c.asks)
      (script : x.repliesTo o = reply :: rest) (left : y.repliesTo o = rest)
      (stage : d.stage = .inFlight till reply.response) (bound : m ≤ 6)
  | unanswered (asks : c.asks) (script : x.repliesTo o = []) (replies : y.replies = x.replies)
      (left : d.left) (bound : m ≤ 5)

theorem Between.poised (h : Between x i y) :
    ∃ d n, y.calls[i]? = some d ∧ Poised y i d n ∧ n ≤ 5 ∧ d.left := by
  obtain ⟨d, hd, ⟨till, hs, ha⟩ | ⟨⟨moment, result, cache, hs⟩, ha⟩⟩ := h.call
  · exact ⟨d, 5, hd, .resting hs h.limits (.inr ha), Nat.le_refl _, .inl ⟨till, hs⟩⟩
  · exact ⟨d, 0, hd, .ended hs h.limits ha, Nat.zero_le _, .inr ⟨_, _, _, hs⟩⟩

/-- A call on its own that has got its slots makes an attempt, for which it may have nothing to send. -/
theorem goes_send {t : Limit.Ticket} {o : Option Outgoing} (h : x.client.limits.Held t) (hc : t.caller = i)
    (ha : x.agenda.Only (.call i)) (hi : i < x.calls.length) (asks : c.asks)
    (built : c.outgoing? x = o) (n : Nat) :
    ∃ d m, (x.send i c).calls[i]? = some d ∧ (x.send i c).agenda.Only (.call i) ∧
      Poised (x.send i c) i d m ∧ Goes o x (x.send i c) c d n m := by
  have hvacant : (x.client.limits.step x.now (.withdraw i)).1.Vacant := hc ▸ h.withdraw x.now
  have ends {y : Session} (hb : Between x i y) (hs : x.repliesTo o = []) :
      ∃ d m, y.calls[i]? = some d ∧ y.agenda.Only (.call i) ∧ Poised y i d m ∧ Goes o x y c d n m := by
    obtain ⟨d, m, hd, hp, hm, hleft⟩ := hb.poised
    exact ⟨d, m, hd, hb.agenda, hp, .unanswered asks hs hb.replies hleft hm⟩
  unfold send
  unfold Call.outgoing? at built
  cases hcontent : c.request.body.content? with
  | none =>
    rw [hcontent] at built
    subst built
    exact ends (between_finish hvacant ha hi c _) rfl
  | some content =>
    rw [hcontent] at built
    dsimp only
    cases ho : c.request.outgoing? x.boundary x.client.account.apiBase x.client.account.token content with
    | none =>
      obtain rfl : none = o := ho.symm.trans built
      exact ends (between_endWithout hvacant ha hi c.tried) rfl
    | some outgoing =>
      obtain rfl : some outgoing = o := ho.symm.trans built
      dsimp only
      cases hs : x.script outgoing with
      | nil =>
        rw [takeReply_of_nil (x := { x with sent := x.sent ++ [Sent.mk x.now outgoing] }) hs]
        have hb := between_endWithout (x := { x with sent := x.sent ++ [Sent.mk x.now outgoing] }) hvacant ha hi
          c.tried
        exact ends ⟨hb.replies, hb.limits, hb.agenda, hb.call⟩ hs
      | cons reply rest =>
        obtain ⟨replies, ht, hrest⟩ :=
          takeReply_of_cons (x := { x with sent := x.sent ++ [Sent.mk x.now outgoing] }) hs
        rw [ht]
        obtain ⟨honly, halarms⟩ := ha.set (x.now + reply.latency)
        refine ⟨_, 6, List.getElem?_set_self hi, honly, ?_, ?_⟩
        · exact .inFlight rfl hc h (.inr halarms)
        · exact .answered asks hs hrest rfl (Nat.le_refl _)

/-- A call on its own that asks is told to wait for less, or sends. -/
theorem ask_cases {e : Limit.Event} {n : Nat} (h : Limit.Limits.Asked i n (x.client.limits.step x.now e))
    (ha : x.agenda.Only (.call i)) (hi : i < x.calls.length) (c : Call) :
    (∃ y d m, x.ask i c e = some y ∧ y.calls[i]? = some d ∧ y.agenda.Only (.call i) ∧ Poised y i d m ∧
      y.replies = x.replies ∧ d.asks ∧ m < n) ∨
    ∃ z t, x.ask i c e = some (z.send i c) ∧ z.client.limits.Held t ∧ t.caller = i ∧
      z.agenda.Only (.call i) ∧ Unmoved x z ∧ z.replies = x.replies := by
  unfold ask
  cases ho : x.client.limits.step x.now e with
  | mk limits turn =>
    rw [ho] at h
    cases h with
    | @granted _ t caller held =>
      rw [happen_of_quiet (by rw [ho]; exact held.woken), ho]
      exact .inr ⟨{ x with client := { x.client with limits }, agenda := x.agenda.unset (.call i) .step }, t,
        rfl, held, caller, ha.unset, ⟨⟨rfl, rfl, rfl, rfl⟩, rfl, rfl, rfl, rfl⟩, rfl⟩
    | @asleep _ p till m caller inLine waits less =>
      rw [happen_of_quiet (by rw [ho]; exact inLine.woken), ho]
      obtain ⟨honly, halarms⟩ := ha.set till
      exact .inl ⟨_, _, m, rfl, List.getElem?_set_self hi, honly,
        .waiting rfl caller inLine waits (.inr halarms), rfl, .inr rfl, less⟩

/-- A call on its own that asks goes on at once. -/
theorem goes_ask {e : Limit.Event} {n : Nat} {o : Option Outgoing}
    (h : Limit.Limits.Asked i n (x.client.limits.step x.now e)) (ha : x.agenda.Only (.call i))
    (hi : i < x.calls.length) (asks : c.asks) (built : c.outgoing? x = o) :
    ∃ y d m, x.ask i c e = some y ∧ y.calls[i]? = some d ∧ y.agenda.Only (.call i) ∧
      Poised y i d m ∧ Goes o x y c d n m := by
  rcases ask_cases h ha hi c with ⟨y, d, m, hy, hd, honly, hp, replies, hasks, less⟩ |
    ⟨z, t, hz, held, caller, honly, moved, replies⟩
  · exact ⟨y, d, m, hy, hd, honly, hp, .waits replies asks.not_inFlight hasks less⟩
  · have built' : c.outgoing? z = o := by
      rw [← built, Call.outgoing?, Call.outgoing?, moved.alike.account, moved.alike.boundary]
    have script := repliesTo_congr replies o
    obtain ⟨d, m, hd, honly', hp, hgoes⟩ := goes_send held caller honly (moved.calls ▸ hi) asks built' n
    refine ⟨_, d, m, hz, hd, honly', hp, ?_⟩
    cases hgoes with
    | waits replies' was asks less => exact .waits (replies'.trans replies) was asks less
    | landed replies' stage left less => exact .landed (replies'.trans replies) stage left less
    | answered asks hscript left stage bound => exact .answered asks (script ▸ hscript) left stage bound
    | unanswered asks hscript replies' left bound =>
      exact .unanswered asks (script ▸ hscript) (replies'.trans replies) left bound

/-- Whoever looks before the moment that it waits for goes on waiting. -/
theorem ask_early {p : Limit.Pending} {till : Instant} (inLine : x.client.limits.InLine p (.asleep till))
    (early : x.now < till) (c : Call) : x.ask p.caller c (.poll p.caller) = none := by
  have hpoll : x.client.limits.step x.now (.poll p.caller) = (x.client.limits, .unchanged) :=
    inLine.poll_early early
  rw [ask, happen_of_quiet (by rw [hpoll]; exact inLine.woken), hpoll]

/-- A call that nobody cancels and that has all the time steps as it can. -/
theorem stepCall_eq (call : x.calls[i]? = some c) (on : c.isOver = false) (wanted : c.isCancelled = false)
    (untimed : c.deadline = none) : x.stepCall i = x.advanceCall i c := by
  unfold stepCall
  rw [call]
  simp only [on, wanted, untimed, Bool.false_eq_true, if_false, Option.any_none]
  cases x.advanceCall i c <;> rfl

theorem begin_of_untimed {request : Request} {key : Limit.RouteKey} (uncancelled : c.cancelAfter = none)
    (made : c.endpoint.request = .ok request)
    (resolved : Limit.RouteKey.resolve request.method request.route = .ok key)
    (untimed : request.timeout = none) :
    x.begin i c = x.setCall i { c with request, key, deadline := none, stage := .asking } := by
  unfold begin
  simp only [uncancelled, made, resolved, untimed, Option.map_none]

/-- A call on its own that waits has its alarm set; any other goes on. -/
theorem goes_stepCall {o : Option Outgoing} {request : Request} {key : Limit.RouteKey} {n : Nat}
    (call : x.calls[i]? = some c) (wanted : c.isCancelled = false) (untimed : c.deadline = none)
    (begins : ∀ start, c.stage = .due start →
      x.begin i c = x.setCall i { c with request, key, deadline := none, stage := .asking })
    (built : c.asks → c.outgoing? x = o) (only : x.agenda.Only (.call i)) (h : Poised x i c n) :
    (c.isOver = true ∨ x.stepCall i = none ∧ ∃ till, x.Dozes i c till) ∨
    ∃ y d m, x.stepCall i = some y ∧ y.calls[i]? = some d ∧ y.agenda.Only (.call i) ∧
      Poised y i d m ∧ Goes o x y c d n m := by
  have hi : i < x.calls.length := (List.getElem?_eq_some_iff.1 call).1
  by_cases hover : c.isOver = true
  · exact .inl (.inl hover)
  have step := stepCall_eq call (Bool.eq_false_iff.2 hover) wanted untimed
  -- a call whose moment has not come yet has its alarm set
  have early {till : Instant} (alarm : x.Alarmed i till) (hn : ¬ till ≤ x.now)
      (stuck : ∀ now < till, (x.clockAt now).advanceCall i c = none) :
      x.stepCall i = none ∧ ∃ till, x.Dozes i c till :=
    have hlt := Nat.lt_of_not_le hn
    ⟨step.trans (stuck x.now hlt), till, hlt, alarm.resolve_left hn, stuck⟩
  cases h with
  | @due start stage come limits =>
    refine .inr ⟨x.setCall i { c with request, key, deadline := none, stage := .asking },
      { c with request, key, deadline := none, stage := .asking }, 4, ?_,
      List.getElem?_set_self hi, only, .asking rfl limits, ?_⟩
    · rw [step, advanceCall, stage]
      dsimp only
      rw [if_pos come, begins start stage]
    · exact .waits rfl (by simp [stage]) (.inl rfl) (by omega)
  | asking stage limits =>
    obtain ⟨y, d, m, hy, hd⟩ := goes_ask (limits.arrive x.now i c.key c.request.scope) only hi (.inl stage)
      (built (.inl stage))
    refine .inr ⟨y, d, m, ?_, hd⟩
    rw [step, advanceCall, stage]
    exact hy
  | @waiting p till n stage caller inLine waits alarm =>
    subst caller
    by_cases hle : till ≤ x.now
    · obtain ⟨y, d, m, hy, hd⟩ := goes_ask (e := .poll p.caller) (inLine.poll waits hle) only hi (.inr stage)
        (built (.inr stage))
      refine .inr ⟨y, d, m, ?_, hd⟩
      rw [step, advanceCall, stage]
      exact hy
    · refine .inl (.inr (early alarm hle fun now hlt => ?_))
      rw [advanceCall, stage]
      exact ask_early (x := x.clockAt now) inLine hlt c
  | @inFlight till response t stage caller held alarm =>
    by_cases hle : till ≤ x.now
    · obtain ⟨y, hy, hb⟩ : ∃ y, x.stepCall i = some y ∧ Between x i y := by
        rw [step, advanceCall, stage]
        cases response with
        | some r => exact ⟨_, if_neg (Nat.not_lt.2 hle), between_endWith held caller only hi c r⟩
        | none =>
          exact ⟨_, if_neg (Nat.not_lt.2 hle),
            between_endWithout (caller ▸ held.withdraw x.now) only hi c⟩
      obtain ⟨d, m, hd, hp, hm, hleft⟩ := hb.poised
      exact .inr ⟨y, d, m, hy, hd, hb.agenda, hp, .landed hb.replies stage hleft (by omega)⟩
    · refine .inl (.inr (early alarm hle fun now hlt => ?_))
      rw [advanceCall, stage]
      exact if_pos hlt
  | @resting till stage limits alarm =>
    by_cases hle : till ≤ x.now
    · refine .inr ⟨x.setCall i { c with stage := .asking }, { c with stage := .asking }, 4, ?_,
        List.getElem?_set_self hi, only, .asking rfl limits, .waits rfl (by simp [stage]) (.inl rfl) (by omega)⟩
      rw [step, advanceCall, stage]
      exact if_neg (Nat.not_lt.2 hle)
    · refine .inl (.inr (early alarm hle fun now hlt => ?_))
      rw [advanceCall, stage]
      exact if_pos hlt
  | ended stage _ _ => exact absurd (by rw [Call.isOver, stage]) hover

end Client.Session

end ChatApi
