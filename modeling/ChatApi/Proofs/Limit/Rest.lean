import ChatApi.Proofs.Limit.Apart

/-!
# All that can be done in a session

`Session.Action` lists all that can be done in a session, whatever its callers ask for. After each of them
everything has gone on that can without time passing: nobody is left to go on, and all alarms are still to
come (`resting_handle`).
-/

namespace ChatApi.Limit.Session

/-- What is done in a session. -/
inductive Action
  /-- A caller asks for slots. -/
  | acquire (c : Caller) (wanted : Wanted)
  /-- The response to a caller's request comes in. -/
  | record (c : Caller) (headers : Http.Headers)
  /-- The refusal of a caller's request comes in. -/
  | refuse (c : Caller) (headers : Http.Headers) (body : ByteArray)
  /-- A caller gives its slots back, or asks no more. -/
  | drop (c : Caller)
  /-- The whole account is held back. -/
  | block (wait : Span)
  /-- A response comes in that names no caller. -/
  | recordBucket (i : Nat) (headers : Http.Headers)
  /-- A bucket is closed for a while. -/
  | exhaustBucket (i : Nat) (wait : Span)
  /-- Time passes. -/
  | advance (time : Span)

/-- An action is taken. -/
def handle (x : Session) : Action → Session
  | .acquire c wanted => x.acquire c wanted
  | .record c headers => (x.record c headers).1
  | .refuse c headers body => (x.refuse c headers body).1
  | .drop c => (x.drop c).1
  | .block wait => x.block wait
  | .recordBucket i headers => x.recordBucket i headers
  | .exhaustBucket i wait => x.exhaustBucket i wait
  | .advance time => x.advance time

/-- Actions are taken one after another. -/
def handleAll (x : Session) (actions : List Action) : Session := actions.foldl handle x

theorem handleAll_cons (x : Session) (a : Action) (actions : List Action) :
    x.handleAll (a :: actions) = (x.handle a).handleAll actions := rfl

/-- The session of a new client. -/
def fresh (epoch : Int) (limit : Nat) : Session := { epoch, limits := .ofLimit limit }

variable {x : Session} {c : Caller} {wanted : Wanted} {e : Event} {due target : Instant}

/-- What every action keeps holds after any actions. -/
theorem handleAll_induction {P : Session → Prop} {actions : List Action}
    (hstep : ∀ x, ∀ a ∈ actions, P x → P (x.handle a)) (h : P x) : P (x.handleAll actions) := by
  induction actions generalizing x with
  | nil => exact h
  | cons a actions ih =>
    exact ih (fun y b hb => hstep y b (List.mem_cons_of_mem _ hb)) (hstep x a List.mem_cons_self h)

/-- What is made of a response that uses a ticket up. -/
theorem useTicket_eq {α : Type} (x : Session) (c : Caller) (e : Event) (a : α) :
    (x.useTicket c e a).1 = x ∨ (x.useTicket c e a).1 = x.happen (.withdraw c) ∨
      (x.useTicket c e a).1 = x.happen e := by
  unfold useTicket
  split
  · exact .inl rfl
  · split
    · exact .inr (.inl rfl)
    · exact .inr (.inr rfl)

/-! ### At rest -/

theorem woken_withLimits (x : Session) (s : Limits) : (x.withLimits s).limits.woken = [] := rfl

theorem woken_ask (x : Session) (c : Caller) (wanted : Wanted) (e : Event) :
    (x.ask c wanted e).limits.woken = [] := by
  rw [ask_eq]
  cases (x.limits.step x.now e).2 <;> rfl

theorem woken_poll (h : x.limits.woken = []) (c : Caller) : (x.poll c).limits.woken = [] := by
  unfold poll
  split
  · exact h
  · exact woken_ask ..

theorem woken_settleWith (h : x.limits.woken = []) (fuel : Nat) : (settleWith fuel x).limits.woken = [] :=
  settleWith_induction (P := fun y => y.limits.woken = [])
    (fun {y c rest} _ hy => woken_poll (x := y.popped rest) hy c) h fuel

/-- Nobody is left to go on before time passes, and nobody has been given a turn unnoticed. -/
structure Resting (x : Session) : Prop where
  rest : AtRest x
  woken : x.limits.woken = []

theorem resting_settle (hw : x.limits.woken = []) (ht : x.agenda.Timely) : Resting x.settle :=
  ⟨⟨ready_settle hw, timely_settle ht⟩, woken_settleWith hw _⟩

theorem Resting.happen (h : Resting x) (e : Event) : Resting (x.happen e) :=
  resting_settle (woken_withLimits ..) (timely_withLimits h.rest.timely _)

theorem Resting.useTicket {α : Type} (h : Resting x) (c : Caller) (e : Event) (a : α) :
    Resting (x.useTicket c e a).1 := by
  rcases useTicket_eq x c e a with heq | heq | heq
  · rwa [heq]
  · rw [heq]
    exact h.happen _
  · rw [heq]
    exact h.happen _

theorem Resting.reached (h : Resting x) (hn : ∀ alarm ∈ x.agenda.alarms, target < alarm.due) :
    Resting (x.reached target) := by
  refine ⟨⟨h.rest.ready, fun alarm hmem => ?_⟩, h.woken⟩
  obtain ⟨hlt, hwhole⟩ := h.rest.timely alarm hmem
  exact ⟨Nat.max_lt.2 ⟨hlt, hn alarm hmem⟩, hwhole⟩

theorem Resting.rung (h : Resting x) (hn : x.agenda.next?.filter (· ≤ target) = some due) :
    Resting (x.rung due).settle := by
  obtain ⟨⟨alarm, hmem, rfl⟩, -, -⟩ := Agenda.next?_filter_eq_some_iff.1 hn
  exact resting_settle h.woken (timely_rung h.rest.timely (Nat.le_of_lt (h.rest.timely alarm hmem).1))

theorem Resting.advanceWith (h : Resting x) (target : Instant) (fuel : Nat) : Resting (advanceWith target fuel x) :=
  advanceWith_induction (fun hn hx => hx.reached (Agenda.next?_filter_eq_none_iff.1 hn)) (fun hn hx => hx.rung hn) h fuel

/-- After each action all have gone on that can. -/
theorem resting_handle (h : Resting x) (a : Action) : Resting (x.handle a) := by
  cases a with
  | acquire c wanted =>
    obtain ⟨keys, heq⟩ := acquire_eq x c wanted
    have htimely : ({ x with keys } : Session).agenda.Timely := h.rest.timely
    simp only [handle, heq]
    exact resting_settle (woken_ask ..) (timely_ask htimely c wanted _)
  | record c headers => exact h.useTicket c _ _
  | refuse c headers body => exact h.useTicket c _ _
  | drop c =>
    have hgone : Resting { x with agenda := x.agenda.forget c } :=
      ⟨⟨by simp [Agenda.forget, h.rest.ready], h.rest.timely.forget c⟩, h.woken⟩
    exact hgone.happen _
  | block wait => exact h.happen _
  | recordBucket i headers => exact resting_settle (woken_withLimits ..) (timely_withLimits h.rest.timely _)
  | exhaustBucket i wait => exact resting_settle (woken_withLimits ..) (timely_withLimits h.rest.timely _)
  | advance time => exact h.advanceWith _ _

theorem resting_fresh (epoch : Int) (limit : Nat) : Resting (fresh epoch limit) :=
  ⟨⟨rfl, fun _ hx => absurd hx List.not_mem_nil⟩, rfl⟩

theorem resting_handleAll (epoch : Int) (limit : Nat) (actions : List Action) :
    Resting ((fresh epoch limit).handleAll actions) :=
  handleAll_induction (fun _ a _ h => resting_handle h a) (resting_fresh epoch limit)

end ChatApi.Limit.Session
