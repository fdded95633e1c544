import ChatApi.Proofs.Limit.Settle

/-!
# Single moves in a session

`Session.Move` lists what can come next in a session, down to the turn of one caller. Between two moves nothing
goes on by itself: a caller that was given a turn may have to wait for it while others come in, leave, or get
their responses. Only time waits for all of them (`Session.can`).
-/

namespace ChatApi.Limit.Session

inductive Move
  /-- A caller asks for slots. -/
  | asks (c : Caller) (wanted : Wanted)
  /-- A caller that is ready goes on. -/
  | goesOn (c : Caller)
  /-- The response to a caller's request comes in. -/
  | records (c : Caller) (headers : Http.Headers)
  /-- The refusal of a caller's request comes in. -/
  | refuses (c : Caller) (headers : Http.Headers) (body : ByteArray)
  /-- A caller gives its slots back, or asks no more. -/
  | drops (c : Caller)
  /-- The whole account is held back. -/
  | blocks (wait : Span)
  /-- The clock moves on to a moment, and the alarms for it go off. -/
  | passes (till : Instant)

/-- The session as a caller that is ready goes on. -/
def taken (x : Session) (c : Caller) : Session :=
  { x with agenda := { x.agenda with ready := x.agenda.ready.erase c } }

/-- An event happens, and those that it gave a turn are ready. -/
def meets (x : Session) (e : Event) : Session := x.withLimits (x.limits.step x.now e).1

/-- Who goes on is ready. Time passes only when nobody is, and not beyond an alarm. -/
def can (x : Session) : Move → Bool
  | .goesOn c => c ∈ x.agenda.ready
  | .passes till => x.agenda.ready = [] && x.now ≤ till && x.agenda.alarms.all (till ≤ ·.due)
  | _ => true

/-- A move is made. -/
def make (x : Session) : Move → Session
  | .asks c wanted => (x.note wanted).ask c wanted (.arrive c wanted)
  | .goesOn c => (x.taken c).poll c
  | .records c headers => x.meets (.record c (.ofHeaders x.calendarMillis headers))
  | .refuses c headers body =>
    x.meets (.refuse c (.ofHeaders x.calendarMillis headers) (Refusal.ofBody? body))
  | .drops c => { x with agenda := x.agenda.forget c }.meets (.withdraw c)
  | .blocks wait => x.meets (.block wait)
  | .passes till => x.rung till

/-- Moves are made one after another, if each of them can be made. -/
def follow (x : Session) : List Move → Option Session
  | [] => some x
  | m :: moves => if x.can m then (x.make m).follow moves else none

/-- Whether a move is one of the callers that are `mine`; the time passes for all. -/
def Move.isOf (mine : Caller → Bool) : Move → Bool
  | .asks c _ | .goesOn c | .records c _ | .refuses c _ _ | .drops c => mine c
  | .blocks _ | .passes _ => true

/-- Besides what comes of asking, it is noted which route was asked for. -/
theorem exists_note_eq (x : Session) (wanted : Wanted) : ∃ keys, x.note wanted = { x with keys } := by
  unfold note
  split
  · split
    · exact ⟨x.keys, rfl⟩
    · exact ⟨_, rfl⟩
  · exact ⟨x.keys, rfl⟩

theorem acquire_eq (x : Session) (c : Caller) (wanted : Wanted) :
    ∃ keys, x.acquire c wanted = ({ x with keys }.ask c wanted (.arrive c wanted)).settle := by
  obtain ⟨keys, heq⟩ := exists_note_eq x wanted
  exact ⟨keys, by rw [acquire, heq]⟩

variable {x : Session} {m : Move} {moves : List Move} {till : Instant}

theorem can_passes_iff : x.can (.passes till) ↔
    x.agenda.ready = [] ∧ x.now ≤ till ∧ ∀ alarm ∈ x.agenda.alarms, till ≤ alarm.due := by
  simp [can, and_assoc]

/-- What every move keeps holds after any moves. -/
theorem follow_induction {P : Session → Prop} {y : Session}
    (hmake : ∀ x, ∀ m ∈ moves, P x → x.can m → P (x.make m)) (h : P x) (hy : x.follow moves = some y) : P y := by
  induction moves generalizing x with
  | nil =>
    cases hy
    exact h
  | cons m moves ih =>
    unfold follow at hy
    split at hy
    · rename_i hcan
      exact ih (fun z m' hm' => hmake z m' (List.mem_cons_of_mem _ hm')) (hmake x m List.mem_cons_self h hcan) hy
    · cases hy

end ChatApi.Limit.Session
