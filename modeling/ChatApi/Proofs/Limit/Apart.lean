import ChatApi.Proofs.Limit.Divide
import ChatApi.Proofs.Limit.Moves

/-!
# Requests with other major parameters

A session of which everything is left out that concerns callers of other sides goes on as the whole one
does: `Session.Part` is kept by every single move (`Part.make`), and by every deed after which all go on that
can, also as time passes, although the two stop at different alarms (`Part.advanceWith`). So requests with some
major parameters get their slots at the same moments and in the same order, and find their buckets in the same
states, whatever is done with all others and in whatever order callers go on (`major_parameters_isolate`).
-/

namespace ChatApi.Limit.Session

/-- In `y` is left what concerns callers of the side in `x`. -/
structure Part (d : Side) (x y : Session) : Prop where
  limits : Limits.Part d x.limits y.limits
  divided : Limits.Divided d x.limits
  rested : x.limits.woken = []
  agenda : Agenda.Part d.has x.agenda y.agenda
  grants : y.grants = x.grants.filter (d.has ·.caller)
  epoch : y.epoch = x.epoch

variable {d : Side} {x y : Session} {c : Caller} {wanted : Wanted} {e : Event} {fuel fuel' : Nat} {target : Instant}

theorem Part.woken (h : Part d x y) : y.limits.woken = [] := by
  rw [h.limits.woken, h.rested, List.filter_nil]

theorem Part.ready (h : Part d x y) (hready : x.agenda.ready = []) : y.agenda.ready = [] := by
  rw [h.agenda.ready, hready, List.filter_nil]

theorem withLimits_self (h : y.limits.woken = []) : y.withLimits y.limits = y := by
  have hlimits : { y.limits with woken := [] } = y.limits := by rw [← h]
  simp [withLimits, Limits.takeWoken, h, Agenda.wakeAll, hlimits]

/-! ### Going on -/

theorem Part.withLimits (h : Part d x y) {mine : Bool} {s u : Limits}
    (hs : Limits.Part d s (if mine then u else y.limits)) (hd : Limits.Divided d s) :
    Part d (x.withLimits s) (if mine then y.withLimits u else y) := by
  have hboth (v : Limits) (hv : Limits.Part d s v) : Part d (x.withLimits s) (y.withLimits v) := by
    have hwoken := h.agenda.wakeAll s.woken
    rw [← hv.woken] at hwoken
    exact ⟨⟨hv.buckets, hv.routes, hv.shared, hv.pending, hv.tickets, rfl, hv.lines, hv.idle⟩,
      hd.withWoken [], rfl, hwoken, h.grants, h.epoch⟩
  cases mine with
  | true => exact hboth u hs
  | false =>
    have hsame := hboth y.limits hs
    rwa [withLimits_self h.woken] at hsame

theorem Part.withAgenda (h : Part d x y) {a b : Agenda Caller} (hab : Agenda.Part d.has a b) :
    Part d { x with agenda := a } { y with agenda := b } :=
  ⟨h.limits, h.divided, h.rested, hab, h.grants, h.epoch⟩

theorem Part.withAgenda_if (h : Part d x y) {mine : Bool} {a b : Agenda Caller}
    (hab : Agenda.Part d.has a (if mine then b else y.agenda)) :
    Part d { x with agenda := a } (if mine then { y with agenda := b } else y) := by
  cases mine with
  | true => exact h.withAgenda hab
  | false => exact h.withAgenda hab

theorem Part.heed (h : Part d x y) (hnow : d.has c → y.now = x.now) (wanted : Wanted) (turn : Turn) :
    Part d (x.heed c wanted turn) (if d.has c then y.heed c wanted turn else y) := by
  have hunset := h.withAgenda_if (h.agenda.unset c .step)
  cases turn with
  | granted =>
    cases hc : d.has c with
    | true =>
      rw [hc, if_pos rfl] at hunset
      refine ⟨hunset.limits, hunset.divided, hunset.rested, hunset.agenda, ?_, hunset.epoch⟩
      simp [Session.heed, h.grants, hnow hc, hc]
    | false =>
      rw [hc, if_neg (by simp)] at hunset
      refine ⟨hunset.limits, hunset.divided, hunset.rested, hunset.agenda, ?_, hunset.epoch⟩
      simp [Session.heed, h.grants, hc]
  | asleep till => exact h.withAgenda_if (h.agenda.set c .step till)
  | queued => exact hunset
  | unchanged => split <;> exact h

theorem Part.ask (h : Part d x y) (he : e.On d) (hc : e.isOf d = d.has c) (hnow : d.has c → y.now = x.now)
    (wanted : Wanted) : Part d (x.ask c wanted e) (if d.has c then y.ask c wanted e else y) := by
  have hstep := h.limits.step h.divided x.now he
  have hlimits := h.withLimits hstep.part (Limits.divided_step h.divided x.now he)
  rw [hc] at hstep hlimits
  rw [ask_eq, ask_eq]
  cases hmine : d.has c with
  | true =>
    rw [hmine, if_pos rfl] at hlimits
    have hheed := hlimits.heed (c := c) (fun hm => by simpa using hnow hm) wanted (x.limits.step x.now e).2
    rw [hmine, if_pos rfl] at hheed
    rwa [if_pos rfl, hnow hmine, hstep.turn hmine]
  | false =>
    rw [hmine, if_neg (by simp)] at hlimits
    have hheed := hlimits.heed (c := c) (fun hm => absurd hm (by simp [hmine])) wanted (x.limits.step x.now e).2
    rw [hmine, if_neg (by simp)] at hheed
    rwa [if_neg (by simp)]

/-- Somebody goes on. -/
theorem Part.poll (h : Part d x y) (hnow : d.has c → y.now = x.now) :
    Part d (x.poll c) (if d.has c then y.poll c else y) := by
  unfold Session.poll
  cases hp : x.limits.pending.find? (·.caller = c) with
  | none =>
    cases hc : d.has c with
    | true => simpa [h.limits.find?_pending hc, hp] using h
    | false => exact h
  | some p =>
    have hask := h.ask (c := c) (e := .poll c) trivial rfl hnow p.wanted
    cases hc : d.has c with
    | true => simpa [h.limits.find?_pending hc, hp, Pending.renumber, hc] using hask
    | false => simpa [hc] using hask

theorem Part.popped (h : Part d x y) {rest : List Caller} (hready : x.agenda.ready = c :: rest) :
    Part d (x.popped rest) (if d.has c then y.popped (rest.filter d.has) else y) := by
  cases hc : d.has c with
  | true => exact h.withAgenda ⟨h.agenda.alarms, rfl⟩
  | false =>
    have hsame : y.agenda.ready = rest.filter d.has := by
      rw [h.agenda.ready, hready, List.filter_cons_of_neg (by simp [hc])]
    exact h.withAgenda (b := y.agenda) ⟨h.agenda.alarms, hsame⟩

/-- All go on until none can. Callers of other sides give no turns to those of the side. -/
theorem Part.settleWith (h : Part d x y) (hx : x.weight ≤ fuel) (hy : y.weight ≤ fuel')
    (hnow : y.now = x.now ∨ y.agenda.ready = []) : Part d (settleWith fuel x) (settleWith fuel' y) := by
  induction fuel generalizing x y fuel' with
  | zero =>
    have hnil := ready_of_weight (Nat.le_zero.1 hx)
    rwa [settleWith_of_nil hnil, settleWith_of_nil (h.ready hnil)]
  | succ fuel ih =>
    cases hready : x.agenda.ready with
    | nil => rwa [settleWith_of_nil hready, settleWith_of_nil (h.ready hready)]
    | cons c rest =>
      have hpopped := h.popped hready
      have hx' := Nat.le_of_lt_succ (Nat.lt_of_lt_of_le (weight_poll_popped hready) hx)
      rw [settleWith_of_cons hready]
      cases hc : d.has c with
      | true =>
        have hready' : y.agenda.ready = c :: rest.filter d.has := by
          rw [h.agenda.ready, hready, List.filter_cons_of_pos hc]
        have hsame : y.now = x.now := hnow.resolve_right (by simp [hready'])
        have hlt := Nat.lt_of_lt_of_le (weight_poll_popped hready') hy
        obtain ⟨left, rfl⟩ := Nat.exists_eq_add_one_of_ne_zero (Nat.ne_zero_of_lt hlt)
        rw [hc, if_pos rfl] at hpopped
        have hpoll := hpopped.poll (c := c) fun _ => hsame
        rw [hc, if_pos rfl] at hpoll
        rw [settleWith_of_cons hready']
        exact ih hpoll hx' (Nat.le_of_lt_succ hlt) (.inl (by simpa only [now_poll, now_popped] using hsame))
      | false =>
        rw [hc, if_neg (by simp)] at hpopped
        have hpoll := hpopped.poll (c := c) fun hm => absurd hm (by simp [hc])
        rw [hc, if_neg (by simp)] at hpoll
        exact ih hpoll hx' hy (hnow.imp_left fun hsame => by simpa only [now_poll, now_popped] using hsame)

theorem Part.settle (h : Part d x y) (hnow : y.now = x.now ∨ y.agenda.ready = []) :
    Part d x.settle y.settle ∧ x.settle.agenda.ready = [] :=
  ⟨h.settleWith (weight_le h.rested) (weight_le h.woken) hnow, ready_settle h.rested⟩

/-- Nobody of the side has to go on. -/
theorem Part.settle_left (h : Part d x y) (hready : y.agenda.ready = []) :
    Part d x.settle y ∧ x.settle.agenda.ready = [] := by
  have hsettle := h.settle (.inr hready)
  rwa [Session.settle.eq_def y, settleWith_of_nil hready] at hsettle

/-! ### Deeds -/

/-- What is done in a session whose callers ask for slots of buckets only. -/
inductive Deed
  /-- A caller asks for a slot of the bucket of a route. -/
  | acquire (c : Caller) (key : RouteKey)
  /-- The response to a caller's request comes in. -/
  | record (c : Caller) (headers : Http.Headers)
  /-- The refusal of a caller's request comes in. -/
  | refuse (c : Caller) (headers : Http.Headers) (body : ByteArray)
  /-- A caller gives its slot back, or asks no more. -/
  | drop (c : Caller)
  /-- Time passes. -/
  | advance (time : Span)

/-- A deed is done. -/
def act (x : Session) : Deed → Session
  | .acquire c key => x.acquire c (.route key .routeOnly)
  | .record c headers => (x.record c headers).1
  | .refuse c headers body => (x.refuse c headers body).1
  | .drop c => (x.drop c).1
  | .advance time => x.advance time

/-- Deeds are done one after another. -/
def perform (x : Session) (deeds : List Deed) : Session := deeds.foldl act x

/-- Whether a deed is one of the callers that are `mine`; the time passes for all. -/
def Deed.isOf (mine : Caller → Bool) : Deed → Bool
  | .acquire c _ | .record c _ | .refuse c _ _ | .drop c => mine c
  | .advance _ => true

/-- Who asks for a slot of a bucket does so on a route of its side. -/
def Deed.On (d : Side) : Deed → Prop
  | .acquire c key => (Wanted.route key .routeOnly).On d c
  | _ => True

/-- Nobody is to go on before time passes. -/
structure AtRest (x : Session) : Prop where
  ready : x.agenda.ready = []
  timely : x.agenda.Timely

/-- Both sessions have come to the same moment, and to rest. -/
structure Abreast (d : Side) (x y : Session) : Prop where
  part : Part d x y
  rest : AtRest x
  now : y.now = x.now

/-- After a deed of the side both come to rest, after any other the whole session. -/
theorem Part.abreast_settle {mine : Bool} {z : Session} (h : Part d x (if mine then z else y))
    (hready : y.agenda.ready = []) (htimely : x.agenda.Timely) (hz : z.now = x.now) (hy : y.now = x.now) :
    Abreast d x.settle (if mine then z.settle else y) := by
  have hrest := timely_settle htimely
  cases mine with
  | true =>
    obtain ⟨hpart, hsettled⟩ := h.settle (.inl hz)
    exact ⟨hpart, ⟨hsettled, hrest⟩, by simpa using hz⟩
  | false =>
    obtain ⟨hpart, hsettled⟩ := h.settle_left hready
    exact ⟨hpart, ⟨hsettled, hrest⟩, by simpa using hy⟩

theorem Abreast.happen (h : Abreast d x y) (he : e.On d) :
    Abreast d (x.happen e) (if e.isOf d then y.happen e else y) := by
  have hdivided := Limits.divided_step h.part.divided x.now he
  have hlimits := h.part.withLimits (h.part.limits.step h.part.divided x.now he).part hdivided
  unfold Session.happen
  rw [h.now]
  exact hlimits.abreast_settle (h.part.ready h.rest.ready) (timely_withLimits h.rest.timely _)
    (by simpa using h.now) (by simpa using h.now)

theorem Abreast.ask (h : Abreast d x y) (he : e.On d) (hc : e.isOf d = d.has c) (wanted : Wanted) :
    Abreast d (x.ask c wanted e).settle (if d.has c then (y.ask c wanted e).settle else y) :=
  (h.part.ask he hc (fun _ => h.now) wanted).abreast_settle (h.part.ready h.rest.ready)
    (timely_ask h.rest.timely c wanted e) (by simpa using h.now) (by simpa using h.now)

theorem Abreast.acquire (h : Abreast d x y) {key : RouteKey} (hw : (Wanted.route key .routeOnly).On d c) :
    Abreast d (x.acquire c (.route key .routeOnly))
      (if d.has c then y.acquire c (.route key .routeOnly) else y) := by
  obtain ⟨keys, hx⟩ := acquire_eq x c (.route key .routeOnly)
  obtain ⟨keys', hy⟩ := acquire_eq y c (.route key .routeOnly)
  have hkeys (noted : List RouteKey) : Abreast d { x with keys } { y with keys := noted } :=
    ⟨⟨h.part.limits, h.part.divided, h.part.rested, h.part.agenda, h.part.grants, h.part.epoch⟩,
      ⟨h.rest.ready, h.rest.timely⟩, h.now⟩
  have hask (noted : List RouteKey) :=
    (hkeys noted).ask (c := c) (e := .arrive c (.route key .routeOnly)) hw rfl (.route key .routeOnly)
  rw [hx, hy]
  cases hc : d.has c with
  | true => simpa [hc] using hask keys'
  | false => simpa [hc] using hask y.keys

theorem Abreast.drop (h : Abreast d x y) (c : Caller) :
    Abreast d (x.drop c).1 (if d.has c then (y.drop c).1 else y) := by
  have hgone : Abreast d { x with agenda := x.agenda.forget c }
      (if d.has c then { y with agenda := y.agenda.forget c } else y) := by
    refine ⟨h.part.withAgenda_if (h.part.agenda.forget c), ⟨?_, h.rest.timely.forget c⟩, ?_⟩
    · simp [Agenda.forget, h.rest.ready]
    · split <;> exact h.now
  have hhappen := hgone.happen (e := .withdraw c) trivial
  unfold Session.drop
  cases hc : d.has c with
  | true => simpa [Event.isOf, hc] using hhappen
  | false => simpa [Event.isOf, hc] using hhappen

theorem Abreast.useTicket {α : Type} (h : Abreast d x y) (he : e.On d) (hc : e.isOf d = d.has c) (a b : α) :
    Abreast d (x.useTicket c e a).1 (if d.has c then (y.useTicket c e b).1 else y) := by
  have hhappen := h.happen he
  rw [hc] at hhappen
  unfold Session.useTicket
  cases ht : x.limits.ticket? c with
  | none =>
    cases hmine : d.has c with
    | true => simpa [h.part.limits.ticket? hmine, ht] using h
    | false => exact h
  | some t =>
    obtain ⟨key, hw, -⟩ := (h.part.divided.holding t (List.mem_of_find?_eq_some ht)).eq
    cases hmine : d.has c with
    | true => simpa [h.part.limits.ticket? hmine, ht, Ticket.renumber, hw, hmine] using hhappen
    | false => simpa [hw, hmine] using hhappen

theorem Abreast.calendarMillis (h : Abreast d x y) : y.calendarMillis = x.calendarMillis := by
  rw [Session.calendarMillis, Session.calendarMillis, h.part.epoch, h.now]

/-! ### Time -/

/-- Both reach the target where no alarm is ahead of it. -/
theorem Part.reached (h : Part d x y) (hr : AtRest x) (hle : y.now ≤ x.now) (ht : x.now ≤ target)
    (hn : ∀ alarm ∈ x.agenda.alarms, target < alarm.due) : Abreast d (x.reached target) (y.reached target) := by
  refine ⟨h.withAgenda ⟨h.agenda.alarms, h.agenda.ready⟩, ⟨hr.ready, fun alarm hmem => ?_⟩, ?_⟩
  · refine ⟨?_, (hr.timely alarm hmem).2⟩
    show (x.reached target).now < alarm.due
    rw [now_reached ht]
    exact hn alarm hmem
  · rw [now_reached ht, now_reached (Nat.le_trans hle ht)]

/-- What is left of a side stops only at the alarms of the side, and falls behind for as long as others go
on; the target it reaches as well. Each stop is at a later millisecond. -/
theorem Part.advanceWith (h : Part d x y) (hr : AtRest x) (hle : y.now ≤ x.now) (ht : x.now ≤ target)
    (hx : target / 1000000 - x.now / 1000000 < fuel) (hy : target / 1000000 - y.now / 1000000 < fuel') :
    Abreast d (advanceWith target fuel x) (advanceWith target fuel' y) := by
  induction fuel generalizing x y fuel' with
  | zero => exact absurd hx (Nat.not_lt_zero _)
  | succ fuel ih =>
    obtain ⟨left, rfl⟩ := Nat.exists_eq_add_one_of_ne_zero (Nat.ne_zero_of_lt hy)
    cases hn : x.agenda.next?.filter (· ≤ target) with
    | none =>
      rw [advanceWith_of_none hn, advanceWith_of_none (h.agenda.next?_filter_of_none hn)]
      exact h.reached hr hle ht (Agenda.next?_filter_eq_none_iff.1 hn)
    | some due =>
      obtain ⟨⟨alarm, hmem, rfl⟩, -, hdue⟩ := Agenda.next?_filter_eq_some_iff.1 hn
      obtain ⟨hlt, hwhole⟩ := hr.timely alarm hmem
      have hlt' := Nat.lt_of_le_of_lt hle hlt
      have htimely := timely_settle (timely_rung hr.timely (Nat.le_of_lt hlt))
      have hx' := stops_lt hlt hwhole hdue hx
      rw [advanceWith_of_some hn]
      rw [← now_settle_rung hlt] at hdue hx'
      rcases h.agenda.next?_filter hn with hn' | hlater
      · -- one of the alarms is of the side: both stop
        have hring : Part d (x.rung alarm.due) (y.rung alarm.due) := h.withAgenda (h.agenda.ring alarm.due)
        have hnow : (y.rung alarm.due).settle.now = (x.rung alarm.due).settle.now := by
          rw [now_settle_rung hlt, now_settle_rung hlt']
        obtain ⟨hpart, hready⟩ := hring.settle (.inl (by simpa only [now_settle] using hnow))
        rw [advanceWith_of_some hn']
        refine ih hpart ⟨hready, htimely⟩ (Nat.le_of_eq hnow) hdue hx' ?_
        rw [now_settle_rung hlt']
        exact stops_lt hlt' hwhole (by rwa [now_settle_rung hlt] at hdue) hy
      · -- none is: only the whole session stops
        have hring : Part d (x.rung alarm.due) y := h.withAgenda (h.agenda.ring_left hlater)
        obtain ⟨hpart, hready⟩ := hring.settle_left (h.ready hr.ready)
        refine ih hpart ⟨hready, htimely⟩ ?_ hdue hx' hy
        rw [now_settle_rung hlt]
        exact Nat.le_of_lt hlt'

theorem Abreast.advance (h : Abreast d x y) (time : Span) : Abreast d (x.advance time) (y.advance time) := by
  unfold Session.advance
  rw [h.now]
  exact h.part.advanceWith h.rest (Nat.le_of_eq h.now) (Nat.le_add_right ..) (stops_advance ..)
    (h.now ▸ stops_advance ..)

/-! ### Single moves -/

/-- Who asks for a slot of a bucket does so on a route of its side. The account is not held back. -/
def Move.On (d : Side) : Move → Prop
  | .asks c wanted => wanted.On d c
  | .blocks _ => False
  | _ => True

theorem Part.taken (h : Part d x y) (c : Caller) : Part d (x.taken c) (if d.has c then y.taken c else y) := by
  cases hc : d.has c with
  | true =>
    refine h.withAgenda (b := { y.agenda with ready := y.agenda.ready.erase c }) ⟨h.agenda.alarms, ?_⟩
    show y.agenda.ready.erase c = (x.agenda.ready.erase c).filter d.has
    rw [h.agenda.ready, List.erase_filter]
  | false =>
    refine h.withAgenda (b := y.agenda) ⟨h.agenda.alarms, ?_⟩
    show y.agenda.ready = (x.agenda.ready.erase c).filter d.has
    rw [h.agenda.ready, ← List.erase_filter, List.erase_of_not_mem (by simp [hc])]

theorem Part.meets (h : Part d x y) (he : e.On d) (hnow : y.now = x.now) :
    Part d (x.meets e) (if e.isOf d then y.meets e else y) := by
  unfold Session.meets
  rw [hnow]
  exact h.withLimits (h.limits.step h.divided x.now he).part (Limits.divided_step h.divided x.now he)

theorem Part.forget (h : Part d x y) (c : Caller) :
    Part d { x with agenda := x.agenda.forget c } (if d.has c then { y with agenda := y.agenda.forget c } else y) :=
  h.withAgenda_if (h.agenda.forget c)

theorem Part.noted (h : Part d x y) (keys keys' : List RouteKey) : Part d { x with keys } { y with keys := keys' } :=
  ⟨h.limits, h.divided, h.rested, h.agenda, h.grants, h.epoch⟩

/-- The clocks of both go alike. -/
theorem now_make (x : Session) (m : Move) :
    (x.make m).now = match m with
      | .passes till => max x.now till
      | _ => x.now := by
  cases m with
  | asks c wanted =>
    obtain ⟨keys, heq⟩ := exists_note_eq x wanted
    simp only [make, heq]
    exact now_ask ..
  | goesOn c => exact now_poll (x.taken c) c
  | records | refuses | drops | blocks => exact now_withLimits ..
  | passes till => exact Agenda.now_ring ..

/-- What is left of a side makes the moves of the side. -/
theorem Part.make {m : Move} (h : Part d x y) (hm : m.On d) (hnow : y.now = x.now) :
    Part d (x.make m) (if m.isOf d.has then y.make m else y) := by
  have hmillis : y.calendarMillis = x.calendarMillis := by
    rw [Session.calendarMillis, Session.calendarMillis, h.epoch, hnow]
  cases m with
  | asks c wanted =>
    obtain ⟨keys, hx⟩ := exists_note_eq x wanted
    obtain ⟨keys', hy⟩ := exists_note_eq y wanted
    have hask (noted : List RouteKey) := (h.noted keys noted).ask (e := .arrive c wanted) hm rfl (fun _ => hnow) wanted
    simp only [Session.make, hx, hy, Move.isOf]
    cases hc : d.has c with
    | true => simpa [hc] using hask keys'
    | false => simpa [hc] using hask y.keys
  | goesOn c =>
    have htaken := h.taken c
    unfold Session.make Move.isOf
    by_cases hc : d.has c
    · rw [if_pos hc] at htaken ⊢
      simpa [hc] using htaken.poll (c := c) fun _ => hnow
    · rw [if_neg hc] at htaken ⊢
      simpa [hc] using htaken.poll (c := c) fun hmine => absurd hmine hc
  | records c headers =>
    simp only [Session.make, hmillis]
    exact h.meets (e := .record c _) trivial hnow
  | refuses c headers body =>
    simp only [Session.make, hmillis]
    exact h.meets (e := .refuse c _ _) trivial hnow
  | drops c =>
    have hgone := h.forget c
    unfold Session.make Move.isOf
    by_cases hc : d.has c
    · rw [if_pos hc] at hgone ⊢
      simpa [Event.isOf, hc] using hgone.meets (e := .withdraw c) trivial hnow
    · rw [if_neg hc] at hgone ⊢
      simpa [Event.isOf, hc] using hgone.meets (e := .withdraw c) trivial hnow
  | blocks wait => exact hm.elim
  | passes till => exact h.withAgenda (h.agenda.ring till)

theorem Part.can {m : Move} (h : Part d x y) (hnow : y.now = x.now) (hm : m.isOf d.has) (hcan : x.can m) :
    y.can m := by
  cases m with
  | goesOn c =>
    have hmem : c ∈ x.agenda.ready := by simpa [Session.can] using hcan
    have hmine : c ∈ y.agenda.ready := by
      rw [h.agenda.ready]
      exact List.mem_filter.2 ⟨hmem, hm⟩
    simpa [Session.can] using hmine
  | passes till =>
    obtain ⟨hready, hle, halarms⟩ := can_passes_iff.1 hcan
    refine can_passes_iff.2 ⟨h.ready hready, hnow ▸ hle, fun alarm hmem => halarms alarm ?_⟩
    rw [h.agenda.alarms] at hmem
    exact (List.mem_filter.1 hmem).1
  | asks | records | refuses | drops | blocks => rfl

/-- Whatever moves are made, in whatever order callers go on: those of the side can be made without the others,
and what is left of the side comes to the same. -/
theorem Part.follow {moves : List Move} {z : Session} (h : Part d x y) (hnow : y.now = x.now)
    (hmoves : ∀ m ∈ moves, m.On d) (hz : x.follow moves = some z) :
    ∃ w, y.follow (moves.filter (·.isOf d.has)) = some w ∧ Part d z w ∧ w.now = z.now := by
  induction moves generalizing x y with
  | nil =>
    cases hz
    exact ⟨y, rfl, h, hnow⟩
  | cons m moves ih =>
    unfold Session.follow at hz
    split at hz
    · rename_i hcan
      have hmade := h.make (hmoves m List.mem_cons_self) hnow
      have hrest (m' : Move) (hm' : m' ∈ moves) : m'.On d := hmoves m' (List.mem_cons_of_mem _ hm')
      cases hmine : m.isOf d.has with
      | true =>
        rw [hmine, if_pos rfl] at hmade
        obtain ⟨w, hw, hpart⟩ := ih hmade (by rw [now_make, now_make, hnow]) hrest hz
        rw [List.filter_cons_of_pos hmine, Session.follow, if_pos (h.can hnow hmine hcan)]
        exact ⟨w, hw, hpart⟩
      | false =>
        rw [hmine, if_neg (by simp)] at hmade
        have hsame : y.now = (x.make m).now := by
          rw [hnow, now_make]
          cases m with
          | passes till => cases hmine
          | asks | goesOn | records | refuses | drops | blocks => rfl
        rw [List.filter_cons_of_neg (by simp [hmine])]
        exact ih hmade hsame hrest hz
    · cases hz

/-! ### Whole sessions -/

theorem Abreast.act (h : Abreast d x y) {deed : Deed} (hd : deed.On d) :
    Abreast d (x.act deed) (if deed.isOf d.has then y.act deed else y) := by
  cases deed with
  | acquire c key => exact h.acquire hd
  | record c headers =>
    unfold Session.act Session.record
    rw [h.calendarMillis]
    exact h.useTicket (e := .record c _) trivial rfl _ _
  | refuse c headers body =>
    unfold Session.act Session.refuse
    rw [h.calendarMillis]
    exact h.useTicket (e := .refuse c _ _) trivial rfl _ _
  | drop c => exact h.drop c
  | advance time => exact h.advance time

theorem Abreast.perform {deeds : List Deed} (h : Abreast d x y) (hd : ∀ deed ∈ deeds, deed.On d) :
    Abreast d (x.perform deeds) (y.perform (deeds.filter (·.isOf d.has))) := by
  induction deeds generalizing x y with
  | nil => exact h
  | cons deed deeds ih =>
    have hact := ih (h.act (hd deed List.mem_cons_self)) fun other ho => hd other (List.mem_cons_of_mem _ ho)
    cases hmine : deed.isOf d.has with
    | true => simpa [hmine, Session.perform] using hact
    | false => simpa [hmine, Session.perform] using hact

theorem abreast_ofLimit (d : Side) (epoch : Int) (limit : Nat) :
    Abreast d { epoch, limits := .ofLimit limit } { epoch, limits := .ofLimit limit } where
  part := ⟨Limits.part_ofLimit d limit, Limits.divided_ofLimit d limit, rfl, ⟨rfl, rfl⟩, rfl, rfl⟩
  rest := ⟨rfl, fun _ hx => absurd hx List.not_mem_nil⟩
  now := rfl

/-- A caller stands for one use of the limits: it asks for routes with its own major parameters only. These
hold no blank. -/
def Deed.Keeps (majors : Caller → String) : Deed → Prop
  | .acquire c key => key.IsPlain ∧ key.majors = majors c
  | _ => True

instance (majors : Caller → String) : (deed : Deed) → Decidable (deed.Keeps majors)
  | .acquire _ _ => inferInstanceAs (Decidable (_ ∧ _))
  | .record _ _ | .refuse _ _ _ | .drop _ | .advance _ => isTrue trivial

/-- So it is with single moves, none of which holds the account back. -/
def Move.Keeps (majors : Caller → String) : Move → Prop
  | .asks c (.route key .routeOnly) => key.IsPlain ∧ key.majors = majors c
  | .asks _ _ | .blocks _ => False
  | _ => True

instance (majors : Caller → String) : (m : Move) → Decidable (m.Keeps majors)
  | .asks _ (.route _ .routeOnly) => inferInstanceAs (Decidable (_ ∧ _))
  | .asks _ .account | .asks _ (.route _ .all) | .asks _ (.route _ .exempt) | .blocks _ => isFalse not_false
  | .goesOn _ | .records _ _ | .refuses _ _ _ | .drops _ | .passes _ => isTrue trivial

/-- The callers that have some major parameters. -/
def sideOf (majors : Caller → String) (m : String) : Side := ⟨m, fun c => majors c = m⟩

theorem Deed.Keeps.on {majors : Caller → String} {deed : Deed} (h : deed.Keeps majors) (m : String) :
    deed.On (sideOf majors m) := by
  cases deed with
  | acquire c key =>
    obtain ⟨hplain, hmajors⟩ := h
    exact ⟨hplain, by simp [sideOf, Side.covers, hmajors]⟩
  | record | refuse | drop | advance => trivial

theorem Move.Keeps.on {majors : Caller → String} : {move : Move} → move.Keeps majors → (m : String) →
    move.On (sideOf majors m)
  | .asks c (.route key .routeOnly), h, m => ⟨h.1, by simp [sideOf, Side.covers, h.2]⟩
  | .asks _ .account, h, _ | .asks _ (.route _ .all), h, _ | .asks _ (.route _ .exempt), h, _ | .blocks _, h, _ =>
    h.elim
  | .goesOn _, _, _ | .records _ _, _, _ | .refuses _ _ _, _, _ | .drops _, _, _ | .passes _, _, _ => trivial

/-- In `y` is just what concerns the callers with major parameters `m` in `x`: their slots, at the same moments
and in the same order, who of them is to go on and who sleeps until when, and the states of the buckets of
their routes, down to who waits there. In `x` no two routes with different major parameters lead to one
bucket. -/
structure Isolates (majors : Caller → String) (m : String) (x y : Session) : Prop where
  grants : y.grants = x.grants.filter (majors ·.caller = m)
  now : y.now = x.now
  ready : y.agenda.ready = x.agenda.ready.filter (majors · = m)
  alarms : y.agenda.alarms = x.agenda.alarms.filter (majors ·.task = m)
  buckets : ∀ key, key.majors = m → y.limits.bucket? key = x.limits.bucket? key
  apart : ∀ k k' i, x.limits.routes.get? k = some i → x.limits.routes.get? k' = some i → k.majors = k'.majors

theorem Part.isolates {majors : Caller → String} {m : String} (h : Part (sideOf majors m) x y)
    (hnow : y.now = x.now) : Isolates majors m x y := by
  have hseparate := h.divided.separate
  refine ⟨h.grants, hnow, h.agenda.ready, h.agenda.alarms, fun key hkey => ?_,
    fun k k' i hk hk' => Limits.majors_eq_of_bucket hseparate hk hk'⟩
  exact h.limits.bucket? hseparate.kindred (by simp [sideOf, Side.covers, hkey])

/-- **Major parameters isolate routes.** Take callers that each ask for slots on routes with some major
parameters, and whatever the responses to them say. Let them act in any order: callers come in, get their
responses, leave, and those that are woken have their turns, each at any time, as long as time passes only when
nobody is to go on. Whatever moves are made like that, those of the callers with major parameters `m` can be
made without all others, and come to the same for them. So they do if everybody goes on as soon as it can. -/
theorem major_parameters_isolate (epoch : Int) (limit : Nat) (majors : Caller → String) (m : String) :
    let start : Session := { epoch, limits := .ofLimit limit }
    (∀ (moves : List Move) (x : Session), (∀ move ∈ moves, move.Keeps majors) → start.follow moves = some x →
      ∃ y, start.follow (moves.filter (·.isOf fun c => majors c = m)) = some y ∧ Isolates majors m x y) ∧
    ∀ deeds : List Deed, (∀ deed ∈ deeds, deed.Keeps majors) →
      Isolates majors m (start.perform deeds) (start.perform (deeds.filter (·.isOf fun c => majors c = m))) := by
  intro start
  have hstart := abreast_ofLimit (sideOf majors m) epoch limit
  refine ⟨fun moves x hmoves hx => ?_, fun deeds hdeeds => ?_⟩
  · obtain ⟨y, hy, hpart, hnow⟩ := hstart.part.follow hstart.now (fun move hmem => (hmoves move hmem).on m) hx
    exact ⟨y, hy, hpart.isolates hnow⟩
  · have hdone := hstart.perform fun deed hmem => (hdeeds deed hmem).on m
    exact hdone.part.isolates hdone.now

/-- Responses of two channels name one bucket, and both come in before anybody who waits has its turn. Who waits
for one channel's response gets its slot as if the other channel were not there. -/
theorem same_name_of_two_channels :
    let messages : RouteKey := ⟨.get, "channels/10/messages"⟩
    let others : RouteKey := ⟨.get, "channels/20/messages"⟩
    let left (remaining : String) : Http.Headers :=
      [⟨"x-ratelimit-bucket", "same"⟩, ⟨"x-ratelimit-remaining", remaining⟩]
    let majors (c : Caller) : String := if c < 2 then "channels/10" else "channels/20"
    let start : Session := { epoch := 0, limits := .ofLimit 50 }
    let moves : List Move := [.asks 0 (.route messages .routeOnly), .asks 2 (.route others .routeOnly),
      .asks 1 (.route messages .routeOnly), .asks 3 (.route others .routeOnly), .records 2 (left "3"),
      .records 0 (left "1"), .goesOn 1]
    let deeds : List Deed := [.acquire 0 messages, .acquire 2 others, .acquire 1 messages, .acquire 3 others,
      .record 2 (left "3"), .advance 5000000, .record 0 (left "1")]
    (∃ x y, start.follow moves = some x ∧ x.agenda.ready = [3] ∧
      start.follow (moves.filter (·.isOf fun c => majors c = "channels/10")) = some y ∧ y.agenda.ready = []) ∧
      (start.perform (deeds.filter (·.isOf fun c => majors c = "channels/10"))).grants =
        [⟨0, 0, messages.text⟩, ⟨1, 5000000, messages.text⟩] := by
  intro messages others left majors start moves deeds
  have hmoves : ∀ move ∈ moves, move.Keeps majors := by decide +kernel
  have hdeeds : ∀ deed ∈ deeds, deed.Keeps majors := by decide +kernel
  obtain ⟨hfine, hwhole⟩ := major_parameters_isolate 0 50 majors "channels/10"
  have hready : (start.follow moves).map (·.agenda.ready) = some [3] := by decide +kernel
  obtain ⟨x, hx, hxready⟩ := Option.map_eq_some_iff.1 hready
  obtain ⟨y, hy, hisolates⟩ := hfine moves x hmoves hx
  refine ⟨⟨x, y, hx, hxready, hy, ?_⟩, (hwhole deeds hdeeds).grants.trans (by decide +kernel)⟩
  rw [hisolates.ready, hxready]
  decide

end ChatApi.Limit.Session
