import Mathlib.Logic.Relation
import ChatApi.Proofs.Client.Pursuit
import ChatApi.Proofs.Limit.Custody
import ChatApi.Proofs.Limit.Tables

/-!
# Cancellation is clean

A call has a ticket just while an attempt of it is in flight, and is in line just while it waits for one
(`Session.Custody`). Every step keeps that, whichever call takes it, and lets nobody else change its place in
a line (`acts_stepCall`). So a call that is dropped gives back all that it has, and whoever owns a gate later
on is a call that is still there.
-/

namespace ChatApi.Client

open Limit (Limits Stage Stands Leaves)

/-- Neither a ticket nor a place in a line belongs to a call at this stage. -/
def CallStage.isFree : CallStage → Bool
  | .waiting | .inFlight _ _ => false
  | _ => true

/-- What call `i` has of the limits is what belongs to its stage. -/
def CallStage.Fits (s : Limits) (i : Nat) : CallStage → Prop
  | .waiting => ∃ p, s.entries i = (none, some p)
  | .inFlight _ _ => ∃ t, s.entries i = (some t, none)
  | _ => s.entries i = (none, none)

variable {s u : Limits} {i j : Nat} {stage : CallStage}

theorem CallStage.Fits.congr (h : stage.Fits s i) (he : u.entries i = s.entries i) : stage.Fits u i := by
  cases stage <;> simpa only [CallStage.Fits, he] using h

theorem CallStage.fits_of_isFree (hf : stage.isFree) : stage.Fits s i ↔ s.entries i = (none, none) := by
  cases stage with
  | waiting | inFlight _ _ => cases hf
  | due _ | asking | resting _ | ended _ _ _ => exact Iff.rfl

/-- No call has a ticket and a place in a line at once. -/
theorem CallStage.Fits.lacks (h : stage.Fits s i) : (s.entries i).1 = none ∨ (s.entries i).2 = none := by
  cases stage with
  | waiting => obtain ⟨p, hp⟩ := h; exact .inl (by rw [hp])
  | inFlight _ _ => obtain ⟨t, ht⟩ := h; exact .inr (by rw [ht])
  | due _ | asking | resting _ | ended _ _ _ => exact .inl (by rw [show s.entries i = _ from h])

theorem Call.isFree_of_isOver {c : Call} (h : c.isOver = true) : c.stage.isFree := by
  unfold Call.isOver at h
  split at h
  · rename_i hs
    rw [hs]
    rfl
  · cases h

variable {x y z : Session} {c d : Call} {e : AttemptEnd} {sent : List Sent}

/-- Once an attempt has ended, the call rests or is over. -/
theorem Call.Settles.isFree (h : c.Settles x e d) : d.stage.isFree := by
  cases h <;> rfl

namespace Session

theorem eq_of_get_set {calls : List Call} (h : (calls.set i c)[i]? = some d) : d = c := by
  have hi := (List.getElem?_eq_some_iff.1 h).1
  rw [List.length_set] at hi
  rw [List.getElem?_set_self hi] at h
  exact (Option.some.inj h).symm

theorem Became.eq_of_get (hb : Became x i c sent y) (hd : y.calls[i]? = some d) : d = c :=
  eq_of_get_set (hb.calls ▸ hd)

/-- Call `i` has done something. All others have what they had, and stand where they did; lines have changed
for the call itself as `R` says. -/
structure Acts (R : List Limit.Caller → List Limit.Caller → Prop) (i : Nat) (x y : Session) : Prop where
  orderly : y.client.limits.Orderly
  others : ∀ j, j ≠ i → y.client.limits.entries j = x.client.limits.entries j
  own : ∀ (c : Call), y.calls[i]? = some c → c.stage.Fits y.client.limits i
  lines : ∀ g, R (x.client.limits.gateAt g).waiting (y.client.limits.gateAt g).waiting

theorem Acts.of_limits {R : List Limit.Caller → List Limit.Caller → Prop} (h : Acts R i y z)
    (hl : y.client.limits = x.client.limits) : Acts R i x z :=
  ⟨h.orderly, hl ▸ h.others, h.own, hl ▸ h.lines⟩

/-- Call `i` has given back what it had of the limits, and got out of every line. -/
structure Frees (i : Nat) (x y : Session) : Prop where
  orderly : y.client.limits.Orderly
  parted : x.client.limits.Parted i y.client.limits

theorem Frees.trans (h : Frees i x y) (h' : Frees i y z) : Frees i x z :=
  ⟨h'.orderly, h.parted.trans h'.parted⟩

theorem Frees.acts (h : Frees i x y) (hfree : ∀ c, y.calls[i]? = some c → c.stage.isFree) :
    Acts (Leaves i) i x y :=
  ⟨h.orderly, h.parted.others, fun c hc => (CallStage.fits_of_isFree (hfree c hc)).2 h.parted.clear,
    h.parted.lines⟩

/-! ### Calls that give back -/

theorem frees_happen {a : Limit.Event} (ho : x.client.limits.Orderly)
    (h : x.client.limits.Parted i (x.client.limits.step x.now a).1) : Frees i x (x.happen a).1 := by
  refine ⟨(Limits.orderly_step ho x.now a).takeWoken, fun j hj => ?_, ?_, fun g => ?_⟩
  · exact (Limits.entries_congr rfl rfl j).trans (h.others j hj)
  · exact (Limits.entries_congr rfl rfl i).trans h.clear
  · exact Limits.gateAt_takeWoken _ g ▸ h.lines g

theorem frees_finish (ho : x.client.limits.Orderly)
    (h : (x.client.limits.entries i).1 = none ∨ (x.client.limits.entries i).2 = none) (c : Call)
    (result : Except ApiError Answer) : Frees i x (x.finish i c result) := by
  have hfrees := frees_happen (a := .withdraw i) ho (Limits.parted_withdraw ho h x.now)
  exact ⟨hfrees.orderly, hfrees.parted⟩

/-- A call that is over has nothing left. -/
theorem acts_finish (ho : x.client.limits.Orderly)
    (h : (x.client.limits.entries i).1 = none ∨ (x.client.limits.entries i).2 = none) (c : Call)
    (result : Except ApiError Answer) : Acts (Leaves i) i x (x.finish i c result) := by
  refine (frees_finish ho h c result).acts fun d hd => ?_
  rw [(became_finish x i c result).eq_of_get hd]
  rfl

theorem frees_settleAttempt (ho : x.client.limits.Orderly) (h : x.client.limits.entries i = (none, none))
    (c : Call) (e : AttemptEnd) : Frees i x (x.settleAttempt i c e) := by
  have hlacks : (x.client.limits.entries i).1 = none ∨ (x.client.limits.entries i).2 = none :=
    .inl (by rw [h])
  unfold settleAttempt
  cases hv : c.progress.after x.client.account.retry c.request.route e x.client.draws with
  | mk verdict draws =>
    cases verdict with
    | again delay progress => exact ⟨ho, fun _ _ => rfl, h, fun g => .refl ..⟩
    | finished result =>
      cases result with
      | error error =>
        have hend := frees_finish (x := { x with client := { x.client with draws } }) ho hlacks c (.error error)
        exact ⟨hend.orderly, hend.parted⟩
      | ok r =>
        have hend := frees_finish
          (x := { x with client := { x.client with
            draws, cache := (c.endpoint.conclude x.client.cache r).2 } }) ho hlacks c
          (c.endpoint.conclude x.client.cache r).1
        exact ⟨hend.orderly, hend.parted⟩

/-- An attempt that got no response gives its ticket back. -/
theorem acts_endWithout (ho : x.client.limits.Orderly)
    (h : (x.client.limits.entries i).1 = none ∨ (x.client.limits.entries i).2 = none) (c : Call) :
    Acts (Leaves i) i x (x.endWithout i c) := by
  have hfrees := frees_happen (a := .withdraw i) ho (Limits.parted_withdraw ho h x.now)
  have hsettle := frees_settleAttempt
    (x := { (x.happen (.withdraw i)).1 with client := { (x.happen (.withdraw i)).1.client with
      metrics := (x.happen (.withdraw i)).1.client.metrics.record none } }) hfrees.orderly
    hfrees.parted.clear c .noResponse
  refine Frees.acts (hfrees.trans ⟨hsettle.orderly, hsettle.parted⟩) fun d hd => ?_
  obtain ⟨d', hd', hb⟩ := became_endWithout x i c
  rw [hb.eq_of_get hd]
  exact hd'.isFree

/-- So does one that got a response. -/
theorem acts_endWith {t : Limit.Ticket} (ho : x.client.limits.Orderly)
    (h : x.client.limits.entries i = (some t, none)) (c : Call) (r : Http.Response) :
    Acts (Leaves i) i x (x.endWith i c r) := by
  have ht : x.client.limits.ticket? i = some t := (Prod.mk.inj h).1
  have hcaller := Limits.caller_of_ticket? ht
  -- whichever way the limits take the response over, the ticket is gone
  have taken (a : Limit.Event) (e : AttemptEnd)
      (hev : x.client.limits.Parted i (x.client.limits.step x.now a).1) :
      Frees i x (({ x with client := { x.client with
        metrics := x.client.metrics.record (some r.status) } }.happen a).1.settleAttempt i c e) := by
    have hfrees := frees_happen (x := { x with client := { x.client with
      metrics := x.client.metrics.record (some r.status) } }) ho hev
    have hsettle := frees_settleAttempt hfrees.orderly hfrees.parted.clear c e
    exact ⟨hsettle.orderly, hfrees.parted.trans hsettle.parted⟩
  refine Frees.acts ?_ fun d hd => ?_
  · subst hcaller
    unfold endWith
    dsimp only
    split
    · refine taken _ _ ?_
      simp only [Limits.step_eq, Limits.leap, ht]
      exact Limits.parted_refuse ho h _ _ _
    · refine taken _ _ ?_
      simp only [Limits.step_eq, Limits.leap, ht]
      exact Limits.parted_record ho h _ _
  · obtain ⟨d', hd', hb⟩ := became_endWith x i c r
    rw [hb.eq_of_get hd]
    exact hd'.isFree

/-- A call that begins has nothing yet. -/
theorem acts_begin (ho : x.client.limits.Orderly) (h : x.client.limits.entries i = (none, none)) (c : Call) :
    Acts (Leaves i) i x (x.begin i c) := by
  unfold begin
  extract_lets z
  have hz : z.client.limits = x.client.limits := by
    dsimp only [z]
    split <;> rfl
  clear_value z
  have finished (error : ApiError) : Acts (Leaves i) i x (z.finish i c (.error error)) :=
    (acts_finish (hz ▸ ho) (.inl (by rw [hz, h])) c _).of_limits hz
  split
  · exact finished _
  · split
    · exact finished _
    · rename_i request _ _ _ _
      -- only alarms differ where the call has a deadline
      have begun {y : Session} (hy : y.client.limits = z.client.limits) (d : Call) (hd : d.stage = .asking) :
          Acts (Leaves i) i z (y.setCall i d) := by
        refine ⟨?_, fun j _ => ?_, fun e he => ?_, fun g => ?_⟩
        · exact hy ▸ hz ▸ ho
        · exact congrArg (·.entries j) hy
        · rw [eq_of_get_set he, hd]
          show y.client.limits.entries i = (none, none)
          rw [hy, hz, h]
        · show Leaves i _ (y.client.limits.gateAt g).waiting
          rw [hy]
          exact .refl ..
      refine (begun ?_ _ rfl).of_limits hz
      cases request.timeout <;> rfl

/-! ### Calls that ask -/

theorem client_takeReply (x : Session) (o : Outgoing) : (x.takeReply o).2.client = x.client := by
  unfold takeReply
  dsimp only
  split <;> rfl

/-- A call that has its ticket keeps it while its attempt is in flight, and gives it back if there is none. -/
theorem acts_send {t : Limit.Ticket} (ho : x.client.limits.Orderly)
    (h : x.client.limits.entries i = (some t, none)) (c : Call) : Acts (Leaves i) i x (x.send i c) := by
  have hlacks : (x.client.limits.entries i).1 = none ∨ (x.client.limits.entries i).2 = none :=
    .inr (by rw [h])
  unfold send
  split
  · exact acts_finish ho hlacks c _
  · rename_i content _
    dsimp only
    split
    · exact acts_endWithout ho hlacks _
    · rename_i outgoing _
      -- what is sent is noted first, and then the reply is looked for
      have hclient := client_takeReply { x with sent := x.sent ++ [Sent.mk x.now outgoing] } outgoing
      split
      · rename_i y hy
        have hlimits : y.client.limits = x.client.limits := by simp only [hy] at hclient; rw [hclient]
        exact (acts_endWithout (hlimits ▸ ho) (hlimits ▸ hlacks) _).of_limits hlimits
      · rename_i reply y hy
        have hlimits : y.client.limits = x.client.limits := by simp only [hy] at hclient; rw [hclient]
        refine Acts.of_limits ⟨hlimits ▸ ho, fun _ _ => rfl, fun d hd => ?_, fun g => .refl ..⟩ hlimits
        rw [eq_of_get_set hd]
        exact ⟨t, hlimits ▸ h⟩

theorem acts_ask {a : Limit.Event} (ho : x.client.limits.Orderly)
    (hans : x.client.limits.Answered i (x.client.limits.step x.now a)) (h : x.ask i c a = some y) :
    Acts (Stands i) i x y := by
  have horderly : (x.happen a).1.client.limits.Orderly := (Limits.orderly_step ho x.now a).takeWoken
  have hentries (j : Nat) : (x.happen a).1.client.limits.entries j =
      (x.client.limits.step x.now a).1.entries j := Limits.entries_congr rfl rfl j
  have hlines (g : Stage) : Stands i (x.client.limits.gateAt g).waiting
      ((x.happen a).1.client.limits.gateAt g).waiting := Limits.gateAt_takeWoken _ g ▸ hans.lines g
  have hothers (j : Nat) (hj : j ≠ i) : (x.happen a).1.client.limits.entries j =
      x.client.limits.entries j := (hentries j).trans (hans.others j hj)
  -- whoever is not through waits
  have of_waits (hw : ∃ p, (x.client.limits.step x.now a).1.entries i = (none, some p)) {y : Session}
      (hl : y.client.limits = (x.happen a).1.client.limits)
      (hy : y.calls = (x.happen a).1.calls.set i { c with stage := .waiting }) : Acts (Stands i) i x y := by
    refine ⟨hl ▸ horderly, fun j hj => hl ▸ hothers j hj, fun d hd => ?_, fun g => hl ▸ hlines g⟩
    obtain ⟨p, hp⟩ := hw
    rw [hy] at hd
    rw [eq_of_get_set hd]
    exact ⟨p, by rw [hl, hentries, hp]⟩
  have hturn : (x.happen a).2 = (x.client.limits.step x.now a).2 := rfl
  unfold ask at h
  dsimp only at h
  split at h
  · rename_i hg
    obtain ⟨t, ht⟩ := hans.granted (hturn ▸ hg)
    cases h
    have hsend := acts_send (i := i)
      (x := { (x.happen a).1 with agenda := (x.happen a).1.agenda.unset (.call i) .step }) horderly
      ((hentries i).trans ht) c
    exact ⟨hsend.orderly, fun j hj => (hsend.others j hj).trans (hothers j hj), hsend.own,
      fun g => (hlines g).leave (hsend.lines g)⟩
  · rename_i till hg
    cases h
    exact of_waits (hans.waits (by rw [← hturn, hg]; simp)) rfl rfl
  · rename_i hg
    cases h
    exact of_waits (hans.waits (by rw [← hturn, hg]; simp)) rfl rfl
  · cases h

/-! ### Custody -/

/-- Every call has of the limits what belongs to its stage, nobody else has anything, and the gates are
right. -/
structure Custody (x : Session) : Prop where
  orderly : x.client.limits.Orderly
  call : ∀ (i : Nat) (c : Call), x.calls[i]? = some c → c.stage.Fits x.client.limits i
  absent : ∀ i, x.calls.length ≤ i → x.client.limits.entries i = (none, none)

theorem Acts.custody {R : List Limit.Caller → List Limit.Caller → Prop} (ha : Acts R i x y) (h : Custody x)
    (hb : Became x i c sent y) (hi : i < x.calls.length) : Custody y := by
  refine ⟨ha.orderly, fun j d hd => ?_, fun j hj => ?_⟩
  · by_cases hji : j = i
    · subst hji
      exact ha.own d hd
    · rw [hb.calls, List.getElem?_set_ne (Ne.symm hji)] at hd
      exact (h.call j d hd).congr (ha.others j hji)
  · rw [hb.calls, List.length_set] at hj
    rw [ha.others j (by omega)]
    exact h.absent j hj

/-- Whatever a call does, it alone gets out of a line or comes in behind all others. -/
theorem acts_advanceCall (h : Custody x) (hc : x.calls[i]? = some c) (hy : x.advanceCall i c = some y) :
    Acts (Stands i) i x y := by
  have ho := h.orderly
  have hfits := h.call i c hc
  have of_leaves {y : Session} (ha : Acts (Leaves i) i x y) : Acts (Stands i) i x y :=
    ⟨ha.orderly, ha.others, ha.own, fun g => .inl (ha.lines g)⟩
  unfold advanceCall at hy
  cases hs : c.stage with
  | due start =>
    rw [hs] at hy hfits
    dsimp only at hy
    split at hy
    · cases hy
      exact of_leaves (acts_begin ho hfits c)
    · cases hy
  | asking =>
    rw [hs] at hy hfits
    refine acts_ask ho ?_ hy
    simp only [Limits.step_eq, Limits.leap, Limits.isBusy_of_entries hfits]
    exact Limits.answered_arrive ho (Limits.isBusy_of_entries hfits) _ _
  | waiting =>
    rw [hs] at hy hfits
    obtain ⟨p, hp⟩ := hfits
    exact acts_ask (a := .poll i) ho (Limits.answered_poll ho hp _) hy
  | inFlight till response =>
    rw [hs] at hy hfits
    obtain ⟨t, ht⟩ := hfits
    dsimp only at hy
    split at hy
    · cases hy
    · cases response with
      | none => cases hy; exact of_leaves (acts_endWithout ho (.inr (by rw [ht])) c)
      | some r => cases hy; exact of_leaves (acts_endWith ho ht c r)
  | resting till =>
    rw [hs] at hy hfits
    dsimp only at hy
    split at hy
    · cases hy
    · cases hy
      refine ⟨ho, fun _ _ => rfl, fun d hd => ?_, fun g => .inl (.refl ..)⟩
      rw [eq_of_get_set hd]
      exact hfits
  | ended moment result cache =>
    rw [hs] at hy
    cases hy

/-! ### Courses of a session -/

/-- Call `i` is dropped: wherever it is, it ends at once. -/
inductive Drops (i : Nat) (x : Session) : Session → Prop
  | mk {c : Call} (was : x.calls[i]? = some c) (on : c.isOver = false) (error : ApiError) :
      Drops i x (x.finish i c (.error error))

/-- A call that was cancelled is dropped when it has its turn. -/
theorem drops_of_cancelled (hc : x.calls[i]? = some c) (on : c.isOver = false) (h : c.isCancelled = true) :
    ∃ y, x.stepCall i = some y ∧ Drops i x y :=
  ⟨_, by simp [stepCall, hc, on, h], .mk hc on .cancelled⟩

/-- What can happen to a session: calls go on, are dropped, cancelled and started, and time passes. -/
inductive Next (x : Session) : Session → Prop
  | step {i : Nat} {y : Session} (step : x.stepCall i = some y) : Next x y
  | drop {i : Nat} {y : Session} (drops : Drops i x y) : Next x y
  | cancel (i : Nat) : Next x (x.cancel i)
  | schedule {agenda : Agenda Task} (later : x.now ≤ agenda.now) : Next x { x with agenda }
  | start (e : Endpoint) (delay : Span) (cancelAfter : Option Span) : Next x (x.start e delay cancelAfter)

/-- Everything that happens one after another. -/
def Leads : Session → Session → Prop := Relation.ReflTransGen Next

theorem holds_runCall {P : Session → Prop} (step : ∀ x i y, x.stepCall i = some y → P x → P y) (fuel i : Nat)
    (h : P x) : P (x.runCall fuel i) := by
  induction fuel generalizing x with
  | zero => exact h
  | succ fuel ih =>
    unfold runCall
    split
    · exact h
    · rename_i y hy
      exact ih (step x i y hy h)

/-- Whatever holds on at each step of a run holds at its end. -/
theorem holds_runWith {P : Session → Prop} (step : ∀ x i y, x.stepCall i = some y → P x → P y)
    (cancel : ∀ x i, P x → P (x.cancel i))
    (schedule : ∀ (x : Session) agenda, x.now ≤ agenda.now → P x → P { x with agenda := agenda })
    (fuel : Nat) (h : P x) : P (x.runWith fuel) := by
  induction fuel generalizing x with
  | zero => exact h
  | succ fuel ih =>
    unfold runWith
    split
    · exact h
    · split
      · rename_i hpop
        exact ih (holds_runCall step _ _ (schedule _ _ (Nat.le_of_eq (Agenda.now_of_pop? hpop).symm) h))
      · rename_i hpop
        exact ih (cancel _ _ (schedule _ _ (Nat.le_of_eq (Agenda.now_of_pop? hpop).symm) h))
      · split
        · rename_i due _
          refine ih (schedule _ _ ?_ h)
          rw [Agenda.now_ring]
          exact Nat.le_max_left ..
        · exact h

theorem leads_runCall (fuel : Nat) (x : Session) (i : Nat) : Leads x (x.runCall fuel i) :=
  holds_runCall (fun _ _ _ hy h => h.tail (.step hy)) fuel i .refl

/-- Whatever the run of a session comes to is one of these courses. -/
theorem leads_run (x : Session) : Leads x x.run :=
  holds_runWith (fun _ _ _ hy h => h.tail (.step hy)) (fun _ i h => h.tail (.cancel i))
    (fun _ _ later h => h.tail (.schedule later)) _ .refl

theorem acts_drop (h : Custody x) (hd : Drops i x y) : Acts (Leaves i) i x y := by
  obtain ⟨hc, -, error⟩ := hd
  exact acts_finish h.orderly (h.call i _ hc).lacks _ _

theorem acts_stepCall (h : Custody x) (hy : x.stepCall i = some y) : Acts (Stands i) i x y := by
  have dropped {y : Session} (hd : Drops i x y) : Acts (Stands i) i x y :=
    have ha := acts_drop h hd
    ⟨ha.orderly, ha.others, ha.own, fun g => .inl (ha.lines g)⟩
  obtain ⟨c, hc, on, ⟨-, rfl⟩ | ⟨-, advanced⟩ | ⟨-, -, rfl⟩⟩ := stepCall_cases hy
  · exact dropped (.mk hc on .cancelled)
  · exact acts_advanceCall h hc advanced
  · exact dropped (.mk hc on .timedOut)

/-- What leaves the limits and the stages of calls alone does no harm. -/
theorem Custody.congr (h : Custody x) (hl : y.client.limits = x.client.limits)
    (hlength : x.calls.length ≤ y.calls.length)
    (hcalls : ∀ (j : Nat) (d : Call), y.calls[j]? = some d → d.stage.isFree ∧ x.calls.length ≤ j ∨
      ∃ c, x.calls[j]? = some c ∧ d.stage = c.stage) : Custody y := by
  refine ⟨hl ▸ h.orderly, fun j d hd => ?_, fun j hj => ?_⟩
  · rw [hl]
    rcases hcalls j d hd with ⟨hf, hj⟩ | ⟨c, hc, hs⟩
    · exact (CallStage.fits_of_isFree hf).2 (h.absent j hj)
    · exact hs ▸ h.call j c hc
  · rw [hl]
    exact h.absent j (Nat.le_trans hlength hj)

/-- Whatever happens, custody is kept, and lines change for one call at most. -/
theorem Next.custody (hn : Next x y) (h : Custody x) :
    Custody y ∧ ∃ j, ∀ g, Stands j (x.client.limits.gateAt g).waiting (y.client.limits.gateAt g).waiting := by
  cases hn with
  | @step i _ step =>
    obtain ⟨c, d, sent, hc, -, -, hb⟩ := moves_of_stepCall step
    have ha := acts_stepCall h step
    exact ⟨ha.custody h hb (List.getElem?_eq_some_iff.1 hc).1, i, ha.lines⟩
  | @drop i _ drops =>
    have ha := acts_drop h drops
    obtain ⟨hc, -, error⟩ := drops
    exact ⟨ha.custody h (became_finish x i _ _) (List.getElem?_eq_some_iff.1 hc).1, i,
      fun g => .inl (ha.lines g)⟩
  | cancel i =>
    have hl : (x.cancel i).client.limits = x.client.limits := congrArg State.limits (client_cancel x i)
    have hlen : (x.cancel i).calls.length = x.calls.length := by rw [calls_cancel, List.length_modify]
    refine ⟨h.congr hl (Nat.le_of_eq hlen.symm) fun j d hd => .inr ?_, 0, fun g => by rw [hl]; exact .inl (.refl ..)⟩
    obtain ⟨c, hc, rfl⟩ := getElem?_of_cancel hd
    exact ⟨c, hc, rfl⟩
  | schedule later => exact ⟨h.congr rfl (Nat.le_refl _) fun j d hd => .inr ⟨d, hd, rfl⟩, 0, fun g => .inl (.refl ..)⟩
  | start e delay cancelAfter =>
    have hl := congrArg State.limits (client_start x e delay cancelAfter)
    have hcalls := (x.start_frame e delay cancelAfter).1
    refine ⟨h.congr hl (by rw [hcalls, List.length_append]; omega) fun j d hd => ?_, 0, fun g => by
      rw [hl]; exact .inl (.refl ..)⟩
    rw [hcalls, List.getElem?_append] at hd
    split at hd
    · exact .inr ⟨d, hd, rfl⟩
    · rename_i hj
      have hmem := List.mem_of_getElem? hd
      rw [List.mem_singleton.1 hmem]
      exact .inl ⟨rfl, Nat.le_of_not_lt hj⟩

theorem Leads.custody (hl : Leads x y) (h : Custody x) : Custody y := by
  induction hl with
  | refl => exact h
  | tail _ hn ih => exact (hn.custody ih).1

/-- A client that has sent nothing yet, with no call. -/
structure IsFresh (x : Session) : Prop where
  calls : x.calls = []
  limits : ∃ limit, x.client.limits = .ofLimit limit

theorem IsFresh.custody (h : IsFresh x) : Custody x := by
  obtain ⟨limit, hl⟩ := h.limits
  refine ⟨hl ▸ Limits.orderly_run limit [], fun i c hc => ?_, fun i _ => by rw [hl]; rfl⟩
  rw [h.calls] at hc
  cases hc

/-- What a call that is over has done does not change any more. -/
theorem Next.ended (hn : Next x y) (hc : x.calls[i]? = some c) (hover : c.isOver = true) :
    ∃ d, y.calls[i]? = some d ∧ d.isOver = true ∧ d.progress = c.progress := by
  -- whichever call it is that changes, it is another one
  have kept {j : Nat} {c' d' : Call} (hc' : x.calls[j]? = some c') (on : c'.isOver = false)
      (hy : y.calls = x.calls.set j d') : ∃ d, y.calls[i]? = some d ∧ d.isOver = true ∧ d.progress = c.progress := by
    have hji : j ≠ i := by
      rintro rfl
      cases hc.symm.trans hc'
      rw [on] at hover
      cases hover
    exact ⟨c, by rw [hy, List.getElem?_set_ne hji, hc], hover, rfl⟩
  cases hn with
  | step step =>
    obtain ⟨c', d', sent, hc', on, -, hb⟩ := moves_of_stepCall step
    exact kept hc' on hb.calls
  | @drop j _ drops =>
    obtain ⟨hc', on, error⟩ := drops
    exact kept hc' on (became_finish x j _ _).calls
  | cancel j =>
    exact ⟨_, getElem?_cancel hc, hover, rfl⟩
  | schedule _ => exact ⟨c, hc, hover, rfl⟩
  | start e delay cancelAfter =>
    refine ⟨c, ?_, hover, rfl⟩
    rw [(x.start_frame e delay cancelAfter).1, List.getElem?_append_left (List.getElem?_eq_some_iff.1 hc).1, hc]

theorem Leads.ended (hl : Leads x y) (hc : x.calls[i]? = some c) (hover : c.isOver = true) :
    ∃ d, y.calls[i]? = some d ∧ d.isOver = true ∧ d.progress = c.progress := by
  induction hl with
  | refl => exact ⟨c, hc, hover, rfl⟩
  | tail _ hn ih =>
    obtain ⟨d, hd, hover', hp⟩ := ih
    obtain ⟨e, he, hover'', hp'⟩ := hn.ended hd hover'
    exact ⟨e, he, hover'', hp'.trans hp⟩

theorem stepCall_of_over (hc : x.calls[i]? = some c) (hover : c.isOver = true) : x.stepCall i = none := by
  simp [stepCall, hc, hover]

/-! ### Owners -/

/-- Call `i` is there and has a right to a gate: it waits at it, or an attempt of it is in flight that is to
show the budget of the bucket. -/
inductive Minds (x : Session) (i : Nat) (g : Stage) : Prop
  | waits {c : Call} (was : x.calls[i]? = some c) (stage : c.stage = .waiting)
      (place : x.client.limits.place? i = some (.waits g)) (hold : (x.client.limits.gateAt g).hold ≠ .probing)
  | probes {c : Call} {till : Instant} {response : Option Http.Response} {b : Nat}
      (was : x.calls[i]? = some c) (stage : c.stage = .inFlight till response) (gate : g = .bucket b)
      (place : x.client.limits.place? i = some (.holds (some b)))
      (hold : (x.client.limits.gateAt g).hold = .probing)

/-- Only a call that waits or that has an attempt in flight is anywhere. -/
theorem Custody.exists_of_place (h : Custody x) (hp : x.client.limits.place? i ≠ none) :
    ∃ c, x.calls[i]? = some c ∧ c.stage.isFree = false := by
  have hentries : x.client.limits.entries i ≠ (none, none) := fun he => hp (Limits.place?_of_no_entries he)
  cases hc : x.calls[i]? with
  | none => exact absurd (h.absent i (List.getElem?_eq_none_iff.1 hc)) hentries
  | some c =>
    refine ⟨c, rfl, Bool.eq_false_iff.2 fun hf => hentries ?_⟩
    exact (CallStage.fits_of_isFree hf).1 (h.call i c hc)

theorem Custody.waiting_of_place {g : Stage} (h : Custody x) (hp : x.client.limits.place? i = some (.waits g)) :
    ∃ c, x.calls[i]? = some c ∧ c.stage = .waiting := by
  obtain ⟨c, hc, hf⟩ := h.exists_of_place (by rw [hp]; simp)
  have hfits := h.call i c hc
  cases hs : c.stage with
  | waiting => exact ⟨c, hc, hs⟩
  | inFlight till response =>
    obtain ⟨t, ht⟩ := hs ▸ hfits
    cases hp.symm.trans (Limits.holds_of_entries ht)
  | due _ | asking | resting _ | ended _ _ _ => rw [hs] at hf; cases hf

theorem Custody.inFlight_of_place {b : Option Nat} (h : Custody x)
    (hp : x.client.limits.place? i = some (.holds b)) :
    ∃ c till response, x.calls[i]? = some c ∧ c.stage = .inFlight till response := by
  obtain ⟨c, hc, hf⟩ := h.exists_of_place (by rw [hp]; simp)
  have hfits := h.call i c hc
  cases hs : c.stage with
  | inFlight till response => exact ⟨c, till, response, hc, hs⟩
  | waiting =>
    obtain ⟨p, hwaits⟩ := hs ▸ hfits
    cases hp.symm.trans (Limits.waits_of_entries hwaits)
  | due _ | asking | resting _ | ended _ _ _ => rw [hs] at hf; cases hf

theorem Custody.minds {g : Stage} (h : Custody x) (ho : i ∈ (x.client.limits.gateAt g).owner?) : Minds x i g := by
  by_cases hp : (x.client.limits.gateAt g).hold = .probing
  · have hprober : i ∈ (x.client.limits.gateAt g).prober? := by rwa [Limit.Gate.prober?, if_pos hp]
    obtain ⟨b, hg, hplace⟩ := h.orderly.probing g i hprober
    obtain ⟨c, till, response, hc, hs⟩ := h.inFlight_of_place hplace
    exact .probes hc hs hg hplace hp
  · have hplace := h.orderly.waits_of_owner ho hp
    obtain ⟨c, hc, hs⟩ := h.waiting_of_place hplace
    exact .waits hc hs hplace hp

/-- Who has nothing of the limits is in no line. -/
theorem Custody.not_mem_line (h : Custody x) (hi : x.client.limits.entries i = (none, none)) (g : Stage) :
    i ∉ (x.client.limits.gateAt g).line := by
  have hplace := Limits.place?_of_no_entries hi
  obtain ⟨hw, hp⟩ := h.orderly.not_at (c := i) g (by simp [hplace]) (by simp [hplace])
  rw [Limit.Gate.line_eq]
  simp only [List.mem_append, Option.mem_toList, not_or]
  exact ⟨hp, hw⟩

/-- What a call that is dropped leaves behind: the budgets, the tables and the cache are what they were, and
those who wait at a gate are all others that did, in the same order. -/
structure LeavesCleanly (i : Nat) (x y : Session) : Prop where
  client : y.client = { x.client with limits := y.client.limits }
  ceiling : y.client.limits.ceiling = x.client.limits.ceiling
  budgets : y.client.limits.budgets = x.client.limits.budgets
  tables : y.client.limits.tables = x.client.limits.tables
  sent : y.sent = x.sent
  waiting : ∀ g, (y.client.limits.gateAt g).waiting = (x.client.limits.gateAt g).waiting.filter (· ≠ i)

theorem leavesCleanly_of_drops (h : Custody x) (hd : Drops i x y) : LeavesCleanly i x y := by
  have ha := acts_drop h hd
  obtain @⟨c, hc, -, error⟩ := hd
  have hfrees := frees_finish h.orderly (h.call i c hc).lacks c (.error error)
  have hleft : (x.finish i c (.error error)).client.limits =
      { (x.client.limits.withdraw i) with woken := [] } :=
    congrArg (fun o : Limits × Limit.Turn => { o.1 with woken := [] }) (Limits.step_eq ..)
  refine ⟨rfl, ?_, ?_, ?_, rfl, fun g => (ha.lines g).eq_filter ?_⟩
  · rw [hleft]; exact Limits.ceiling_withdraw _ i
  · rw [hleft]; exact Limits.budgets_withdraw _ i
  · rw [hleft]; exact Limits.tables_withdraw _ i
  have hplace := Limits.place?_of_no_entries hfrees.parted.clear
  exact (ha.orderly.not_at (c := i) g (by simp [hplace]) (by simp [hplace])).1

/-- In every state that a fresh client can come to, with any calls side by side, a call can be dropped
cleanly. Nothing is left of it: from then on it is over, takes no step and so sends nothing, and has no
ticket and no place in a line. Whoever owns a gate at any later time waits there to look, or probes; and
whatever happens next, at most one call gets out of a line or comes in behind all others. -/
theorem cancellation_is_clean {x₀ : Session} (fresh : IsFresh x₀) (reached : Leads x₀ x) (drops : Drops i x y)
    (later : Leads y z) :
    LeavesCleanly i x y ∧
      (∃ d, z.calls[i]? = some d ∧ d.isOver = true ∧
        x.calls[i]?.map (·.progress.attempts) = some d.progress.attempts) ∧
      z.stepCall i = none ∧ z.client.limits.entries i = (none, none) ∧
      (∀ g, i ∉ (z.client.limits.gateAt g).line) ∧
      (∀ g, ∀ j ∈ (z.client.limits.gateAt g).owner?, Minds z j g) ∧
      ∀ w, Next z w → ∃ j, ∀ g,
        Stands j (z.client.limits.gateAt g).waiting (w.client.limits.gateAt g).waiting := by
  have hx := reached.custody fresh.custody
  have hz := later.custody ((Next.drop drops).custody hx).1
  have hclean := leavesCleanly_of_drops hx drops
  -- the call itself is over, having made as many attempts as before
  obtain ⟨c, hc, ended, hattempts⟩ : ∃ c, y.calls[i]? = some c ∧ c.isOver = true ∧
      x.calls[i]?.map (·.progress.attempts) = some c.progress.attempts := by
    obtain ⟨hc, -, error⟩ := drops
    exact ⟨_, List.getElem?_set_self (List.getElem?_eq_some_iff.1 hc).1, rfl, by rw [hc]; rfl⟩
  obtain ⟨d, hd, hover, hp⟩ := later.ended hc ended
  have hentries : z.client.limits.entries i = (none, none) :=
    (CallStage.fits_of_isFree (Call.isFree_of_isOver hover)).1 (hz.call i d hd)
  exact ⟨hclean, ⟨d, hd, hover, by rw [hattempts, hp]⟩, stepCall_of_over hd hover, hentries,
    fun g => hz.not_mem_line hentries g, fun g j hj => hz.minds hj, fun w hw => (hw.custody hz).2⟩

/-- A call that is cancelled while its attempt keeps a bucket closed leaves the gate to the one behind it. -/
theorem cancelled_probe_leaves_gate_to_next :
    let account : Account := ⟨"https://discord.com/api/v10", "Bot token", 50, .never⟩
    let reply : Reply := ⟨Span.second, some ⟨.ok, [], .empty⟩⟩
    let x₀ : Session := {
      epoch := 0
      client := .ofAccount account []
      replies := [("GET /api/v10/users/@me", [reply, reply])]
      boundary := "line" }
    let me : Endpoint := .raw (.direct .get "users/@me")
    let x := ((((x₀.start me 0 none).start me 0 none).runCall 2 0).runCall 2 1).cancel 0
    let y := x.runCall 1 0
    let z := y.runCall 1 1
    (x.client.limits.gateAt (.bucket 0)).line = [0, 1] ∧ (z.client.limits.gateAt (.bucket 0)).line = [1] ∧
      LeavesCleanly 0 x y ∧ z.stepCall 0 = none ∧ Minds z 1 (.bucket 0) := by
  intro account reply x₀ me x y z
  have hx : (x.client.limits.gateAt (.bucket 0)).line = [0, 1] := by decide +kernel
  have hz : (z.client.limits.gateAt (.bucket 0)).line = [1] := by decide +kernel
  have hcalled : (x.calls[0]?.any fun c => !c.isOver && c.isCancelled) = true := by decide +kernel
  have hfresh : IsFresh x₀ := ⟨rfl, 50, rfl⟩
  have hreached : Leads x₀ x := by
    have hstarted : Leads x₀ ((x₀.start me 0 none).start me 0 none) :=
      .tail (.single (.start me 0 none)) (.start me 0 none)
    have hran : Leads x₀ ((((x₀.start me 0 none).start me 0 none).runCall 2 0).runCall 2 1) :=
      (hstarted.trans (leads_runCall 2 _ 0)).trans (leads_runCall 2 _ 1)
    exact .tail hran (.cancel 0)
  clear_value x
  obtain ⟨c, hc, hcancelled⟩ := (Option.any_eq_true _ _).1 hcalled
  rw [Bool.and_eq_true, Bool.not_eq_true'] at hcancelled
  obtain ⟨y', hstep, hdrops⟩ := drops_of_cancelled hc hcancelled.1 hcancelled.2
  have hy : y' = y := by
    show y' = x.runCall 1 0
    rw [runCall, hstep]
    rfl
  have howner : 1 ∈ (z.client.limits.gateAt (.bucket 0)).owner? := by rw [Limit.Gate.owner?, hz]; rfl
  obtain ⟨hclean, -, hstuck, -, -, hminds, -⟩ :=
    cancellation_is_clean hfresh hreached (hy ▸ hdrops) (leads_runCall 1 y 1)
  exact ⟨hx, hz, hclean, hstuck, hminds _ 1 howner⟩

end Session

end ChatApi.Client
