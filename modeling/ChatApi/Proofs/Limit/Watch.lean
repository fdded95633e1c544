import ChatApi.Proofs.Limit.Part
import ChatApi.Proofs.Limit.Places
import ChatApi.Proofs.Limit.Solo

/-!
# Owners of gates are watched

`Limits.Watched` says that the owner of each gate is about to look, or sleeps until just the moment that the
budget behind the gate demands and has an alarm set for it. What is taken over from a response, and whoever
leaves, gives the owner a turn wherever that moment may change (`Attends`); a caller that looks sleeps until
the new one, or is through (`watched_poll`, `watched_arrive`).
-/

namespace ChatApi.Limit

/-- Until when a request is told to wait, if it is. -/
def Slot.till? : Slot → Option Instant
  | .wait till => some till
  | .proceed _ => none

/-! ### Gates -/

namespace Gate

/-- A sleeping owner is given a turn, and nobody else is. -/
theorem rouse_cases (g : Gate) :
    g.rouse = (g, none) ∧ (∀ till, g.hold ≠ .asleep till) ∨
      g.rouse.1.hold = .turn ∧ g.rouse.1.owner? = g.rouse.2 := by
  unfold rouse
  cases hh : g.hold with
  | turn | probing => exact .inl ⟨rfl, fun till h => by cases h⟩
  | asleep till => exact .inr ⟨rfl, rfl⟩

/-- Who leaves does so behind the owner, or frees the gate for the next. -/
theorem leave_cases (g : Gate) (c : Caller) :
    (g.leave c).1.hold = g.hold ∧ (g.leave c).1.owner? = g.owner? ∨
      (g.leave c).1.hold = .turn ∧ (g.leave c).1.owner? = (g.leave c).2 := by
  unfold leave owner?
  cases hl : g.line with
  | nil => exact .inl ⟨rfl, by rw [hl]⟩
  | cons owner behind =>
    by_cases hc : owner = c
    · simp [hc]
    · simp [hc]

/-- Who gets in line does so behind the owner, or is the owner and may look. -/
theorem join_cases (g : Gate) (c : Caller) :
    (g.join c).hold = g.hold ∧ (g.join c).owner? = g.owner? ∨
      (g.join c).hold = .turn ∧ (g.join c).owner? = some c := by
  unfold join owner?
  cases hl : g.line with
  | nil => exact .inr ⟨rfl, rfl⟩
  | cons owner behind => exact .inl ⟨rfl, rfl⟩

end Gate

namespace Limits

/-- Until when the budget behind a gate makes its owner wait, if it does. -/
def deadline? (s : Limits) (g : Stage) (now : Instant) : Option Instant :=
  match g with
  | .ceiling => (s.ceiling.reserve now).2
  | .bucket i => ((s.site i).window.reserve now).2.till?

variable {s u v : Limits} {now till : Instant} {e : Event} {p : Pending} {c : Caller} {i : Nat} {g : Stage}
  {f : Bucket → Bucket × Option Caller} {up up' : Caller → Prop} {alarm alarm' : Caller → Instant → Prop}

/-- The owner of a gate is about to look, or sleeps until its budget allows. Those that are `up` go on next,
and those with an `alarm` at its moment. -/
structure Attended (up : Caller → Prop) (alarm : Caller → Instant → Prop) (s : Limits) (g : Stage) : Prop where
  turn : (s.gateAt g).hold = .turn → ∀ c ∈ (s.gateAt g).owner?, up c ∨ c ∈ s.woken
  asleep : ∀ till, (s.gateAt g).hold = .asleep till →
    (∀ t < till, s.deadline? g t = some till) ∧ ∀ c ∈ (s.gateAt g).owner?, alarm c till

def Watched (up : Caller → Prop) (alarm : Caller → Instant → Prop) (s : Limits) : Prop :=
  ∀ g, Attended up alarm s g

theorem Attended.mono (h : Attended up alarm s g) (hup : ∀ c, up c → up' c)
    (halarm : ∀ c till, alarm c till → alarm' c till) : Attended up' alarm' s g :=
  ⟨fun ht c hc => (h.turn ht c hc).imp_left (hup c),
    fun till ha => ⟨(h.asleep till ha).1, fun c hc => halarm c till ((h.asleep till ha).2 c hc)⟩⟩

theorem Watched.mono (h : Watched up alarm s) (hup : ∀ c, up c → up' c)
    (halarm : ∀ c till, alarm c till → alarm' c till) : Watched up' alarm' s := fun g => (h g).mono hup halarm

/-! ### What gives turns -/

/-- A gate has its owner as before, and the owner sleeps until the moment that its budget demands if it has. -/
structure Kept (s u : Limits) (g : Stage) : Prop where
  hold : (u.gateAt g).hold = (s.gateAt g).hold
  owner : (u.gateAt g).owner? = (s.gateAt g).owner?
  deadline : ∀ till, (s.gateAt g).hold = .asleep till → ∀ t, u.deadline? g t = s.deadline? g t

/-- The owner of a gate has been given a turn. -/
def Turned (u : Limits) (g : Stage) : Prop :=
  (u.gateAt g).hold = .turn ∧ ∀ c ∈ (u.gateAt g).owner?, c ∈ u.woken

/-- Wherever something changes for the owner of a gate, it has been given a turn. -/
def Attends (s u : Limits) : Prop :=
  (∀ c ∈ s.woken, c ∈ u.woken) ∧ ∀ g, Kept s u g ∨ Turned u g

theorem Kept.attended (hk : Kept s u g) (h : Attended up alarm s g)
    (hwoken : ∀ c ∈ s.woken, up c ∨ c ∈ u.woken) : Attended up alarm u g := by
  refine ⟨fun ht c hc => ?_, fun till ha => ?_⟩
  · rw [hk.owner] at hc
    rcases h.turn (hk.hold ▸ ht) c hc with hup | hmem
    · exact .inl hup
    · exact hwoken c hmem
  · rw [hk.hold] at ha
    obtain ⟨hdelays, halarm⟩ := h.asleep till ha
    rw [hk.owner]
    exact ⟨fun t ht => (hk.deadline till ha t).trans (hdelays t ht), halarm⟩

theorem Turned.attended (ht : Turned u g) : Attended up alarm u g := by
  refine ⟨fun _ c hc => .inr (ht.2 c hc), fun till ha => ?_⟩
  rw [ht.1] at ha
  cases ha

theorem Attends.watched (ha : Attends s u) (h : Watched up alarm s) : Watched up alarm u := by
  intro g
  rcases ha.2 g with hk | ht
  · exact hk.attended (h g) fun c hc => .inr (ha.1 c hc)
  · exact ht.attended

theorem Attends.refl (s : Limits) : Attends s s :=
  ⟨fun _ hc => hc, fun _ => .inl ⟨rfl, rfl, fun _ _ _ => rfl⟩⟩

theorem Attends.trans (h : Attends s u) (h' : Attends u v) : Attends s v := by
  refine ⟨fun c hc => h'.1 c (h.1 c hc), fun g => ?_⟩
  rcases h'.2 g with hk' | ht'
  · rcases h.2 g with hk | ht
    · refine .inl ⟨hk'.hold.trans hk.hold, hk'.owner.trans hk.owner, fun till ha t => ?_⟩
      exact (hk'.deadline till (hk.hold.trans ha) t).trans (hk.deadline till ha t)
    · refine .inr ⟨hk'.hold.trans ht.1, fun c hc => h'.1 c (ht.2 c ?_)⟩
      rwa [← hk'.owner]
  · exact .inr ht'

/-- Who waits, who holds what, and where routes lead are of no matter to the owners of gates. -/
theorem attends_of_eq (hb : u.buckets = s.buckets) (hc : u.ceiling = s.ceiling)
    (hg : u.ceilingGate = s.ceilingGate) (hw : u.woken = s.woken) : Attends s u := by
  refine ⟨fun c hmem => hw ▸ hmem, fun g => .inl ?_⟩
  cases g with
  | ceiling => exact ⟨by simp only [gateAt, hg], by simp only [gateAt, hg], fun _ _ t => by simp only [deadline?, hc]⟩
  | bucket i =>
    have hsite := site_of_buckets_eq (i := i) hb
    exact ⟨by simp only [gateAt, hsite], by simp only [gateAt, hsite], fun _ _ t => by simp only [deadline?, hsite]⟩

theorem Watched.congr (h : Watched up alarm s) (hb : u.buckets = s.buckets) (hc : u.ceiling = s.ceiling)
    (hg : u.ceilingGate = s.ceilingGate) (hw : u.woken = s.woken) : Watched up alarm u :=
  (attends_of_eq hb hc hg hw).watched h

end Limits

/-- What becomes of a bucket gives its owner a turn if that changes anything for it. -/
def Bucket.Attends (b : Bucket) (o : Bucket × Option Caller) : Prop :=
  o.1.gate.hold = b.gate.hold ∧ o.1.gate.owner? = b.gate.owner? ∧
      (∀ till, b.gate.hold = .asleep till → o.1.window = b.window) ∨
    o.1.gate.hold = .turn ∧ o.1.gate.owner? = o.2

theorem Bucket.attends_record (b : Bucket) (now : Instant) (r : Report) : b.Attends (b.record now r) := by
  rcases b.gate.rouse_cases with ⟨hr, hn⟩ | hr
  · refine .inl ⟨by simp [Bucket.record, hr], by simp [Bucket.record, hr], fun till ha => absurd ha (hn till)⟩
  · exact .inr hr

theorem Bucket.attends_exhaust (b : Bucket) (now : Instant) (wait : Span) : b.Attends (b.exhaust now wait) := by
  rcases b.gate.rouse_cases with ⟨hr, hn⟩ | hr
  · refine .inl ⟨by simp [Bucket.exhaust, hr], by simp [Bucket.exhaust, hr], fun till ha => absurd ha (hn till)⟩
  · exact .inr hr

theorem Bucket.attends_leave (b : Bucket) (c : Caller) : b.Attends (b.leave c) := by
  rcases b.gate.leave_cases c with ⟨hh, ho⟩ | hl
  · exact .inl ⟨hh, ho, fun _ _ => rfl⟩
  · exact .inr hl

namespace Limits

variable {s u v : Limits} {now till : Instant} {e : Event} {p : Pending} {c : Caller} {i : Nat} {g : Stage}
  {f : Bucket → Bucket × Option Caller} {up up' : Caller → Prop} {alarm alarm' : Caller → Instant → Prop}

theorem gateAt_changeBucket_ne (hg : g ≠ .bucket i) : (s.changeBucket i f).gateAt g = s.gateAt g := by
  cases g with
  | ceiling =>
    unfold changeBucket
    split <;> rfl
  | bucket j =>
    have hj : j ≠ i := fun hj => hg (congrArg Stage.bucket hj)
    simp only [gateAt, site_changeBucket_ne hj]

theorem deadline?_changeBucket_ne (hg : g ≠ .bucket i) (t : Instant) :
    (s.changeBucket i f).deadline? g t = s.deadline? g t := by
  cases g with
  | ceiling =>
    unfold changeBucket
    split <;> rfl
  | bucket j =>
    have hj : j ≠ i := fun hj => hg (congrArg Stage.bucket hj)
    simp only [deadline?, site_changeBucket_ne hj]

theorem attends_changeBucket (s : Limits) (i : Nat) (hf : ∀ b : Bucket, b.Attends (f b)) :
    Attends s (s.changeBucket i f) := by
  cases hb : s.buckets[i]? with
  | none =>
    rw [changeBucket_of_none hb]
    exact .refl s
  | some b =>
    refine ⟨fun c hc => mem_woken_changeBucket hc, fun g => ?_⟩
    by_cases hg : g = .bucket i
    · subst hg
      have hsite := site_of_some hb
      have hsite' : (s.changeBucket i f).site i = ⟨(f b).1.window, (f b).1.gate⟩ := by
        rw [site_changeBucket hb, if_pos rfl]
      rcases hf b with ⟨hh, ho, hw⟩ | ⟨hh, ho⟩
      · refine .inl ⟨?_, ?_, fun till ha t => ?_⟩
        · simp only [gateAt, hsite, hsite', hh]
        · simp only [gateAt, hsite, hsite', ho]
        · simp only [gateAt, hsite] at ha
          simp only [deadline?, hsite, hsite', hw till ha]
      · refine .inr ⟨by simp only [gateAt, hsite', hh], fun c hc => ?_⟩
        simp only [gateAt, hsite', ho] at hc
        rw [changeBucket_of_some hb]
        exact List.mem_append_right _ (Option.mem_toList.2 hc)
    · exact .inl ⟨by rw [gateAt_changeBucket_ne hg], by rw [gateAt_changeBucket_ne hg],
        fun _ _ t => deadline?_changeBucket_ne hg t⟩

theorem attends_share (s : Limits) (now : Instant) (i : Nat) (r : Report) : Attends s (s.share now i r) := by
  unfold share
  split
  · dsimp only
    split
    · exact attends_of_eq rfl rfl rfl rfl
    · split
      · exact .refl s
      · rename_i j _ _
        exact (attends_changeBucket s j fun b => b.attends_record now r).trans (attends_of_eq rfl rfl rfl rfl)
  · exact .refl s

theorem attends_recordBucket (s : Limits) (now : Instant) (t : Ticket) (r : Report) :
    Attends s (s.recordBucket now t r) := by
  unfold recordBucket
  split
  · exact (attends_changeBucket s _ fun b => b.attends_record now r).trans (attends_share ..)
  · exact .refl s

theorem attends_block (s : Limits) (now : Instant) (wait : Span) : Attends s (s.block now wait) := by
  refine ⟨fun c hc => List.mem_append_left _ hc, fun g => ?_⟩
  cases g with
  | ceiling =>
    rcases s.ceilingGate.rouse_cases with ⟨hr, hn⟩ | ⟨hh, ho⟩
    · refine .inl ⟨?_, ?_, fun till ha => absurd ha (hn till)⟩
      · simp [gateAt, block, wake, hr]
      · simp [gateAt, block, wake, hr]
    · refine .inr ⟨hh, fun c hc => ?_⟩
      exact List.mem_append_right _ (Option.mem_toList.2 (ho ▸ hc))
  | bucket i => exact .inl ⟨rfl, rfl, fun _ _ _ => rfl⟩

theorem attends_recordRefusal (s : Limits) (now : Instant) (t : Ticket) (r : Report) (body : Option Refusal) :
    Attends s (s.recordRefusal now t r body) := by
  have hheld : Attends s (s.held now t (refusalWait r body)) := by
    rcases held_cases s now t (refusalWait r body) with hu | hu
    · rw [hu]; exact .refl s
    · rw [hu]; exact attends_block ..
  cases hg : isGlobalRefusal r body with
  | true =>
    rw [recordRefusal_of_global hg]
    split
    · exact hheld.trans (attends_recordBucket ..)
    · exact hheld
  | false =>
    rw [recordRefusal_of_not_global hg]
    split
    · exact (attends_changeBucket s _ fun b => b.attends_exhaust now _).trans (attends_share ..)
    · exact .refl s

theorem attends_release (s : Limits) (t : Ticket) : Attends s (s.release t) := by
  have hleft : Attends s { s with tickets := s.tickets.filter (·.caller ≠ t.caller) } :=
    attends_of_eq rfl rfl rfl rfl
  unfold release
  dsimp only
  split
  · exact hleft.trans (attends_changeBucket _ _ fun b => b.attends_leave t.caller)
  · exact hleft

/-- Who leaves the gate of the account frees it for the next. -/
theorem attends_leaveCeiling (s : Limits) (c : Caller) :
    Attends s ({ s with ceilingGate := (s.ceilingGate.leave c).1 }.wake (s.ceilingGate.leave c).2) := by
  refine ⟨fun d hd => List.mem_append_left _ hd, fun g => ?_⟩
  cases g with
  | ceiling =>
    rcases s.ceilingGate.leave_cases c with ⟨hh, ho⟩ | ⟨hh, ho⟩
    · exact .inl ⟨hh, ho, fun _ _ _ => rfl⟩
    · exact .inr ⟨hh, fun d hd => List.mem_append_right _ (Option.mem_toList.2 (ho ▸ hd))⟩
  | bucket i => exact .inl ⟨rfl, rfl, fun _ _ _ => rfl⟩

theorem attends_withdraw (s : Limits) (c : Caller) : Attends s (s.withdraw c) := by
  cases ht : s.ticket? c with
  | some t =>
    rw [withdraw_of_ticket ht]
    exact attends_release s t
  | none =>
    cases hp : s.pending.find? (·.caller = c) with
    | none =>
      rw [withdraw_of_absent ht hp]
      exact .refl s
    | some p =>
      have hleft : Attends s { s with pending := s.pending.filter (·.caller ≠ c) } :=
        attends_of_eq rfl rfl rfl rfl
      simp only [withdraw, ht, hp]
      split
      · exact hleft.trans (attends_leaveCeiling _ c)
      · exact hleft.trans (attends_changeBucket _ _ fun b => b.attends_leave c)

/-- An event at which nobody asks gives the owner of each gate a turn at which something changes for it. -/
theorem attends_step (he : ∀ c, ¬ e.asks c) (s : Limits) (now : Instant) : Attends s (s.step now e).1 := by
  rw [step_eq]
  cases e with
  | arrive c wanted => exact absurd (.inr ⟨wanted, rfl⟩) (he c)
  | poll c => exact absurd (.inl rfl) (he c)
  | record c r =>
    simp only [leap]
    split
    · exact (attends_recordBucket ..).trans (attends_release ..)
    · exact .refl s
  | refuse c r body =>
    simp only [leap]
    split
    · exact (attends_recordRefusal ..).trans (attends_release ..)
    · exact .refl s
  | withdraw c => exact attends_withdraw s c
  | block wait => exact attends_block s now wait

/-! ### Callers that look -/

/-- Alarms of all but `c` stay as they are; `c` has one for the moment until which it sleeps, or keeps the one
that it has if it was not its turn yet. -/
def Realarmed (c : Caller) (turn : Turn) (now : Instant) (alarm : Caller → Instant → Prop) (d : Caller)
    (till : Instant) : Prop :=
  d ≠ c ∧ alarm d till ∨ d = c ∧ (turn = .asleep till ∨ turn = .unchanged ∧ now < till ∧ alarm d till)

/-- What concerns callers other than `c`. -/
def Others (c : Caller) (up : Caller → Prop) (d : Caller) : Prop := d ≠ c ∧ up d

def OtherAlarms (c : Caller) (alarm : Caller → Instant → Prop) (d : Caller) (till : Instant) : Prop :=
  d ≠ c ∧ alarm d till

/-- Where `c` does not own a gate that it is to look at, it is of no matter. -/
theorem Attended.others (h : Attended up alarm s g) (hc : (s.gateAt g).hold ≠ .probing → c ∉ (s.gateAt g).owner?) :
    Attended (Others c up) (OtherAlarms c alarm) s g := by
  refine ⟨fun ht d hd => (h.turn ht d hd).imp_left fun hup => ⟨?_, hup⟩, fun till ha => ⟨(h.asleep till ha).1, ?_⟩⟩
  · rintro rfl
    exact hc (by simp [ht]) hd
  · refine fun d hd => ⟨?_, (h.asleep till ha).2 d hd⟩
    rintro rfl
    exact hc (by simp [ha]) hd

theorem Attended.realarmed {turn : Turn} (h : Attended up (OtherAlarms c alarm) s g) :
    Attended up (Realarmed c turn now alarm) s g :=
  h.mono (fun _ hup => hup) fun _ _ => .inl

/-- Whoever looks before its turn has an alarm for it. -/
theorem Watched.of_not_up (h : Watched up alarm s) (hu : ∀ g, (s.gateAt g).isUp c now = false) :
    Watched (Others c up) (Realarmed c .unchanged now alarm) s := by
  intro g
  have hu := hu g
  refine ⟨fun ht d hd => ((h g).turn ht d hd).imp_left fun hup => ⟨?_, hup⟩, fun till ha => ?_⟩
  · rintro rfl
    have howner : (s.gateAt g).owner? = some d := hd
    simp [Gate.isUp, howner, ht] at hu
  · obtain ⟨hdelays, halarm⟩ := (h g).asleep till ha
    refine ⟨hdelays, fun d hd => ?_⟩
    by_cases hdc : d = c
    · subst hdc
      have howner : (s.gateAt g).owner? = some d := hd
      simp only [Gate.isUp, howner, ha, decide_true, Bool.true_and, decide_eq_false_iff_not] at hu
      exact .inr ⟨rfl, .inr ⟨rfl, Nat.lt_of_not_le hu, halarm d hd⟩⟩
    · exact .inl ⟨hdc, halarm d hd⟩

end Limits

/-- A caller whose turn it is sleeps until its budget allows, or is through and gives the next its turn. -/
theorem Bucket.attended_poll {b : Bucket} {now : Instant} {c : Caller} (hu : b.gate.isUp c now) :
    ((b.poll now c).1.1.gate.hold = .turn → ∀ d ∈ (b.poll now c).1.1.gate.owner?, d ∈ (b.poll now c).1.2) ∧
      ∀ till, (b.poll now c).1.1.gate.hold = .asleep till →
        (∀ t < till, ((b.poll now c).1.1.window.reserve t).2.till? = some till) ∧
          (∀ d ∈ (b.poll now c).1.1.gate.owner?, d = c) ∧ (b.poll now c).2 = .asleep till := by
  obtain ⟨-, -, hline⟩ := Gate.of_isUp hu
  have howner : b.gate.owner? = some c := by rw [Gate.owner?, hline]; rfl
  unfold Bucket.poll
  rw [if_pos hu]
  cases hr : b.window.reserve now with
  | mk window slot =>
    cases slot with
    | wait till =>
      refine ⟨fun ht => (by cases ht), fun till' ha => ?_⟩
      cases ha
      refine ⟨fun t ht => ?_, fun d hd => ?_, rfl⟩
      · have hwaits : (b.window.reserve now).2 = .wait till := by rw [hr]
        have hagain := Window.reserve_again hwaits ht
        rw [hr] at hagain
        exact congrArg Slot.till? hagain
      · exact (Option.some.inj (howner.symm.trans hd)).symm
    | proceed isProbe =>
      cases isProbe with
      | true => exact ⟨fun ht => (by cases ht), fun till ha => (by cases ha)⟩
      | false =>
        have hleave : (b.gate.leave c).1.hold = .turn ∧ (b.gate.leave c).1.owner? = (b.gate.leave c).2 := by
          rw [Gate.leave, hline]
          simp [Gate.owner?]
        refine ⟨fun _ d hd => hleave.2 ▸ hd, fun till ha => ?_⟩
        cases hleave.1.symm.trans ha

namespace Limits

variable {s u v : Limits} {now till : Instant} {e : Event} {p : Pending} {c : Caller} {i : Nat} {g : Stage}
  {f : Bucket → Bucket × Option Caller} {up up' : Caller → Prop} {alarm alarm' : Caller → Instant → Prop}

/-- A caller that waits at a bucket, or at no gate, looks there. -/
theorem watched_pollBucket (h : Watched up alarm s) (ho : Orderly s)
    (hstage : ∀ g, s.place? p.caller = some (.waits g) → g = .bucket i) (now : Instant) :
    Watched (Others p.caller up) (Realarmed p.caller (s.pollBucket now p i).2 now alarm)
      (s.pollBucket now p i).1 := by
  have of_not_up (hu : (s.gateAt (.bucket i)).isUp p.caller now = false)
      (hsame : s.pollBucket now p i = (s, .unchanged)) :
      Watched (Others p.caller up) (Realarmed p.caller (s.pollBucket now p i).2 now alarm)
        (s.pollBucket now p i).1 := by
    rw [hsame]
    refine h.of_not_up fun g => Bool.eq_false_iff.2 fun hup => ?_
    rw [hstage g (ho.waits_of_isUp hup), hu] at hup
    cases hup
  cases hb : s.buckets[i]? with
  | none => exact of_not_up (by simp [gateAt, site_of_none hb, Gate.isUp, Gate.owner?]) (by simp [pollBucket, hb])
  | some b =>
    have hsite := site_of_some hb
    cases hu : b.gate.isUp p.caller now with
    | false => exact of_not_up (by simpa [gateAt, hsite] using hu) (by simp [pollBucket, hb, hu])
    | true =>
      have hup : (s.gateAt (.bucket i)).isUp p.caller now := by simpa [gateAt, hsite] using hu
      have hplace := ho.waits_of_isUp hup
      obtain ⟨hturn, hasleep⟩ := Bucket.attended_poll hu
      let u := s.changeBucket i fun b => (b.poll now p.caller).1
      have hlooked : Watched (Others p.caller up) (Realarmed p.caller (b.poll now p.caller).2 now alarm) u := by
        intro g
        by_cases hg : g = .bucket i
        · subst hg
          have hsite' : u.site i = ⟨(b.poll now p.caller).1.1.window, (b.poll now p.caller).1.1.gate⟩ := by
            rw [site_changeBucket hb, if_pos rfl]
          refine ⟨fun ht d hd => .inr ?_, fun till ha => ?_⟩
          · simp only [gateAt, hsite'] at ht hd
            rw [show u = _ from changeBucket_of_some hb]
            exact List.mem_append_right _ (Option.mem_toList.2 (hturn ht d hd))
          · simp only [gateAt, deadline?, hsite'] at ha ⊢
            obtain ⟨hdelays, hself, hturn⟩ := hasleep till ha
            exact ⟨hdelays, fun d hd => .inr ⟨hself d hd, .inl hturn⟩⟩
        · -- at other gates the caller does not wait
          have hkept : Kept s u g := ⟨by rw [gateAt_changeBucket_ne hg], by rw [gateAt_changeBucket_ne hg],
            fun _ _ t => deadline?_changeBucket_ne hg t⟩
          have hothers := (h g).others (c := p.caller) fun hp hc => hg (hstage g (ho.waits_of_owner hc hp))
          exact (hkept.attended hothers fun d hd => .inr (mem_woken_changeBucket hd)).realarmed
      rw [pollBucket_of_some hb]
      dsimp only
      split
      · exact hlooked.congr rfl rfl rfl rfl
      · exact hlooked

/-- Whoever gets in line at a bucket is to look if it is the first. -/
theorem watched_lineUp (h : Watched up alarm s) (hc : up p.caller) (key : RouteKey) :
    Watched up alarm (s.lineUp p key).2 := by
  have hmade : Attends s (s.bucketFor key).2 := by
    obtain ⟨hceiling, hgate, -, -⟩ := bucketFor_frame s key
    obtain ⟨-, hsite⟩ := bucketFor_spec s key
    refine ⟨fun d hd => ?_, fun g => .inl ?_⟩
    · unfold bucketFor
      split <;> exact hd
    · cases g with
      | ceiling => exact ⟨by simp only [gateAt, hgate], by simp only [gateAt, hgate],
          fun _ _ t => by simp only [deadline?, hceiling]⟩
      | bucket j => exact ⟨by simp only [gateAt, hsite], by simp only [gateAt, hsite],
          fun _ _ t => by simp only [deadline?, hsite]⟩
  let f : Bucket → Bucket × Option Caller := fun b => ({ b with gate := b.gate.join p.caller }, none)
  let u := (s.bucketFor key).2
  let i := (s.bucketFor key).1
  have hu : Watched up alarm u := hmade.watched h
  have hjoined : Watched up alarm (u.changeBucket i f) := by
    intro g
    by_cases hg : g = .bucket i
    · subst hg
      cases hb : u.buckets[i]? with
      | none =>
        rw [changeBucket_of_none hb]
        exact hu _
      | some b =>
        have hsite := site_of_some hb
        have hsite' : (u.changeBucket i f).site i = ⟨b.window, b.gate.join p.caller⟩ := by
          rw [site_changeBucket hb, if_pos rfl]
        rcases b.gate.join_cases p.caller with ⟨hh, ho⟩ | ⟨hh, ho⟩
        · refine Kept.attended ⟨?_, ?_, fun _ _ t => ?_⟩ (hu _) fun d hd => .inr (mem_woken_changeBucket hd)
          · simp only [gateAt, hsite, hsite', hh]
          · simp only [gateAt, hsite, hsite', ho]
          · simp only [deadline?, hsite, hsite']
        · refine ⟨fun _ d hd => .inl ?_, fun till ha => ?_⟩
          · simp only [gateAt, hsite', ho] at hd
            exact Option.some.inj hd ▸ hc
          · simp only [gateAt, hsite', hh] at ha
            cases ha
    · have hkept : Kept u (u.changeBucket i f) g := ⟨by rw [gateAt_changeBucket_ne hg],
        by rw [gateAt_changeBucket_ne hg], fun _ _ t => deadline?_changeBucket_ne hg t⟩
      exact hkept.attended (hu g) fun d hd => .inr (mem_woken_changeBucket hd)
  exact hjoined.congr rfl rfl rfl rfl

/-- What comes of looking is told to who just got in line. -/
theorem Realarmed.inLine {turn : Turn} {d : Caller}
    (h : Realarmed c turn now (OtherAlarms c alarm) d till) : Realarmed c turn.inLine now alarm d till := by
  rcases h with ⟨hd, -, halarm⟩ | ⟨rfl, rfl | ⟨-, -, hd, -⟩⟩
  · exact .inl ⟨hd, halarm⟩
  · exact .inr ⟨rfl, .inl rfl⟩
  · exact absurd rfl hd

/-- A caller that is in no line goes to the bucket of its route. -/
theorem watched_enterBucket (h : Watched (Others p.caller up) (OtherAlarms p.caller alarm) s) (ho : Orderly s)
    (hin : InNoLine s p.caller) (hplace : s.place? p.caller = some (.waits g)) (now : Instant) (key : RouteKey) :
    Watched (Others p.caller up) (Realarmed p.caller (s.enterBucket now p key).2 now alarm)
      (s.enterBucket now p key).1 := by
  obtain ⟨-, -, ht, hp⟩ := lineUp_frame s p key
  have hself := place?_goTo_self hp ht hplace
  have hlined : Watched (fun d => d = p.caller ∨ Others p.caller up d) (OtherAlarms p.caller alarm)
      (s.lineUp p key).2 :=
    watched_lineUp (h.mono (fun _ => .inr) fun _ _ ha => ha) (.inl rfl) key
  have hlooked := watched_pollBucket hlined (orderly_lineUp ho hin hplace key) (i := (s.bucketFor key).1)
    (fun g hg => by simpa using hg.symm.trans hself) now
  rw [enterBucket_eq]
  exact hlooked.mono (fun d hd => hd.2.resolve_left hd.1) fun _ _ ha => ha.inLine

/-- A caller that has passed the gate of the account leaves it to the next. -/
theorem watched_passed (h : Watched up alarm s) (ho : Orderly s)
    (hu : s.ceilingGate.isUp c now) : Watched (Others c up) (OtherAlarms c alarm) (s.passed now c) := by
  obtain ⟨-, -, hline⟩ := Gate.of_isUp hu
  have hplace := ho.waits_of_isUp (g := .ceiling) hu
  intro g
  cases g with
  | ceiling =>
    have hleave : (s.ceilingGate.leave c).1.hold = .turn ∧
        (s.ceilingGate.leave c).1.owner? = (s.ceilingGate.leave c).2 := by
      rw [Gate.leave, hline]
      simp [Gate.owner?]
    refine Turned.attended ⟨hleave.1, fun d hd => ?_⟩
    exact List.mem_append_right _ (Option.mem_toList.2 (hleave.2 ▸ hd))
  | bucket i =>
    have hkept : Kept s (s.passed now c) (.bucket i) := ⟨rfl, rfl, fun _ _ _ => rfl⟩
    have hothers := (h (.bucket i)).others (c := c) fun hp hc => by
      cases (ho.waits_of_owner hc hp).symm.trans hplace
    exact hkept.attended hothers fun d hd => .inr (List.mem_append_left _ hd)

/-- A caller that waits at the gate of the account, or at no gate, looks there. -/
theorem watched_pollCeiling (h : Watched up alarm s) (ho : Orderly s)
    (hstage : ∀ g, s.place? p.caller = some (.waits g) → g = .ceiling) (now : Instant) :
    Watched (Others p.caller up) (Realarmed p.caller (s.pollCeiling now p).2 now alarm)
      (s.pollCeiling now p).1 := by
  cases hu : s.ceilingGate.isUp p.caller now with
  | false =>
    rw [pollCeiling_of_not_up hu]
    refine h.of_not_up fun g => Bool.eq_false_iff.2 fun hup => ?_
    have hup' := hup
    rw [hstage g (ho.waits_of_isUp hup)] at hup'
    cases hu.symm.trans hup'
  | true =>
    have hplace := ho.waits_of_isUp (g := .ceiling) hu
    have hpassed := watched_passed h ho hu
    obtain ⟨hopassed, hin⟩ := orderly_passed ho hplace now
    obtain ⟨-, -, hline⟩ := Gate.of_isUp hu
    rcases pollCeiling_of_up hu with ⟨till, hwait, heq⟩ | ⟨-, ⟨-, heq⟩ | ⟨key, scope, -, heq⟩⟩
    · rw [heq]
      intro g
      cases g with
      | ceiling =>
        refine ⟨fun ht => (by cases ht), fun till' ha => ?_⟩
        cases ha
        refine ⟨fun t ht => Ceiling.reserve_again hwait ht, fun d hd => .inr ⟨?_, .inl rfl⟩⟩
        have hd : s.ceilingGate.owner? = some d := hd
        rw [Gate.owner?, hline] at hd
        exact (Option.some.inj hd).symm
      | bucket i =>
        have hkept : Kept s { s with
            ceiling := (s.ceiling.reserve now).1
            ceilingGate := { s.ceilingGate with hold := .asleep till } } (.bucket i) := ⟨rfl, rfl, fun _ _ _ => rfl⟩
        have hothers := (h (.bucket i)).others (c := p.caller) fun hp hc => by
          cases (ho.waits_of_owner hc hp).symm.trans hplace
        exact (hkept.attended hothers fun d hd => .inr hd).realarmed
    · rw [heq]
      have hgranted : Watched (Others p.caller up) (OtherAlarms p.caller alarm)
          ((s.passed now p.caller).grant p none) := hpassed.congr rfl rfl rfl rfl
      exact fun g => (hgranted g).realarmed
    · rw [heq]
      exact watched_enterBucket hpassed hopassed hin ((place?_congr rfl rfl).trans hplace) now key

/-- A caller that is in no line goes to the gate of the account. -/
theorem watched_enterCeiling (h : Watched (Others p.caller up) (OtherAlarms p.caller alarm) s) (ho : Orderly s)
    (hin : InNoLine s p.caller) (hplace : s.place? p.caller = some (.waits .ceiling)) (now : Instant) :
    Watched (Others p.caller up) (Realarmed p.caller (s.enterCeiling now p).2 now alarm)
      (s.enterCeiling now p).1 := by
  let u : Limits := { s with ceilingGate := s.ceilingGate.join p.caller }
  have hjoined : Watched (fun d => d = p.caller ∨ Others p.caller up d) (OtherAlarms p.caller alarm) u := by
    intro g
    cases g with
    | ceiling =>
      rcases s.ceilingGate.join_cases p.caller with ⟨hh, howner⟩ | ⟨hh, howner⟩
      · have hkept : Kept s u .ceiling := ⟨hh, howner, fun _ _ _ => rfl⟩
        exact (hkept.attended (h .ceiling) fun d hd => .inr hd).mono (fun _ => .inr) fun _ _ ha => ha
      · refine ⟨fun _ d hd => .inl (.inl (Option.some.inj (howner.symm.trans hd)).symm), fun till ha => ?_⟩
        cases hh.symm.trans ha
    | bucket i =>
      have hkept : Kept s u (.bucket i) := ⟨rfl, rfl, fun _ _ _ => rfl⟩
      exact (hkept.attended (h (.bucket i)) fun d hd => .inr hd).mono (fun _ => .inr) fun _ _ ha => ha
  have hself : u.place? p.caller = some (.waits .ceiling) := (place?_congr rfl rfl).trans hplace
  have hlooked := watched_pollCeiling hjoined (orderly_joinCeiling ho hin hplace)
    (fun g hg => by simpa using hg.symm.trans hself) now
  exact hlooked.mono (fun d hd => hd.2.resolve_left hd.1) fun _ _ ha => ha.inLine

/-- A caller comes in. -/
theorem watched_arrive (h : Watched up alarm s) (ho : Orderly s) (hb : s.isBusy c = false) (now : Instant)
    (wanted : Wanted) : Watched (Others c up) (Realarmed c (s.arrive now c wanted).2 now alarm)
      (s.arrive now c wanted).1 := by
  let p : Pending := ⟨c, wanted, .ceiling⟩
  let lined : Limits := { s with pending := s.pending ++ [p] }
  obtain ⟨holined, hin, hplace⟩ := orderly_comeIn ho hb wanted
  have hin : InNoLine lined p.caller := hin
  have hlined : Watched (Others p.caller up) (OtherAlarms p.caller alarm) lined := fun g =>
    (h.congr (u := lined) rfl rfl rfl rfl g).others fun _ => hin.owner_ne g
  cases wanted with
  | account => exact watched_enterCeiling hlined holined hin hplace now
  | route key scope =>
    cases scope with
    | all => exact watched_enterCeiling hlined holined hin hplace now
    | routeOnly => exact watched_enterBucket hlined holined hin hplace now key
    | exempt =>
      have hgranted : Watched (Others c up) (OtherAlarms c alarm) (lined.grant p none) :=
        hlined.congr rfl rfl rfl rfl
      exact fun g => (hgranted g).realarmed

/-- A caller looks again. -/
theorem watched_poll (h : Watched up alarm s) (ho : Orderly s) (now : Instant) (c : Caller) :
    Watched (Others c up) (Realarmed c (s.poll now c).2 now alarm) (s.poll now c).1 := by
  unfold poll
  cases hp : s.pending.find? (·.caller = c) with
  | none =>
    refine h.of_not_up fun g => Bool.eq_false_iff.2 fun hup => ?_
    have hplace := ho.waits_of_isUp hup
    simp [place?, ticket?_of_waits hplace, hp] at hplace
  | some p =>
    obtain rfl : p.caller = c := by simpa using List.find?_some hp
    have hstage (g : Stage) (hg : s.place? p.caller = some (.waits g)) : p.stage = g := by
      simpa [place?, ticket?_of_waits hg, hp] using hg
    dsimp only
    split
    · rename_i hs
      exact watched_pollCeiling h ho (fun g hg => (hstage g hg).symm.trans hs) now
    · rename_i i hs
      exact watched_pollBucket h ho (fun g hg => (hstage g hg).symm.trans hs) now

end Limits

end ChatApi.Limit
