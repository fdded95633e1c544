import ChatApi.Proofs.Limit.History

/-!
# What the phase tells

Responses tell a window of its limit, of what is left and of its end, and may leave out any of the three; in
between, requests count down what is left. The phase is set at each of these places. `Window.Coherent` says
what it tells of the counts, and every operation keeps that (`coherent_apply`).

Main theorem `phase_agrees_with_counts`: in every window that comes of a new one, a request has to wait just
if nothing is left before an end that is ahead, and goes ahead without probing just if the bucket is untracked
or the request is paid for from what is left.
-/

namespace ChatApi.Limit.Window

/-- The phase agrees with the counts. -/
structure Coherent (w : Window) : Prop where
  /-- A window of which nothing is known has no end. -/
  unknown : w.phase = .fresh ∨ w.phase = .untracked → w.resetAt = none
  tracking : w.phase = .tracking → 0 < w.remaining
  exhausted : w.phase = .exhausted → w.remaining = 0

variable {w : Window} {now till : Instant} {h : History}

theorem coherent_new : ({} : Window).Coherent := ⟨fun _ => rfl, nofun, nofun⟩

/-- A window that has an end is known. -/
theorem Coherent.isKnown (hw : w.Coherent) (hr : w.resetAt = some till) : w.isKnown := by
  rw [isKnown_iff]
  cases hp : w.phase with
  | fresh => simp [hw.unknown (.inl hp)] at hr
  | untracked => simp [hw.unknown (.inr hp)] at hr
  | tracking => exact .inl rfl
  | exhausted => exact .inr rfl

/-- A known window in which something is left is tracked. -/
theorem Coherent.phase_of_left (hw : w.Coherent) (hk : w.isKnown) (hl : 0 < w.remaining) :
    w.phase = .tracking := by
  rcases isKnown_iff.1 hk with hp | hp
  · exact hp
  · have hz := hw.exhausted hp
    omega

/-! ### One operation -/

theorem coherent_spend (hp : w.phase = .tracking) : w.spend.Coherent := by
  unfold spend
  by_cases hz : w.remaining - 1 = 0
  · constructor <;> simp [hz]
  · constructor <;> simp [hz, hp]
    omega

theorem coherent_reserve (hw : w.Coherent) (now : Instant) : (w.reserve now).1.Coherent := by
  have hres := w.reserves now
  generalize w.reserve now = x at hres
  cases hres with
  | fresh _ | untracked _ => exact hw
  | reopens _ _ => exact ⟨fun _ => rfl, nofun, nofun⟩
  | spends known _ left => exact coherent_spend (hw.phase_of_left known left)
  | waits _ spent _ _ => exact ⟨by simp, nofun, fun _ => spent⟩

theorem coherent_record (hw : w.Coherent) (now : Instant) (r : Report) : (w.record now r).Coherent := by
  cases hr : r.isTracked with
  | true =>
    -- what is left sets the phase
    rw [record_tracked w now hr]
    by_cases hz : w.leftAfter now r = 0
    · constructor <;> simp [hz]
    · constructor <;> simp [hz]
      omega
  | false =>
    -- a bare response makes a fresh window untracked, and changes no count
    rw [record_untracked w now hr]
    by_cases hf : w.phase = .fresh
    · constructor <;> simp [hf, hw.unknown (.inl hf)]
    · simpa only [hf, if_false] using ⟨hw.unknown, hw.tracking, hw.exhausted⟩

/-- Whatever happens to a window, its phase goes on to agree with its counts. -/
theorem coherent_apply (hw : w.Coherent) (now : Instant) (op : Op) : (w.apply now op).1.Coherent := by
  cases op with
  | reserve => exact coherent_reserve hw now
  | record r => exact coherent_record hw now r
  | exhaust wait => exact ⟨by simp [apply, exhaust], nofun, fun _ => rfl⟩

/-! ### Histories -/

theorem coherent_run (hw : w.Coherent) (h : History) : (w.run h).Coherent := by
  induction h generalizing w with
  | nil => exact hw
  | cons e h ih =>
    obtain ⟨now, op⟩ := e
    exact ih (coherent_apply hw now op)

/-- A request has to wait just if nothing is left before an end that is ahead. -/
theorem Coherent.reserve_eq_wait_iff (hw : w.Coherent) :
    (w.reserve now).2 = .wait till ↔ w.remaining = 0 ∧ w.resetAt = some till ∧ now < till := by
  constructor
  · intro hwait
    have hres := w.reserves now
    generalize w.reserve now = x at hwait hres
    cases hres with
    | waits _ spent ends ahead =>
      cases hwait
      exact ⟨spent, ends, ahead⟩
    | fresh _ | untracked _ | reopens _ _ | spends _ _ _ => cases hwait
  · rintro ⟨spent, ends, ahead⟩
    rw [reserve_of_spent (hw.isKnown ends) ends ahead spent]

/-- A request goes ahead without probing just if the bucket is untracked, or if it takes one of what is
left. -/
theorem reserve_eq_proceed_iff : (w.reserve now).2 = .proceed false ↔
    w.phase = .untracked ∨ 0 < w.remaining ∧ (w.reserve now).1.remaining + 1 = w.remaining := by
  have hres := w.reserves now
  generalize w.reserve now = x at hres
  cases hres with
  | fresh phase => simp [phase]
  | untracked phase => simp [phase]
  | reopens known _ => rcases isKnown_iff.1 known with hp | hp <;> simp [hp]
  | spends _ _ left =>
    have hone : w.spend.remaining + 1 = w.remaining := Nat.sub_add_cancel left
    simp [left, hone]
  | waits known spent _ _ => rcases isKnown_iff.1 known with hp | hp <;> simp [hp, spent]

/-- Whatever requests, responses and refusals a new window has seen, its phase agrees with its counts. The
next request has to wait till a moment just if nothing is left, the window ends at that moment, and the
moment is ahead; it goes ahead without probing just if the bucket is untracked, or if what is left was
positive and is one less from then on. -/
theorem phase_agrees_with_counts (h : History) (now : Instant) :
    let w := ({} : Window).run h
    w.Coherent ∧
    (∀ till, (w.reserve now).2 = .wait till ↔ w.remaining = 0 ∧ w.resetAt = some till ∧ now < till) ∧
    ((w.reserve now).2 = .proceed false ↔
      w.phase = .untracked ∨ 0 < w.remaining ∧ (w.reserve now).1.remaining + 1 = w.remaining) := by
  intro w
  have hw : w.Coherent := coherent_run coherent_new h
  exact ⟨hw, fun till => hw.reserve_eq_wait_iff, reserve_eq_proceed_iff⟩

end ChatApi.Limit.Window
