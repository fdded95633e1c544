import ChatApi.Proofs.Limit.History

/-!
# The budget of a live window

While a window goes on, requests, responses and refusals may come in any order, and responses may
move its end. `Window.InTime` says that none of them comes after the end as it stands then.

Main theorem `live_window_bounds_slots`: in such a history the number of slots given and what is
left at its end are together at most what was left at its beginning. What is left plays the part of
a potential: `apply_of_hasEnd` says that every slot is paid for from it.
-/

namespace ChatApi.Limit.Window

/-- The window is known, and so is its end. -/
def HasEnd (w : Window) : Prop := w.isKnown ∧ w.resetAt.isSome

instance (w : Window) : Decidable w.HasEnd := inferInstanceAs (Decidable (_ ∧ _))

/-- Each operation happens before the end that the window has by then. -/
def InTime : Window → History → Prop
  | _, [] => True
  | w, (now, op) :: h => w.resetAt.all (now < ·) ∧ (w.apply now op).1.InTime h

instance decidableInTime : (w : Window) → (h : History) → Decidable (w.InTime h)
  | _, [] => isTrue trivial
  | w, (now, op) :: h =>
    have := decidableInTime (w.apply now op).1 h
    inferInstanceAs (Decidable (_ ∧ _))

variable {w : Window} {now : Instant}

theorem HasEnd.isLive (he : w.HasEnd) (ht : w.resetAt.all (now < ·)) : w.isLive now := by
  obtain ⟨hk, hs⟩ := he
  obtain ⟨till, hr⟩ := Option.isSome_iff_exists.1 hs
  simp_all [Window.isLive]

theorem HasEnd.not_isOver (he : w.HasEnd) (ht : w.resetAt.all (now < ·)) : w.isOver now = false := by
  obtain ⟨till, hr⟩ := Option.isSome_iff_exists.1 he.2
  simp_all [isOver]

/-! ### One operation -/

theorem hasEnd_spend (he : w.HasEnd) : w.spend.HasEnd := by
  obtain ⟨hk, hs⟩ := he
  refine ⟨?_, hs⟩
  rw [isKnown_iff] at hk ⊢
  unfold spend
  dsimp only
  split
  · exact .inr rfl
  · exact hk

theorem hasEnd_record (he : w.HasEnd) (r : Report) : (w.record now r).HasEnd := by
  obtain ⟨hk, hs⟩ := he
  cases hr : r.isTracked with
  | true =>
    rw [record_tracked w now hr]
    refine ⟨isKnown_iff.2 ?_, by simp [hs]⟩
    dsimp only
    split
    · exact .inr rfl
    · exact .inl rfl
  | false =>
    rw [record_untracked w now hr]
    have hf : w.phase ≠ .fresh := by rcases isKnown_iff.1 hk with h | h <;> simp [h]
    exact ⟨by simpa [isKnown, hf] using hk, hs⟩

theorem remaining_record_le (hl : w.isLive now) (r : Report) :
    (w.record now r).remaining ≤ w.remaining := by
  cases hr : r.isTracked with
  | true =>
    rw [record_tracked w now hr]
    simp only [leftAfter, hl, if_true]
    exact Nat.min_le_left ..
  | false =>
    have hsame : (w.record now r).remaining = w.remaining := by rw [record_untracked w now hr]
    exact Nat.le_of_eq hsame

/-- A window that goes on gives a slot while something is left, and none when nothing is. -/
theorem reserve_of_hasEnd (he : w.HasEnd) (ht : w.resetAt.all (now < ·)) :
    (∃ till, w.remaining = 0 ∧ w.reserve now = ({ w with phase := .exhausted }, .wait till)) ∨
      0 < w.remaining ∧ w.reserve now = (w.spend, .proceed false) := by
  have ho := he.not_isOver ht
  rcases Nat.eq_zero_or_pos w.remaining with hz | hl
  · obtain ⟨till, hr, hlt⟩ := exists_end hz ho
    exact .inl ⟨till, hz, reserve_of_spent he.1 hr hlt hz⟩
  · exact .inr ⟨hl, reserve_of_left he.1 ho hl⟩

/-- An operation on a window that goes on leaves it with an end, makes nobody probe, and pays for
the slot that it gives from what is left. -/
theorem apply_of_hasEnd (he : w.HasEnd) (ht : w.resetAt.all (now < ·)) (op : Op) :
    (w.apply now op).1.HasEnd ∧ .proceed true ∉ (w.apply now op).2 ∧
      (w.apply now op).2.toList.countP Slot.isProceed + (w.apply now op).1.remaining ≤ w.remaining := by
  cases op with
  | reserve =>
    rcases reserve_of_hasEnd he ht with ⟨till, -, h⟩ | ⟨hl, h⟩
    · simp only [apply, h]
      exact ⟨⟨rfl, he.2⟩, by simp, by simp [Slot.isProceed]⟩
    · simp only [apply, h]
      refine ⟨hasEnd_spend he, by simp, ?_⟩
      have : w.spend.remaining = w.remaining - 1 := rfl
      rw [this]
      simp only [Option.toList_some, List.countP_singleton, Slot.isProceed, if_true]
      omega
  | record r =>
    have hle := remaining_record_le (he.isLive ht) r
    exact ⟨hasEnd_record he r, by simp [apply], by simpa [apply] using hle⟩
  | exhaust wait => exact ⟨⟨rfl, rfl⟩, by simp [apply], by simp [apply, exhaust]⟩

/-! ### Histories -/

theorem inTime_append {h₁ h₂ : History} :
    w.InTime (h₁ ++ h₂) ↔ w.InTime h₁ ∧ (w.run h₁).InTime h₂ := by
  induction h₁ generalizing w with
  | nil => simp [InTime]
  | cons e h ih =>
    obtain ⟨now, op⟩ := e
    simp only [List.cons_append, InTime, ih, run_cons, and_assoc]

theorem run_of_hasEnd {h : History} (he : w.HasEnd) (ht : w.InTime h) :
    (w.run h).HasEnd ∧ .proceed true ∉ w.answers h ∧
      (w.answers h).countP Slot.isProceed + (w.run h).remaining ≤ w.remaining := by
  induction h generalizing w with
  | nil => exact ⟨he, by simp [answers], by simp [answers]⟩
  | cons e h ih =>
    obtain ⟨now, op⟩ := e
    obtain ⟨he', hp, hle⟩ := apply_of_hasEnd he ht.1 op
    obtain ⟨hend, hprobe, hcount⟩ := ih he' ht.2
    refine ⟨hend, ?_, ?_⟩
    · simp only [answers, List.mem_append, Option.mem_toList, not_or]
      exact ⟨hp, hprobe⟩
    · simp only [answers, List.countP_append, run_cons]
      omega

/-- In a history that ends before its window does, what is left never grows, nobody probes, the slots
given and what is left in the end are at most what was left in the beginning, and every slot is taken
from a positive number. -/
theorem live_window_bounds_slots {h : History} (he : w.HasEnd) (ht : w.InTime h) :
    (∀ h₁ h₂ h₃, h = h₁ ++ h₂ ++ h₃ → (w.run (h₁ ++ h₂)).remaining ≤ (w.run h₁).remaining) ∧
    .proceed true ∉ w.answers h ∧
    (w.answers h).countP Slot.isProceed + (w.run h).remaining ≤ w.remaining ∧
    ∀ h₁ now h₂, h = h₁ ++ (now, .reserve) :: h₂ → ((w.run h₁).reserve now).2.isProceed →
      ((w.run h₁).reserve now).1.remaining + 1 = (w.run h₁).remaining := by
  obtain ⟨-, hprobe, hcount⟩ := run_of_hasEnd he ht
  refine ⟨?_, hprobe, hcount, ?_⟩
  · intro h₁ h₂ h₃ heq
    rw [heq, inTime_append, inTime_append] at ht
    have he₁ := (run_of_hasEnd he ht.1.1).1
    have hle := (run_of_hasEnd he₁ ht.1.2).2.2
    rw [run_append]
    omega
  · intro h₁ now h₂ heq hs
    rw [heq, inTime_append] at ht
    have he₁ := (run_of_hasEnd he ht.1).1
    rcases reserve_of_hasEnd he₁ ht.2.1 with ⟨till, -, h⟩ | ⟨hl, h⟩
    · simp [h, Slot.isProceed] at hs
    · rw [h]
      exact Nat.sub_add_cancel hl

/-- A late response that reports more than is left, and an earlier end, gives nothing back. -/
theorem slots_after_late_response :
    let w : Window := { phase := .tracking, remaining := 2, resetAt := some 10 }
    let h : History := [(1, .reserve), (2, .record { remaining := some 5, resetAfter := some 3 }),
      (3, .reserve), (4, .reserve)]
    w.HasEnd ∧ w.InTime h ∧ .proceed true ∉ w.answers h ∧
      (w.answers h).countP Slot.isProceed + (w.run h).remaining ≤ w.remaining := by
  intro w h
  have he : w.HasEnd := by decide
  have ht : w.InTime h := by decide
  obtain ⟨-, hprobe, hcount, -⟩ := live_window_bounds_slots he ht
  exact ⟨he, ht, hprobe, hcount⟩

end ChatApi.Limit.Window
