import ChatApi.Proofs.Limit.Closing

/-!
# How long a refusal holds

A refusal closes a window until an end of its own. Responses to requests that were sent before may still
come in; nothing that they report is given back, but an end that they name takes the place of the one that
the refusal set, be it earlier or later. `Window.endAfter` is the end that was named last, and decides when
the window opens again (`refused_until_end_named_last`).
-/

namespace ChatApi.Limit.Window

/-- The end that an operation names for its window. -/
def Op.end? (now : Instant) : Op → Option Instant
  | .reserve => none
  | .record r => r.resetAt now
  | .exhaust wait => some (now + wait)

/-- The end of a window that was to end at `till`, as it was named last in a history. -/
def endAfter (till : Instant) (h : History) : Instant :=
  h.foldl (fun till e => (e.2.end? e.1).getD till) till

/-- Every operation comes before the end that was named last by then. -/
def Early : Instant → History → Prop
  | _, [] => True
  | till, (now, op) :: h => now < till ∧ Early ((op.end? now).getD till) h

instance decidableEarly : (till : Instant) → (h : History) → Decidable (Early till h)
  | _, [] => isTrue trivial
  | till, (now, op) :: h =>
    have := decidableEarly ((op.end? now).getD till) h
    inferInstanceAs (Decidable (_ ∧ _))

variable {w : Window} {now till : Instant} {h : History}

/-- A response that names an end reports on the budget. -/
theorem isTracked_of_resetAt {r : Report} (hr : r.resetAt now = some till) : r.isTracked := by
  obtain ⟨wait, hwait, -⟩ := Option.map_eq_some_iff.1 hr
  simp [Report.isTracked, hwait]

/-- Whatever happens to a closed window before its end, it stays closed until the end that is named last. -/
theorem ClosedUntil.apply (hw : w.ClosedUntil till) (hlt : now < till) (op : Op) :
    (w.apply now op).1.ClosedUntil ((op.end? now).getD till) ∧ ∀ a ∈ (w.apply now op).2, a = .wait till := by
  cases op with
  | reserve =>
    simp only [Window.apply, reserve_of_spent hw.known hw.ends hlt hw.spent, Option.mem_some_iff]
    exact ⟨⟨isKnown_iff.2 (.inr rfl), hw.spent, hw.ends⟩, fun a ha => ha.symm⟩
  | exhaust wait => exact ⟨closedUntil_exhaust w now wait, by simp [Window.apply]⟩
  | record r =>
    refine ⟨?_, by simp [Window.apply]⟩
    show (w.record now r).ClosedUntil ((r.resetAt now).getD till)
    cases hr : r.isTracked with
    | true =>
      -- within a live window nothing is given back
      have hlive : w.isLive now := by simp [isLive, hw.known, hw.ends, hlt]
      have hleft : w.leftAfter now r = 0 := by simp [leftAfter, hlive, hw.spent]
      rw [record_tracked w now hr, hleft]
      refine ⟨isKnown_iff.2 (.inr rfl), rfl, ?_⟩
      rw [hw.ends]
      cases r.resetAt now <;> rfl
    | false =>
      have hend : r.resetAt now = none :=
        Option.eq_none_iff_forall_ne_some.2 fun till' he => by
          rw [isTracked_of_resetAt he] at hr
          cases hr
      have hfresh : w.phase ≠ .fresh := by
        rcases isKnown_iff.1 hw.known with hp | hp <;> simp [hp]
      rw [record_untracked w now hr, hend, if_neg hfresh]
      exact ⟨hw.known, hw.spent, hw.ends⟩

/-- A closed window stays closed through a history of which everything comes early. -/
theorem ClosedUntil.run (hw : w.ClosedUntil till) (hearly : Early till h) :
    (w.run h).ClosedUntil (endAfter till h) ∧ ∀ a ∈ w.answers h, ∃ till, a = .wait till := by
  induction h generalizing w till with
  | nil => exact ⟨hw, by simp [answers]⟩
  | cons e h ih =>
    obtain ⟨now, op⟩ := e
    obtain ⟨hw', hanswer⟩ := hw.apply hearly.1 op
    obtain ⟨hclosed, hrest⟩ := ih hw' hearly.2
    refine ⟨hclosed, fun a ha => ?_⟩
    simp only [answers, List.mem_append, Option.mem_toList] at ha
    rcases ha with ha | ha
    · exact ⟨till, hanswer a ha⟩
    · exact hrest a ha

/-- Who asks a closed window at its end or later probes the next one. -/
theorem ClosedUntil.reserve_late (hw : w.ClosedUntil till) (hle : till ≤ now) :
    (w.reserve now).2 = .proceed true := by
  have hover : w.isOver now = true := by simp [isOver, hw.ends, hle]
  rcases isKnown_iff.1 hw.known with hp | hp <;> simp [Window.reserve, hp, hover]

/-- Where no end before `till` is named, whatever comes before `till` comes early. -/
theorem early_of_no_end_before {start : Instant} (hle : till ≤ start) (hlt : ∀ e ∈ h, e.1 < till)
    (hend : ∀ e ∈ h, ∀ named ∈ e.2.end? e.1, till ≤ named) : Early start h := by
  induction h generalizing start with
  | nil => trivial
  | cons e h ih =>
    refine ⟨Nat.lt_of_lt_of_le (hlt e (List.mem_cons_self ..)) hle, ih ?_
      (fun f hf => hlt f (List.mem_cons_of_mem _ hf)) fun f hf => hend f (List.mem_cons_of_mem _ hf)⟩
    cases he : e.2.end? e.1 with
    | none => exact hle
    | some named => exact hend e (List.mem_cons_self ..) named he

/-- After a refusal nobody goes ahead before its wait is over, as long as no response that comes in
meanwhile names an earlier end. In general whoever asks is told to wait for the end that was named last, and
the first to ask at that end or later probes, even if the wait that the refusal asked for is not over. -/
theorem refused_until_end_named_last (w : Window) (now : Instant) (wait : Span) (h : History) :
    ((∀ e ∈ h, e.1 < now + wait) → (∀ e ∈ h, ∀ named ∈ e.2.end? e.1, now + wait ≤ named) →
      ∀ a ∈ (w.exhaust now wait).answers h, a.isProceed = false) ∧
    (Early (now + wait) h → ∀ t, (((w.exhaust now wait).run h).reserve t).2 =
      if t < endAfter (now + wait) h then .wait (endAfter (now + wait) h) else .proceed true) := by
  have hclosed := closedUntil_exhaust w now wait
  refine ⟨fun hlt hend a ha => ?_, fun hearly t => ?_⟩
  · have hearly := early_of_no_end_before (Nat.le_refl _) hlt hend
    obtain ⟨till, rfl⟩ := (hclosed.run hearly).2 a ha
    rfl
  · have hend := (hclosed.run hearly).1
    split
    · exact hend.reserve ‹_›
    · exact hend.reserve_late (Nat.le_of_not_lt ‹_›)

/-- A later end that a late response names is waited for, and the refused window opens no sooner. -/
theorem refused_window_waits_for_later_end :
    let w : Window := { phase := .tracking, limit := some 5, remaining := 2, resetAt := some 10 }
    let h : History := [(2, .record { remaining := some 4, resetAfter := some 7 }), (5, .reserve)]
    (∀ a ∈ (w.exhaust 1 5).answers h, a.isProceed = false) ∧
      (((w.exhaust 1 5).run h).reserve 8).2 = .wait 9 := by
  intro w h
  obtain ⟨hheld, hlook⟩ := refused_until_end_named_last w 1 5 h
  have hlt : ∀ e ∈ h, e.1 < 1 + 5 := by decide
  have hend : ∀ e ∈ h, ∀ named ∈ e.2.end? e.1, 1 + 5 ≤ named := by decide
  exact ⟨hheld hlt hend, hlook (by decide) 8⟩

/-- Two requests are out when the response to one of them refuses it for five seconds; the response to the
other names an end after one second, and a request goes ahead as soon as that is over. -/
theorem late_response_reopens_refused_window :
    let w : Window := ({} : Window).run [(0, .reserve),
      (0, .record { limit := some 5, remaining := some 4, resetAfter := some (10 * Span.second) }),
      (0, .reserve), (0, .reserve)]
    (w.exhaust 0 (5 * Span.second)).answers
        [(0, .record { limit := some 5, remaining := some 2, resetAfter := some Span.second }),
          (Span.second, .reserve)] = [.proceed true] ∧
      Span.second < 0 + 5 * Span.second := by
  decide

end ChatApi.Limit.Window
