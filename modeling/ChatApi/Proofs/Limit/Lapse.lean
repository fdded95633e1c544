import ChatApi.Proofs.Limit.History

/-!
# When a bucket counts as unlimited

A bucket whose responses say nothing about limits is untracked, and lets everybody through. That it was
told of a budget before does not keep it from becoming so: a known window that a request finds over is
fresh again, like that of a bucket never used, and a bare response to a fresh window makes it untracked.

`Lapsed` describes such a history. `untracked_unless_lapsed` says that there is no other way: an untracked
bucket was never told of a budget, or else its history lapsed.
-/

namespace ChatApi.Limit.Window

/-- Whether an operation tells of a budget: a refusal does, and so does a response with a limit, a count
of what is left, or a time until the reset. -/
def Op.informs : Op → Bool
  | .reserve => false
  | .record r => r.isTracked
  | .exhaust _ => true

/-- The bucket was told of a budget. -/
def Informed (h : History) : Prop := ∃ e ∈ h, e.2.informs

instance (h : History) : Decidable (Informed h) := inferInstanceAs (Decidable (∃ e ∈ h, _))

/-- There is nothing but requests for slots. -/
def AsksOnly (h : History) : Prop := ∀ e ∈ h, e.2 = .reserve

instance (h : History) : Decidable (AsksOnly h) := inferInstanceAs (Decidable (∀ e ∈ h, _))

/-- A request found a known window over, and no response came in since. -/
def Reopened (w : Window) (h : History) : Prop :=
  ∃ before now asks, h = before ++ (now, .reserve) :: asks ∧
    ((w.run before).isKnown ∧ (w.run before).isOver now) ∧ AsksOnly asks

/-- The first response after a known window was found over is bare, and nothing tells of a budget since. -/
def Lapsed (w : Window) (h : History) : Prop :=
  ∃ opened later r after, h = opened ++ (later, .record r) :: after ∧ Reopened w opened ∧
    r.isTracked = false ∧ ¬ Informed after

variable {w : Window} {now : Instant} {op : Op} {h : History}

theorem informed_append {h₁ h₂ : History} : Informed (h₁ ++ h₂) ↔ Informed h₁ ∨ Informed h₂ := by
  simp only [Informed, List.mem_append, or_and_right, exists_or]

theorem informed_cons {e : Instant × Op} : Informed (e :: h) ↔ e.2.informs ∨ Informed h := by
  simp [Informed]

theorem AsksOnly.not_informed (ha : AsksOnly h) : ¬ Informed h := by
  rintro ⟨e, he, hi⟩
  rw [ha e he] at hi
  cases hi

/-! ### One operation -/

/-- A request opens a known window again if it is over, and changes the phase of no other but from one
known phase to the other. -/
theorem phase_reserve (w : Window) (now : Instant) :
    (w.isKnown ∧ w.isOver now) ∧ (w.reserve now).1.phase = .fresh ∨
    (w.isKnown ∧ w.isOver now = false) ∧ (w.reserve now).1.isKnown ∨
    w.isKnown = false ∧ (w.reserve now).1 = w := by
  have hres := w.reserves now
  generalize w.reserve now = x at hres
  cases hres with
  | fresh phase | untracked phase => exact .inr (.inr ⟨by simp [isKnown, phase], rfl⟩)
  | reopens known past => exact .inl ⟨⟨known, past⟩, rfl⟩
  | spends known on left =>
    refine .inr (.inl ⟨⟨known, on⟩, ?_⟩)
    unfold spend
    dsimp only
    split
    · rfl
    · exact known
  | waits known spent ends ahead =>
    have on : w.isOver now = false := by simp [isOver, ends, ahead]
    exact .inr (.inl ⟨⟨known, on⟩, rfl⟩)

theorem isKnown_iff_phase_ne : w.isKnown ↔ w.phase ≠ .fresh ∧ w.phase ≠ .untracked := by
  rw [isKnown_iff]
  cases w.phase <;> decide

theorem isKnown_record {r : Report} (hr : r.isTracked) : (w.record now r).isKnown := by
  rw [record_tracked w now hr]
  dsimp only [isKnown]
  split <;> rfl

/-- A window becomes fresh only by a request that finds it over, and stays so only as long as nothing but
requests come. -/
theorem phase_apply_eq_fresh_iff : (w.apply now op).1.phase = .fresh ↔
    op = .reserve ∧ (w.phase = .fresh ∨ w.isKnown ∧ w.isOver now) := by
  cases op with
  | reserve =>
    simp only [apply, true_and]
    rcases phase_reserve w now with ⟨hover, hf⟩ | ⟨⟨hk, ho⟩, hk'⟩ | ⟨hk, hw⟩
    · exact iff_of_true hf (.inr hover)
    · refine iff_of_false (isKnown_iff_phase_ne.1 hk').1 ?_
      rintro (hf | ⟨-, ho'⟩)
      · exact (isKnown_iff_phase_ne.1 hk).1 hf
      · simp [ho] at ho'
    · simp [hw, hk]
  | exhaust wait => simp [apply, exhaust]
  | record r =>
    simp only [reduceCtorEq, false_and, iff_false]
    cases hr : r.isTracked with
    | true => exact (isKnown_iff_phase_ne.1 (isKnown_record hr)).1
    | false =>
      simp only [apply, record_untracked w now hr]
      split
      · simp
      · assumption

/-- A window becomes untracked only by a bare response while it is fresh, and stays so only as long as it
is told of no budget. -/
theorem phase_apply_eq_untracked_iff : (w.apply now op).1.phase = .untracked ↔
    w.phase = .untracked ∧ op.informs = false ∨
      w.phase = .fresh ∧ ∃ r, op = .record r ∧ r.isTracked = false := by
  cases op with
  | exhaust wait => simp [apply, exhaust, Op.informs]
  | reserve =>
    simp only [apply, Op.informs, and_true, reduceCtorEq, false_and, exists_false, and_false, or_false]
    rcases phase_reserve w now with ⟨⟨hk, -⟩, hf⟩ | ⟨⟨hk, -⟩, hk'⟩ | ⟨-, hw⟩
    · simp [hf, (isKnown_iff_phase_ne.1 hk).2]
    · exact iff_of_false (isKnown_iff_phase_ne.1 hk').2 (isKnown_iff_phase_ne.1 hk).2
    · rw [hw]
  | record r =>
    cases hr : r.isTracked with
    | true =>
      simpa [apply, Op.informs, hr] using (isKnown_iff_phase_ne.1 (isKnown_record hr)).2
    | false =>
      simp only [apply, record_untracked w now hr]
      split <;> simp [Op.informs, *]

/-- Only what tells of a budget makes a window known. -/
theorem isKnown_of_apply (hk : (w.apply now op).1.isKnown) : w.isKnown ∨ op.informs := by
  obtain ⟨hfresh, huntracked⟩ := isKnown_iff_phase_ne.1 hk
  rw [ne_eq, phase_apply_eq_fresh_iff] at hfresh
  rw [ne_eq, phase_apply_eq_untracked_iff] at huntracked
  cases hi : op.informs with
  | true => exact .inr rfl
  | false =>
    refine .inl (isKnown_iff_phase_ne.2 ⟨fun hf => ?_, fun hu => huntracked (.inl ⟨hu, hi⟩)⟩)
    cases op with
    | exhaust wait => cases hi
    | reserve => exact hfresh ⟨rfl, .inl hf⟩
    | record r => exact huntracked (.inr ⟨hf, r, rfl, hi⟩)

/-! ### Histories -/

theorem informed_of_isKnown_run (hk : (w.run h).isKnown) : w.isKnown ∨ Informed h := by
  induction h generalizing w with
  | nil => exact .inl hk
  | cons e h ih =>
    rw [informed_cons]
    rcases ih hk with hk' | hi
    · exact (isKnown_of_apply hk').imp_right .inl
    · exact .inr (.inr hi)

theorem phase_run_of_asksOnly (hf : w.phase = .fresh) (ha : AsksOnly h) : (w.run h).phase = .fresh := by
  induction h generalizing w with
  | nil => exact hf
  | cons e h ih =>
    obtain ⟨now, op⟩ := e
    obtain ⟨hop, hrest⟩ := List.forall_mem_cons.1 ha
    exact ih (phase_apply_eq_fresh_iff.2 ⟨hop, .inl hf⟩) hrest

theorem Reopened.cons (hr : Reopened (w.apply now op).1 h) : Reopened w ((now, op) :: h) := by
  obtain ⟨before, moment, asks, rfl, hover, ha⟩ := hr
  exact ⟨(now, op) :: before, moment, asks, rfl, hover, ha⟩

/-- After a reopening the window is fresh. -/
theorem Reopened.phase_run (hr : Reopened w h) : (w.run h).phase = .fresh := by
  obtain ⟨before, now, asks, rfl, hover, ha⟩ := hr
  rw [run_append, run_cons]
  have hf : ((w.run before).apply now .reserve).1.phase = .fresh :=
    phase_apply_eq_fresh_iff.2 ⟨rfl, .inr hover⟩
  exact phase_run_of_asksOnly hf ha

/-- A window is fresh after a history only if it was so and nothing but requests came, or if it was
reopened. -/
theorem phase_run_eq_fresh (hf : (w.run h).phase = .fresh) :
    w.phase = .fresh ∧ AsksOnly h ∨ Reopened w h := by
  induction h generalizing w with
  | nil => exact .inl ⟨hf, by simp [AsksOnly]⟩
  | cons e h ih =>
    obtain ⟨now, op⟩ := e
    rcases ih hf with ⟨hbefore, ha⟩ | hr
    · obtain ⟨rfl, hw | hover⟩ := phase_apply_eq_fresh_iff.1 hbefore
      · exact .inl ⟨hw, by simpa [AsksOnly] using ha⟩
      · exact .inr ⟨[], now, h, rfl, hover, ha⟩
    · exact .inr hr.cons

/-- A window is untracked after a history only if it was so and was told of no budget, or if a bare
response came in while it was fresh, and it was told of none since. -/
theorem phase_run_eq_untracked (hu : (w.run h).phase = .untracked) :
    w.phase = .untracked ∧ ¬ Informed h ∨
      ∃ opened later r after, h = opened ++ (later, .record r) :: after ∧
        (w.run opened).phase = .fresh ∧ r.isTracked = false ∧ ¬ Informed after := by
  induction h generalizing w with
  | nil => exact .inl ⟨hu, by simp [Informed]⟩
  | cons e h ih =>
    obtain ⟨now, op⟩ := e
    rcases ih hu with ⟨hbefore, hn⟩ | ⟨opened, later, r, after, rfl, hf, hr, hn⟩
    · rcases phase_apply_eq_untracked_iff.1 hbefore with ⟨hw, hi⟩ | ⟨hw, r, rfl, hr⟩
      · exact .inl ⟨hw, by simp [informed_cons, hi, hn]⟩
      · exact .inr ⟨[], now, r, h, rfl, hw, hr, hn⟩
    · exact .inr ⟨(now, op) :: opened, later, r, after, rfl, hf, hr, hn⟩

/-- Until it is told of a budget, an untracked bucket stays so and lets everybody through. -/
theorem run_of_untracked (hu : w.phase = .untracked) (hn : ¬ Informed h) :
    (w.run h).phase = .untracked ∧ ∀ a ∈ w.answers h, a = .proceed false := by
  induction h generalizing w with
  | nil => exact ⟨hu, by simp [answers]⟩
  | cons e h ih =>
    obtain ⟨now, op⟩ := e
    rw [informed_cons, not_or, Bool.not_eq_true] at hn
    obtain ⟨hphase, hrest⟩ := ih (phase_apply_eq_untracked_iff.2 (.inl ⟨hu, hn.1⟩)) hn.2
    refine ⟨hphase, fun a ha => ?_⟩
    simp only [answers, List.mem_append, Option.mem_toList] at ha
    rcases ha with ha | ha
    · cases op with
      | reserve => simpa [apply, reserve, hu] using ha.symm
      | record r => simp [apply] at ha
      | exhaust wait => simp [apply] at ha
    · exact hrest a ha

theorem Lapsed.phase_run (hl : Lapsed w h) : (w.run h).phase = .untracked := by
  obtain ⟨opened, later, r, after, rfl, hopened, hr, hn⟩ := hl
  rw [run_append, run_cons]
  have hu : ((w.run opened).apply later (.record r)).1.phase = .untracked :=
    phase_apply_eq_untracked_iff.2 (.inr ⟨hopened.phase_run, r, rfl, hr⟩)
  exact (run_of_untracked hu hn).1

/-- A window that is known was told of a budget, be it over or not. -/
theorem Lapsed.informed (hl : Lapsed {} h) : Informed h := by
  obtain ⟨opened, later, r, after, rfl, ⟨before, now, asks, rfl, hover, -⟩, -, -⟩ := hl
  have hi : Informed before := (informed_of_isKnown_run hover.1).resolve_left (by decide)
  exact informed_append.2 (.inl (informed_append.2 (.inl hi)))

/-- Unless its history lapsed, an untracked bucket was never told of a budget. The histories that lapsed
are exactly those after which a bucket that was told of one is untracked, and lets everybody through until
it is told of one again. -/
theorem untracked_unless_lapsed (h : History) :
    (¬ Lapsed {} h → (({} : Window).run h).phase = .untracked → ¬ Informed h) ∧
    ((({} : Window).run h).phase = .untracked ∧ Informed h ↔ Lapsed {} h) ∧
    ((({} : Window).run h).phase = .untracked → ∀ h', ¬ Informed h' →
      ∀ a ∈ (({} : Window).run h).answers h', a = .proceed false) := by
  have hlapsed (hu : (({} : Window).run h).phase = .untracked) (hi : Informed h) : Lapsed {} h := by
    rcases phase_run_eq_untracked hu with ⟨hw, -⟩ | ⟨opened, later, r, after, rfl, hf, hr, hn⟩
    · cases hw
    · refine ⟨opened, later, r, after, rfl, (phase_run_eq_fresh hf).resolve_left ?_, hr, hn⟩
      -- what told of the budget came before the bare response, so not only requests did
      rintro ⟨-, ha⟩
      rcases informed_append.1 hi with hi | hi
      · exact ha.not_informed hi
      · rcases informed_cons.1 hi with hi | hi
        · exact Bool.false_ne_true (hr.symm.trans hi)
        · exact hn hi
  exact ⟨fun hl hu hi => hl (hlapsed hu hi), ⟨fun ⟨hu, hi⟩ => hlapsed hu hi, fun hl => ⟨hl.phase_run, hl.informed⟩⟩,
    fun hu h' hn => (run_of_untracked hu hn).2⟩

/-- A bucket that only bare responses were recorded on is untracked, and its history did not lapse. -/
theorem bare_responses_only :
    let h : History := [(0, .reserve), (1, .record {}), (2, .reserve), (2, .reserve), (3, .record { bucket := some "x" })]
    ¬ Lapsed {} h ∧ (({} : Window).run h).phase = .untracked ∧ ¬ Informed h ∧
      ∀ a ∈ (({} : Window).run h).answers [(4, .reserve), (4, .reserve)], a = .proceed false := by
  intro h
  have hl : ¬ Lapsed {} h := fun hl => absurd hl.informed (by decide)
  have hu : (({} : Window).run h).phase = .untracked := by decide
  obtain ⟨hnever, -, hfree⟩ := untracked_unless_lapsed h
  exact ⟨hl, hu, hnever hl hu, hfree hu _ (by decide)⟩

/-- One request a second is allowed. The response to the first request of the second window is bare, and
two requests go ahead at once. -/
theorem bare_probe_lifts_limit :
    let h : History := [(0, .reserve),
      (0, .record { limit := some 1, remaining := some 0, resetAfter := some Span.second }),
      (Span.second, .reserve), (Span.second, .record {})]
    (({} : Window).run h).phase = .untracked ∧ Informed h ∧
      (({} : Window).run h).answers [(Span.second, .reserve), (Span.second, .reserve)] =
        [.proceed false, .proceed false] := by
  decide

end ChatApi.Limit.Window
