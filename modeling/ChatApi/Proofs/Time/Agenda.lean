import ChatApi.Time.Agenda
import ChatApi.Proofs.Kept

/-!
# Some tasks of an agenda

`Agenda.Part p a b` says that `b` is what `a` is to the tasks that `p` says: their alarms, and which of them
are ready, in the same order. What is done for one of these tasks is done to both, what is done for any
other to `a` alone. `Agenda.Timely` says that alarms go off at whole milliseconds that are still to come.
-/

namespace ChatApi.Agenda

variable {τ : Type} {p : τ → Bool} {a b : Agenda τ} {due till target : Instant}

/-! ### Parts -/

/-- In `b` is left what concerns the tasks that `p` says in `a`. -/
structure Part (p : τ → Bool) (a b : Agenda τ) : Prop where
  alarms : b.alarms = a.alarms.filter (p ·.task)
  ready : b.ready = a.ready.filter p

variable [DecidableEq τ]

theorem Part.wake (h : Part p a b) (task : τ) : Part p (a.wake task) (if p task then b.wake task else b) := by
  have hready : task ∈ b.ready ↔ task ∈ a.ready ∧ p task := by rw [h.ready, List.mem_filter]
  unfold Agenda.wake
  by_cases hp : p task
  · by_cases hmem : task ∈ a.ready
    · simpa [hmem, hready, hp] using h
    · rw [if_neg hmem, if_pos hp, if_neg fun hb => hmem (hready.1 hb).1]
      exact ⟨h.alarms, by simp [h.ready, hp]⟩
  · rw [if_neg hp]
    split
    · exact h
    · exact ⟨h.alarms, by simp [h.ready, hp]⟩

theorem Part.wakeAll (h : Part p a b) (tasks : List τ) : Part p (a.wakeAll tasks) (b.wakeAll (tasks.filter p)) := by
  induction tasks generalizing a b with
  | nil => exact h
  | cons task tasks ih =>
    have hwake := ih (h.wake task)
    by_cases hp : p task
    · simpa [Agenda.wakeAll, hp] using hwake
    · simpa [Agenda.wakeAll, hp] using hwake

theorem Part.unset (h : Part p a b) (task : τ) (purpose : Purpose) :
    Part p (a.unset task purpose) (if p task then b.unset task purpose else b) := by
  by_cases hp : p task
  · rw [if_pos hp]
    exact ⟨by rw [Agenda.unset, Agenda.unset, h.alarms, List.filter_comm], h.ready⟩
  · rw [if_neg hp]
    refine ⟨h.alarms.trans (filter_filter_of_imp fun x _ hx => ?_).symm, h.ready⟩
    have hne : x.task ≠ task := fun he => hp (he ▸ hx)
    simp [hne]

theorem Part.set (h : Part p a b) (task : τ) (purpose : Purpose) (till : Instant) :
    Part p (a.set task purpose till) (if p task then b.set task purpose till else b) := by
  have hunset := h.unset task purpose
  by_cases hp : p task
  · rw [if_pos hp] at hunset ⊢
    exact ⟨by simp [Agenda.set, hunset.alarms, hp], hunset.ready⟩
  · rw [if_neg hp] at hunset ⊢
    exact ⟨by simp [Agenda.set, hunset.alarms, hp], hunset.ready⟩

theorem Part.forget (h : Part p a b) (task : τ) :
    Part p (a.forget task) (if p task then b.forget task else b) := by
  have halarms := filter_filter_ne Alarm.task p task a.alarms
  have hready := filter_filter_ne id p task a.ready
  by_cases hp : p task
  · rw [if_pos hp] at halarms hready ⊢
    exact ⟨(congrArg _ h.alarms).trans halarms.symm, (congrArg _ h.ready).trans hready.symm⟩
  · rw [if_neg hp] at halarms hready ⊢
    exact ⟨h.alarms.trans halarms.symm, h.ready.trans hready.symm⟩

theorem ring_eq (a : Agenda τ) (due : Instant) :
    a.ring due = { a with now := max a.now due, alarms := a.alarms.filter fun x => due < x.due }.wakeAll
      ((a.alarms.filter fun x : Alarm τ => x.due ≤ due).map Alarm.task) := by
  have hlater : (not ∘ fun x : Alarm τ => decide (x.due ≤ due)) = fun x => decide (due < x.due) := by
    funext x
    exact (decide_not (p := x.due ≤ due)).symm.trans (decide_eq_decide.2 Nat.not_le)
  simp only [ring, List.partition_eq_filter_filter, hlater]

/-- The clock moves, and alarms go off, in both alike. -/
theorem Part.ring (h : Part p a b) (due : Instant) : Part p (a.ring due) (b.ring due) := by
  rw [ring_eq, ring_eq]
  have hleft : Part p { a with now := max a.now due, alarms := a.alarms.filter fun x => due < x.due }
      { b with now := max b.now due, alarms := b.alarms.filter fun x => due < x.due } :=
    ⟨by rw [h.alarms, List.filter_comm], h.ready⟩
  have hoff : ((a.alarms.filter fun x => x.due ≤ due).map Alarm.task).filter p =
      (b.alarms.filter fun x => x.due ≤ due).map Alarm.task := by
    rw [h.alarms, List.filter_map, List.filter_comm]
    rfl
  rw [← hoff]
  exact hleft.wakeAll _

/-- Where no alarm goes off, only the clock moves. -/
theorem ring_of_later (h : ∀ x ∈ a.alarms, due < x.due) : a.ring due = { a with now := max a.now due } := by
  have hleft : (a.alarms.filter fun x => due < x.due) = a.alarms :=
    List.filter_eq_self.2 fun x hx => by simpa using h x hx
  have hoff : (a.alarms.filter fun x => x.due ≤ due) = [] :=
    List.filter_eq_nil_iff.2 fun x hx => by simpa using h x hx
  rw [ring_eq, hleft, hoff]
  rfl

theorem Part.ring_left (h : Part p a b) (hlater : ∀ x ∈ b.alarms, due < x.due) : Part p (a.ring due) b := by
  have hring := h.ring due
  rw [ring_of_later hlater] at hring
  exact ⟨hring.alarms, hring.ready⟩

theorem alarms_wakeAll (a : Agenda τ) (tasks : List τ) : (a.wakeAll tasks).alarms = a.alarms := by
  induction tasks generalizing a with
  | nil => rfl
  | cons task tasks ih =>
    refine (ih (a.wake task)).trans ?_
    unfold wake
    split <;> rfl

theorem now_wake (a : Agenda τ) (task : τ) : (a.wake task).now = a.now := by
  unfold wake
  split <;> rfl

theorem now_wakeAll (a : Agenda τ) (tasks : List τ) : (a.wakeAll tasks).now = a.now := by
  induction tasks generalizing a with
  | nil => rfl
  | cons task tasks ih => exact (ih (a.wake task)).trans (now_wake a task)

theorem mem_ready_wake {task other : τ} : other ∈ (a.wake task).ready ↔ other ∈ a.ready ∨ other = task := by
  unfold wake
  split
  · rename_i hmem
    exact ⟨.inl, fun h => h.elim id fun he => he ▸ hmem⟩
  · simp

/-- Who is woken is ready, and who was ready stays so. -/
theorem mem_ready_wakeAll {tasks : List τ} {other : τ} :
    other ∈ (a.wakeAll tasks).ready ↔ other ∈ a.ready ∨ other ∈ tasks := by
  induction tasks generalizing a with
  | nil => simp [wakeAll]
  | cons task tasks ih =>
    have hcons : a.wakeAll (task :: tasks) = (a.wake task).wakeAll tasks := rfl
    rw [hcons, ih, mem_ready_wake, or_assoc, List.mem_cons]

theorem length_ready_wakeAll (a : Agenda τ) (tasks : List τ) :
    (a.wakeAll tasks).ready.length ≤ a.ready.length + tasks.length := by
  induction tasks generalizing a with
  | nil => exact Nat.le_refl _
  | cons task tasks ih =>
    have hwake : (a.wake task).ready.length ≤ a.ready.length + 1 := by
      unfold wake
      split <;> simp
    have := ih (a.wake task)
    rw [List.length_cons]
    show ((a.wake task).wakeAll tasks).ready.length ≤ _
    omega

/-! ### Alarms -/

/-- Alarms go off at whole milliseconds that are still to come. -/
def Timely (a : Agenda τ) : Prop := ∀ x ∈ a.alarms, a.now < x.due ∧ 1000000 ∣ x.due

omit [DecidableEq τ] in
theorem Timely.of_subset (h : a.Timely) (hnow : b.now ≤ a.now) (halarms : ∀ x ∈ b.alarms, x ∈ a.alarms) :
    b.Timely := by
  intro x hx
  obtain ⟨hlt, hwhole⟩ := h x (halarms x hx)
  exact ⟨Nat.lt_of_le_of_lt hnow hlt, hwhole⟩

theorem Timely.wakeAll (h : a.Timely) (tasks : List τ) : (a.wakeAll tasks).Timely :=
  h.of_subset (Nat.le_of_eq (now_wakeAll a tasks)) fun _ hx => alarms_wakeAll a tasks ▸ hx

theorem Timely.unset (h : a.Timely) (task : τ) (purpose : Purpose) : (a.unset task purpose).Timely :=
  h.of_subset (Nat.le_refl _) fun _ hx => (List.mem_filter.1 hx).1

theorem Timely.forget (h : a.Timely) (task : τ) : (a.forget task).Timely :=
  h.of_subset (Nat.le_refl _) fun _ hx => (List.mem_filter.1 hx).1

theorem Timely.set (h : a.Timely) (task : τ) (purpose : Purpose) (hlt : a.now < till) :
    (a.set task purpose till).Timely := by
  intro x hx
  rcases List.mem_append.1 hx with hx | hx
  · exact h.unset task purpose x hx
  · cases List.mem_singleton.1 hx
    exact ⟨Nat.lt_of_lt_of_le hlt (le_wholeMillis till), Nat.dvd_mul_left ..⟩

theorem Timely.ring (h : a.Timely) (hle : a.now ≤ due) : (a.ring due).Timely := by
  rw [ring_eq]
  refine Timely.wakeAll (fun x hx => ?_) _
  obtain ⟨hx, hlt⟩ := List.mem_filter.1 hx
  refine ⟨?_, (h x hx).2⟩
  show max a.now due < x.due
  rw [Nat.max_eq_right hle]
  simpa using hlt

theorem now_ring (a : Agenda τ) (due : Instant) : (a.ring due).now = max a.now due := by
  rw [ring_eq, now_wakeAll]

omit [DecidableEq τ] in
theorem now_of_pop? {task : τ} (h : a.pop? = some (task, b)) : b.now = a.now := by
  unfold pop? at h
  split at h
  · cases h
  · cases h
    rfl

/-! ### The next alarm -/

omit [DecidableEq τ]

theorem next?_eq_some_iff : a.next? = some due ↔ (∃ x ∈ a.alarms, x.due = due) ∧ ∀ x ∈ a.alarms, due ≤ x.due := by
  simp [next?, List.min?_eq_some_iff]

/-- No alarm goes off until the target. -/
theorem next?_filter_eq_none_iff :
    a.next?.filter (· ≤ target) = none ↔ ∀ x ∈ a.alarms, target < x.due := by
  cases hn : a.next? with
  | none =>
    have hempty : a.alarms = [] := by simpa [next?] using hn
    simp [hempty]
  | some due =>
    obtain ⟨⟨x, hx, rfl⟩, hleast⟩ := next?_eq_some_iff.1 hn
    rw [Option.filter_eq_none_iff]
    refine ⟨fun h y hy => ?_, fun h y hy => ?_⟩
    · have := h x.due rfl
      exact Nat.lt_of_lt_of_le (by simpa using this) (hleast y hy)
    · cases hy
      simpa using h x hx

theorem next?_filter_eq_some_iff : a.next?.filter (· ≤ target) = some due ↔
    (∃ x ∈ a.alarms, x.due = due) ∧ (∀ x ∈ a.alarms, due ≤ x.due) ∧ due ≤ target := by
  rw [Option.filter_eq_some_iff, next?_eq_some_iff, and_assoc, decide_eq_true_iff]

/-- The next alarm of a part comes no sooner, and just then if one of the part goes off then. -/
theorem Part.next?_filter (h : Part p a b) (hn : a.next?.filter (· ≤ target) = some due) :
    b.next?.filter (· ≤ target) = some due ∨ ∀ x ∈ b.alarms, due < x.due := by
  obtain ⟨-, hleast, hle⟩ := next?_filter_eq_some_iff.1 hn
  have hmem (x : Alarm τ) (hx : x ∈ b.alarms) : due ≤ x.due :=
    hleast x (List.mem_filter.1 (h.alarms ▸ hx)).1
  by_cases hdue : ∃ x ∈ b.alarms, x.due = due
  · exact .inl (next?_filter_eq_some_iff.2 ⟨hdue, hmem, hle⟩)
  · exact .inr fun x hx => Nat.lt_of_le_of_ne (hmem x hx) fun he => hdue ⟨x, hx, he.symm⟩

theorem Part.next?_filter_of_none (h : Part p a b) (hn : a.next?.filter (· ≤ target) = none) :
    b.next?.filter (· ≤ target) = none :=
  next?_filter_eq_none_iff.2 fun x hx => next?_filter_eq_none_iff.1 hn x (List.mem_filter.1 (h.alarms ▸ hx)).1

end ChatApi.Agenda
