import ChatApi.Proofs.Limit.Budget
import ChatApi.Proofs.Limit.Course

/-!
# Folded routes

Two routes that lead to one bucket spend its budget: while its window goes on, no more tickets are
issued there than it has left (`run_of_folded`). A caller that was waiting at the bucket which its route
had before still gets its ticket there, and that ticket is not paid for from the budget. So the two
routes together get no more tickets than the window has left, but for those of such callers.

Main theorem: `folded_routes_spend_one_budget`; `left_behind_spends_another_budget` is a caller that was
left behind.
-/

namespace ChatApi.Limit

variable {x y : Site} {now : Instant} {e : Event} {g : Option Caller} {c : Caller}

/-! ### At one bucket -/

theorem Site.window_look : (x.look now c).window =
    if x.gate.isUp c now then (x.window.reserve now).1 else x.window := by
  unfold look
  split
  · cases x.window.reserve now with
    | mk window slot =>
      cases slot with
      | wait till => rfl
      | proceed isProbe => cases isProbe <;> rfl
  · rfl

/-- Whoever is let through while the window goes on is paid for from what is left. -/
theorem Touch.spends (h : Touch x now e y g) (he : x.window.HasEnd) (ht : x.window.resetAt.all (now < ·)) :
    y.window.HasEnd ∧ g.toList.length + y.window.remaining ≤ x.window.remaining := by
  cases h with
  | @visit c hc isNew =>
    have hwindow : (x.arrive isNew c).window = x.window := by cases isNew <;> rfl
    obtain ⟨hend, -, hle⟩ := Window.apply_of_hasEnd he ht .reserve
    simp only [Window.apply, Option.toList_some, List.countP_singleton] at hend hle
    rw [Site.window_look, hwindow]
    cases hu : (x.arrive isNew c).gate.isUp c now with
    | false =>
      have hl : (x.arrive isNew c).lets now c = false := by simp [Site.lets, hu]
      simp only [hl]
      exact ⟨he, by simp⟩
    | true =>
      have hl : (x.arrive isNew c).lets now c = (x.window.reserve now).2.isProceed := by
        simp [Site.lets, hu, hwindow]
      rw [hl, if_pos rfl]
      refine ⟨hend, ?_⟩
      cases hs : (x.window.reserve now).2.isProceed with
      | true => simpa [hs] using hle
      | false => simpa [hs] using hle
  | settle op _ c hc =>
    have hwindow : (x.settle now op c).window = (x.settle now op none).window := by cases c <;> rfl
    rw [hwindow]
    cases op with
    | none => exact ⟨he, by simp [Site.settle]⟩
    | some op =>
      obtain ⟨hend, -, hle⟩ := Window.apply_of_hasEnd he ht op
      refine ⟨hend, ?_⟩
      show 0 + (x.window.apply now op).1.remaining ≤ x.window.remaining
      omega

/-! ### Two routes -/

/-- What is wanted is a slot on one of two routes. -/
def Wanted.isOn (k₁ k₂ : RouteKey) : Wanted → Bool
  | .route key _ => key = k₁ || key = k₂
  | .account => false

/-- The ticket has a slot of a bucket and is for one of two routes. Exempt requests need no slot. -/
def Ticket.spends (k₁ k₂ : RouteKey) (t : Ticket) : Bool := t.bucket.isSome && t.wanted.isOn k₁ k₂

namespace Limits

/-- At each of the events both routes lead to bucket `i`, and its window goes on. -/
def Folded (k₁ k₂ : RouteKey) (i : Nat) : Limits → List (Instant × Event) → Prop
  | _, [] => True
  | s, (now, e) :: es =>
    s.routes.get? k₁ = some i ∧ s.routes.get? k₂ = some i ∧
      (s.site i).window.resetAt.all (now < ·) ∧ Folded k₁ k₂ i (s.step now e).1 es

instance decidableFolded (k₁ k₂ : RouteKey) (i : Nat) :
    (s : Limits) → (es : List (Instant × Event)) → Decidable (s.Folded k₁ k₂ i es)
  | _, [] => isTrue trivial
  | s, (now, e) :: es =>
    have := decidableFolded k₁ k₂ i (s.step now e).1 es
    inferInstanceAs (Decidable (_ ∧ _ ∧ _ ∧ _))

/-- The caller of a ticket waits at the bucket where it gets it, which is not the one that its route has
been folded onto. -/
def LeftBehind (s : Limits) (i : Nat) (t : Ticket) : Prop :=
  ∃ p ∈ s.pending, p.caller = t.caller ∧ p.wanted = t.wanted ∧
    ∃ j, j ≠ i ∧ p.stage = .bucket j ∧ t.bucket = some j

variable {s : Limits} {k₁ k₂ : RouteKey} {i j : Nat} {es : List (Instant × Event)} {t : Ticket}

theorem bucketFor_of_get? {key : RouteKey} (h : s.routes.get? key = some i) : (s.bucketFor key).1 = i := by
  simp [bucketFor, h]

/-- Whoever goes to a bucket from one of the two routes goes to the one that both lead to. -/
theorem Enters.eq_of_isOn {wanted : Wanted} (h : s.Enters now wanted j) (hw : wanted.isOn k₁ k₂)
    (h₁ : s.routes.get? k₁ = some i) (h₂ : s.routes.get? k₂ = some i) : j = i := by
  obtain ⟨key, scope, rfl, rfl, -⟩ := h
  simp only [Wanted.isOn, Bool.or_eq_true, decide_eq_true_eq] at hw
  rcases hw with rfl | rfl
  · exact bucketFor_of_get? h₁
  · exact bucketFor_of_get? h₂

/-- While the window of a bucket goes on, the tickets issued there are paid for from what is left. -/
theorem run_of_folded (he : (s.site i).window.HasEnd) (hf : s.Folded k₁ k₂ i es) :
    (s.issues es).countP (·.bucket = some i) + ((s.run es).site i).window.remaining ≤
      (s.site i).window.remaining := by
  induction es generalizing s with
  | nil => simp [issues, run]
  | cons x es ih =>
    obtain ⟨now, e⟩ := x
    obtain ⟨-, -, ht, hf⟩ := hf
    obtain ⟨hend, hle⟩ := (touches_step s now e i).spends he ht
    change ((s.issued now e).bind (·.callerAt i)).toList.length + _ ≤ _ at hle
    have hrest := ih hend hf
    have hticket : (s.issued now e).toList.countP (·.bucket = some i) ≤
        ((s.issued now e).bind (·.callerAt i)).toList.length := by
      cases s.issued now e with
      | none => simp
      | some t =>
        by_cases hb : t.bucket = some i
        · simp [Ticket.callerAt, hb]
        · simp [hb]
    simp only [issues, List.countP_append, run_cons]
    omega

/-- A ticket on the two routes that is issued elsewhere goes to a caller that was left behind there. -/
theorem leftBehind_of_folded (hm : SingleMinded s) (hf : s.Folded k₁ k₂ i es) (ht : t ∈ s.issues es)
    (hs : t.spends k₁ k₂) (hb : t.bucket ≠ some i) : s.LeftBehind i t := by
  simp only [Ticket.spends, Bool.and_eq_true] at hs
  induction es generalizing s with
  | nil => cases ht
  | cons x es ih =>
    obtain ⟨now, e⟩ := x
    obtain ⟨h₁, h₂, -, hf⟩ := hf
    rcases List.mem_append.1 ht with ht | ht
    · obtain ⟨p, hcaller, hwanted, hp, hway⟩ := issued_step (Option.mem_toList.1 ht)
      generalize hbucket : t.bucket = bucket at hway
      cases hway with
      | exempt key h => simp [hbucket] at hs
      | account h => simp [hbucket] at hs
      | waited j hstage =>
        have hj : j ≠ i := fun hj => hb (hj ▸ hbucket)
        have hp : p ∈ s.pending := hp.resolve_right (by simp [hstage])
        exact ⟨p, hp, hcaller, hwanted, j, hj, hstage, hbucket⟩
      | enters j h =>
        exact absurd (hbucket.trans (congrArg some ((hwanted ▸ h).eq_of_isOn hs.2 h₁ h₂))) hb
    · obtain ⟨p, hp, hcaller, hwanted, j, hj, hstage, hbucket⟩ := ih (singleMinded_step hm now e) hf ht
      rcases pending_step hm hp with hp | hp | ⟨j', hj', h⟩
      · exact ⟨p, hp, hcaller, hwanted, j, hj, hstage, hbucket⟩
      · simp [hstage] at hp
      · have : j = j' := Stage.bucket.inj (hstage.symm.trans hj')
        exact absurd (this.trans ((hwanted ▸ h).eq_of_isOn hs.2 h₁ h₂)) hj

/-- While two routes lead to one bucket and its window goes on, they get no more tickets together than
it has left and those of callers that were left behind at other buckets. So they spend one budget if
no caller of theirs waits anywhere but there. -/
theorem folded_routes_spend_one_budget (limit : Nat) (before : List (Instant × Event))
    (k₁ k₂ : RouteKey) (i : Nat) (es : List (Instant × Event))
    (he : (((ofLimit limit).run before).site i).window.HasEnd)
    (hf : ((ofLimit limit).run before).Folded k₁ k₂ i es) :
    let s := (ofLimit limit).run before
    (s.issues es).countP (·.spends k₁ k₂) ≤ (s.site i).window.remaining +
      (s.issues es).countP (fun t => t.spends k₁ k₂ && t.bucket ≠ some i) ∧
    (∀ t ∈ s.issues es, t.spends k₁ k₂ → t.bucket ≠ some i → s.LeftBehind i t) ∧
    ((∀ p ∈ s.pending, p.wanted.isOn k₁ k₂ → ∀ j, p.stage = .bucket j → j = i) →
      (s.issues es).countP (·.spends k₁ k₂) ≤ (s.site i).window.remaining) := by
  intro s
  have hm : SingleMinded s := singleMinded_run limit before
  have hpaid := run_of_folded (s := s) he hf
  have hsplit : (s.issues es).countP (·.spends k₁ k₂) ≤ (s.issues es).countP (·.bucket = some i) +
      (s.issues es).countP (fun t => t.spends k₁ k₂ && t.bucket ≠ some i) := by
    rw [List.countP_eq_countP_filter_add _ _ (fun t : Ticket => decide (t.bucket = some i)),
      List.countP_filter, List.countP_filter]
    simp only [← decide_not]
    refine Nat.add_le_add_right (List.countP_mono_left fun t _ h => ?_) _
    simp only [Bool.and_eq_true] at h
    exact h.2
  have hbehind (t : Ticket) (ht : t ∈ s.issues es) (hs : t.spends k₁ k₂) (hb : t.bucket ≠ some i) :
      s.LeftBehind i t := leftBehind_of_folded hm hf ht hs hb
  refine ⟨by omega, hbehind, fun hnone => ?_⟩
  have hzero : (s.issues es).countP (fun t => t.spends k₁ k₂ && t.bucket ≠ some i) = 0 := by
    rw [List.countP_eq_zero]
    intro t ht h
    simp only [Bool.and_eq_true, decide_eq_true_eq] at h
    obtain ⟨p, hp, -, hwanted, j, hj, hstage, -⟩ := hbehind t ht h.1 h.2
    have hon := h.1
    simp only [Ticket.spends, Bool.and_eq_true] at hon
    exact hj (hnone p hp (hwanted ▸ hon.2) j hstage)
  omega

/-- Two callers that come in after the fold share the one request that is left. -/
theorem folded_routes_share_last_slot :
    let pins : RouteKey := ⟨.get, "channels/1/pins"⟩
    let message : RouteKey := ⟨.get, "channels/1/messages/:message_id"⟩
    let oneLeft : Report :=
      { limit := some 5, remaining := some 1, resetAfter := some (10 * Span.second), bucket := some "shared" }
    let before := [(0, .arrive 1 (.route pins .routeOnly)), (0, .record 1 oneLeft),
      (0, .arrive 2 (.route message .routeOnly)), (0, .record 2 oneLeft)]
    let es := [(1, .arrive 3 (.route pins .routeOnly)), (2, .arrive 4 (.route message .routeOnly))]
    (((ofLimit 0).run before).site 0).window.HasEnd ∧ ((ofLimit 0).run before).Folded pins message 0 es ∧
      (((ofLimit 0).run before).issues es).countP (·.spends pins message) ≤
        (((ofLimit 0).run before).site 0).window.remaining := by
  intro pins message oneLeft before es
  have he : (((ofLimit 0).run before).site 0).window.HasEnd := by decide +kernel
  have hf : ((ofLimit 0).run before).Folded pins message 0 es := by decide +kernel
  have hnone : ((ofLimit 0).run before).pending = [] := by decide +kernel
  obtain ⟨-, -, hone⟩ := folded_routes_spend_one_budget 0 before pins message 0 es he hf
  exact ⟨he, hf, hone (by simp [hnone])⟩

/-- A caller that is left behind when its route is folded onto a bucket with nothing left gets its ticket
all the same, from the bucket that the route had before. -/
theorem left_behind_spends_another_budget :
    let pins : RouteKey := ⟨.get, "channels/1/pins"⟩
    let message : RouteKey := ⟨.get, "channels/1/messages/:message_id"⟩
    let noneLeft : Report :=
      { limit := some 5, remaining := some 0, resetAfter := some (10 * Span.second), bucket := some "shared" }
    let before := [(0, .arrive 1 (.route pins .routeOnly)), (0, .record 1 noneLeft),
      (0, .arrive 2 (.route message .routeOnly)), (0, .arrive 3 (.route message .routeOnly)),
      (0, .record 2 { noneLeft with remaining := some 4 })]
    let s := (ofLimit 0).run before
    (s.site 0).window.HasEnd ∧ s.Folded pins message 0 [(0, .poll 3)] ∧
      (s.site 0).window.remaining < (s.issues [(0, .poll 3)]).countP (·.spends pins message) := by
  decide +kernel

end Limits

end ChatApi.Limit
