import ChatApi.Proofs.Limit.Site

/-!
# What a caller that asks does

A caller that asks goes to a gate, gets in line if it is new there, and looks. At a bucket this is
`Limits.Visited`; at the gate of the account, `pollCeiling_cases` says what can come of it.
-/

namespace ChatApi.Limit.Limits

variable {s : Limits} {now : Instant} {i j : Nat}

theorem inLine_ne_granted {turn : Turn} (h : turn ≠ .granted) : turn.inLine ≠ .granted := by
  cases turn <;> simp_all [Turn.inLine]

/-- What comes of a caller that goes to bucket `i` and looks: `u` is the state in which it has looked,
and it gets its ticket there if it is let through. -/
structure Visited (s : Limits) (now : Instant) (p : Pending) (i : Nat) (isNew : Bool) (u : Limits)
    (o : Limits × Turn) : Prop where
  site : ∀ j, u.site j =
    if j = i then ((s.site i).arrive isNew p.caller).look now p.caller else s.site j
  granted : ((s.site i).arrive isNew p.caller).lets now p.caller = true →
    o = (u.grant p (some i), .granted)
  refused : ((s.site i).arrive isNew p.caller).lets now p.caller = false →
    ∃ turn, turn ≠ .granted ∧ o = (u, turn)

/-- A caller that is not up looks in vain. -/
theorem visited_of_not_up {p : Pending} (hu : (s.site i).gate.isUp p.caller now = false) :
    Visited s now p i false s (s.pollBucket now p i) := by
  have hpoll : s.pollBucket now p i = (s, .unchanged) := by
    cases hb : s.buckets[i]? with
    | none => simp [pollBucket, hb]
    | some b =>
      rw [site_of_some hb] at hu
      simp [pollBucket, hb, hu]
  refine ⟨fun j => ?_, fun hl => ?_, fun _ => ⟨.unchanged, by simp, hpoll⟩⟩
  · split
    · subst j; simp [Site.look, hu]
    · rfl
  · simp [Site.lets, hu] at hl

/-- A caller that looks changes nothing but the bucket. -/
theorem visited_pollBucket (s : Limits) (now : Instant) (p : Pending) (i : Nat) :
    ∃ u, Beside s u ∧ Visited s now p i false u (s.pollBucket now p i) := by
  cases hu : (s.site i).gate.isUp p.caller now with
  | false => exact ⟨s, .refl s, visited_of_not_up hu⟩
  | true =>
    obtain ⟨b, hb⟩ : ∃ b, s.buckets[i]? = some b := by
      cases hb : s.buckets[i]? with
      | none => rw [site_of_none hb] at hu; cases hu
      | some b => exact ⟨b, rfl⟩
    have hs := site_of_some hb
    rw [hs] at hu
    -- the caller is up: what the window says decides how its gate goes on
    cases hr : b.window.reserve now with
    | mk window slot =>
      have put (gate : Gate) (woken : Option Caller) :
          Beside s ({ s with buckets := s.buckets.set i { b with window, gate } }.wake woken) :=
        beside_set hb { b with window, gate } rfl woken
      have site (gate : Gate) (woken : Option Caller)
          (hlook : (s.site i).look now p.caller = ⟨window, gate⟩) (j : Nat) :
          ({ s with buckets := s.buckets.set i { b with window, gate } }.wake woken).site j =
            if j = i then ((s.site i).arrive false p.caller).look now p.caller else s.site j := by
        rw [site_set hb, Site.arrive_false, hlook]
      cases slot with
      | wait till =>
        refine ⟨_, put { b.gate with hold := .asleep till } none, site _ none ?_, ?_, ?_⟩
        · simp [hs, Site.look, hu, hr]
        · simp [hs, Site.lets, hr, Slot.isProceed]
        · exact fun _ => ⟨.asleep till, by simp, by simp [pollBucket, hb, hu, hr, wake]⟩
      | proceed isProbe =>
        cases isProbe with
        | true =>
          refine ⟨_, put { b.gate with hold := .probing } none, site _ none ?_, ?_, ?_⟩
          · simp [hs, Site.look, hu, hr]
          · simp [pollBucket, hb, hu, hr, wake]
          · simp [hs, Site.lets, hu, hr, Slot.isProceed]
        | false =>
          refine ⟨_, put (b.gate.leave p.caller).1 (b.gate.leave p.caller).2, site _ _ ?_, ?_, ?_⟩
          · simp [hs, Site.look, hu, hr]
          · simp [pollBucket, hb, hu, hr]
          · simp [hs, Site.lets, hu, hr, Slot.isProceed]

/-- The bucket of a route is made without any caller noticing. -/
theorem bucketFor_spec (s : Limits) (key : RouteKey) :
    (s.bucketFor key).2.routes.get? key = some (s.bucketFor key).1 ∧
      ∀ j, (s.bucketFor key).2.site j = s.site j := by
  unfold bucketFor
  cases hk : s.routes.get? key with
  | some i => exact ⟨hk, fun j => rfl⟩
  | none =>
    refine ⟨Table.get?_put_self .., fun j => ?_⟩
    rcases Nat.lt_trichotomy j s.buckets.length with hj | rfl | hj
    · simp [site, List.getElem?_append_left hj]
    · simp [site]
    · have : s.buckets.length + 1 ≤ j := hj
      simp [site, List.getElem?_append_right (Nat.le_of_lt hj), List.getElem?_eq_none (Nat.le_of_lt hj),
        show j - s.buckets.length ≠ 0 by omega]

theorem bucketFor_frame (s : Limits) (key : RouteKey) :
    (s.bucketFor key).2.ceiling = s.ceiling ∧ (s.bucketFor key).2.ceilingGate = s.ceilingGate ∧
      (s.bucketFor key).2.tickets = s.tickets ∧ (s.bucketFor key).2.pending = s.pending := by
  unfold bucketFor
  split <;> exact ⟨rfl, rfl, rfl, rfl⟩

/-- Getting in line adds the caller to the gate of the bucket, which is there unless the route's entry
leads nowhere. -/
theorem site_lineUp (s : Limits) (p : Pending) (key : RouteKey) :
    ∃ isNew, ∀ j, (s.lineUp p key).2.site j =
      if j = (s.bucketFor key).1 then (s.site j).arrive isNew p.caller else s.site j := by
  obtain ⟨-, hsite⟩ := bucketFor_spec s key
  have hsame (j : Nat) : (s.lineUp p key).2.site j =
      ((s.bucketFor key).2.changeBucket (s.bucketFor key).1
        fun b => ({ b with gate := b.gate.join p.caller }, none)).site j := rfl
  cases hb : (s.bucketFor key).2.buckets[(s.bucketFor key).1]? with
  | none =>
    refine ⟨false, fun j => ?_⟩
    rw [hsame, changeBucket_of_none hb, hsite]
    simp [Site.arrive]
  | some b =>
    refine ⟨true, fun j => ?_⟩
    rw [hsame, site_changeBucket hb, hsite]
    split
    · rename_i hj
      rw [hj, ← hsite, site_of_some hb]; rfl
    · rfl

theorem lineUp_frame (s : Limits) (p : Pending) (key : RouteKey) :
    (s.lineUp p key).2.ceiling = s.ceiling ∧ (s.lineUp p key).2.ceilingGate = s.ceilingGate ∧
      (s.lineUp p key).2.tickets = s.tickets ∧
      (s.lineUp p key).2.pending = s.pending.map (·.goTo p.caller (s.bucketFor key).1) := by
  obtain ⟨hc, hg, ht, hp⟩ := bucketFor_frame s key
  have hline : Beside (s.bucketFor key).2
      ((s.bucketFor key).2.changeBucket (s.bucketFor key).1
        fun b => ({ b with gate := b.gate.join p.caller }, none)) :=
    beside_changeBucket fun b => rfl
  refine ⟨hline.ceiling.trans hc, hline.ceilingGate.trans hg, hline.tickets.trans ht, ?_⟩
  rw [← hp]
  exact congrArg (List.map _) hline.pending

theorem enterBucket_eq (s : Limits) (now : Instant) (p : Pending) (key : RouteKey) :
    s.enterBucket now p key =
      let o := (s.lineUp p key).2.pollBucket now p (s.bucketFor key).1
      (o.1, o.2.inLine) := rfl

/-- A caller that goes to the bucket of its route leaves whatever else it waited for. -/
theorem visited_enterBucket (s : Limits) (now : Instant) (p : Pending) (key : RouteKey) :
    ∃ isNew u, Visited s now p (s.bucketFor key).1 isNew u (s.enterBucket now p key) ∧
      u.ceiling = s.ceiling ∧ u.ceilingGate = s.ceilingGate ∧ u.tickets = s.tickets ∧
      u.pending = s.pending.map (·.goTo p.caller (s.bucketFor key).1) := by
  obtain ⟨isNew, hsite⟩ := site_lineUp s p key
  obtain ⟨hc, hg, ht, hp⟩ := lineUp_frame s p key
  obtain ⟨u, hu, hv⟩ := visited_pollBucket (s.lineUp p key).2 now p (s.bucketFor key).1
  have hi := hsite (s.bucketFor key).1
  rw [if_pos rfl] at hi
  refine ⟨isNew, u, ⟨fun j => ?_, fun hl => ?_, fun hl => ?_⟩, hu.ceiling.trans hc,
    hu.ceilingGate.trans hg, hu.tickets.trans ht, hu.pending.trans hp⟩
  · rw [hv.site, hi, hsite]
    split <;> rfl
  · rw [enterBucket_eq, hv.granted (by rw [hi]; exact hl)]
    rfl
  · obtain ⟨turn, hturn, ho⟩ := hv.refused (by rw [hi]; exact hl)
    rw [enterBucket_eq, ho]
    exact ⟨_, inLine_ne_granted hturn, rfl⟩

/-- At a bucket the limit of the account is left alone. -/
theorem account_pollBucket (s : Limits) (now : Instant) (p : Pending) (i : Nat) :
    (s.pollBucket now p i).1.ceiling = s.ceiling ∧ (s.pollBucket now p i).1.ceilingGate = s.ceilingGate := by
  obtain ⟨u, hu, hv⟩ := visited_pollBucket s now p i
  cases hl : ((s.site i).arrive false p.caller).lets now p.caller with
  | true =>
    rw [hv.granted hl]
    exact ⟨hu.ceiling, hu.ceilingGate⟩
  | false =>
    obtain ⟨turn, -, ho⟩ := hv.refused hl
    rw [ho]
    exact ⟨hu.ceiling, hu.ceilingGate⟩

theorem account_enterBucket (s : Limits) (now : Instant) (p : Pending) (key : RouteKey) :
    (s.enterBucket now p key).1.ceiling = s.ceiling ∧
      (s.enterBucket now p key).1.ceilingGate = s.ceilingGate := by
  obtain ⟨hc, hg, -, -⟩ := lineUp_frame s p key
  obtain ⟨hc', hg'⟩ := account_pollBucket (s.lineUp p key).2 now p (s.bucketFor key).1
  rw [enterBucket_eq]
  exact ⟨hc'.trans hc, hg'.trans hg⟩

/-- The state in which a caller has passed the gate of the account. -/
def passed (s : Limits) (now : Instant) (c : Caller) : Limits :=
  { s with
    ceiling := (s.ceiling.reserve now).1
    ceilingGate := (s.ceilingGate.leave c).1
    woken := s.woken ++ (s.ceilingGate.leave c).2.toList }

/-- What a caller can do whose turn it is to look at the limit of the account. -/
theorem pollCeiling_of_up {p : Pending} (hu : s.ceilingGate.isUp p.caller now = true) :
    (∃ till, (s.ceiling.reserve now).2 = some till ∧
      s.pollCeiling now p =
        ({ s with
            ceiling := (s.ceiling.reserve now).1
            ceilingGate := { s.ceilingGate with hold := .asleep till } }, .asleep till)) ∨
    (s.ceiling.reserve now).2 = none ∧
      (p.wanted = .account ∧
        s.pollCeiling now p = ((s.passed now p.caller).grant p none, .granted) ∨
      ∃ key scope, p.wanted = .route key scope ∧
        s.pollCeiling now p = (s.passed now p.caller).enterBucket now p key) := by
  unfold pollCeiling
  cases hr : (s.ceiling.reserve now).2 with
  | some till => exact .inl ⟨till, rfl, by simp [hu, hr]⟩
  | none =>
    refine .inr ⟨rfl, ?_⟩
    cases hw : p.wanted with
    | account => exact .inl ⟨rfl, by simp [hu, hr, passed, wake]⟩
    | route key scope => exact .inr ⟨key, scope, rfl, by simp [hu, hr, passed, wake]⟩

theorem pollCeiling_of_not_up {p : Pending} (hu : s.ceilingGate.isUp p.caller now = false) :
    s.pollCeiling now p = (s, .unchanged) := by
  simp [pollCeiling, hu]

/-- What a caller that looks at the limit of the account can do. -/
theorem pollCeiling_cases (s : Limits) (now : Instant) (p : Pending) :
    s.pollCeiling now p = (s, .unchanged) ∨
    s.ceilingGate.isUp p.caller now = true ∧
      ((∃ till, (s.ceiling.reserve now).2 = some till ∧
        s.pollCeiling now p =
          ({ s with
              ceiling := (s.ceiling.reserve now).1
              ceilingGate := { s.ceilingGate with hold := .asleep till } }, .asleep till)) ∨
      (s.ceiling.reserve now).2 = none ∧
        (p.wanted = .account ∧
          s.pollCeiling now p = ((s.passed now p.caller).grant p none, .granted) ∨
        ∃ key scope, p.wanted = .route key scope ∧
          s.pollCeiling now p = (s.passed now p.caller).enterBucket now p key)) := by
  cases hu : s.ceilingGate.isUp p.caller now with
  | false => exact .inl (pollCeiling_of_not_up hu)
  | true => exact .inr ⟨rfl, pollCeiling_of_up hu⟩

end ChatApi.Limit.Limits
