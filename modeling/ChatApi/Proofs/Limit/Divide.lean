import ChatApi.Proofs.Limit.Part

/-!
# What an event does to the part of a side

Where every caller asks for a slot of its bucket only, on a route of its own side, an event does to the part
of a side what it does to all, if it is one of the side, and nothing at all if it is not (`Part.step`). So
the part of a side after a run is what the run makes of the events of the side alone (`part_run`).
-/

namespace ChatApi.Limit

theorem Event.On.bringsOnly {d : Side} {e : Event} (h : e.On d) : e.BringsOnly RouteKey.IsPlain := by
  cases e with
  | arrive c wanted =>
    cases wanted with
    | account => trivial
    | route key scope =>
      cases scope with
      | routeOnly => exact h.1
      | all => exact h.elim
      | exempt => exact h.elim
  | poll | record | refuse | withdraw | block => trivial

theorem Wanted.On.eq {d : Side} {c : Caller} {wanted : Wanted} (h : wanted.On d c) :
    ∃ key, wanted = .route key .routeOnly ∧ d.has c = d.covers key := by
  match wanted, h with
  | .route key .routeOnly, h => exact ⟨key, rfl, h.2⟩

namespace Limits

variable {d : Side} {s u : Limits} {now : Instant} {e : Event} {c : Caller} {p : Pending} {t : Ticket} {i : Nat}

/-! ### Who is where -/

/-- Nobody waits for a slot on a route of another side, or holds one. -/
structure Divided (d : Side) (s : Limits) : Prop where
  separate : Separate s
  waiting : ∀ p ∈ s.pending, p.wanted.On d p.caller
  holding : ∀ t ∈ s.tickets, t.wanted.On d t.caller

theorem Divided.withWoken (h : Divided d s) (woken : List Caller) : Divided d { s with woken } :=
  ⟨h.separate.withWoken woken, h.waiting, h.holding⟩

theorem divided_step (h : Divided d s) (now : Instant) (he : e.On d) : Divided d (s.step now e).1 := by
  refine ⟨separate_step h.separate now he.bringsOnly, fun p hp => ?_, fun t ht => ?_⟩
  · rcases pending_origin hp with ⟨q, hq, hcaller, hwanted⟩ | rfl
    · exact hcaller ▸ hwanted ▸ h.waiting q hq
    · exact he
  · rcases tickets_origin ht with ht | ⟨q, hq, hcaller, hwanted⟩ | rfl
    · exact h.holding t ht
    · exact hcaller ▸ hwanted ▸ h.waiting q hq
    · exact he

theorem divided_ofLimit (d : Side) (limit : Nat) : Divided d (ofLimit limit) :=
  ⟨separate_ofLimit limit, fun _ hp => absurd hp List.not_mem_nil, fun _ ht => absurd ht List.not_mem_nil⟩

theorem Divided.inside (h : Divided d s) : Inside s := by
  refine ⟨h.separate.housed.sound, fun p hp i hi => ?_, fun t ht i hi => ?_⟩
  · obtain ⟨key, scope, -, -, hlt⟩ := h.separate.housed.lodged.waiting p hp i hi
    exact length_keys s ▸ hlt
  · obtain ⟨key, hw, -⟩ := (h.holding t ht).eq
    obtain ⟨j, hj, -, hlt⟩ := h.separate.housed.lodged.bucket ht hw (by decide)
    cases hj.symm.trans hi
    exact length_keys s ▸ hlt

/-- A caller waits at a bucket of its side. -/
theorem Divided.waits (h : Divided d s) (hp : p ∈ s.pending) (hi : p.stage = .bucket i) :
    ∃ b, s.buckets[i]? = some b ∧ d.has p.caller = d.covers b.key := by
  obtain ⟨key, scope, hw, hkin⟩ := h.separate.lodged.waiting p hp i hi
  obtain ⟨key', hw', hside⟩ := (h.waiting p hp).eq
  cases hw.symm.trans hw'
  obtain ⟨b, hb, hbside⟩ := exists_bucket (d := d) hkin
  exact ⟨b, hb, hside.trans hbside.symm⟩

/-- A caller holds a slot of a bucket of its side. -/
theorem Divided.holds (h : Divided d s) (ht : t ∈ s.tickets) :
    ∃ i b, t.bucket = some i ∧ s.buckets[i]? = some b ∧ b.key.IsPlain ∧ d.has t.caller = d.covers b.key := by
  obtain ⟨key, hw, hside⟩ := (h.holding t ht).eq
  obtain ⟨i, hi, hkin⟩ := h.separate.lodged.bucket ht hw (by decide)
  obtain ⟨b, hb, hbside⟩ := exists_bucket (d := d) hkin
  exact ⟨i, b, hi, hb, h.separate.made_isPlain _ (List.mem_map_of_mem (List.mem_of_getElem? hb)),
    hside.trans hbside.symm⟩

theorem part_ofLimit (d : Side) (limit : Nat) : Part d (ofLimit limit) (ofLimit limit) where
  buckets := rfl
  routes _ _ := rfl
  shared _ _ _ _ := rfl
  pending := rfl
  tickets := rfl
  woken := rfl
  lines _ hb := absurd hb List.not_mem_nil
  idle := ⟨rfl, rfl⟩

/-! ### Lookups in the part -/

/-- The bucket of a route, if the route was used. -/
def bucket? (s : Limits) (key : RouteKey) : Option Bucket := (s.routes.get? key).bind (s.buckets[·]?)

/-- A route of the side leads to the same bucket in the part. -/
theorem Part.bucket? (h : Part d s u) (hkin : s.tables.Kindred) {key : RouteKey} (hon : d.covers key) :
    u.bucket? key = s.bucket? key := by
  unfold Limits.bucket?
  rw [h.routes key hon]
  cases hi : s.routes.get? key with
  | none => rfl
  | some i =>
    obtain ⟨b, hb, hside⟩ := exists_bucket (d := d) (hkin.routes key i hi)
    simp only [Option.map_some, Option.bind_some]
    rw [hb, h.bucket hb (hside.trans hon)]

theorem Part.ticket? (h : Part d s u) (hc : d.has c) :
    u.ticket? c = (s.ticket? c).map (·.renumber (d.rank s.tables.keys)) := by
  unfold Limits.ticket?
  rw [h.tickets, Side.holding, List.find?_map, List.find?_filter]
  congr 2
  funext t
  by_cases ht : t.caller = c
  · simp [Ticket.renumber, ht, hc]
  · simp [Ticket.renumber, ht]

theorem Part.find?_pending (h : Part d s u) (hc : d.has c) :
    u.pending.find? (·.caller = c) =
      (s.pending.find? (·.caller = c)).map (·.renumber (d.rank s.tables.keys)) := by
  rw [h.pending, Side.waiting, List.find?_map, List.find?_filter]
  congr 2
  funext p
  by_cases hp : p.caller = c
  · simp [Pending.renumber, hp, hc]
  · simp [Pending.renumber, hp]

theorem Part.isBusy (h : Part d s u) (hc : d.has c) : u.isBusy c = s.isBusy c := by
  have hany (v : Limits) : v.pending.any (·.caller = c) = (v.pending.find? (·.caller = c)).isSome := by
    exact List.isSome_find?.symm
  simp only [Limits.isBusy, hany, h.ticket? hc, h.find?_pending hc, Option.isSome_map]

/-! ### Events -/

theorem Part.unchanged (h : Part d s u) {mine : Bool} {o' : Limits × Turn}
    (ho : mine → o' = (u, .unchanged)) : Follows d mine (s, .unchanged) u o' := by
  have hsame : Part d s (if mine then u else u) := by split <;> exact h
  exact (Follows.of_part hsame).congr ho

theorem Part.arrive (h : Part d s u) (hd : Divided d s) (now : Instant) {wanted : Wanted} (hw : wanted.On d c) :
    Follows d (d.has c) (s.step now (.arrive c wanted)) u (u.step now (.arrive c wanted)) := by
  cases hb : s.isBusy c with
  | true =>
    have hbusy (v : Limits) (hv : v.isBusy c) : v.step now (.arrive c wanted) = (v, .unchanged) := by
      simp [step_eq, leap, hv]
    rw [hbusy s hb]
    exact h.unchanged fun hc => hbusy u ((h.isBusy hc).trans hb)
  | false =>
    obtain ⟨key, rfl, hside⟩ := hw.eq
    let p : Pending := ⟨c, .route key .routeOnly, .ceiling⟩
    have hfree (v : Limits) (hv : v.isBusy c = false) : v.step now (.arrive c (.route key .routeOnly)) =
        { v with pending := v.pending ++ [p] }.enterBucket now p key := by
      simp [step_eq, leap, hv, Limits.arrive, p]
    have hin : Inside { s with pending := s.pending ++ [p] } := by
      refine ⟨hd.inside.sound, fun q hq i hi => ?_, hd.inside.holding⟩
      rcases List.mem_append.1 hq with hq | hq
      · exact hd.inside.waiting q hq i hi
      · cases List.mem_singleton.1 hq
        cases hi
    have henter := (h.join c p.wanted).enterBucket hin hd.separate.kindred (Eq.refl p.caller) (Eq.refl p.wanted)
      hside now
    rw [hfree s hb]
    refine henter.after.congr fun hc => ?_
    rw [hfree u ((h.isBusy hc).trans hb), if_pos hc]

theorem Part.poll (h : Part d s u) (hd : Divided d s) (now : Instant) (c : Caller) :
    Follows d (d.has c) (s.step now (.poll c)) u (u.step now (.poll c)) := by
  simp only [step_eq, leap, Limits.poll]
  cases hp : s.pending.find? (·.caller = c) with
  | none => exact h.unchanged fun hc => by simp [h.find?_pending hc, hp]
  | some p =>
    have hcaller : p.caller = c := by simpa using List.find?_some hp
    cases hs : p.stage with
    | ceiling =>
      simp only [hs, pollCeiling_of_idle h.idle.1]
      refine h.unchanged fun hc => ?_
      simp [h.find?_pending hc, hp, Pending.renumber, Stage.renumber, hs, pollCeiling_of_idle h.idle.2]
    | bucket i =>
      obtain ⟨b, hb, hside⟩ := hd.waits (List.mem_of_find?_eq_some hp) hs
      have hpoll : Follows d (d.has p.caller) (s.pollBucket now p i) u
          (u.pollBucket now (p.renumber (d.rank s.tables.keys)) (d.rank s.tables.keys i)) :=
        h.pollBucket hb rfl rfl hside now
      rw [hcaller] at hpoll
      simp only [hs]
      refine hpoll.congr fun hc => ?_
      simp [h.find?_pending hc, hp, Pending.renumber, Stage.renumber, hs]

/-- A ticket is given back after a change of the buckets. -/
theorem Part.handBack {v v' : Limits} (hd : Divided d s) (ht : s.ticket? c = some t)
    (hkeys : v.tables.keys = s.tables.keys) (hv : Part d v (if d.has c then v' else u)) :
    Follows d (d.has c) (v.release t, .unchanged) u
      (v'.release (t.renumber (d.rank s.tables.keys)), .unchanged) := by
  obtain ⟨i, b, hi, hb, -, hside⟩ := hd.holds (List.mem_of_find?_eq_some ht)
  have hmade : v.tables.keys[i]? = some b.key := by
    rw [hkeys]
    simp [tables, hb]
  have hrelease := hv.release hi hmade hside
  rw [caller_of_ticket? ht, hkeys] at hrelease
  cases hc : d.has c with
  | true => exact .on rfl (by simpa [hc] using hrelease) rfl
  | false => exact .off rfl (by simpa [hc] using hrelease)

theorem Part.record (h : Part d s u) (hd : Divided d s) (now : Instant) (c : Caller) (r : Report) :
    Follows d (d.has c) (s.step now (.record c r)) u (u.step now (.record c r)) := by
  simp only [step_eq, leap]
  cases ht : s.ticket? c with
  | none => exact h.unchanged fun hc => by simp [h.ticket? hc, ht]
  | some t =>
    obtain ⟨i, b, hi, hb, hplain, hside⟩ := hd.holds (List.mem_of_find?_eq_some ht)
    have hrecord := h.recordBucket hi hb hplain hd.separate.kindred now r
    rw [← hside, caller_of_ticket? ht] at hrecord
    have hkeys : (s.recordBucket now t r).tables.keys = s.tables.keys := by
      rw [tables_recordBucket, Tables.keys_told]
    exact (handBack hd ht hkeys hrecord).congr fun hc => by simp [h.ticket? hc, ht, Limits.record]

theorem Part.refuse (h : Part d s u) (hd : Divided d s) (now : Instant) (c : Caller) (r : Report)
    (body : Option Refusal) :
    Follows d (d.has c) (s.step now (.refuse c r body)) u (u.step now (.refuse c r body)) := by
  simp only [step_eq, leap]
  cases ht : s.ticket? c with
  | none => exact h.unchanged fun hc => by simp [h.ticket? hc, ht]
  | some t =>
    have hmem := List.mem_of_find?_eq_some ht
    obtain ⟨i, b, hi, hb, hplain, hside⟩ := hd.holds hmem
    obtain ⟨key, hw, -⟩ := (hd.holding t hmem).eq
    have hrefusal := h.recordRefusal hw hi hb hplain hd.separate.kindred now r body
    rw [← hside, caller_of_ticket? ht] at hrefusal
    have hkeys : (s.recordRefusal now t r body).tables.keys = s.tables.keys := by
      rw [tables_recordRefusal]
      split <;> simp
    exact (handBack hd ht hkeys hrefusal).congr fun hc => by simp [h.ticket? hc, ht, Limits.refuse]

/-- Whoever gives up waits nowhere, then. -/
theorem withdraw_of_pending (ht : s.ticket? c = none) (hp : s.pending.find? (·.caller = c) = some p)
    (hi : p.stage = .bucket i) :
    s.withdraw c = { s with pending := s.pending.filter (·.caller ≠ c) }.changeBucket i (·.leave c) := by
  simp only [Limits.withdraw, ht, hp, hi]

theorem withdraw_of_idle (ht : s.ticket? c = none) (hp : s.pending.find? (·.caller = c) = some p)
    (hi : p.stage = .ceiling) (hidle : s.ceilingGate.line = []) :
    s.withdraw c = { s with pending := s.pending.filter (·.caller ≠ c) } := by
  simp [Limits.withdraw, ht, hp, hi, Gate.leave, hidle, wake]

theorem Part.withdraw (h : Part d s u) (hd : Divided d s) (now : Instant) (c : Caller) :
    Follows d (d.has c) (s.step now (.withdraw c)) u (u.step now (.withdraw c)) := by
  simp only [step_eq, leap]
  cases ht : s.ticket? c with
  | some t =>
    rw [withdraw_of_ticket ht]
    have hsame : Part d s (if d.has c then u else u) := by split <;> exact h
    refine (handBack hd ht rfl hsame).congr fun hc => ?_
    rw [withdraw_of_ticket (by rw [h.ticket? hc, ht, Option.map_some])]
  | none =>
    cases hp : s.pending.find? (·.caller = c) with
    | none =>
      rw [withdraw_of_absent ht hp]
      exact h.unchanged fun hc => by
        rw [withdraw_of_absent (by simp [h.ticket? hc, ht]) (by simp [h.find?_pending hc, hp])]
    | some p =>
      have hcaller : p.caller = c := by simpa using List.find?_some hp
      have hleave := h.leave c
      cases hs : p.stage with
      | ceiling =>
        rw [withdraw_of_idle ht hp hs h.idle.1]
        refine (Follows.of_part hleave).congr fun hc => ?_
        rw [withdraw_of_idle (by simp [h.ticket? hc, ht]) (by rw [h.find?_pending hc, hp, Option.map_some])
          (by simp [Pending.renumber, Stage.renumber, hs]) h.idle.2]
      | bucket i =>
        obtain ⟨b, hb, hside⟩ := hd.waits (List.mem_of_find?_eq_some hp) hs
        have hchange := hleave.changeBucket (f := (·.leave c)) hb
          (keeps_leave (h.lines b (List.mem_of_getElem? hb)) c)
        rw [← hside, hcaller] at hchange
        rw [withdraw_of_pending ht hp hs]
        refine (Follows.of_part hchange).after.congr fun hc => ?_
        rw [withdraw_of_pending (i := d.rank s.tables.keys i) (by simp [h.ticket? hc, ht])
          (by rw [h.find?_pending hc, hp, Option.map_some]) (by simp [Pending.renumber, Stage.renumber, hs]), if_pos hc]
        rfl

theorem Part.step (h : Part d s u) (hd : Divided d s) (now : Instant) (he : e.On d) :
    Follows d (e.isOf d) (s.step now e) u (u.step now e) := by
  cases e with
  | arrive c wanted => exact h.arrive hd now he
  | poll c => exact h.poll hd now c
  | record c r => exact h.record hd now c r
  | refuse c r body => exact h.refuse hd now c r body
  | withdraw c => exact h.withdraw hd now c
  | block wait => exact he.elim

/-- What is left of a side after a run is what the run makes of its own events. -/
theorem part_run {es : List (Instant × Event)} (h : Part d s u) (hd : Divided d s) (hes : ∀ x ∈ es, x.2.On d) :
    Part d (s.run es) (u.run (es.filter (·.2.isOf d))) := by
  induction es generalizing s u with
  | nil => exact h
  | cons x es ih =>
    have he := hes x List.mem_cons_self
    have hrest := ih (h.step hd x.1 he).part (divided_step hd x.1 he) fun y hy => hes y (List.mem_cons_of_mem _ hy)
    cases hmine : x.2.isOf d with
    | true => simpa [hmine, run] using hrest
    | false => simpa [hmine, run] using hrest

end Limits

end ChatApi.Limit
