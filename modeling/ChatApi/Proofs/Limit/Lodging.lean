import ChatApi.Proofs.Limit.Course
import ChatApi.Proofs.Limit.Tables

/-!
# At which buckets callers are

Whoever waits at a bucket, or holds a slot of one, was led there by the table of routes when it came. So
what is true of a route and the bucket that it leads to, and stays true, is true of every caller at a
bucket: `Lodged` says that, `lodged_step` that events keep it. `housed_run` is the plainest case: all
these buckets are there.
-/

namespace ChatApi.Limit

variable {R R' : RouteKey → Nat → Prop}

/-- The holder of a ticket came to its bucket as `R` allows, or needs no bucket. -/
inductive Ticket.Fits (R : RouteKey → Nat → Prop) (t : Ticket) : Prop
  | bucket {key : RouteKey} {scope : Scope} {i : Nat} (wanted : t.wanted = .route key scope)
      (bucket : t.bucket = some i) (fits : R key i) : t.Fits R
  | account (wanted : t.wanted = .account) (bucket : t.bucket = none) : t.Fits R
  | exempt {key : RouteKey} (wanted : t.wanted = .route key .exempt) (bucket : t.bucket = none) : t.Fits R

/-- A caller that waits at a bucket came there as `R` allows. -/
def Pending.Fits (R : RouteKey → Nat → Prop) (p : Pending) : Prop :=
  ∀ i, p.stage = .bucket i → ∃ key scope, p.wanted = .route key scope ∧ R key i

/-- If a caller comes in at an event, the route that it asks for is as `P` says. -/
def Event.BringsOnly (P : RouteKey → Prop) : Event → Prop
  | .arrive _ (.route key _) => P key
  | _ => True

theorem Pending.fits_ceiling {c : Caller} {wanted : Wanted} : Pending.Fits R ⟨c, wanted, .ceiling⟩ :=
  fun i hi => by cases hi

namespace Limits

/-- Everybody who waits at a bucket or holds a slot of one came there as `R` allows. -/
structure Lodged (R : RouteKey → Nat → Prop) (s : Limits) : Prop where
  waiting : ∀ p ∈ s.pending, p.Fits R
  holding : ∀ t ∈ s.tickets, t.Fits R

variable {s u : Limits} {now : Instant} {p : Pending} {key : RouteKey} {scope : Scope} {c : Caller}
  {t : Ticket} {i : Nat} {e : Event}

theorem Lodged.mono (h : Lodged R s) (hR : ∀ key i, R key i → R' key i) : Lodged R' s := by
  refine ⟨fun p hp i hi => ?_, fun t ht => ?_⟩
  · obtain ⟨key, scope, hw, hfits⟩ := h.waiting p hp i hi
    exact ⟨key, scope, hw, hR key i hfits⟩
  · cases h.holding t ht with
    | bucket wanted bucket fits => exact .bucket wanted bucket (hR _ _ fits)
    | account wanted bucket => exact .account wanted bucket
    | exempt wanted bucket => exact .exempt wanted bucket

/-- Fewer callers are lodged as well. -/
theorem Lodged.anti (h : Lodged R s) (hp : ∀ p ∈ u.pending, p ∈ s.pending)
    (ht : ∀ t ∈ u.tickets, t ∈ s.tickets) : Lodged R u :=
  ⟨fun p hp' => h.waiting p (hp p hp'), fun t ht' => h.holding t (ht t ht')⟩

theorem Lodged.congr (h : Lodged R s) (hp : u.pending = s.pending) (ht : u.tickets = s.tickets) :
    Lodged R u :=
  h.anti (fun _ hp' => hp ▸ hp') (fun _ ht' => ht ▸ ht')

theorem Lodged.routed (h : Lodged R s) : s.Routed := by
  intro t ht hb
  cases h.holding t ht with
  | bucket wanted bucket fits => simp [wanted, Wanted.route?]
  | account wanted bucket => simp [bucket] at hb
  | exempt wanted bucket => simp [bucket] at hb

/-- A request that is subject to a limit has a slot of a bucket. -/
theorem Lodged.bucket (h : Lodged R s) (ht : t ∈ s.tickets) (hw : t.wanted = .route key scope)
    (hs : scope ≠ .exempt) : ∃ i, t.bucket = some i ∧ R key i := by
  cases h.holding t ht with
  | @bucket key' scope' i wanted bucket fits =>
    cases wanted.symm.trans hw
    exact ⟨i, bucket, fits⟩
  | account wanted bucket => cases wanted.symm.trans hw
  | exempt wanted bucket =>
    cases wanted.symm.trans hw
    exact absurd rfl hs

theorem lodged_grant {bucket : Option Nat} (h : Lodged R s)
    (ht : Ticket.Fits R ⟨p.caller, p.wanted, bucket⟩) : Lodged R (s.grant p bucket) := by
  refine ⟨fun q hq => h.waiting q (List.mem_filter.1 hq).1, fun t ht' => ?_⟩
  rcases List.mem_append.1 ht' with ht' | ht'
  · exact h.holding t ht'
  · cases List.mem_singleton.1 ht'
    exact ht

theorem lodged_pollBucket (h : Lodged R s) (now : Instant) (hw : p.wanted = .route key scope) (hR : R key i) :
    Lodged R (s.pollBucket now p i).1 := by
  obtain ⟨u, hu, hv⟩ := visited_pollBucket s now p i
  have h' : Lodged R u := h.congr hu.pending hu.tickets
  cases hl : ((s.site i).arrive false p.caller).lets now p.caller with
  | true =>
    rw [hv.granted hl]
    exact lodged_grant h' (.bucket hw rfl hR)
  | false =>
    obtain ⟨turn, -, ho⟩ := hv.refused hl
    rw [ho]
    exact h'

theorem lodged_enterBucket (h : Lodged R s) (now : Instant) (hw : p.wanted = .route key scope)
    (hq : ∀ q ∈ s.pending, q.caller = p.caller → q.wanted = p.wanted) (hR : R key (s.tables.entry key)) :
    Lodged R (s.enterBucket now p key).1 := by
  obtain ⟨-, -, ht, hp⟩ := lineUp_frame s p key
  have hline : Lodged R (s.lineUp p key).2 := by
    refine ⟨fun q hmem => ?_, fun t htmem => h.holding t (ht ▸ htmem)⟩
    rw [hp] at hmem
    obtain ⟨q', hq', rfl⟩ := List.mem_map.1 hmem
    unfold Pending.goTo
    split
    · rename_i hc
      intro i hi
      cases hi
      exact ⟨key, scope, (hq q' hq' hc).trans hw, bucketFor_fst s key ▸ hR⟩
    · exact h.waiting q' hq'
  rw [enterBucket_eq]
  exact lodged_pollBucket hline now hw (bucketFor_fst s key ▸ hR)

/-- Whoever passes the gate of the account goes to the bucket that its route has by then. -/
theorem lodged_pollCeiling (h : Lodged R s) (now : Instant)
    (hq : ∀ q ∈ s.pending, q.caller = p.caller → q.wanted = p.wanted)
    (hR : ∀ key, (s.pollCeiling now p).1.tables = s.tables.opened key → R key (s.tables.entry key)) :
    Lodged R (s.pollCeiling now p).1 := by
  have hpassed : Lodged R (s.passed now p.caller) := h.congr rfl rfl
  rcases pollCeiling_cases s now p with ho | ⟨-, ⟨till, -, ho⟩ | ⟨-, ⟨hw, ho⟩ | ⟨key, scope, hw, ho⟩⟩⟩
  · rw [ho]; exact h
  · rw [ho]; exact h.congr rfl rfl
  · rw [ho]; exact lodged_grant hpassed (.account hw rfl)
  · rw [ho] at hR ⊢
    exact lodged_enterBucket hpassed now hw hq (hR key (tables_enterBucket ..))

theorem lodged_enterCeiling (h : Lodged R s) (now : Instant)
    (hq : ∀ q ∈ s.pending, q.caller = p.caller → q.wanted = p.wanted)
    (hR : ∀ key, (s.enterCeiling now p).1.tables = s.tables.opened key → R key (s.tables.entry key)) :
    Lodged R (s.enterCeiling now p).1 := by
  have h' : Lodged R { s with ceilingGate := s.ceilingGate.join p.caller } := h.congr rfl rfl
  exact lodged_pollCeiling h' now hq hR

theorem lodged_arrive (h : Lodged R s) (now : Instant) (hc : ∀ q ∈ s.pending, q.caller ≠ c)
    (wanted : Wanted)
    (hR : ∀ key, (s.arrive now c wanted).1.tables = s.tables.opened key → R key (s.tables.entry key)) :
    Lodged R (s.arrive now c wanted).1 := by
  have hjoined : Lodged R { s with pending := s.pending ++ [⟨c, wanted, .ceiling⟩] } := by
    refine ⟨fun q hq => ?_, h.holding⟩
    rcases List.mem_append.1 hq with hq | hq
    · exact h.waiting q hq
    · cases List.mem_singleton.1 hq
      exact Pending.fits_ceiling
  have hsame : ∀ q ∈ s.pending ++ [⟨c, wanted, .ceiling⟩], q.caller = c → q.wanted = wanted := by
    intro q hq hqc
    rcases List.mem_append.1 hq with hq | hq
    · exact absurd hqc (hc q hq)
    · cases List.mem_singleton.1 hq
      rfl
  unfold arrive at hR ⊢
  dsimp only at hR ⊢
  split at hR
  · exact lodged_grant hjoined (.exempt rfl rfl)
  · rename_i key
    exact lodged_enterBucket hjoined now rfl hsame (hR key (tables_enterBucket ..))
  · exact lodged_enterCeiling hjoined now hsame hR
  · exact lodged_enterCeiling hjoined now hsame hR

theorem lodged_release (h : Lodged R s) (t : Ticket) : Lodged R (s.release t) := by
  obtain ⟨-, -, hp, ht⟩ := release_frame s t
  refine h.anti (fun p hp' => hp ▸ hp') fun t' ht' => ?_
  rw [ht] at ht'
  exact (List.mem_filter.1 ht').1

theorem lodged_withdraw (h : Lodged R s) (c : Caller) : Lodged R (s.withdraw c) := by
  cases ht : s.ticket? c with
  | some t =>
    rw [withdraw_of_ticket ht]
    exact lodged_release h t
  | none =>
    cases hp : s.pending.find? (·.caller = c) with
    | none => rwa [withdraw_of_absent ht hp]
    | some p =>
      obtain ⟨-, -, hpending, htickets⟩ := withdraw_frame ht hp
      refine h.anti (fun q hq => ?_) fun t' ht' => htickets ▸ ht'
      rw [hpending] at hq
      exact (List.mem_filter.1 hq).1

/-- Events keep callers lodged, if `R` allows the bucket that a route leads to when it is asked for. -/
theorem lodged_step (h : Lodged R s) (hm : SingleMinded s) (now : Instant) (e : Event)
    (hR : ∀ key, (s.step now e).1.tables = s.tables.opened key → R key (s.tables.entry key)) :
    Lodged R (s.step now e).1 := by
  rw [step_eq] at hR ⊢
  cases e with
  | arrive c wanted =>
    simp only [leap] at hR ⊢
    cases hb : s.isBusy c with
    | true => exact h
    | false =>
      rw [hb] at hR
      refine lodged_arrive h now (fun q hq hc => ?_) wanted hR
      simp only [isBusy, Bool.or_eq_false_iff, List.any_eq_false, decide_eq_true_eq] at hb
      exact hb.1 q hq hc
  | poll c =>
    simp only [leap, poll] at hR ⊢
    cases hp : s.pending.find? (·.caller = c) with
    | none => exact h
    | some p =>
      have hmem := List.mem_of_find?_eq_some hp
      simp only [hp] at hR
      dsimp only
      split at hR
      · exact lodged_pollCeiling h now (fun q hq hc => hm q hq p hmem hc) hR
      · rename_i i hi
        obtain ⟨key, scope, hw, hfits⟩ := h.waiting p hmem i hi
        exact lodged_pollBucket h now hw hfits
  | record c r =>
    simp only [leap]
    split
    · rename_i t _
      obtain ⟨-, -, hp, ht⟩ := recordBucket_frame s now t r
      exact lodged_release (h.congr hp ht) t
    · exact h
  | refuse c r body =>
    simp only [leap]
    split
    · rename_i t _
      obtain ⟨-, hp, ht⟩ := recordRefusal_frame s now t r body
      exact lodged_release (h.congr hp ht) t
    · exact h
  | withdraw c => exact lodged_withdraw h c
  | block wait => exact h.congr rfl rfl

/-! ### Every run -/

/-- The tables are sound, and whoever is at a bucket is at one that is there, for a route that has an
entry. -/
structure Housed (s : Limits) : Prop where
  sound : s.tables.Sound
  lodged : Lodged (fun key i => (s.routes.get? key).isSome ∧ i < s.tables.keys.length) s
  singleMinded : SingleMinded s

theorem grows_step (h : s.Routed) (now : Instant) (e : Event) : s.tables.Grows (s.step now e).1.tables := by
  rcases tables_step h now e with ⟨n, -, ht⟩ | ⟨-, ht | ⟨made, -, ht⟩⟩
  · rw [ht]; exact Tables.grows_named ..
  · rw [ht]; exact .refl _
  · rw [ht]; exact Tables.grows_opened ..

theorem housed_step (h : Housed s) (now : Instant) (e : Event) : Housed (s.step now e).1 := by
  have hgrows := grows_step h.lodged.routed now e
  have hsound : (s.step now e).1.tables.Sound := by
    rcases tables_step h.lodged.routed now e with ⟨n, -, ht⟩ | ⟨-, ht | ⟨key, -, ht⟩⟩
    · rw [ht]; exact h.sound.named n.bucket n.hash
    · rw [ht]; exact h.sound
    · rw [ht]; exact h.sound.opened key
  refine ⟨hsound, ?_, singleMinded_step h.singleMinded now e⟩
  have hlodged : Lodged (fun key i => ((s.step now e).1.routes.get? key).isSome ∧
      i < (s.step now e).1.tables.keys.length) s :=
    h.lodged.mono fun key i hi => ⟨hgrows.routes key hi.1, hgrows.lt_length hi.2⟩
  refine lodged_step hlodged h.singleMinded now e fun key hkey => ?_
  have hentry : (s.step now e).1.routes.get? key = some (s.tables.entry key) := by
    show (s.step now e).1.tables.routes.get? key = _
    rw [hkey]
    exact Tables.get?_opened_self ..
  exact ⟨by simp [hentry], hsound.routes key _ hentry⟩

theorem housed_run (limit : Nat) (es : List (Instant × Event)) : Housed ((ofLimit limit).run es) := by
  have hstart : Housed (ofLimit limit) := by
    refine ⟨⟨List.nodup_nil, fun key hkey => ?_, fun key i hi => ?_, fun name i hi => ?_⟩,
      ⟨fun p hp => ?_, fun t ht => ?_⟩, fun p hp => ?_⟩
    · cases hkey
    · cases hi
    · cases hi
    · cases hp
    · cases ht
    · cases hp
  exact run_induction (P := Housed) (fun s now e h => housed_step h now e) hstart es

theorem grows_run (h : Housed s) (es : List (Instant × Event)) : s.tables.Grows (s.run es).tables := by
  induction es generalizing s with
  | nil => exact .refl _
  | cons x es ih => exact (grows_step h.lodged.routed x.1 x.2).trans (ih (housed_step h x.1 x.2))

/-! ### Which routes are in use -/

/-- Whoever waits after an event has waited before, for the same, or comes in now. -/
theorem pending_origin (hp : p ∈ (s.step now e).1.pending) :
    (∃ q ∈ s.pending, q.caller = p.caller ∧ q.wanted = p.wanted) ∨ e = .arrive p.caller p.wanted := by
  rcases step_cases s now e with hs | ⟨u, q, ha, hc⟩
  · exact .inl ⟨p, hs.pending p hp, rfl, rfl⟩
  · obtain ⟨p', hp', hcaller, hwanted⟩ := hc.origin hp
    rcases ha.mem p' hp' with hp' | rfl
    · exact .inl ⟨p', hp', hcaller, hwanted⟩
    · rcases ha.waits with hp' | ⟨he, -⟩
      · exact .inl ⟨p', hp', hcaller, hwanted⟩
      · exact .inr (hcaller ▸ hwanted ▸ he)

/-- Whoever holds a ticket after an event has held it before, or waited for it, or comes in now. -/
theorem tickets_origin (ht : t ∈ (s.step now e).1.tickets) :
    t ∈ s.tickets ∨ (∃ q ∈ s.pending, q.caller = t.caller ∧ q.wanted = t.wanted) ∨
      e = .arrive t.caller t.wanted := by
  refine (tickets_step ht).imp_right fun hissued => ?_
  obtain ⟨q, hcaller, hwanted, hq | ⟨he, -⟩, -⟩ := issued_step hissued
  · exact .inl ⟨q, hq, hcaller, hwanted⟩
  · exact .inr (hcaller ▸ hwanted ▸ he)

/-- Whoever waits for a slot on a route after an event has asked for it before, or does so now. -/
theorem askedFor_of_pending (hp : p ∈ (s.step now e).1.pending) (hw : p.wanted = .route key scope) :
    s.AskedFor e key := by
  rcases pending_origin hp with ⟨q, hq, -, hwanted⟩ | he
  · exact .inr ⟨q, hq, scope, hwanted.trans hw⟩
  · exact .inl ⟨p.caller, scope, hw ▸ he⟩

/-- All routes that are asked for, or have a bucket, are as `P` says. -/
structure Among (P : RouteKey → Prop) (s : Limits) : Prop where
  waiting : ∀ p ∈ s.pending, ∀ key scope, p.wanted = .route key scope → P key
  routes : ∀ key, (s.routes.get? key).isSome → P key

variable {P : RouteKey → Prop}

theorem Among.askedFor (h : Among P s) (he : e.BringsOnly P) (ha : s.AskedFor e key) : P key := by
  rcases ha with ⟨c, scope, rfl⟩ | ⟨p, hp, scope, hw⟩
  · exact he
  · exact h.waiting p hp key scope hw

theorem among_step (h : Among P s) (hs : Housed s) (now : Instant) (he : e.BringsOnly P) :
    Among P (s.step now e).1 := by
  refine ⟨fun p hp key scope hw => h.askedFor he (askedFor_of_pending hp hw), fun key hkey => ?_⟩
  change ((s.step now e).1.tables.routes.get? key).isSome at hkey
  rcases tables_step hs.lodged.routed now e with ⟨n, -, ht⟩ | ⟨-, ht | ⟨made, ha, ht⟩⟩
  · rw [ht] at hkey
    exact h.routes key (Tables.isSome_of_named hs.sound hkey)
  · rw [ht] at hkey
    exact h.routes key hkey
  · rw [ht] at hkey
    rcases Tables.of_isSome_opened hkey with rfl | hkey
    · exact h.askedFor he ha
    · exact h.routes key hkey

end Limits

end ChatApi.Limit
