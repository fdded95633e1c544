import ChatApi.Proofs.Limit.History
import ChatApi.Proofs.Limit.Whole

/-!
# What operations do at one bucket

`Limits.site` is what callers see of one bucket: its window and its gate. The lemmas say what each
operation on limits does at every bucket, and that it leaves the rest alone.
-/

namespace ChatApi.Limit

/-- A bucket as its callers see it. One that nobody has used yet is like one that is new. -/
structure Site where
  window : Window := {}
  gate : Gate := {}

namespace Site

/-- A caller looks at the budget, if it is its turn. -/
def look (x : Site) (now : Instant) (c : Caller) : Site :=
  if x.gate.isUp c now then
    match x.window.reserve now with
    | (window, .wait till) => ⟨window, { x.gate with hold := .asleep till }⟩
    | (window, .proceed true) => ⟨window, { x.gate with hold := .probing }⟩
    | (window, .proceed false) => ⟨window, (x.gate.leave c).1⟩
  else x

/-- Whether a caller that looks is let through. -/
def lets (x : Site) (now : Instant) (c : Caller) : Bool :=
  x.gate.isUp c now && (x.window.reserve now).2.isProceed

/-- A caller gets in line, if it is new, and looks. -/
def arrive (x : Site) (isNew : Bool) (c : Caller) : Site :=
  if isNew then { x with gate := x.gate.join c } else x

@[simp] theorem arrive_false (x : Site) (c : Caller) : x.arrive false c = x := rfl

/-- Something is taken over from a response. Whoever sleeps at the gate is to look again. -/
def take (x : Site) (now : Instant) (op : Window.Op) : Site :=
  ⟨(x.window.apply now op).1, x.gate.rouse.1⟩

def leave (x : Site) (c : Caller) : Site := { x with gate := (x.gate.leave c).1 }

/-- What is taken over from a response, if anything, comes before the caller leaves, if one does. -/
def settle (x : Site) (now : Instant) (op : Option Window.Op) (c : Option Caller) : Site :=
  let x := match op with
    | some op => x.take now op
    | none => x
  match c with
  | some c => x.leave c
  | none => x

variable {x : Site} {now : Instant} {c : Caller}

/-- A caller that is not let through changes nothing about who probes and who waits. -/
theorem look_of_not_lets (h : x.lets now c = false) :
    (x.look now c).gate.prober? = x.gate.prober? ∧ (x.look now c).gate.waiting = x.gate.waiting := by
  unfold look
  by_cases hu : x.gate.isUp c now
  · rw [if_pos hu]
    cases hr : x.window.reserve now with
    | mk window slot =>
      cases slot with
      | wait till => exact Gate.asleep_of_isUp hu till
      | proceed isProbe => simp [lets, hu, hr, Slot.isProceed] at h
  · rw [if_neg hu]
    exact ⟨rfl, rfl⟩

/-- A caller that is let through was the first who waited, and nobody probed. -/
theorem look_of_lets (h : x.lets now c = true) :
    x.gate.prober? = none ∧ ∃ rest, x.gate.waiting = c :: rest ∧ (x.look now c).gate.waiting = rest ∧
      (x.look now c).gate.prober? =
        if (x.window.reserve now).2 = .proceed true then some c else none := by
  simp only [lets, Bool.and_eq_true] at h
  obtain ⟨hu, hs⟩ := h
  obtain ⟨hn, hw, hl⟩ := Gate.of_isUp hu
  refine ⟨hn, _, hw, ?_⟩
  unfold look
  rw [if_pos hu]
  cases hr : x.window.reserve now with
  | mk window slot =>
    cases slot with
    | wait till => simp [hr, Slot.isProceed] at hs
    | proceed isProbe =>
      cases isProbe with
      | true =>
        have ho : x.gate.line.head? = some c := by rw [hl]; rfl
        simp [Gate.waiting, Gate.prober?, Gate.owner?, ho]
      | false =>
        refine ⟨?_, ?_⟩
        · show (x.gate.leave c).1.waiting = _
          rw [Gate.waiting_leave, hn, hw]
          simp
        · show (x.gate.leave c).1.prober? = _
          rw [Gate.prober?_leave, hn]
          simp

@[simp] theorem prober?_arrive (isNew : Bool) : (x.arrive isNew c).gate.prober? = x.gate.prober? := by
  cases isNew with
  | false => rfl
  | true => exact Gate.prober?_join

/-- A new caller gets in line behind all others. -/
theorem waiting_arrive (isNew : Bool) :
    (x.arrive isNew c).gate.waiting = x.gate.waiting ++ if isNew then [c] else [] := by
  cases isNew with
  | false => exact (List.append_nil _).symm
  | true => exact Gate.waiting_join

/-- What is taken over changes nothing about who probes; only the probe itself opens the gate. -/
theorem prober?_settle (x : Site) (now : Instant) (op : Option Window.Op) (d : Option Caller) :
    (x.settle now op d).gate.prober? = if d.isSome ∧ x.gate.prober? = d then none else x.gate.prober? := by
  have ho : (x.settle now op none).gate.prober? = x.gate.prober? := by
    cases op with
    | none => rfl
    | some op => exact Gate.prober?_rouse
  cases d with
  | none => simpa using ho
  | some d =>
    refine (Gate.prober?_leave (g := (x.settle now op none).gate) (c := d)).trans ?_
    simp [ho]

/-- Only a caller that leaves gets out of line. -/
theorem waiting_settle (x : Site) (now : Instant) (op : Option Window.Op) (d : Option Caller) :
    (x.settle now op d).gate.waiting = x.gate.waiting ∨
      ∃ c ∈ d, (x.settle now op d).gate.waiting = x.gate.waiting.erase c := by
  have ho : (x.settle now op none).gate.waiting = x.gate.waiting := by
    cases op with
    | none => rfl
    | some op => exact Gate.waiting_rouse
  cases d with
  | none => exact .inl ho
  | some d =>
    have hl := Gate.waiting_leave (g := (x.settle now op none).gate) (c := d)
    rw [ho] at hl
    split at hl
    · exact .inl hl
    · exact .inr ⟨d, rfl, hl⟩

end Site

/-- `f` takes `op` over at a bucket. -/
structure Bucket.Takes (f : Bucket → Bucket × Option Caller) (now : Instant) (op : Window.Op) : Prop where
  site : ∀ b, Site.mk (f b).1.window (f b).1.gate = (Site.mk b.window b.gate).take now op
  key : ∀ b, (f b).1.key = b.key

theorem Bucket.takes_record (now : Instant) (r : Report) : Takes (·.record now r) now (.record r) :=
  ⟨fun _ => rfl, fun _ => rfl⟩

theorem Bucket.takes_exhaust (now : Instant) (wait : Span) :
    Takes (·.exhaust now wait) now (.exhaust wait) := ⟨fun _ => rfl, fun _ => rfl⟩

namespace Limits

def site (s : Limits) (i : Nat) : Site := (s.buckets[i]?.map fun b => ⟨b.window, b.gate⟩).getD {}

variable {s : Limits} {now : Instant} {i j : Nat}

/-! ### Sites -/

theorem site_of_buckets_eq {t : Limits} (h : s.buckets = t.buckets) : s.site i = t.site i := by
  simp [site, h]

theorem site_of_some {b : Bucket} (h : s.buckets[i]? = some b) : s.site i = ⟨b.window, b.gate⟩ := by
  simp [site, h]

theorem site_of_none (h : s.buckets[i]? = none) : s.site i = {} := by
  simp [site, h]

@[simp] theorem buckets_wake (s : Limits) (c : Option Caller) : (s.wake c).buckets = s.buckets := rfl

theorem site_set {b b' : Bucket} (h : s.buckets[i]? = some b) (c : Option Caller) (j : Nat) :
    ({ s with buckets := s.buckets.set i b' }.wake c).site j =
      if j = i then ⟨b'.window, b'.gate⟩ else s.site j := by
  have hi : i < s.buckets.length := (List.getElem?_eq_some_iff.1 h).1
  by_cases hj : j = i
  · subst hj; simp [site, hi]
  · simp [site, hj, List.getElem?_set_ne (Ne.symm hj)]

theorem site_changeBucket {f : Bucket → Bucket × Option Caller} {b : Bucket}
    (h : s.buckets[i]? = some b) (j : Nat) :
    (s.changeBucket i f).site j = if j = i then ⟨(f b).1.window, (f b).1.gate⟩ else s.site j := by
  rw [changeBucket_of_some h, site_set h]

theorem site_changeBucket_ne {f : Bucket → Bucket × Option Caller} (h : j ≠ i) :
    (s.changeBucket i f).site j = s.site j := by
  cases hb : s.buckets[i]? with
  | none => rw [changeBucket_of_none hb]
  | some b => rw [site_changeBucket hb, if_neg h]

/-- Taking something over at a bucket that is not there changes nothing. -/
theorem site_changeBucket_take {f : Bucket → Bucket × Option Caller} {op : Window.Op}
    (hf : Bucket.Takes f now op) (i j : Nat) :
    (s.changeBucket i f).site j =
      if j = i ∧ i < s.buckets.length then (s.site j).take now op else s.site j := by
  by_cases hi : i < s.buckets.length
  · have hb := List.getElem?_eq_getElem hi
    rw [site_changeBucket hb]
    by_cases hj : j = i
    · subst hj
      rw [if_pos rfl, if_pos ⟨rfl, hi⟩, hf.site, site_of_some hb]
    · rw [if_neg hj, if_neg (fun h => hj h.1)]
  · rw [changeBucket_of_none (List.getElem?_eq_none (Nat.le_of_not_lt hi)), if_neg (fun h => hi h.2)]

theorem site_changeBucket_leave (c : Caller) :
    (s.changeBucket i (·.leave c)).site i = (s.site i).leave c := by
  cases hb : s.buckets[i]? with
  | none => rw [changeBucket_of_none hb, site_of_none hb]; rfl
  | some b => rw [site_changeBucket hb, if_pos rfl, site_of_some hb]; rfl

theorem mem_woken_changeBucket {f : Bucket → Bucket × Option Caller} {c : Caller} (hc : c ∈ s.woken) :
    c ∈ (s.changeBucket i f).woken := by
  unfold changeBucket
  split
  · exact hc
  · exact List.mem_append_left _ hc

/-- Two states differ in nothing but the windows and gates of buckets and in who was woken. -/
structure Beside (s u : Limits) : Prop where
  ceiling : u.ceiling = s.ceiling
  ceilingGate : u.ceilingGate = s.ceilingGate
  keys : u.buckets.map (·.key) = s.buckets.map (·.key)
  routes : u.routes = s.routes
  shared : u.shared = s.shared
  pending : u.pending = s.pending
  tickets : u.tickets = s.tickets

theorem Beside.refl (s : Limits) : Beside s s := ⟨rfl, rfl, rfl, rfl, rfl, rfl, rfl⟩

theorem beside_set {b : Bucket} (h : s.buckets[i]? = some b) (b' : Bucket) (hk : b'.key = b.key)
    (c : Option Caller) : Beside s ({ s with buckets := s.buckets.set i b' }.wake c) := by
  refine ⟨rfl, rfl, ?_, rfl, rfl, rfl, rfl⟩
  obtain ⟨hi, rfl⟩ := List.getElem?_eq_some_iff.1 h
  have hi' : i < (s.buckets.map (·.key)).length := by simpa using hi
  have := List.set_getElem_self hi'
  rwa [List.getElem_map, ← hk, ← List.map_set] at this

theorem beside_changeBucket {f : Bucket → Bucket × Option Caller} (hf : ∀ b, (f b).1.key = b.key) :
    Beside s (s.changeBucket i f) := by
  cases hb : s.buckets[i]? with
  | none => rw [changeBucket_of_none hb]; exact .refl s
  | some b => rw [changeBucket_of_some hb]; exact beside_set hb _ (hf b) _

/-! ### Taking responses over -/

/-- The bucket that goes by the name that a response gives to bucket `i`. -/
def canonical? (s : Limits) (i : Nat) (r : Report) : Option Nat := do
  let hash ← r.bucket
  let key ← s.buckets[i]?.map (·.key)
  s.shared.get? (sharedName hash key)

theorem Beside.canonical? {u : Limits} (h : Beside s u) (i : Nat) (r : Report) :
    u.canonical? i r = s.canonical? i r := by
  have hk := congrArg (·[i]?) h.keys
  simp only [List.getElem?_map] at hk
  simp only [Limits.canonical?, hk, h.shared]

theorem Beside.length {u : Limits} (h : Beside s u) : u.buckets.length = s.buckets.length := by
  simpa using congrArg List.length h.keys

theorem share_of_ne {b : Bucket} {r : Report} (hb : s.buckets[i]? = some b)
    (h : s.canonical? i r = some j) (hj : j ≠ i) :
    s.share now i r =
      { s.changeBucket j (·.record now r) with
        routes := (s.changeBucket j (·.record now r)).routes.put b.key j } := by
  unfold canonical? at h
  unfold share
  cases hr : r.bucket with
  | none => simp [hr] at h
  | some hash =>
    have hk : s.shared.get? (sharedName hash b.key) = some j := by simpa [hr, hb] using h
    simp [hb, hk, hj]

theorem buckets_share_of_eq {r : Report} (h : ∀ j, s.canonical? i r = some j → j = i) :
    (s.share now i r).buckets = s.buckets := by
  unfold share
  split
  · rename_i hash b hr hb
    dsimp only
    split
    · rfl
    · rename_i j hk
      rw [if_pos (h j (by simp [canonical?, hr, hb, hk]))]
  · rfl

/-- Folding changes no bucket but the one that is folded onto, which takes the response over. -/
theorem site_share (s : Limits) (now : Instant) (i : Nat) (r : Report) (j : Nat) :
    (s.share now i r).site j =
      if s.canonical? i r = some j ∧ j ≠ i ∧ j < s.buckets.length then (s.site j).take now (.record r)
      else s.site j := by
  by_cases hc : ∃ k, s.canonical? i r = some k ∧ k ≠ i
  · obtain ⟨k, hk, hki⟩ := hc
    obtain ⟨b, hb⟩ : ∃ b, s.buckets[i]? = some b := by
      cases hb : s.buckets[i]? with
      | none => simp [canonical?, hb] at hk
      | some b => exact ⟨b, rfl⟩
    rw [share_of_ne hb hk hki, hk]
    refine Eq.trans (site_changeBucket_take (Bucket.takes_record now r) k j) ?_
    by_cases hkj : j = k
    · subst hkj; simp [hki]
    · simp [hkj, Ne.symm hkj]
  · rw [if_neg (fun h => hc ⟨j, h.1, h.2.1⟩)]
    refine site_of_buckets_eq (buckets_share_of_eq fun k hk => ?_)
    exact Decidable.not_not.1 fun hki => hc ⟨k, hk, hki⟩

/-- A response is taken over by its bucket, and then by the one that the route is folded onto. -/
theorem site_changeBucket_share {f : Bucket → Bucket × Option Caller} {op : Window.Op}
    (hf : Bucket.Takes f now op) (i : Nat) (r : Report) (j : Nat) :
    ((s.changeBucket i f).share now i r).site j =
      if j < s.buckets.length then
        if j = i then (s.site j).take now op
        else if s.canonical? i r = some j then (s.site j).take now (.record r)
        else s.site j
      else s.site j := by
  have hbeside : Beside s (s.changeBucket i f) := beside_changeBucket hf.key
  rw [site_share, hbeside.canonical?, hbeside.length, site_changeBucket_take hf]
  by_cases hj : j < s.buckets.length
  · by_cases hji : j = i
    · subst hji; simp [hj]
    · simp [hj, hji]
  · have : ¬ (j = i ∧ i < s.buckets.length) := by rintro ⟨rfl, h⟩; exact hj h
    simp [hj, this]

/-- Whatever a response says of buckets, the account and who waits or holds slots stay as they are. -/
theorem share_frame (s : Limits) (now : Instant) (i : Nat) (r : Report) :
    (s.share now i r).ceiling = s.ceiling ∧ (s.share now i r).ceilingGate = s.ceilingGate ∧
      (s.share now i r).pending = s.pending ∧ (s.share now i r).tickets = s.tickets := by
  unfold share
  split
  · dsimp only
    split
    · exact ⟨rfl, rfl, rfl, rfl⟩
    · split
      · exact ⟨rfl, rfl, rfl, rfl⟩
      · rename_i j _ _
        have hb := beside_changeBucket (s := s) (i := j) (f := (·.record now r)) fun b => rfl
        exact ⟨hb.ceiling, hb.ceilingGate, hb.pending, hb.tickets⟩
  · exact ⟨rfl, rfl, rfl, rfl⟩

theorem changeBucket_share_frame {f : Bucket → Bucket × Option Caller} {op : Window.Op}
    (hf : Bucket.Takes f now op) (s : Limits) (i : Nat) (r : Report) :
    ((s.changeBucket i f).share now i r).ceiling = s.ceiling ∧
      ((s.changeBucket i f).share now i r).ceilingGate = s.ceilingGate ∧
      ((s.changeBucket i f).share now i r).pending = s.pending ∧
      ((s.changeBucket i f).share now i r).tickets = s.tickets := by
  have hb : Beside s (s.changeBucket i f) := beside_changeBucket hf.key
  obtain ⟨hc, hg, hp, ht⟩ := share_frame (s.changeBucket i f) now i r
  exact ⟨hc.trans hb.ceiling, hg.trans hb.ceilingGate, hp.trans hb.pending, ht.trans hb.tickets⟩

theorem recordBucket_frame (s : Limits) (now : Instant) (t : Ticket) (r : Report) :
    (s.recordBucket now t r).ceiling = s.ceiling ∧
      (s.recordBucket now t r).ceilingGate = s.ceilingGate ∧
      (s.recordBucket now t r).pending = s.pending ∧ (s.recordBucket now t r).tickets = s.tickets := by
  unfold recordBucket
  split
  · exact changeBucket_share_frame (Bucket.takes_record now r) s _ r
  · exact ⟨rfl, rfl, rfl, rfl⟩

/-- The state in which a refusal for the whole account holds all of it back, if the request was subject
to that limit. -/
def held (s : Limits) (now : Instant) (t : Ticket) (wait : Span) : Limits :=
  match t.wanted with
  | .route _ .all => s.block now wait
  | _ => s

theorem held_cases (s : Limits) (now : Instant) (t : Ticket) (wait : Span) :
    s.held now t wait = s ∨ s.held now t wait = s.block now wait := by
  unfold held
  split
  · exact .inr rfl
  · exact .inl rfl

theorem recordRefusal_of_global {r : Report} {body : Option Refusal} (h : isGlobalRefusal r body)
    (t : Ticket) :
    s.recordRefusal now t r body =
      if r.isTracked then (s.held now t (refusalWait r body)).recordBucket now t r
      else s.held now t (refusalWait r body) := by
  unfold recordRefusal
  exact if_pos h

theorem recordRefusal_of_not_global {r : Report} {body : Option Refusal}
    (h : isGlobalRefusal r body = false) (t : Ticket) :
    s.recordRefusal now t r body =
      match t.bucket with
      | some i => (s.changeBucket i (·.exhaust now (refusalWait r body))).share now i r
      | none => s := by
  unfold recordRefusal
  exact if_neg (by simp [h])

/-- A refusal may hold the account back, which a sleeper at its gate is to look at. -/
theorem recordRefusal_frame (s : Limits) (now : Instant) (t : Ticket) (r : Report)
    (body : Option Refusal) :
    ((s.recordRefusal now t r body).ceiling = s.ceiling ∧
        (s.recordRefusal now t r body).ceilingGate = s.ceilingGate ∨
      (s.recordRefusal now t r body).ceiling = s.ceiling.block now (refusalWait r body) ∧
        (s.recordRefusal now t r body).ceilingGate = s.ceilingGate.rouse.1) ∧
      (s.recordRefusal now t r body).pending = s.pending ∧
      (s.recordRefusal now t r body).tickets = s.tickets := by
  cases hg : isGlobalRefusal r body with
  | true =>
    rw [recordRefusal_of_global hg]
    have of_held (u : Limits) (hu : u = s ∨ u = s.block now (refusalWait r body)) :
        (u.ceiling = s.ceiling ∧ u.ceilingGate = s.ceilingGate ∨
          u.ceiling = s.ceiling.block now (refusalWait r body) ∧
            u.ceilingGate = s.ceilingGate.rouse.1) ∧
          u.pending = s.pending ∧ u.tickets = s.tickets := by
      rcases hu with rfl | rfl
      · exact ⟨.inl ⟨rfl, rfl⟩, rfl, rfl⟩
      · exact ⟨.inr ⟨rfl, rfl⟩, rfl, rfl⟩
    split
    · obtain ⟨hc, hgate, hp, ht⟩ := recordBucket_frame (s.held now t (refusalWait r body)) now t r
      rw [hc, hgate, hp, ht]
      exact of_held _ (held_cases s now t _)
    · exact of_held _ (held_cases s now t _)
  | false =>
    rw [recordRefusal_of_not_global hg]
    split
    · obtain ⟨hc, hgate, hp, ht⟩ :=
        changeBucket_share_frame (Bucket.takes_exhaust now (refusalWait r body)) s _ r
      exact ⟨.inl ⟨hc, hgate⟩, hp, ht⟩
    · exact ⟨.inl ⟨rfl, rfl⟩, rfl, rfl⟩

theorem site_release (s : Limits) (t : Ticket) (j : Nat) :
    (s.release t).site j = if t.bucket = some j then (s.site j).leave t.caller else s.site j := by
  unfold release
  dsimp only
  split
  · rename_i i hi
    by_cases hj : j = i
    · subst hj
      rw [hi, if_pos rfl]
      exact site_changeBucket_leave t.caller
    · rw [if_neg (by rw [hi]; exact fun h => hj (Option.some.inj h).symm)]
      exact site_changeBucket_ne hj
  · rename_i hn
    simp only [hn, reduceCtorEq, if_false]
    rfl

theorem release_frame (s : Limits) (t : Ticket) :
    (s.release t).ceiling = s.ceiling ∧ (s.release t).ceilingGate = s.ceilingGate ∧
      (s.release t).pending = s.pending ∧
      (s.release t).tickets = s.tickets.filter (·.caller ≠ t.caller) := by
  unfold release
  dsimp only
  split
  · rename_i i _
    have hb := beside_changeBucket (s := { s with tickets := s.tickets.filter (·.caller ≠ t.caller) })
      (i := i) (f := (·.leave t.caller)) fun b => rfl
    exact ⟨hb.ceiling, hb.ceilingGate, hb.pending, hb.tickets⟩
  · exact ⟨rfl, rfl, rfl, rfl⟩

theorem withdraw_of_ticket {c : Caller} {t : Ticket} (h : s.ticket? c = some t) :
    s.withdraw c = s.release t := by
  simp [withdraw, h]

theorem withdraw_of_absent {c : Caller} (ht : s.ticket? c = none)
    (hp : s.pending.find? (·.caller = c) = none) : s.withdraw c = s := by
  simp [withdraw, ht, hp]

theorem site_withdraw {c : Caller} {p : Pending} (ht : s.ticket? c = none)
    (hp : s.pending.find? (·.caller = c) = some p) (j : Nat) :
    (s.withdraw c).site j = if p.stage = .bucket j then (s.site j).leave c else s.site j := by
  simp only [withdraw, ht, hp]
  cases hs : p.stage with
  | ceiling => simp only [reduceCtorEq, if_false]; rfl
  | bucket i =>
    by_cases hj : j = i
    · subst hj
      rw [if_pos rfl]
      exact site_changeBucket_leave c
    · rw [if_neg (fun h => hj (Stage.bucket.inj h).symm)]
      exact site_changeBucket_ne hj

theorem withdraw_frame {c : Caller} {p : Pending} (ht : s.ticket? c = none)
    (hp : s.pending.find? (·.caller = c) = some p) :
    (s.withdraw c).ceiling = s.ceiling ∧
      (s.withdraw c).ceilingGate =
        (if p.stage = .ceiling then (s.ceilingGate.leave c).1 else s.ceilingGate) ∧
      (s.withdraw c).pending = s.pending.filter (·.caller ≠ c) ∧ (s.withdraw c).tickets = s.tickets := by
  simp only [withdraw, ht, hp]
  cases hs : p.stage with
  | ceiling => exact ⟨rfl, by simp [wake], rfl, rfl⟩
  | bucket i =>
    have hb := beside_changeBucket (s := { s with pending := s.pending.filter (·.caller ≠ c) }) (i := i)
      (f := (·.leave c)) fun b => rfl
    exact ⟨hb.ceiling, by simpa using hb.ceilingGate, hb.pending, hb.tickets⟩

end Limits

end ChatApi.Limit
