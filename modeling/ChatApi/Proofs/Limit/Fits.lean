import ChatApi.Proofs.Limit.Machine

/-!
# What each act relies on

An act relies on what its caller has found out or has been given before: that it owns the gate at which it
looks, that it is in no line when it joins one, that it has the ticket that it gives back (`Limits.Allows`). An
act keeps the gates right, spares all other callers (`Limits.Spares`), and leaves what its caller relies on next
(`Limits.Upholds`).
-/

namespace ChatApi.Limit

/-! ### Gates -/

/-- Nothing about a gate has changed for a caller, but that it may be in line no more. -/
structure Gate.Spares (x y : Gate) (d : Caller) : Prop where
  line : d ∈ y.line → d ∈ x.line
  turn : x.owner? = some d → x.hold = .turn → y.owner? = some d ∧ y.hold = .turn

namespace Gate

variable {x y : Gate} {c d : Caller} {now : Instant}

theorem Spares.refl (x : Gate) (d : Caller) : x.Spares x d := ⟨id, fun h h' => ⟨h, h'⟩⟩

theorem spares_join (hd : d ≠ c) (x : Gate) : x.Spares (x.join c) d := by
  refine ⟨fun hmem => ?_, fun ho hh => ?_⟩
  · exact (List.mem_append.1 hmem).resolve_right (by simpa using hd)
  · unfold join owner? at *
    cases hl : x.line with
    | nil => simp [hl] at ho
    | cons owner behind => exact ⟨by simpa [hl] using ho, by simpa [hl] using hh⟩

theorem spares_leave (hd : d ≠ c) (x : Gate) : x.Spares (x.leave c).1 d := by
  unfold leave
  cases hl : x.line with
  | nil => exact .refl ..
  | cons owner behind =>
    by_cases hc : owner = c
    · refine ⟨fun hmem => ?_, fun ho _ => ?_⟩
      · simp only [hc, if_true] at hmem
        exact hl ▸ List.mem_cons_of_mem _ hmem
      · simp only [owner?, hl, hc, List.head?_cons, Option.some.injEq] at ho
        exact absurd ho.symm hd
    · simp only [hc, if_false]
      refine ⟨fun hmem => ?_, fun ho hh => ⟨?_, hh⟩⟩
      · rw [hl]
        rcases List.mem_cons.1 hmem with rfl | hmem
        · exact List.mem_cons_self
        · exact List.mem_cons_of_mem _ (List.mem_of_mem_erase hmem)
      · simpa [owner?, hl] using ho

theorem spares_rouse (x : Gate) (d : Caller) : x.Spares x.rouse.1 d := by
  unfold rouse
  split
  · exact ⟨id, fun ho _ => ⟨ho, rfl⟩⟩
  · exact .refl ..

/-- What the owner of a gate does is of no matter to others. -/
theorem spares_hold (ho : x.owner? = some c) (hd : d ≠ c) (hold : Hold) : x.Spares { x with hold } d :=
  ⟨id, fun ho' _ => absurd (Option.some.inj (ho'.symm.trans ho)) hd⟩

/-- Whoever owns a gate and looks is the first who waits. -/
theorem waiting_hold {hold hold' : Hold} (h : x.hold = hold) (hp : hold ≠ .probing) (hp' : hold' ≠ .probing) :
    Gate.waiting { x with hold := hold' } = x.waiting ∧ Gate.prober? { x with hold := hold' } = x.prober? := by
  simp [waiting, prober?, h, hp, hp']

end Gate

namespace Limits

variable {s u v : Limits} {now till : Instant} {c d : Caller} {p q : Pending} {g : Stage} {i : Nat}
  {key : RouteKey} {t : Ticket} {a b : Act} {hasHeard : Bool}

/-- It is the turn of a caller that owns a gate. -/
structure HasTurn (s : Limits) (g : Stage) (c : Caller) : Prop where
  owner : (s.gateAt g).owner? = some c
  hold : (s.gateAt g).hold = .turn

/-- All that concerns a caller is as it was, but that it may be out of a line. -/
structure Spares (s u : Limits) (d : Caller) : Prop where
  entries : u.entries d = s.entries d
  gate : ∀ g, (s.gateAt g).Spares (u.gateAt g) d

theorem Spares.of_eq (hp : u.pending = s.pending) (ht : u.tickets = s.tickets)
    (hg : ∀ g, u.gateAt g = s.gateAt g) (d : Caller) : Spares s u d :=
  ⟨entries_congr hp ht d, fun g => by rw [hg g]; exact .refl ..⟩

theorem Spares.trans (h : Spares s u d) (h' : Spares u v d) : Spares s v d :=
  ⟨h'.entries.trans h.entries, fun g => ⟨fun hmem => (h.gate g).line ((h'.gate g).line hmem), fun ho hh =>
    have ⟨ho', hh'⟩ := (h.gate g).turn ho hh
    (h'.gate g).turn ho' hh'⟩⟩

theorem inNoLine_iff : s.InNoLine c ↔ ∀ g, c ∉ (s.gateAt g).line := by
  refine forall_congr' fun g => ?_
  rw [Gate.line_eq, List.mem_append, Option.mem_toList, not_or]
  exact And.comm

theorem Spares.inNoLine (h : Spares s u d) (hd : s.InNoLine d) : u.InNoLine d :=
  inNoLine_iff.2 fun g hmem => inNoLine_iff.1 hd g ((h.gate g).line hmem)

theorem Spares.hasTurn (h : Spares s u d) (hd : s.HasTurn g d) : u.HasTurn g d :=
  have ⟨ho, hh⟩ := (h.gate g).turn hd.owner hd.hold
  ⟨ho, hh⟩

theorem HasTurn.waits (h : s.HasTurn g c) (ho : Orderly s) : s.place? c = some (.waits g) :=
  ho.waits_of_owner h.owner (by rw [h.hold]; decide)

theorem HasTurn.bucket (h : s.HasTurn (.bucket i) c) : ∃ b, s.buckets[i]? = some b ∧ s.gateAt (.bucket i) = b.gate := by
  cases hb : s.buckets[i]? with
  | none =>
    have howner := h.owner
    rw [gateAt, site_of_none hb] at howner
    cases howner
  | some b => exact ⟨b, rfl, by rw [gateAt, site_of_some hb]⟩

theorem HasTurn.isUp (h : s.HasTurn g c) (now : Instant) : (s.gateAt g).isUp c now := by
  simp [Gate.isUp, h.owner, h.hold]

/-- A caller that waits, at the gate of a stage that `P` holds of. -/
def Waits (s : Limits) (c : Caller) (P : Stage → Prop) : Prop := ∃ q, s.entries c = (none, some q) ∧ P q.stage

/-- Where a caller waits, it has no ticket. -/
theorem waits_of_place (h : s.place? c = some (.waits g)) : s.Waits c (· = g) := by
  have hn := ticket?_of_waits h
  obtain ⟨q, hq, hs⟩ : ∃ q, s.pending.find? (·.caller = c) = some q ∧ q.stage = g := by
    simpa [Limits.place?, hn] using h
  exact ⟨q, Prod.ext hn hq, hs⟩

/-! ### Changes of gates -/

theorem gate_eq (s : Limits) (g : Stage) : s.gate g = s.gateAt g := by
  cases g with
  | ceiling => rfl
  | bucket i =>
    simp only [gate, gateAt, site]
    cases s.buckets[i]? <;> rfl

theorem changeGate_bucket (s : Limits) (i : Nat) (f : Gate → Gate × Option Caller) :
    s.changeGate (.bucket i) f = s.changeBucket i (·.changeGate f) := rfl

/-- All but the gates, and who was given a turn, is as it was. -/
structure Regated (s u : Limits) : Prop where
  ceiling : u.ceiling = s.ceiling
  windows : ∀ i, (u.site i).window = (s.site i).window
  keys : u.buckets.map (·.key) = s.buckets.map (·.key)
  routes : u.routes = s.routes
  shared : u.shared = s.shared
  pending : u.pending = s.pending
  tickets : u.tickets = s.tickets
  woken : ∀ c ∈ s.woken, c ∈ u.woken

/-- A gate changes, or there is none. -/
theorem changeGate_cases (s : Limits) (g : Stage) (f : Gate → Gate × Option Caller) :
    s.changeGate g f = s ∧ s.gateAt g = {} ∨
      (∀ g', (s.changeGate g f).gateAt g' = if g' = g then (f (s.gateAt g)).1 else s.gateAt g') ∧
        ∀ c ∈ (f (s.gateAt g)).2, c ∈ (s.changeGate g f).woken := by
  cases g with
  | ceiling =>
    refine .inr ⟨fun g' => ?_, fun c hc => List.mem_append_right _ (Option.mem_toList.2 hc)⟩
    cases g' <;> rfl
  | bucket i =>
    cases hb : s.buckets[i]? with
    | none => exact .inl ⟨by rw [changeGate_bucket, changeBucket_of_none hb], by rw [gateAt, site_of_none hb]⟩
    | some b =>
      have hgate : s.gateAt (.bucket i) = b.gate := by rw [gateAt, site_of_some hb]
      refine .inr ⟨fun g' => ?_, fun c hc => ?_⟩
      · by_cases hg : g' = .bucket i
        · subst hg
          rw [if_pos rfl, hgate, gateAt, changeGate_bucket, site_changeBucket hb, if_pos rfl]
          rfl
        · rw [if_neg hg]
          cases g' with
          | ceiling => exact (beside_changeBucket fun _ => rfl).ceilingGate
          | bucket j =>
            have hj : j ≠ i := fun hj => hg (congrArg Stage.bucket hj)
            exact congrArg Site.gate (site_changeBucket_ne hj)
      · rw [changeGate_bucket, changeBucket_of_some hb]
        exact List.mem_append_right _ (Option.mem_toList.2 (by rwa [hgate] at hc))

theorem regated_changeGate (s : Limits) (g : Stage) (f : Gate → Gate × Option Caller) :
    Regated s (s.changeGate g f) := by
  cases g with
  | ceiling => exact ⟨rfl, fun _ => rfl, rfl, rfl, rfl, rfl, rfl, fun c hc => List.mem_append_left _ hc⟩
  | bucket i =>
    have hb : Beside s (s.changeBucket i (·.changeGate f)) := beside_changeBucket fun _ => rfl
    refine ⟨hb.ceiling, fun j => ?_, hb.keys, hb.routes, hb.shared, hb.pending, hb.tickets, fun c hc => ?_⟩
    · rw [changeGate_bucket]
      cases hi : s.buckets[i]? with
      | none => rw [changeBucket_of_none hi]
      | some b =>
        rw [site_changeBucket hi]
        split
        · rename_i hj
          rw [hj, site_of_some hi]
          rfl
        · rfl
    · exact mem_woken_changeBucket hc

/-- A change that leaves an empty gate empty is seen at its gate, whether there is one or not. -/
theorem gateAt_changeGate {f : Gate → Gate × Option Caller} (hf : (f {}).1 = {}) (s : Limits) (g g' : Stage) :
    (s.changeGate g f).gateAt g' = if g' = g then (f (s.gateAt g)).1 else s.gateAt g' := by
  rcases changeGate_cases s g f with ⟨heq, hnone⟩ | ⟨hgate, -⟩
  · rw [heq]
    split
    · rename_i hg
      rw [hg, hnone, hf]
    · rfl
  · exact hgate g'

/-- A gate that somebody owns is there. -/
theorem HasTurn.gateAt_changeGate (h : s.HasTurn g c) (f : Gate → Gate × Option Caller) (g' : Stage) :
    (s.changeGate g f).gateAt g' = if g' = g then (f (s.gateAt g)).1 else s.gateAt g' := by
  rcases changeGate_cases s g f with ⟨-, hnone⟩ | ⟨hgate, -⟩
  · have howner := h.owner
    rw [hnone] at howner
    cases howner
  · exact hgate g'

/-- A change of one gate spares whom it spares there. -/
theorem spares_changeGate {f : Gate → Gate × Option Caller} (hf : (s.gateAt g).Spares (f (s.gateAt g)).1 d) :
    Spares s (s.changeGate g f) d := by
  have hr := regated_changeGate s g f
  rcases changeGate_cases s g f with ⟨heq, -⟩ | ⟨hgate, -⟩
  · rw [heq]
    exact .of_eq rfl rfl (fun _ => rfl) d
  · refine ⟨entries_congr hr.pending hr.tickets d, fun g' => ?_⟩
    rw [hgate]
    split
    · rename_i hg
      exact hg ▸ hf
    · exact .refl ..

theorem spares_grant (hd : d ≠ p.caller) (s : Limits) (bucket : Option Nat) : Spares s (s.grant p bucket) d :=
  ⟨entries_grant_ne hd s bucket, fun g => by rw [gateAt_grant]; exact .refl ..⟩

theorem gateAt_bucketFor (s : Limits) (key : RouteKey) (g : Stage) : (s.bucketFor key).2.gateAt g = s.gateAt g := by
  cases g with
  | ceiling => exact (bucketFor_frame s key).2.1
  | bucket j => exact congrArg Site.gate ((bucketFor_spec s key).2 j)

theorem site_putBucket {b : Bucket} (hb : s.buckets[i]? = some b) (b' : Bucket) (j : Nat) :
    (s.putBucket i b').site j = if j = i then ⟨b'.window, b'.gate⟩ else s.site j := by
  rw [putBucket, ← wake_none { s with buckets := s.buckets.set i b' }]
  exact site_set hb none j

theorem gateAt_putBucket {b : Bucket} (hb : s.buckets[i]? = some b) (window : Window) (gate : Gate) (g : Stage) :
    (s.putBucket i { b with window, gate }).gateAt g = if g = .bucket i then gate else s.gateAt g := by
  cases g with
  | ceiling => rfl
  | bucket j =>
    show ((s.putBucket i { b with window, gate }).site j).gate = _
    rw [site_putBucket hb]
    by_cases hj : j = i
    · simp [hj]
    · simp [hj, gateAt]

/-- A window is of no matter to a gate. -/
theorem gateAt_putWindow {b : Bucket} (hb : s.buckets[i]? = some b) (window : Window) (g : Stage) :
    (s.putBucket i { b with window }).gateAt g = s.gateAt g := by
  refine (gateAt_putBucket hb window b.gate g).trans ?_
  split
  · rename_i hg
    rw [hg, gateAt, site_of_some hb]
  · rfl

/-! ### Acts -/

theorem leadsTo_of_mem_next (h : b ∈ (s.act now a).next) : a.LeadsTo b := by
  cases a with
  | start p =>
    unfold act at h
    dsimp only at h
    split at h
    · cases h
    · cases List.mem_singleton.1 h; trivial
    · cases List.mem_singleton.1 h; trivial
    · cases List.mem_singleton.1 h; trivial
  | seek | join | listen => cases List.mem_singleton.1 h; trivial
  | resume g p =>
    unfold act at h
    dsimp only at h
    split at h
    · cases List.mem_singleton.1 h; trivial
    · cases h
  | look g p hasHeard =>
    unfold act look at h
    cases g with
    | ceiling =>
      dsimp only at h
      split at h
      · cases List.mem_singleton.1 h; exact ⟨_, _, _, rfl⟩
      · cases List.mem_singleton.1 h; trivial
    | bucket i =>
      dsimp only at h
      split at h
      · cases h
      · split at h
        · cases List.mem_singleton.1 h; exact ⟨_, _, _, rfl⟩
        · cases h
        · cases List.mem_singleton.1 h; trivial
  | doze g p till hasHeard => cases hasHeard <;> cases h
  | pass g p =>
    unfold act at h
    dsimp only at h
    split at h
    · cases h
    · cases List.mem_singleton.1 h; trivial
    · cases h
  | fold i r =>
    unfold act at h
    dsimp only at h
    split at h
    · split at h
      · cases h
      · split at h
        · cases h
        · simp only [List.mem_cons, List.not_mem_nil, or_false] at h
          rcases h with rfl | rfl | rfl <;> trivial
    · cases h
  | write | block | tell | lead | giveBack | quit => cases h

/-- What an act relies on. -/
def Allows (s : Limits) : Act → Prop
  | .start p => s.entries p.caller = (none, none) ∧ p.stage = .ceiling
  | .seek p _ => s.InNoLine p.caller ∧ s.Waits p.caller fun _ => True
  | .join g p => s.InNoLine p.caller ∧ s.Waits p.caller fun g' => g = .ceiling → g' = .ceiling
  | .listen g p | .look g p _ | .doze g p _ _ | .pass g p => s.HasTurn g p.caller
  | .giveBack t => s.ticket? t.caller = some t
  | .quit p => s.entries p.caller = (none, some p)
  | .resume .. | .write .. | .block _ | .tell _ | .fold .. | .lead .. => True

/-- An act of a caller keeps the gates right, spares all others, and leaves what its caller relies on next. -/
structure Upholds (s : Limits) (now : Instant) (a : Act) (c : Caller) : Prop where
  orderly : (s.act now a).limits.Orderly
  spares : ∀ d, d ≠ c → Spares s (s.act now a).limits d
  next : (s.act now a).next = [] ∨
    ∃ b, (s.act now a).next = [b] ∧ b.caller? = some c ∧ (s.act now a).limits.Allows b

theorem Waits.mono {P Q : Stage → Prop} (h : s.Waits c P) (hPQ : ∀ g, P g → Q g) : s.Waits c Q :=
  have ⟨q, hq, hP⟩ := h
  ⟨q, hq, hPQ _ hP⟩

theorem Waits.congr {P : Stage → Prop} (h : s.Waits c P) (he : u.entries c = s.entries c) : u.Waits c P :=
  have ⟨q, hq, hP⟩ := h
  ⟨q, he.trans hq, hP⟩

theorem upholds_start (ho : Orderly s) (h : s.Allows (.start p)) (now : Instant) : Upholds s now (.start p) p.caller := by
  obtain ⟨he, hs⟩ := h
  obtain ⟨c, wanted, stage⟩ := p
  obtain rfl : stage = .ceiling := hs
  have hb := isBusy_of_entries he
  obtain ⟨hin, hout, hplace⟩ := orderly_comeIn ho hb wanted
  have hspares (d : Caller) (hd : d ≠ c) :
      Spares s { s with pending := s.pending ++ [⟨c, wanted, .ceiling⟩] } d :=
    ⟨by rw [entries_comeIn hb, if_neg hd], fun g => by cases g <;> exact .refl ..⟩
  have hwaits := waits_of_place hplace
  have hjoins : ({ s with pending := s.pending ++ [⟨c, wanted, .ceiling⟩] } : Limits).Allows
      (.join .ceiling ⟨c, wanted, .ceiling⟩) := ⟨hout, hwaits.mono fun g hg _ => hg⟩
  cases wanted with
  | account => exact ⟨hin, hspares, .inr ⟨_, rfl, rfl, hjoins⟩⟩
  | route key scope =>
    cases scope with
    | all => exact ⟨hin, hspares, .inr ⟨_, rfl, rfl, hjoins⟩⟩
    | routeOnly => exact ⟨hin, hspares, .inr ⟨_, rfl, rfl, hout, hwaits.mono fun _ _ => trivial⟩⟩
    | exempt =>
      refine ⟨orderly_grant hin hout (ticket?_of_waits hplace) none, fun d hd => ?_, .inl rfl⟩
      exact (hspares d hd).trans (spares_grant hd _ none)

theorem upholds_seek (ho : Orderly s) (h : s.Allows (.seek p key)) (now : Instant) :
    Upholds s now (.seek p key) p.caller := by
  obtain ⟨hout, hwaits⟩ := h
  obtain ⟨-, -, ht, hp⟩ := bucketFor_frame s key
  have hspares (d : Caller) : Spares s (s.bucketFor key).2 d := .of_eq hp ht (gateAt_bucketFor s key) d
  refine ⟨?_, fun d _ => hspares d, .inr ⟨_, rfl, rfl, (hspares _).inNoLine hout, ?_⟩⟩
  · exact ho.congr hp ht (fun g => congrArg _ (gateAt_bucketFor s key g)) fun g => congrArg _ (gateAt_bucketFor s key g)
  · exact (hwaits.congr (hspares _).entries).mono fun _ _ => nofun

/-- A caller that is new waits, or has its ticket at once. -/
theorem start_eq (s : Limits) (now : Instant) (p : Pending) :
    ∃ pending tickets, (s.act now (.start p)).limits = { s with pending, tickets } := by
  unfold act
  dsimp only
  split <;> exact ⟨_, _, rfl⟩

/-- Whoever gets in line waits there. -/
theorem join_eq (s : Limits) (now : Instant) (g : Stage) (p : Pending) :
    ∃ pending, (s.act now (.join g p)).limits =
        { s.changeGate g fun gate => (gate.join p.caller, none) with pending } ∧
      (g = .ceiling ∧ pending = s.pending ∨ ∃ i, g = .bucket i ∧ pending = s.pending.map (·.goTo p.caller i)) := by
  cases g with
  | ceiling => exact ⟨s.pending, rfl, .inl ⟨rfl, rfl⟩⟩
  | bucket i =>
    refine ⟨s.pending.map (·.goTo p.caller i), ?_, .inr ⟨i, rfl, rfl⟩⟩
    rw [← (regated_changeGate s (.bucket i) fun gate => (gate.join p.caller, none)).pending]
    rfl

theorem upholds_join (ho : Orderly s) (h : s.Allows (.join g p)) (now : Instant) :
    Upholds s now (.join g p) p.caller := by
  obtain ⟨hout, q, hq, hstage⟩ := h
  have hplace := waits_of_entries hq
  obtain ⟨pending, heq, hpending⟩ := join_eq s now g p
  have hr := regated_changeGate s g fun gate => (gate.join p.caller, none)
  have hgates (g' : Stage) : ({ s.changeGate g fun gate => (gate.join p.caller, none) with pending } : Limits).gateAt g' =
      (s.changeGate g fun gate => (gate.join p.caller, none)).gateAt g' := by cases g' <;> rfl
  have hothers (d : Caller) (hd : d ≠ p.caller) : (s.act now (.join g p)).limits.entries d = s.entries d := by
    rw [heq]
    rcases hpending with ⟨-, rfl⟩ | ⟨i, -, rfl⟩
    · simp only [entries, ticket?, hr.tickets]
    · exact entries_goTo_ne rfl hr.tickets hd
  have hself : (s.act now (.join g p)).limits.place? p.caller = some (.waits g) := by
    rw [heq]
    rcases hpending with ⟨rfl, rfl⟩ | ⟨i, rfl, rfl⟩
    · rw [hstage rfl] at hplace
      exact (place?_congr rfl hr.tickets).trans hplace
    · exact place?_goTo_self rfl hr.tickets hplace
  refine ⟨?_, fun d hd => ⟨hothers d hd, fun g' => ?_⟩, .inr ⟨.resume g p, rfl, rfl, trivial⟩⟩
  · refine ho.of_joined hout g (fun d hd => place?_of_entries_eq (hothers d hd)) hself fun g' => ?_
    rw [heq, hgates]
    rcases changeGate_cases s g fun gate => (gate.join p.caller, none) with ⟨hsame, -⟩ | ⟨hgate, -⟩
    · rw [hsame]
      exact ⟨rfl, .inl rfl⟩
    · rw [hgate]
      split
      · rename_i hg
        rw [hg]
        exact ⟨Gate.prober?_join, .inr ⟨rfl, Gate.waiting_join⟩⟩
      · exact ⟨rfl, .inl rfl⟩
  · rw [heq, hgates]
    exact (spares_changeGate (Gate.spares_join hd _)).gate g'

/-- The owner of a gate goes on to look there, or to sleep. -/
theorem orderly_hold (hold : Hold) (ho : Orderly s) (howner : (s.gateAt g).owner? = some c)
    (hp : (s.gateAt g).hold ≠ .probing) (hp' : hold ≠ .probing) :
    Orderly (s.changeGate g fun gate => ({ gate with hold }, none)) ∧
      (∀ d, d ≠ c → Spares s (s.changeGate g fun gate => ({ gate with hold }, none)) d) ∧
      ((s.changeGate g fun gate => ({ gate with hold }, none)).gateAt g) = { s.gateAt g with hold } := by
  have hr := regated_changeGate s g fun gate => ({ gate with hold }, none)
  rcases changeGate_cases s g fun gate => ({ gate with hold }, none) with ⟨-, hnone⟩ | ⟨hgate, -⟩
  · rw [hnone] at howner
    cases howner
  · obtain ⟨hwait, hprobe⟩ := Gate.waiting_hold (x := s.gateAt g) rfl hp hp'
    refine ⟨ho.congr hr.pending hr.tickets (fun g' => ?_) fun g' => ?_, fun d hd => ?_, ?_⟩
    · rw [hgate]
      split
      · rename_i hg; rw [hg]; exact hwait
      · rfl
    · rw [hgate]
      split
      · rename_i hg; rw [hg]; exact hprobe
      · rfl
    · exact spares_changeGate (Gate.spares_hold howner hd hold)
    · rw [hgate, if_pos rfl]

/-- An act of which nothing comes. -/
theorem Upholds.of_nothing (ho : Orderly s) (h : s.act now a = { limits := s }) (c : Caller) : Upholds s now a c := by
  constructor
  · rwa [h]
  · rw [h]
    exact fun d _ => .of_eq rfl rfl (fun _ => rfl) d
  · rw [h]
    exact .inl rfl

theorem upholds_resume (ho : Orderly s) (g : Stage) (p : Pending) (now : Instant) :
    Upholds s now (.resume g p) p.caller := by
  cases hu : (s.gate g).isUp p.caller now with
  | false => exact .of_nothing ho (by simp [act, hu]) p.caller
  | true =>
    have hact : s.act now (.resume g p) =
        { limits := s.changeGate g fun gate => ({ gate with hold := .turn }, none), next := [.listen g p] } := by
      simp [act, hu]
    rw [gate_eq] at hu
    obtain ⟨-, -, hline⟩ := Gate.of_isUp hu
    have howner : (s.gateAt g).owner? = some p.caller := by rw [Gate.owner?, hline]; rfl
    have hp : (s.gateAt g).hold ≠ .probing := fun hp => by simp [Gate.isUp, hp] at hu
    obtain ⟨horderly, hspares, hgate⟩ := orderly_hold .turn ho howner hp (by decide)
    constructor
    · rwa [hact]
    · rwa [hact]
    · rw [hact]
      exact .inr ⟨_, rfl, rfl, by rw [hgate]; exact howner, by rw [hgate]⟩

theorem upholds_listen (ho : Orderly s) (h : s.Allows (.listen g p)) (now : Instant) :
    Upholds s now (.listen g p) p.caller :=
  ⟨ho, fun d _ => .of_eq rfl rfl (fun _ => rfl) d, .inr ⟨_, rfl, rfl, h⟩⟩

/-- Nothing but a budget has changed. -/
theorem upholds_of_gates {o : Outcome} (hact : s.act now a = o) (ho : Orderly s) (hp : o.limits.pending = s.pending)
    (ht : o.limits.tickets = s.tickets) (hg : ∀ g, o.limits.gateAt g = s.gateAt g)
    (hnext : o.next = [] ∨ ∃ b, o.next = [b] ∧ b.caller? = some c ∧ o.limits.Allows b) : Upholds s now a c := by
  subst hact
  exact ⟨ho.congr hp ht (fun g => congrArg _ (hg g)) fun g => congrArg _ (hg g), fun d _ => .of_eq hp ht hg d, hnext⟩

theorem HasTurn.congr (h : s.HasTurn g c) (hg : u.gateAt g = s.gateAt g) : u.HasTurn g c :=
  ⟨hg ▸ h.owner, hg ▸ h.hold⟩

theorem upholds_look (ho : Orderly s) (h : s.Allows (.look g p hasHeard)) (now : Instant) :
    Upholds s now (.look g p hasHeard) p.caller := by
  have hturn : s.HasTurn g p.caller := h
  cases g with
  | ceiling =>
    have hgates (ceiling : Ceiling) (g : Stage) : ({ s with ceiling } : Limits).gateAt g = s.gateAt g := by
      cases g <;> rfl
    cases hr : s.ceiling.reserve now with
    | mk ceiling wait =>
      cases wait with
      | some till =>
        have hact : s.act now (.look .ceiling p hasHeard) =
            { limits := { s with ceiling }, next := [.doze .ceiling p till hasHeard] } := by simp [act, look, hr]
        exact upholds_of_gates hact ho rfl rfl (hgates ceiling) (.inr ⟨_, rfl, rfl, hturn.congr (hgates ..)⟩)
      | none =>
        have hact : s.act now (.look .ceiling p hasHeard) =
            { limits := { s with ceiling }, next := [.pass .ceiling p] } := by simp [act, look, hr]
        exact upholds_of_gates hact ho rfl rfl (hgates ceiling) (.inr ⟨_, rfl, rfl, hturn.congr (hgates ..)⟩)
  | bucket i =>
    obtain ⟨b, hb, hgate⟩ := hturn.bucket
    have hact := act_look_bucket hb now p hasHeard
    have hlooked := pollBucket_of_isUp hb (p := p) (hgate ▸ hturn.isUp now)
    cases hr : b.window.reserve now with
    | mk window slot =>
      have hgates := gateAt_putWindow hb window
      cases slot with
      | wait till =>
        rw [hr] at hact
        exact upholds_of_gates hact ho rfl rfl hgates (.inr ⟨_, rfl, rfl, hturn.congr (hgates _)⟩)
      | proceed isProbe =>
        cases isProbe with
        | false =>
          rw [hr] at hact
          exact upholds_of_gates hact ho rfl rfl hgates (.inr ⟨_, rfl, rfl, hturn.congr (hgates _)⟩)
        | true =>
          rw [hr] at hact hlooked
          dsimp only at hact hlooked
          constructor
          · have horderly := orderly_pollBucket ho now p i
            rw [hlooked] at horderly
            rwa [hact]
          · intro d hd
            rw [hact]
            refine Spares.trans (u := s.putBucket i { b with window, gate := { b.gate with hold := .probing } })
              ⟨entries_congr rfl rfl d, fun g => ?_⟩ (spares_grant hd _ _)
            rw [gateAt_putBucket hb]
            split
            · rename_i hg
              rw [hg, hgate]
              exact Gate.spares_hold (hgate ▸ hturn.owner) hd .probing
            · exact .refl ..
          · rw [hact]
            exact .inl rfl

theorem upholds_doze (ho : Orderly s) (h : s.Allows (.doze g p till hasHeard)) (now : Instant) :
    Upholds s now (.doze g p till hasHeard) p.caller := by
  have hturn : s.HasTurn g p.caller := h
  cases hasHeard with
  | true => exact upholds_of_gates rfl ho rfl rfl (fun g => by cases g <;> rfl) (.inl rfl)
  | false =>
    obtain ⟨horderly, hspares, -⟩ :=
      orderly_hold (.asleep till) ho hturn.owner (by rw [hturn.hold]; decide) (by simp)
    exact ⟨horderly, hspares, .inl rfl⟩

/-- A caller leaves the gate that it waits at. -/
theorem left_changeGate (ho : Orderly s) (h : s.place? c = some (.waits g))
    (hplace : ∀ d, d ≠ c → u.place? d = s.place? d)
    (hgate : ∀ g', u.gateAt g' = if g' = g then ((s.gateAt g).leave c).1 else s.gateAt g') :
    Orderly u ∧ InNoLine u c := by
  refine ho.of_left hplace fun g' => ?_
  rw [hgate]
  by_cases hg : g' = g
  · rw [if_pos hg, hg]
    exact .inl rfl
  · exact .inr ⟨if_neg hg, ho.not_at g' (by rw [h]; simpa using Ne.symm hg) (by simp [h])⟩

/-- Whoever passes a gate leaves it, and has its ticket or goes on. -/
theorem pass_eq (s : Limits) (now : Instant) (g : Stage) (p : Pending) :
    ∃ pending tickets, (s.act now (.pass g p)).limits = { s.changeGate g (·.leave p.caller) with pending, tickets } := by
  unfold act
  dsimp only
  split <;> exact ⟨_, _, rfl⟩

theorem upholds_pass (ho : Orderly s) (h : s.Allows (.pass g p)) (now : Instant) : Upholds s now (.pass g p) p.caller := by
  have hturn : s.HasTurn g p.caller := h
  have hplace := hturn.waits ho
  have hr := regated_changeGate s g (·.leave p.caller)
  obtain ⟨hleft, hout⟩ := left_changeGate ho hplace (fun d _ => place?_congr hr.pending hr.tickets)
    (gateAt_changeGate (f := (·.leave p.caller)) rfl s g)
  have hspares (d : Caller) (hd : d ≠ p.caller) : Spares s (s.changeGate g (·.leave p.caller)) d :=
    spares_changeGate (Gate.spares_leave hd _)
  have hn : (s.changeGate g (·.leave p.caller)).ticket? p.caller = none := by
    rw [ticket?, hr.tickets]
    exact ticket?_of_waits hplace
  have granted (bucket : Option Nat) (hact : s.act now (.pass g p) =
      { limits := (s.changeGate g (·.leave p.caller)).grant p bucket, turn := .granted }) :
      Upholds s now (.pass g p) p.caller := by
    constructor
    · rw [hact]
      exact orderly_grant hleft hout hn bucket
    · rw [hact]
      exact fun d hd => (hspares d hd).trans (spares_grant hd _ bucket)
    · rw [hact]
      exact .inl rfl
  cases g with
  | bucket i => exact granted (some i) rfl
  | ceiling =>
    cases hw : p.wanted with
    | account => exact granted none (by simp [act, hw])
    | route key scope =>
      have hact : s.act now (.pass .ceiling p) =
          { limits := s.changeGate .ceiling (·.leave p.caller), next := [.seek p key] } := by simp [act, hw]
      have hwaits : (s.changeGate .ceiling (·.leave p.caller)).Waits p.caller fun _ => True :=
        ((waits_of_place hplace).congr (entries_congr hr.pending hr.tickets _)).mono fun _ _ => trivial
      constructor
      · rwa [hact]
      · rwa [hact]
      · rw [hact]
        exact .inr ⟨_, rfl, rfl, hout, hwaits⟩

theorem upholds_giveBack (ho : Orderly s) (h : s.Allows (.giveBack t)) (now : Instant) :
    Upholds s now (.giveBack t) t.caller := by
  refine ⟨orderly_release ho h, fun d hd => ⟨entries_release_ne hd s, fun g => ?_⟩, .inl rfl⟩
  show (s.gateAt g).Spares ((s.release t).gateAt g) d
  rw [gateAt_release]
  split
  · exact Gate.spares_leave hd _
  · exact .refl ..

theorem upholds_quit (ho : Orderly s) (h : s.Allows (.quit p)) (now : Instant) : Upholds s now (.quit p) p.caller := by
  let v : Limits := { s with pending := s.pending.filter (·.caller ≠ p.caller) }
  have hv (g : Stage) : v.gateAt g = s.gateAt g := by cases g <;> rfl
  have hr := regated_changeGate v p.stage (·.leave p.caller)
  have hgate := gateAt_changeGate (f := (·.leave p.caller)) rfl v p.stage
  have hothers (d : Caller) (hd : d ≠ p.caller) :
      (v.changeGate p.stage (·.leave p.caller)).entries d = s.entries d := by
    refine (entries_congr hr.pending hr.tickets d).trans ?_
    simp only [entries, ticket?, v, find?_filter_ne Pending.caller s.pending hd]
  have horderly : Orderly (v.changeGate p.stage (·.leave p.caller)) := by
    refine (left_changeGate ho (waits_of_entries h) (fun d hd => place?_of_entries_eq (hothers d hd)) fun g => ?_).1
    rw [hgate, hv, hv]
  refine ⟨horderly, fun d hd => ⟨hothers d hd, fun g => ?_⟩, .inl rfl⟩
  show (s.gateAt g).Spares ((v.changeGate p.stage (·.leave p.caller)).gateAt g) d
  rw [hgate, hv, hv]
  split
  · rename_i hg
    exact hg ▸ Gate.spares_leave hd _
  · exact .refl ..

/-- An act of a caller keeps what the act relied on for whatever follows. -/
theorem upholds_act (ho : Orderly s) (h : s.Allows a) (hc : a.caller? = some c) (now : Instant) : Upholds s now a c := by
  cases a with
  | start p => cases hc; exact upholds_start ho h now
  | seek p key => cases hc; exact upholds_seek ho h now
  | join g p => cases hc; exact upholds_join ho h now
  | resume g p => cases hc; exact upholds_resume ho g p now
  | listen g p => cases hc; exact upholds_listen ho h now
  | look g p hasHeard => cases hc; exact upholds_look ho h now
  | doze g p till hasHeard => cases hc; exact upholds_doze ho h now
  | pass g p => cases hc; exact upholds_pass ho h now
  | giveBack t => cases hc; exact upholds_giveBack ho h now
  | quit p => cases hc; exact upholds_quit ho h now
  | write | block | tell | fold | lead => cases hc

theorem gateAt_changeWindow (s : Limits) (i : Nat) (f : Window → Window) (g : Stage) :
    (s.changeBucket i fun b => ({ b with window := f b.window }, none)).gateAt g = s.gateAt g := by
  cases hb : s.buckets[i]? with
  | none => rw [changeBucket_of_none hb]
  | some b =>
    rw [changeBucket_of_some hb, wake_none]
    exact gateAt_putWindow hb _ g

/-- Looking for the bucket of a name may note one under it. -/
theorem fold_eq (s : Limits) (now : Instant) (i : Nat) (r : Report) :
    ∃ shared, (s.act now (.fold i r)).limits = { s with shared } := by
  unfold act
  dsimp only
  split
  · split
    · exact ⟨_, rfl⟩
    · split <;> exact ⟨_, rfl⟩
  · exact ⟨_, rfl⟩

/-- What is done for no caller keeps the gates right and spares everyone. -/
theorem upholds_common (ho : Orderly s) (hc : a.caller? = none) (now : Instant) :
    (s.act now a).limits.Orderly ∧ ∀ d, Spares s (s.act now a).limits d := by
  have of_gates {u : Limits} (hp : u.pending = s.pending) (ht : u.tickets = s.tickets)
      (hg : ∀ g, u.gateAt g = s.gateAt g) : u.Orderly ∧ ∀ d, Spares s u d :=
    ⟨ho.congr hp ht (fun g => congrArg _ (hg g)) fun g => congrArg _ (hg g), fun d => .of_eq hp ht hg d⟩
  cases a with
  | write i change =>
    let f (b : Bucket) : Bucket × Option Caller := ({ b with window := b.window.change now change }, none)
    have hb : Beside s (s.changeBucket i f) := beside_changeBucket fun _ => rfl
    exact of_gates hb.pending hb.tickets (gateAt_changeWindow s i (·.change now change))
  | block wait => exact of_gates rfl rfl fun g => by cases g <;> rfl
  | tell g =>
    have hr := regated_changeGate s g Gate.rouse
    have hgate : ∀ g', (s.act now (.tell g)).limits.gateAt g' = _ := gateAt_changeGate (f := Gate.rouse) rfl s g
    refine ⟨ho.congr hr.pending hr.tickets (fun g' => ?_) fun g' => ?_, fun d => spares_changeGate (Gate.spares_rouse _ d)⟩
    · rw [hgate]
      split
      · rename_i hg; rw [hg, Gate.waiting_rouse]
      · rfl
    · rw [hgate]
      split
      · rename_i hg; rw [hg, Gate.prober?_rouse]
      · rfl
  | fold i r =>
    obtain ⟨shared, heq⟩ := fold_eq s now i r
    rw [heq]
    exact of_gates rfl rfl fun g => by cases g <;> rfl
  | lead key i => exact of_gates rfl rfl fun g => by cases g <;> rfl
  | start | seek | join | resume | listen | look | doze | pass | giveBack | quit => cases hc

end Limits

end ChatApi.Limit
