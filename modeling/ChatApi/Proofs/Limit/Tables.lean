import ChatApi.Proofs.Limit.Touch

/-!
# What events do to the tables

The tables say which bucket a route has and which bucket goes by a name. Only two things ever happen to
them: a route that is asked for gets a bucket if it has none (`Tables.opened`), and a response names the
bucket of a ticket (`Tables.named`). `tables_step` says which of the two an event does.

A response names a bucket only where it is taken over: a refusal for the whole account that says nothing
of a bucket's budget is not. `Limits.namings` lists the names that were given in a run.
-/

namespace ChatApi.Limit

/-- The routes that buckets were made for, and the tables that lead to buckets. -/
structure Tables where
  keys : List RouteKey
  routes : Table RouteKey Nat
  shared : Table String Nat

namespace Tables

open Limits (sharedName)

/-- A route that is asked for gets a bucket, if it has none. -/
def opened (x : Tables) (key : RouteKey) : Tables :=
  match x.routes.get? key with
  | some _ => x
  | none => { x with keys := x.keys ++ [key], routes := x.routes.put key x.keys.length }

/-- A response names bucket `i`, whose route is folded onto the bucket that was first named so. -/
def named (x : Tables) (i : Nat) (hash : String) : Tables :=
  match x.keys[i]? with
  | none => x
  | some key =>
    match x.shared.get? (sharedName hash key) with
    | none => { x with shared := x.shared.put (sharedName hash key) i }
    | some j => if j = i then x else { x with routes := x.routes.put key j }

/-- A response may name the bucket that its request has a slot of, if it has one. -/
def told (x : Tables) : Option Nat → Option String → Tables
  | some i, some hash => x.named i hash
  | _, _ => x

/-- The bucket that a route has once it is asked for. -/
def entry (x : Tables) (key : RouteKey) : Nat := (x.routes.get? key).getD x.keys.length

variable {x : Tables} {key made : RouteKey} {hash : String} {i : Nat}

@[simp] theorem told_none (x : Tables) (i : Option Nat) : x.told i none = x := by cases i <;> rfl

/-- The bucket that a name leads to once a response has given it to bucket `i`. -/
def home (x : Tables) (i : Nat) (hash : String) (made : RouteKey) : Nat :=
  (x.shared.get? (sharedName hash made)).getD i

@[simp] theorem keys_named : (x.named i hash).keys = x.keys := by
  unfold named
  split
  · rfl
  · split
    · rfl
    · split <;> rfl

@[simp] theorem keys_told (x : Tables) (i : Option Nat) (hash : Option String) :
    (x.told i hash).keys = x.keys := by
  cases i with
  | none => rfl
  | some i => cases hash <;> simp [told]

theorem get?_shared_named (h : x.keys[i]? = some made) (hash name : String) :
    (x.named i hash).shared.get? name =
      if name = sharedName hash made then some (x.home i hash made) else x.shared.get? name := by
  simp only [named, h, home]
  cases hn : x.shared.get? (sharedName hash made) with
  | none => exact Table.get?_put ..
  | some j =>
    have hknown : x.shared.get? name = if name = sharedName hash made then some j else x.shared.get? name := by
      by_cases he : name = sharedName hash made
      · rw [if_pos he, he, hn]
      · rw [if_neg he]
    by_cases hj : j = i
    · simpa [hj] using hknown
    · simpa [hj] using hknown

/-- Only the entry of the route that the bucket was made for can change, and only to lead elsewhere. -/
theorem get?_routes_named (h : x.keys[i]? = some made) (hash : String) (key : RouteKey) :
    (x.named i hash).routes.get? key =
      if key = made ∧ x.home i hash made ≠ i then some (x.home i hash made) else x.routes.get? key := by
  rcases Option.eq_none_or_eq_some (x.shared.get? (sharedName hash made)) with hn | ⟨j, hn⟩
  · simp [named, home, h, hn]
  · by_cases hj : j = i
    · simp [named, home, h, hn, hj]
    · simp [named, home, h, hn, hj, Table.get?_put]

/-! ### Sound tables -/

/-- No two buckets are made for one route, a route that has a bucket made for it has an entry, and every
entry leads to a bucket. -/
structure Sound (x : Tables) : Prop where
  nodup : x.keys.Nodup
  covered : ∀ key ∈ x.keys, (x.routes.get? key).isSome
  routes : ∀ key i, x.routes.get? key = some i → i < x.keys.length
  shared : ∀ name i, x.shared.get? name = some i → i < x.keys.length

/-- Buckets are never taken away, a route that has an entry keeps one, and a name that leads to a bucket
goes on leading there. -/
structure Grows (x y : Tables) : Prop where
  keys : ∀ (i : Nat) (made : RouteKey), x.keys[i]? = some made → y.keys[i]? = some made
  routes : ∀ key, (x.routes.get? key).isSome → (y.routes.get? key).isSome
  shared : ∀ name i, x.shared.get? name = some i → y.shared.get? name = some i

theorem Grows.refl (x : Tables) : x.Grows x := ⟨fun _ _ h => h, fun _ h => h, fun _ _ h => h⟩

theorem Grows.trans {y z : Tables} (h : x.Grows y) (h' : y.Grows z) : x.Grows z :=
  ⟨fun i made hi => h'.keys i made (h.keys i made hi), fun key hkey => h'.routes key (h.routes key hkey),
    fun name i hi => h'.shared name i (h.shared name i hi)⟩

theorem Grows.lt_length {y : Tables} (h : x.Grows y) (hi : i < x.keys.length) : i < y.keys.length :=
  (List.getElem?_eq_some_iff.1 (h.keys i _ (List.getElem?_eq_getElem hi))).1

theorem grows_opened (x : Tables) (key : RouteKey) : x.Grows (x.opened key) := by
  unfold opened
  split
  · exact .refl x
  · refine ⟨fun i made hi => ?_, fun made hmade => ?_, fun name i hi => hi⟩
    · exact (List.getElem?_append_left (List.getElem?_eq_some_iff.1 hi).1).trans hi
    · simp only [Table.get?_put]
      split
      · rfl
      · exact hmade

theorem grows_named (x : Tables) (i : Nat) (hash : String) : x.Grows (x.named i hash) := by
  cases hi : x.keys[i]? with
  | none =>
    have : x.named i hash = x := by simp [named, hi]
    rw [this]
    exact .refl x
  | some made =>
    refine ⟨fun j other hj => by rwa [keys_named], fun key hkey => ?_, fun name j hj => ?_⟩
    · rw [get?_routes_named hi]
      split
      · rfl
      · exact hkey
    · rw [get?_shared_named hi]
      split
      · rename_i hname
        simp [home, ← hname, hj]
      · exact hj

/-- Only the route that was asked for gets an entry. -/
theorem of_isSome_opened (h : ((x.opened key).routes.get? made).isSome) :
    made = key ∨ (x.routes.get? made).isSome := by
  unfold opened at h
  split at h
  · exact .inr h
  · simp only [Table.get?_put] at h
    split at h
    · exact .inl ‹_›
    · exact .inr h

/-- The route that was asked for has an entry now. -/
theorem get?_opened_self (x : Tables) (key : RouteKey) :
    (x.opened key).routes.get? key = some (x.entry key) := by
  unfold opened entry
  cases hk : x.routes.get? key with
  | some i => exact hk
  | none => exact Table.get?_put_self ..

/-- The bucket that a new route gets was made for it. -/
theorem keys_opened_of_new (h : x.routes.get? key = none) :
    (x.opened key).keys[x.keys.length]? = some key := by
  simp [opened, h]

theorem Sound.opened (h : x.Sound) (key : RouteKey) : (x.opened key).Sound := by
  cases hk : x.routes.get? key with
  | some i => simpa [Tables.opened, hk] using h
  | none =>
    -- no bucket was made for the route, since it would have an entry
    have hnew : key ∉ x.keys := fun hmem => by simpa [hk] using h.covered key hmem
    simp only [Tables.opened, hk]
    refine ⟨?_, fun made hmade => ?_, fun made i hi => ?_, fun name i hi => ?_⟩
    · refine List.nodup_append.2 ⟨h.nodup, by simp, fun a ha b hb hab => hnew ?_⟩
      rwa [← List.mem_singleton.1 hb, ← hab]
    · rw [Table.get?_put]
      split
      · rfl
      · rename_i hne
        exact h.covered made (by simpa [hne] using hmade)
    · rw [Table.get?_put] at hi
      rw [List.length_append]
      split at hi
      · cases hi
        exact Nat.lt_succ_self _
      · exact Nat.lt_succ_of_lt (h.routes made i hi)
    · rw [List.length_append]
      exact Nat.lt_succ_of_lt (h.shared name i hi)

theorem Sound.home_lt (h : x.Sound) (hi : x.keys[i]? = some made) (hash : String) :
    x.home i hash made < x.keys.length := by
  unfold home
  cases hn : x.shared.get? (sharedName hash made) with
  | none => exact (List.getElem?_eq_some_iff.1 hi).1
  | some j => exact h.shared _ j hn

theorem Sound.named (h : x.Sound) (i : Nat) (hash : String) : (x.named i hash).Sound := by
  cases hi : x.keys[i]? with
  | none => simpa [Tables.named, hi] using h
  | some made =>
    have hhome := h.home_lt hi hash
    refine ⟨by simpa using h.nodup, fun key hkey => ?_, fun key j hj => ?_, fun name j hj => ?_⟩
    · exact (grows_named x i hash).routes key (h.covered key (by simpa using hkey))
    · rw [get?_routes_named hi] at hj
      rw [keys_named]
      split at hj
      · cases hj
        exact hhome
      · exact h.routes key j hj
    · rw [get?_shared_named hi] at hj
      rw [keys_named]
      split at hj
      · cases hj
        exact hhome
      · exact h.shared name j hj

/-- No route gets an entry by being folded: it has one already. -/
theorem isSome_of_named (h : x.Sound) (hkey : ((x.named i hash).routes.get? key).isSome) :
    (x.routes.get? key).isSome := by
  cases hi : x.keys[i]? with
  | none => simpa [named, hi] using hkey
  | some made =>
    rw [get?_routes_named hi] at hkey
    split at hkey
    · rename_i hc
      exact hc.1 ▸ h.covered made (List.mem_of_getElem? hi)
    · exact hkey

end Tables

/-! ### Names that responses give -/

/-- That a response to a request on a route named the bucket of the request. -/
structure Naming where
  key : RouteKey
  bucket : Nat
  hash : String
  deriving DecidableEq

/-- The route that a slot is wanted on. -/
def Wanted.route? : Wanted → Option RouteKey
  | .route key _ => some key
  | .account => none

namespace Limits

def tables (s : Limits) : Tables := ⟨s.buckets.map (·.key), s.routes, s.shared⟩

@[simp] theorem length_keys (s : Limits) : s.tables.keys.length = s.buckets.length := List.length_map ..

/-- The name that a response gives to the bucket of a caller's ticket. -/
def naming? (s : Limits) (c : Caller) (r : Report) : Option Naming := do
  let t ← s.ticket? c
  return ⟨← t.wanted.route?, ← t.bucket, ← r.bucket⟩

/-- The name that an event gives to a bucket. A refusal for the whole account gives one only if it says
something of the bucket's budget. -/
def named? (s : Limits) : Event → Option Naming
  | .record c r => s.naming? c r
  | .refuse c r body => if isGlobalRefusal r body && !r.isTracked then none else s.naming? c r
  | _ => none

/-- The names that responses give in a run, the first one first. -/
def namings : Limits → List (Instant × Event) → List Naming
  | _, [] => []
  | s, (now, e) :: es => (s.named? e).toList ++ namings (s.step now e).1 es

theorem namings_append (s : Limits) (before after : List (Instant × Event)) :
    s.namings (before ++ after) = s.namings before ++ (s.run before).namings after := by
  induction before generalizing s with
  | nil => rfl
  | cons x before ih =>
    obtain ⟨now, e⟩ := x
    simp only [List.cons_append, namings, ih, List.append_assoc, run_cons]

variable {s u : Limits} {now : Instant} {p : Pending} {key : RouteKey} {t : Ticket} {r : Report} {i : Nat}

theorem Beside.tables (h : Beside s u) : u.tables = s.tables := by
  simp [Limits.tables, h.keys, h.routes, h.shared]

theorem tables_bucketFor (s : Limits) (key : RouteKey) : (s.bucketFor key).2.tables = s.tables.opened key := by
  cases hk : s.routes.get? key <;> simp [bucketFor, Tables.opened, tables, hk]

theorem bucketFor_fst (s : Limits) (key : RouteKey) :
    (s.bucketFor key).1 = s.tables.entry key := by
  cases hk : s.routes.get? key <;> simp [bucketFor, Tables.entry, tables, hk]

theorem tables_share (s : Limits) (now : Instant) (i : Nat) (r : Report) :
    (s.share now i r).tables = s.tables.told (some i) r.bucket := by
  cases hr : r.bucket with
  | none => simp [share, hr]
  | some hash =>
    show _ = s.tables.named i hash
    cases hb : s.buckets[i]? with
    | none => simp [share, hr, hb, Tables.named, tables]
    | some b =>
      cases hn : s.shared.get? (sharedName hash b.key) with
      | none => simp [share, hr, hb, hn, Tables.named, tables]
      | some j =>
        have hbeside := (beside_changeBucket (s := s) (i := j) (f := (·.record now r)) fun b => rfl).tables
        simp only [tables, Tables.mk.injEq] at hbeside
        by_cases hj : j = i
        · simp [share, hr, hb, hn, hj, Tables.named, tables]
        · simp [share, hr, hb, hn, hj, Tables.named, tables, hbeside]

theorem tables_pollBucket (s : Limits) (now : Instant) (p : Pending) (i : Nat) :
    (s.pollBucket now p i).1.tables = s.tables := by
  obtain ⟨u, hu, hv⟩ := visited_pollBucket s now p i
  cases hl : ((s.site i).arrive false p.caller).lets now p.caller with
  | true => rw [hv.granted hl]; exact hu.tables
  | false =>
    obtain ⟨turn, -, ho⟩ := hv.refused hl
    rw [ho]; exact hu.tables

theorem tables_lineUp (s : Limits) (p : Pending) (key : RouteKey) :
    (s.lineUp p key).2.tables = s.tables.opened key := by
  rw [← tables_bucketFor]
  exact (beside_changeBucket (s := (s.bucketFor key).2) (i := (s.bucketFor key).1)
    (f := fun b => ({ b with gate := b.gate.join p.caller }, none)) fun b => rfl).tables

theorem tables_enterBucket (s : Limits) (now : Instant) (p : Pending) (key : RouteKey) :
    (s.enterBucket now p key).1.tables = s.tables.opened key := by
  rw [enterBucket_eq]
  exact (tables_pollBucket ..).trans (tables_lineUp ..)

theorem tables_pollCeiling (s : Limits) (now : Instant) (p : Pending) :
    (s.pollCeiling now p).1.tables = s.tables ∨
      ∃ key scope, p.wanted = .route key scope ∧ (s.pollCeiling now p).1.tables = s.tables.opened key := by
  rcases pollCeiling_cases s now p with ho | ⟨-, ⟨till, -, ho⟩ | ⟨-, ⟨-, ho⟩ | ⟨key, scope, hw, ho⟩⟩⟩
  · rw [ho]; exact .inl rfl
  · rw [ho]; exact .inl rfl
  · rw [ho]; exact .inl rfl
  · rw [ho]; exact .inr ⟨key, scope, hw, tables_enterBucket ..⟩

theorem tables_release (s : Limits) (t : Ticket) : (s.release t).tables = s.tables := by
  unfold release
  dsimp only
  split
  · exact (beside_changeBucket fun b => rfl).tables
  · rfl

theorem tables_withdraw (s : Limits) (c : Caller) : (s.withdraw c).tables = s.tables := by
  unfold withdraw
  split
  · exact tables_release ..
  · dsimp only
    split
    · rfl
    · exact (beside_changeBucket (s := { s with pending := s.pending.filter (·.caller ≠ c) })
        fun b => rfl).tables
  · rfl

theorem tables_changeBucket_share {f : Bucket → Bucket × Option Caller} (hf : ∀ b, (f b).1.key = b.key)
    (i : Nat) (r : Report) :
    ((s.changeBucket i f).share now i r).tables = s.tables.told (some i) r.bucket := by
  rw [tables_share, (beside_changeBucket hf).tables]

/-- What a response says of a ticket's bucket is told to the tables by its name alone. -/
theorem tables_recordBucket (s : Limits) (now : Instant) (t : Ticket) (r : Report) :
    (s.recordBucket now t r).tables = s.tables.told t.bucket r.bucket := by
  unfold recordBucket
  cases t.bucket with
  | none => rfl
  | some i => exact tables_changeBucket_share (fun b => rfl) i r

theorem tables_recordRefusal (s : Limits) (now : Instant) (t : Ticket) (r : Report) (body : Option Refusal) :
    (s.recordRefusal now t r body).tables =
      if isGlobalRefusal r body && !r.isTracked then s.tables
      else s.tables.told t.bucket r.bucket := by
  cases hg : isGlobalRefusal r body with
  | true =>
    have hheld : (s.held now t (refusalWait r body)).tables = s.tables := by
      rcases held_cases s now t (refusalWait r body) with hu | hu <;> rw [hu]
      rfl
    rw [recordRefusal_of_global hg]
    cases hr : r.isTracked with
    | true => simpa [hheld] using tables_recordBucket (s.held now t (refusalWait r body)) now t r
    | false => simpa using hheld
  | false =>
    rw [recordRefusal_of_not_global hg]
    cases t.bucket with
    | none => rfl
    | some i => simpa using tables_changeBucket_share (f := (·.exhaust now _)) (fun b => rfl) i r

/-- The bucket that a response leads the route of bucket `i` to. -/
theorem home_eq {hash : String} {made : RouteKey} (hr : r.bucket = some hash)
    (hk : s.tables.keys[i]? = some made) : s.tables.home i hash made = (s.canonical? i r).getD i := by
  have hk' : s.buckets[i]?.map (·.key) = some made := by rw [← List.getElem?_map]; exact hk
  simp [Tables.home, canonical?, hr, hk', tables]

/-- A refusal makes no bucket. -/
theorem length_refuse (s : Limits) (now : Instant) (t : Ticket) (r : Report) (body : Option Refusal) :
    (s.refuse now t r body).buckets.length = s.buckets.length := by
  have h := (tables_release (s.recordRefusal now t r body) t).trans (tables_recordRefusal s now t r body)
  rw [← length_keys, ← length_keys, refuse, h]
  split
  · rfl
  · rw [Tables.keys_told]

/-- Every ticket that has a slot of a bucket is for a route. -/
def Routed (s : Limits) : Prop := ∀ t ∈ s.tickets, t.bucket.isSome → t.wanted.route?.isSome

theorem told_eq_of_naming? (h : s.Routed) {c : Caller} (ht : s.ticket? c = some t) (r : Report) :
    s.tables.told t.bucket r.bucket = match s.naming? c r with
      | some n => s.tables.named n.bucket n.hash
      | none => s.tables := by
  have hmem := h t (List.mem_of_find?_eq_some ht)
  cases hb : t.bucket with
  | none => cases hw : t.wanted.route? <;> simp [naming?, ht, hb, hw, Tables.told]
  | some i =>
    obtain ⟨key, hw⟩ := Option.isSome_iff_exists.1 (hmem (by simp [hb]))
    cases hr : r.bucket <;> simp [naming?, ht, hb, hw, hr, Tables.told]

/-- A route is asked for at an event. -/
def AskedFor (s : Limits) (e : Event) (key : RouteKey) : Prop :=
  (∃ c scope, e = .arrive c (.route key scope)) ∨ ∃ p ∈ s.pending, ∃ scope, p.wanted = .route key scope

/-- The tables are left as they are, except for what a response names. -/
theorem named_or_kept {t u : Tables} {o : Option Naming} (hu : u = match o with
      | some n => t.named n.bucket n.hash
      | none => t) :
    (∃ n, o = some n ∧ u = t.named n.bucket n.hash) ∨ o = none ∧ u = t := by
  cases o with
  | none => exact .inr ⟨rfl, hu⟩
  | some n => exact .inl ⟨n, rfl, hu⟩

/-- What an event does to the tables. -/
theorem tables_step (h : s.Routed) (now : Instant) (e : Event) :
    (∃ n, s.named? e = some n ∧ (s.step now e).1.tables = s.tables.named n.bucket n.hash) ∨
      s.named? e = none ∧ ((s.step now e).1.tables = s.tables ∨
        ∃ key, s.AskedFor e key ∧ (s.step now e).1.tables = s.tables.opened key) := by
  rw [step_eq]
  cases e with
  | arrive c wanted =>
    refine .inr ⟨rfl, ?_⟩
    simp only [leap]
    split
    · exact .inl rfl
    · unfold arrive
      dsimp only
      split
      · exact .inl rfl
      · exact .inr ⟨_, .inl ⟨_, _, rfl⟩, tables_enterBucket ..⟩
      · rename_i key
        refine (tables_pollCeiling _ now ⟨c, .route key .all, .ceiling⟩).imp_right ?_
        rintro ⟨_, _, ⟨⟩, ho⟩
        exact ⟨key, .inl ⟨c, .all, rfl⟩, ho⟩
      · refine (tables_pollCeiling _ now ⟨c, .account, .ceiling⟩).imp_right ?_
        rintro ⟨_, _, ⟨⟩, _⟩
  | poll c =>
    refine .inr ⟨rfl, ?_⟩
    simp only [leap, poll]
    split
    · exact .inl rfl
    · rename_i p hp
      split
      · refine (tables_pollCeiling s now p).imp_right ?_
        rintro ⟨key, scope, hw, ho⟩
        exact ⟨key, .inr ⟨p, List.mem_of_find?_eq_some hp, scope, hw⟩, ho⟩
      · exact .inl (tables_pollBucket ..)
  | record c r =>
    refine (named_or_kept ?_).imp_right (And.imp_right .inl)
    simp only [leap, named?]
    cases ht : s.ticket? c with
    | none => simp [naming?, ht]
    | some t =>
      refine (tables_release ..).trans ((tables_recordBucket ..).trans ?_)
      exact told_eq_of_naming? h ht r
  | refuse c r body =>
    refine (named_or_kept ?_).imp_right (And.imp_right .inl)
    simp only [leap, named?]
    cases ht : s.ticket? c with
    | none => cases isGlobalRefusal r body && !r.isTracked <;> simp [naming?, ht]
    | some t =>
      refine (tables_release ..).trans ((tables_recordRefusal ..).trans ?_)
      cases isGlobalRefusal r body && !r.isTracked with
      | true => rfl
      | false => exact told_eq_of_naming? h ht r
  | withdraw c => exact .inr ⟨rfl, .inl (tables_withdraw s c)⟩
  | block wait => exact .inr ⟨rfl, .inl rfl⟩

end Limits

end ChatApi.Limit
