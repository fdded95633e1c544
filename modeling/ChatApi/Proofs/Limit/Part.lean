import ChatApi.Proofs.Limit.Side

/-!
# The part of a side

`Part d s u` says that `u` is what `s` is to a side: the buckets of its routes, in the order in which they
were made, and the callers that wait there or hold slots of them. Whatever a caller does, it does to both
alike if it is one of the side, and leaves the part alone if it is not.
-/

namespace ChatApi.Limit

namespace Limits

variable {d : Side} {s u : Limits} {b : Bucket} {i : Nat} {c : Caller} {f : Bucket → Bucket × Option Caller}

/-- In `u` is left what belongs to the side in `s`. -/
structure Part (d : Side) (s u : Limits) : Prop where
  buckets : u.buckets = s.buckets.filter (d.covers ·.key)
  routes : ∀ key, d.covers key → u.routes.get? key = (s.routes.get? key).map (d.rank s.tables.keys)
  shared : ∀ hash key, key.IsPlain → d.covers key →
    u.shared.get? (sharedName hash key) = (s.shared.get? (sharedName hash key)).map (d.rank s.tables.keys)
  pending : u.pending = d.waiting (d.rank s.tables.keys) s.pending
  tickets : u.tickets = d.holding (d.rank s.tables.keys) s.tickets
  woken : u.woken = s.woken.filter d.has
  /-- At a bucket are only callers of its side. -/
  lines : ∀ b ∈ s.buckets, ∀ c ∈ b.gate.line, d.has c = d.covers b.key
  /-- Nobody is at the gate of the account. -/
  idle : s.ceilingGate.line = [] ∧ u.ceilingGate.line = []

theorem rank_eq (d : Side) (s : Limits) (i : Nat) :
    d.rank s.tables.keys i = (s.buckets.take i).countP (d.covers ·.key) := by
  simp [Side.rank, tables, ← List.map_take, List.countP_map, Function.comp_def]

/-- The bucket of a covered route is the same in the part. -/
theorem Part.bucket (h : Part d s u) (hb : s.buckets[i]? = some b) (hon : d.covers b.key) :
    u.buckets[d.rank s.tables.keys i]? = some b := by
  rw [h.buckets, rank_eq]
  exact getElem?_filter_of_pos hb hon

/-! ### Changes of a bucket -/

theorem tables_changeBucket_of_some (hb : s.buckets[i]? = some b) (hkey : (f b).1.key = b.key) :
    (s.changeBucket i f).tables = s.tables := by
  rw [changeBucket_of_some hb]
  exact (beside_set hb _ hkey _).tables

/-- A change of a bucket is one of the part too, if the bucket is there, and else leaves the part alone. -/
theorem Part.changeBucket (h : Part d s u) (hb : s.buckets[i]? = some b) (hf : d.Keeps b (f b)) :
    Part d (s.changeBucket i f)
      (if d.covers b.key then u.changeBucket (d.rank s.tables.keys i) f else u) := by
  have htables := tables_changeBucket_of_some hb hf.key
  rw [changeBucket_of_some hb] at htables ⊢
  have hlines : ∀ b' ∈ s.buckets.set i (f b).1, ∀ c ∈ b'.gate.line, d.has c = d.covers b'.key := by
    intro b' hb' c hc
    rcases List.mem_or_eq_of_mem_set hb' with hb' | rfl
    · exact h.lines b' hb' c hc
    · rw [hf.key]
      exact hf.line c hc
  cases hon : d.covers b.key with
  | true =>
    have hwoken : (f b).2.toList.filter d.has = (f b).2.toList :=
      List.filter_eq_self.2 fun c hc => (hf.woken c (Option.mem_toList.1 hc)).trans hon
    rw [if_pos rfl, changeBucket_of_some (h.bucket hb hon)]
    refine ⟨?_, htables ▸ h.routes, htables ▸ h.shared, htables ▸ h.pending, htables ▸ h.tickets, ?_, hlines, h.idle⟩
    · show u.buckets.set _ _ = (s.buckets.set i (f b).1).filter _
      rw [h.buckets, rank_eq, filter_set_of_pos hb hon (hf.key ▸ hon)]
    · show u.woken ++ _ = (s.woken ++ _).filter d.has
      rw [h.woken, List.filter_append, hwoken]
  | false =>
    have hwoken : (f b).2.toList.filter d.has = [] :=
      List.filter_eq_nil_iff.2 fun c hc => by simp [hf.woken c (Option.mem_toList.1 hc), hon]
    rw [if_neg (by simp)]
    refine ⟨?_, htables ▸ h.routes, htables ▸ h.shared, htables ▸ h.pending, htables ▸ h.tickets, ?_, hlines, h.idle⟩
    · show u.buckets = (s.buckets.set i (f b).1).filter _
      rw [h.buckets, filter_set_of_neg hb (by simp [hon]) (by simp [hf.key, hon])]
    · show u.woken = (s.woken ++ _).filter d.has
      rw [h.woken, List.filter_append, hwoken, List.append_nil]

/-- What a caller that looks at the budget of its bucket does. -/
theorem pollBucket_of_some (hb : s.buckets[i]? = some b) (now : Instant) (p : Pending) :
    s.pollBucket now p i =
      (if (b.poll now p.caller).2 = .granted then
        (s.changeBucket i fun b => (b.poll now p.caller).1).grant p (some i)
      else s.changeBucket i fun b => (b.poll now p.caller).1, (b.poll now p.caller).2) := by
  have hsame : { s with buckets := s.buckets.set i b, woken := s.woken ++ [] } = s := by
    obtain ⟨hi, rfl⟩ := List.getElem?_eq_some_iff.1 hb
    simp
  simp only [pollBucket, hb, changeBucket_of_some hb, Bucket.poll]
  cases hu : b.gate.isUp p.caller now with
  | false => simpa [wake] using hsame.symm
  | true =>
    cases hr : b.window.reserve now with
    | mk window slot =>
      cases slot with
      | wait till => simp [wake]
      | proceed isProbe => cases isProbe <;> simp [wake]

theorem pollCeiling_of_idle (h : s.ceilingGate.line = []) (now : Instant) (p : Pending) :
    s.pollCeiling now p = (s, .unchanged) := by
  simp [pollCeiling, Gate.isUp, Gate.owner?, h]

/-! ### Changes of who waits and who holds slots -/

theorem Part.withPending (h : Part d s u) {waiting waiting' : List Pending} {mine : Bool}
    (hw : d.waiting (d.rank s.tables.keys) waiting = if mine then waiting' else u.pending) :
    Part d { s with pending := waiting } (if mine then { u with pending := waiting' } else u) := by
  cases mine with
  | true => exact ⟨h.buckets, h.routes, h.shared, hw.symm, h.tickets, h.woken, h.lines, h.idle⟩
  | false => exact ⟨h.buckets, h.routes, h.shared, hw.symm, h.tickets, h.woken, h.lines, h.idle⟩

theorem Part.withTickets (h : Part d s u) {tickets tickets' : List Ticket} {mine : Bool}
    (ht : d.holding (d.rank s.tables.keys) tickets = if mine then tickets' else u.tickets) :
    Part d { s with tickets } (if mine then { u with tickets := tickets' } else u) := by
  cases mine with
  | true => exact ⟨h.buckets, h.routes, h.shared, h.pending, ht.symm, h.woken, h.lines, h.idle⟩
  | false => exact ⟨h.buckets, h.routes, h.shared, h.pending, ht.symm, h.woken, h.lines, h.idle⟩

/-- A caller waits no more. -/
theorem Part.leave (h : Part d s u) (c : Caller) :
    Part d { s with pending := s.pending.filter (·.caller ≠ c) }
      (if d.has c then { u with pending := u.pending.filter (·.caller ≠ c) } else u) :=
  h.withPending (h.pending ▸ d.waiting_leave ..)

/-- A caller comes in. -/
theorem Part.join (h : Part d s u) (c : Caller) (wanted : Wanted) :
    Part d { s with pending := s.pending ++ [⟨c, wanted, .ceiling⟩] }
      (if d.has c then { u with pending := u.pending ++ [⟨c, wanted, .ceiling⟩] } else u) :=
  h.withPending (h.pending ▸ d.waiting_snoc ..)

/-- A caller goes to a bucket. -/
theorem Part.goTo (h : Part d s u) (c : Caller) (i : Nat) :
    Part d { s with pending := s.pending.map (·.goTo c i) }
      (if d.has c then { u with pending := u.pending.map (·.goTo c (d.rank s.tables.keys i)) } else u) :=
  h.withPending (h.pending ▸ d.waiting_goTo ..)

theorem Part.grant (h : Part d s u) {p p' : Pending} (hcaller : p'.caller = p.caller)
    (hwanted : p'.wanted = p.wanted) (i : Nat) :
    Part d (s.grant p (some i))
      (if d.has p.caller then u.grant p' (some (d.rank s.tables.keys i)) else u) := by
  have hleave := h.leave p.caller
  have htickets := d.holding_snoc (d.rank s.tables.keys) s.tickets ⟨p.caller, p.wanted, some i⟩
  unfold Limits.grant
  rw [hcaller, hwanted]
  rw [← h.tickets] at htickets
  cases hc : d.has p.caller with
  | true =>
    simp only [hc, if_true] at hleave htickets ⊢
    exact ⟨hleave.buckets, hleave.routes, hleave.shared, hleave.pending, htickets.symm, hleave.woken,
      hleave.lines, hleave.idle⟩
  | false =>
    simp only [hc, Bool.false_eq_true, if_false] at hleave htickets ⊢
    exact ⟨hleave.buckets, hleave.routes, hleave.shared, hleave.pending, htickets.symm, hleave.woken,
      hleave.lines, hleave.idle⟩

/-- What the event of a caller does, it does in the part too, if the side has the caller, and else it
leaves the part alone. -/
structure Follows (d : Side) (mine : Bool) (o : Limits × Turn) (u : Limits) (o' : Limits × Turn) : Prop where
  part : Part d o.1 (if mine then o'.1 else u)
  turn : mine → o'.2 = o.2

theorem Follows.on {mine : Bool} {o o' : Limits × Turn} (hm : mine = true) (h : Part d o.1 o'.1)
    (ht : o'.2 = o.2) : Follows d mine o u o' := ⟨by rwa [if_pos hm], fun _ => ht⟩

theorem Follows.off {mine : Bool} {o o' : Limits × Turn} (hm : mine = false) (h : Part d o.1 u) :
    Follows d mine o u o' := ⟨by rwa [if_neg (by simp [hm])], fun ht => absurd ht (by simp [hm])⟩

/-- Nobody asks at a change. -/
theorem Follows.of_part {mine : Bool} {v v' : Limits} (h : Part d v (if mine then v' else u)) :
    Follows d mine (v, .unchanged) u (v', .unchanged) := ⟨h, fun _ => rfl⟩

theorem Follows.congr {mine : Bool} {o o' o'' : Limits × Turn} (h : Follows d mine o u o')
    (ho : mine → o'' = o') : Follows d mine o u o'' := by
  cases mine with
  | true => rwa [ho rfl]
  | false => exact .off rfl h.part

/-- What follows a change that the part has made too, follows the part as it was. -/
theorem Follows.after {mine : Bool} {o o' : Limits × Turn} {v : Limits}
    (h : Follows d mine o (if mine then v else u) o') : Follows d mine o u o' := by
  cases mine with
  | true => exact .on rfl h.part (h.turn rfl)
  | false => exact .off rfl h.part

theorem Part.pollBucket (h : Part d s u) {p p' : Pending} (hb : s.buckets[i]? = some b)
    (hcaller : p'.caller = p.caller) (hwanted : p'.wanted = p.wanted)
    (hside : d.has p.caller = d.covers b.key) (now : Instant) :
    Follows d (d.has p.caller) (s.pollBucket now p i) u (u.pollBucket now p' (d.rank s.tables.keys i)) := by
  have hkeeps : d.Keeps b (b.poll now p.caller).1 := keeps_poll (h.lines b (List.mem_of_getElem? hb)) now _
  have hpart := h.changeBucket (f := fun b => (b.poll now p.caller).1) hb hkeeps
  have htables : (s.changeBucket i fun b => (b.poll now p.caller).1).tables = s.tables :=
    tables_changeBucket_of_some hb hkeeps.key
  rw [← hside] at hpart
  have hgrant := hpart.grant hcaller hwanted i
  rw [htables] at hgrant
  rw [pollBucket_of_some hb]
  cases hc : d.has p.caller with
  | true =>
    rw [hc, if_pos rfl] at hpart hgrant
    rw [if_pos rfl] at hgrant
    rw [pollBucket_of_some (h.bucket hb (hside ▸ hc)), hcaller]
    refine .on rfl ?_ rfl
    dsimp only
    split
    · exact hgrant
    · exact hpart
  | false =>
    rw [hc, if_neg (by simp)] at hpart hgrant
    rw [if_neg (by simp)] at hgrant
    refine .off rfl ?_
    dsimp only
    split
    · exact hgrant
    · exact hpart

/-- Everybody waits at a bucket that is there, or holds slots of one. -/
structure Inside (s : Limits) : Prop where
  sound : s.tables.Sound
  waiting : ∀ p ∈ s.pending, ∀ i, p.stage = .bucket i → i < s.buckets.length
  holding : ∀ t ∈ s.tickets, ∀ i, t.bucket = some i → i < s.buckets.length

theorem rank_opened (d : Side) (key : RouteKey) (hi : i ≤ s.buckets.length) :
    d.rank (s.tables.opened key).keys i = d.rank s.tables.keys i := by
  unfold Tables.opened
  split
  · rfl
  · exact d.rank_append (length_keys s ▸ hi) [key]

/-- A bucket that is made changes the numbers of no others. -/
theorem Part.opened (h : Part d s u) (hin : Inside s) (key : RouteKey) :
    (∀ key', d.covers key' →
      u.routes.get? key' = (s.routes.get? key').map (d.rank (s.tables.opened key).keys)) ∧
    (∀ hash key', key'.IsPlain → d.covers key' → u.shared.get? (sharedName hash key') =
      (s.shared.get? (sharedName hash key')).map (d.rank (s.tables.opened key).keys)) ∧
    u.pending = d.waiting (d.rank (s.tables.opened key).keys) s.pending ∧
    u.tickets = d.holding (d.rank (s.tables.opened key).keys) s.tickets := by
  have hrank (i : Nat) (hi : i < s.buckets.length) :
      d.rank s.tables.keys i = d.rank (s.tables.opened key).keys i := (rank_opened d key (Nat.le_of_lt hi)).symm
  refine ⟨fun key' hon => ?_, fun hash key' hplain hon => ?_, ?_, ?_⟩
  · rw [h.routes key' hon]
    exact Option.map_congr fun i hi => hrank i (length_keys s ▸ hin.sound.routes key' i hi)
  · rw [h.shared hash key' hplain hon]
    exact Option.map_congr fun i hi => hrank i (length_keys s ▸ hin.sound.shared _ i hi)
  · rw [h.pending]
    exact d.waiting_congr fun p hp i hi => hrank i (hin.waiting p hp i hi)
  · rw [h.tickets]
    exact d.holding_congr fun t ht i hi => hrank i (hin.holding t ht i hi)

theorem Part.bucketFor (h : Part d s u) (hin : Inside s) (key : RouteKey) :
    Part d (s.bucketFor key).2 (if d.covers key then (u.bucketFor key).2 else u) ∧
      (d.covers key → (u.bucketFor key).1 =
        d.rank (s.bucketFor key).2.tables.keys (s.bucketFor key).1) := by
  cases hk : s.routes.get? key with
  | some i =>
    have hs : s.bucketFor key = (i, s) := by simp [Limits.bucketFor, hk]
    rw [hs]
    by_cases hon : d.covers key
    · have hu : u.bucketFor key = (d.rank s.tables.keys i, u) := by
        simp [Limits.bucketFor, h.routes key hon, hk]
      rw [hu, if_pos hon]
      exact ⟨h, fun _ => rfl⟩
    · rw [if_neg hon]
      exact ⟨h, fun hc => absurd hc hon⟩
  | none =>
    obtain ⟨hroutes, hshared, hpending, htickets⟩ := h.opened hin key
    rw [← tables_bucketFor] at hroutes hshared hpending htickets
    have hs : s.bucketFor key = (s.buckets.length, { s with
        buckets := s.buckets ++ [{ key := key }], routes := s.routes.put key s.buckets.length }) := by
      simp [Limits.bucketFor, hk]
    have hnew : d.rank (s.bucketFor key).2.tables.keys s.buckets.length = u.buckets.length := by
      rw [tables_bucketFor, rank_opened d key (Nat.le_refl _), rank_eq, List.take_length, h.buckets,
        List.countP_eq_length_filter]
    have hlines : ∀ b ∈ s.buckets ++ [{ key := key }], ∀ c ∈ b.gate.line, d.has c = d.covers b.key := by
      intro b hb c hc
      rcases List.mem_append.1 hb with hb | hb
      · exact h.lines b hb c hc
      · cases List.mem_singleton.1 hb
        cases hc
    rw [hs] at hroutes hshared hpending htickets hnew ⊢
    by_cases hon : d.covers key
    · have hu : u.bucketFor key = (u.buckets.length, { u with
          buckets := u.buckets ++ [{ key := key }], routes := u.routes.put key u.buckets.length }) := by
        simp [Limits.bucketFor, h.routes key hon, hk]
      rw [hu, if_pos hon]
      refine ⟨⟨?_, fun key' hon' => ?_, hshared, hpending, htickets, h.woken, hlines, h.idle⟩, fun _ => hnew.symm⟩
      · simp [h.buckets, hon]
      · dsimp only
        rw [Table.get?_put, Table.get?_put]
        split
        · exact congrArg some hnew.symm
        · exact hroutes key' hon'
    · rw [if_neg hon]
      refine ⟨⟨?_, fun key' hon' => ?_, hshared, hpending, htickets, h.woken, hlines, h.idle⟩,
        fun hc => absurd hc hon⟩
      · simp [h.buckets, hon]
      · dsimp only
        rw [Table.get?_put, if_neg fun he : key' = key => hon (he ▸ hon')]
        exact hroutes key' hon'

theorem exists_bucket {key : RouteKey} (hk : s.tables.Kin key i) :
    ∃ b, s.buckets[i]? = some b ∧ d.covers b.key = d.covers key := by
  obtain ⟨made, hmade, hm⟩ := hk
  obtain ⟨b, hb, rfl⟩ := Option.map_eq_some_iff.1 ((List.getElem?_map ..).symm.trans hmade)
  exact ⟨b, hb, by simp [Side.covers, hm]⟩

/-- The bucket that a route has once it is asked for is of its side. -/
theorem kin_of_opened {v : Limits} (hkin : s.tables.Kindred) {key : RouteKey}
    (hv : v.tables = s.tables.opened key) : v.tables.Kin key (s.tables.entry key) := by
  rw [hv]
  exact (hkin.opened key).routes key _ (Tables.get?_opened_self ..)

theorem Part.lineUp (h : Part d s u) (hin : Inside s) (hkin : s.tables.Kindred) {p p' : Pending}
    (hcaller : p'.caller = p.caller) {key : RouteKey} (hside : d.has p.caller = d.covers key) :
    Part d (s.lineUp p key).2 (if d.has p.caller then (u.lineUp p' key).2 else u) ∧
      (d.has p.caller → (u.bucketFor key).1 =
        d.rank (s.lineUp p key).2.tables.keys (s.bucketFor key).1) := by
  obtain ⟨b, hb, hbside⟩ := exists_bucket (d := d) (kin_of_opened hkin (tables_bucketFor s key))
  obtain ⟨hpart, hindex⟩ := h.bucketFor hin key
  rw [← bucketFor_fst] at hb
  have hkeeps : d.Keeps b ({ b with gate := b.gate.join p.caller }, none) :=
    keeps_join (hpart.lines b (List.mem_of_getElem? hb)) (hside.trans hbside.symm)
  have hjoin := hpart.changeBucket (f := fun b => ({ b with gate := b.gate.join p.caller }, none)) hb hkeeps
  have hgo := hjoin.goTo p.caller (s.bucketFor key).1
  have htables : (s.lineUp p key).2.tables = (s.bucketFor key).2.tables :=
    (tables_lineUp ..).trans (tables_bucketFor ..).symm
  rw [tables_changeBucket_of_some hb hkeeps.key, hbside, ← hside] at hgo
  rw [← hside] at hindex
  rw [htables]
  refine ⟨?_, hindex⟩
  cases hc : d.has p.caller with
  | true =>
    simp only [hc, if_true] at hindex hgo ⊢
    rw [← hindex trivial] at hgo
    unfold Limits.lineUp
    rw [hcaller]
    exact hgo
  | false =>
    simp only [hc, Bool.false_eq_true, if_false] at hgo ⊢
    exact hgo

theorem Part.enterBucket (h : Part d s u) (hin : Inside s) (hkin : s.tables.Kindred) {p p' : Pending}
    (hcaller : p'.caller = p.caller) (hwanted : p'.wanted = p.wanted) {key : RouteKey}
    (hside : d.has p.caller = d.covers key) (now : Instant) :
    Follows d (d.has p.caller) (s.enterBucket now p key) u (u.enterBucket now p' key) := by
  obtain ⟨hpart, hindex⟩ := h.lineUp hin hkin hcaller hside
  obtain ⟨b, hb, hbside⟩ := exists_bucket (d := d) (kin_of_opened hkin (tables_lineUp s p key))
  rw [← bucketFor_fst] at hb
  have hpoll := hpart.pollBucket hb hcaller hwanted (hside.trans hbside.symm) now
  have hfollows : Follows d (d.has p.caller) ((s.lineUp p key).2.pollBucket now p (s.bucketFor key).1) u
      ((u.lineUp p' key).2.pollBucket now p' (u.bucketFor key).1) :=
    hpoll.after.congr fun hc => by rw [hindex hc, if_pos hc]
  rw [enterBucket_eq, enterBucket_eq]
  exact ⟨hfollows.part, fun hc => congrArg Turn.inLine (hfollows.turn hc)⟩

/-! ### Responses -/

/-- A route is led to a bucket. -/
theorem Part.putRoute (h : Part d s u) (key : RouteKey) (j : Nat) :
    Part d { s with routes := s.routes.put key j }
      (if d.covers key then { u with routes := u.routes.put key (d.rank s.tables.keys j) } else u) := by
  cases hon : d.covers key with
  | true =>
    refine ⟨h.buckets, fun key' hon' => ?_, h.shared, h.pending, h.tickets, h.woken, h.lines, h.idle⟩
    rw [if_pos rfl, Table.get?_put, Table.get?_put]
    split
    · rfl
    · exact h.routes key' hon'
  | false =>
    refine ⟨h.buckets, fun key' hon' => ?_, h.shared, h.pending, h.tickets, h.woken, h.lines, h.idle⟩
    have hne : key' ≠ key := by
      rintro rfl
      simp [hon] at hon'
    rw [Table.get?_put_ne _ _ hne]
    exact h.routes key' hon'

/-- A bucket is given a name. -/
theorem Part.putName (h : Part d s u) {key : RouteKey} (hplain : key.IsPlain) (hash : String) (i : Nat) :
    Part d { s with shared := s.shared.put (sharedName hash key) i }
      (if d.covers key then
        { u with shared := u.shared.put (sharedName hash key) (d.rank s.tables.keys i) } else u) := by
  cases hon : d.covers key with
  | true =>
    refine ⟨h.buckets, h.routes, fun hash' key' hplain' hon' => ?_, h.pending, h.tickets, h.woken, h.lines, h.idle⟩
    rw [if_pos rfl, Table.get?_put, Table.get?_put]
    split
    · rfl
    · exact h.shared hash' key' hplain' hon'
  | false =>
    refine ⟨h.buckets, h.routes, fun hash' key' hplain' hon' => ?_, h.pending, h.tickets, h.woken, h.lines, h.idle⟩
    -- a name says which side it is of
    have hne : sharedName hash' key' ≠ sharedName hash key := by
      intro he
      have hm := ((sharedName_inj hplain' hplain).1 he).2
      simp only [Side.covers, hm] at hon hon'
      rw [hon] at hon'
      cases hon'
    rw [Table.get?_put_ne _ _ hne]
    exact h.shared hash' key' hplain' hon'

/-- What is made of the name that a response gives to the bucket of `b`. -/
theorem share_of_named {r : Report} {hash : String} (hr : r.bucket = some hash) (hb : s.buckets[i]? = some b)
    (now : Instant) :
    s.share now i r =
      match s.shared.get? (sharedName hash b.key) with
      | none => { s with shared := s.shared.put (sharedName hash b.key) i }
      | some j =>
        if j = i then s
        else
          { s.changeBucket j (·.record now r) with
            routes := (s.changeBucket j (·.record now r)).routes.put b.key j } := by
  cases hn : s.shared.get? (sharedName hash b.key) <;> simp [share, hr, hb, hn]

theorem Part.share (h : Part d s u) (hb : s.buckets[i]? = some b) (hplain : b.key.IsPlain)
    (hkin : s.tables.Kindred) (now : Instant) (r : Report) :
    Part d (s.share now i r) (if d.covers b.key then u.share now (d.rank s.tables.keys i) r else u) := by
  cases hr : r.bucket with
  | none =>
    have hs (s : Limits) (i : Nat) : s.share now i r = s := by simp [Limits.share, hr]
    rw [hs, hs]
    split <;> exact h
  | some hash =>
    have hshared := h.shared hash b.key hplain
    rw [share_of_named hr hb]
    cases hn : s.shared.get? (sharedName hash b.key) with
    | none =>
      have hput := h.putName hplain hash i
      cases hon : d.covers b.key with
      | true =>
        rw [share_of_named hr (h.bucket hb hon), hshared hon, hn]
        simpa [hon] using hput
      | false => simpa [hon] using hput
    | some j =>
      obtain ⟨b', hb', hside⟩ := exists_bucket (d := d) (hkin.shared hash b.key j hplain hn)
      by_cases hj : j = i
      · cases hon : d.covers b.key with
        | true =>
          rw [share_of_named hr (h.bucket hb hon), hshared hon, hn]
          simpa [hj] using h
        | false => simpa [hj] using h
      · -- the route is folded onto the bucket `j`, which is of its side
        have hkeeps := keeps_record (h.lines b' (List.mem_of_getElem? hb')) now r
        have hroute := (h.changeBucket (f := (·.record now r)) hb' hkeeps).putRoute b.key j
        rw [tables_changeBucket_of_some hb' hkeeps.key, hside] at hroute
        cases hon : d.covers b.key with
        | true =>
          have hne : d.rank s.tables.keys j ≠ d.rank s.tables.keys i := by
            rw [rank_eq, rank_eq]
            exact fun he => hj ((countP_take_inj hb' (hside ▸ hon) hb hon).1 he)
          rw [share_of_named hr (h.bucket hb hon), hshared hon, hn]
          simpa [hon, hj, hne] using hroute
        | false => simpa [hon, hj] using hroute

/-- What is taken over at a bucket, and at the one that its route is folded onto. -/
theorem Part.changeBucket_share (h : Part d s u) (hb : s.buckets[i]? = some b) (hplain : b.key.IsPlain)
    (hkin : s.tables.Kindred) (hf : d.Keeps b (f b)) (now : Instant) (r : Report) :
    Part d ((s.changeBucket i f).share now i r)
      (if d.covers b.key then
        (u.changeBucket (d.rank s.tables.keys i) f).share now (d.rank s.tables.keys i) r else u) := by
  have htables := tables_changeBucket_of_some hb hf.key
  have hb' : (s.changeBucket i f).buckets[i]? = some (f b).1 := by
    rw [changeBucket_of_some hb]
    exact List.getElem?_set_self (List.getElem?_eq_some_iff.1 hb).1
  have hshare := (h.changeBucket hb hf).share hb' (hf.key ▸ hplain) (htables ▸ hkin) now r
  rw [hf.key, htables] at hshare
  cases hon : d.covers b.key with
  | true => simpa [hon] using hshare
  | false => simpa [hon] using hshare

theorem Part.recordBucket (h : Part d s u) {t : Ticket} (ht : t.bucket = some i) (hb : s.buckets[i]? = some b)
    (hplain : b.key.IsPlain) (hkin : s.tables.Kindred) (now : Instant) (r : Report) :
    Part d (s.recordBucket now t r)
      (if d.covers b.key then u.recordBucket now (t.renumber (d.rank s.tables.keys)) r else u) := by
  have hline := h.lines b (List.mem_of_getElem? hb)
  simpa [Limits.recordBucket, ht, Ticket.renumber] using
    h.changeBucket_share (f := (·.record now r)) hb hplain hkin (keeps_record hline now r) now r

theorem Part.recordRefusal (h : Part d s u) {t : Ticket} {key : RouteKey} (hw : t.wanted = .route key .routeOnly)
    (ht : t.bucket = some i) (hb : s.buckets[i]? = some b) (hplain : b.key.IsPlain)
    (hkin : s.tables.Kindred) (now : Instant) (r : Report) (body : Option Refusal) :
    Part d (s.recordRefusal now t r body)
      (if d.covers b.key then u.recordRefusal now (t.renumber (d.rank s.tables.keys)) r body else u) := by
  have hheld (s : Limits) : s.held now t (refusalWait r body) = s := by simp [held, hw]
  have hheld' (s : Limits) (g : Nat → Nat) : s.held now (t.renumber g) (refusalWait r body) = s := by
    simp [held, Ticket.renumber, hw]
  cases hg : isGlobalRefusal r body with
  | true =>
    rw [recordRefusal_of_global hg, recordRefusal_of_global hg, hheld, hheld']
    split
    · exact h.recordBucket ht hb hplain hkin now r
    · split <;> exact h
  | false =>
    have hline := h.lines b (List.mem_of_getElem? hb)
    rw [recordRefusal_of_not_global hg, recordRefusal_of_not_global hg]
    simpa [ht, Ticket.renumber] using h.changeBucket_share (f := (·.exhaust now (refusalWait r body))) hb hplain hkin
      (keeps_exhaust hline now _) now r

/-- A ticket of a bucket on the caller's side is given back. -/
theorem Part.release (h : Part d s u) {t : Ticket} {made : RouteKey} (ht : t.bucket = some i)
    (hmade : s.tables.keys[i]? = some made) (hside : d.has t.caller = d.covers made) :
    Part d (s.release t) (if d.has t.caller then u.release (t.renumber (d.rank s.tables.keys)) else u) := by
  obtain ⟨b, hb, rfl⟩ := Option.map_eq_some_iff.1 ((List.getElem?_map ..).symm.trans hmade)
  have hpart : Part d { s with tickets := s.tickets.filter (·.caller ≠ t.caller) }
      (if d.has t.caller then { u with tickets := u.tickets.filter (·.caller ≠ t.caller) } else u) :=
    h.withTickets (h.tickets ▸ d.holding_leave ..)
  have hline := h.lines b (List.mem_of_getElem? hb)
  have hchange := hpart.changeBucket (f := (·.leave t.caller)) hb (keeps_leave hline t.caller)
  rw [← hside] at hchange
  unfold Limits.release
  rw [ht]
  cases hc : d.has t.caller with
  | true =>
    simp only [hc, if_true, ht, Ticket.renumber, Option.map_some] at hchange ⊢
    exact hchange
  | false =>
    simp only [hc] at hchange ⊢
    exact hchange

end Limits

end ChatApi.Limit
