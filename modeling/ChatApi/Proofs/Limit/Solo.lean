import ChatApi.Proofs.Limit.Chart
import ChatApi.Proofs.Limit.Places

/-!
# A caller on its own

Where nobody else waits or holds slots, a caller that asks gets its slots after at most three waits:
for the end of a block, for the end of a spent window of the account, and for the end of a spent window
of its bucket. What it holds it gives back without anybody being woken.
-/

namespace ChatApi.Limit

/-- A window makes a caller wait if no slot is left in it. -/
theorem Window.reserve_eq_wait {w : Window} {now till : Instant} (h : (w.reserve now).2 = .wait till) :
    (w.reserve now).1 = { w with phase := .exhausted } ∧ w.remaining = 0 ∧ w.resetAt = some till ∧ now < till := by
  have hres := w.reserves now
  generalize w.reserve now = x at h hres
  cases hres with
  | waits known spent ends ahead =>
    cases h
    exact ⟨rfl, spent, ends, ahead⟩
  | fresh _ | untracked _ | reopens _ _ | spends _ _ _ => cases h

theorem Window.reserve_wait {w : Window} {now till : Instant} (h : (w.reserve now).2 = .wait till) :
    w.resetAt = some till ∧ now < till ∧ (w.reserve now).1.resetAt = some till := by
  obtain ⟨hw, -, hr, hlt⟩ := reserve_eq_wait h
  rw [hw]
  exact ⟨hr, hlt, hr⟩

/-- A window that makes a caller wait makes every caller wait until then. -/
theorem Window.reserve_again {w : Window} {now till : Instant} (h : (w.reserve now).2 = .wait till) {t : Instant}
    (ht : t < till) : ((w.reserve now).1.reserve t).2 = .wait till := by
  obtain ⟨hw, hn, hr, -⟩ := reserve_eq_wait h
  have hlive : ¬ till ≤ t := Nat.not_le.2 ht
  rw [hw]
  simp [reserve, isOver, hn, hr, hlive]

/-- The account makes a caller wait for the end of a block, or else of a window that is spent. -/
theorem Ceiling.reserve_eq_wait {c : Ceiling} {now till : Instant} (h : (c.reserve now).2 = some till) :
    now < till ∧ ((c.reserve now).1 = c ∧ c.blockedUntil = some till ∨
      (c.reserve now).1 = { c with blockedUntil := none } ∧ c.limit ≠ 0 ∧ c.remaining = 0 ∧
        c.windowEnds = some till) := by
  unfold reserve at h ⊢
  cases hb : c.blocked? now with
  | some until' =>
    rw [hb] at h
    cases h
    obtain ⟨hblocked, hlt⟩ := Option.filter_eq_some_iff.1 hb
    exact ⟨by simpa using hlt, .inl ⟨rfl, hblocked⟩⟩
  | none =>
    rw [hb] at h
    dsimp only at h ⊢
    by_cases hl : c.limit = 0
    · rw [if_pos hl] at h; cases h
    · rw [if_neg hl] at h ⊢
      -- a window that begins only now is not spent
      have hlive : c.windowEnds.any (now < ·) = true := by
        refine Decidable.byContradiction fun hn => ?_
        rw [refresh, if_neg hn] at h
        rw [if_neg hl] at h
        cases h
      rw [refresh, if_pos hlive] at h ⊢
      by_cases hr : c.remaining = 0
      · rw [if_pos hr] at h ⊢
        have hw : c.windowEnds = some till := h
        rw [hw] at hlive
        exact ⟨by simpa using hlive, .inr ⟨rfl, hl, hr, hw⟩⟩
      · rw [if_neg hr] at h; cases h

theorem Ceiling.reserve_wait {c : Ceiling} {now till : Instant} (h : (c.reserve now).2 = some till) :
    now < till ∧ ((c.reserve now).1 = c ∧ c.blockedUntil = some till ∨
      c.windowEnds = some till ∧ (c.reserve now).1.blockedUntil = none ∧
        (c.reserve now).1.windowEnds = some till) := by
  obtain ⟨hlt, hblocked | ⟨hc, -, -, hw⟩⟩ := reserve_eq_wait h
  · exact ⟨hlt, .inl hblocked⟩
  · rw [hc]
    exact ⟨hlt, .inr ⟨hw, rfl, hw⟩⟩

/-- The account makes every caller wait until the moment that it gives one. -/
theorem Ceiling.reserve_again {c : Ceiling} {now till : Instant} (h : (c.reserve now).2 = some till) {t : Instant}
    (ht : t < till) : ((c.reserve now).1.reserve t).2 = some till := by
  obtain ⟨-, ⟨hc, hb⟩ | ⟨hc, hl, hn, hw⟩⟩ := reserve_eq_wait h
  · have hblocked : c.blocked? t = some till := Option.filter_eq_some_iff.2 ⟨hb, by simpa using ht⟩
    rw [hc]
    simp [reserve, hblocked]
  · rw [hc]
    simp [reserve, blocked?, refresh, hl, hn, hw, ht]

namespace Limits

variable {s u : Limits} {now till : Instant} {c : Caller} {p q : Pending} {t : Ticket} {hold : Hold} {i : Nat}

/-- Just these callers wait and hold slots, and nobody is to be woken. -/
structure Solo (s : Limits) (waits : List Pending) (holds : List Ticket) : Prop where
  charted : Charted s
  pending : s.pending = waits
  tickets : s.tickets = holds
  woken : s.woken = []

/-- Nobody waits or holds slots. -/
structure Vacant (s : Limits) : Prop extends Solo s [] [] where
  lines : ∀ g, (s.gateAt g).line = []

/-- A caller is on its own, on its way to a gate. -/
structure Adrift (s : Limits) (p : Pending) : Prop extends Solo s [p] [] where
  routed : ∃ key scope, p.wanted = .route key scope
  lines : ∀ g, (s.gateAt g).line = []

/-- A caller is on its own, in line at its gate. -/
structure InLine (s : Limits) (p : Pending) (hold : Hold) : Prop extends Solo s [p] [] where
  routed : ∃ key scope, p.wanted = .route key scope
  gate : s.gateAt p.stage = ⟨[p.caller], hold⟩
  lines : ∀ g, g ≠ p.stage → (s.gateAt g).line = []

/-- A caller on its own holds slots. If it probes, it keeps the gate of its bucket closed. -/
structure Held (s : Limits) (t : Ticket) : Prop extends Solo s [] [t] where
  gates : ∀ g, (s.gateAt g).line = [] ∨
    ∃ i, g = .bucket i ∧ t.bucket = some i ∧ s.gateAt g = ⟨[t.caller], .probing⟩

/-- What a caller waits for at a gate, and how often it may have to wait from then on. -/
inductive WaitsFor (s : Limits) (till : Instant) : Stage → Nat → Prop
  | block (h : s.ceiling.blockedUntil = some till) : WaitsFor s till .ceiling 3
  | window (unblocked : s.ceiling.blockedUntil = none) (h : s.ceiling.windowEnds = some till) :
      WaitsFor s till .ceiling 2
  | bucket {i : Nat} (h : (s.site i).window.resetAt = some till) : WaitsFor s till (.bucket i) 1

theorem WaitsFor.bounds {g : Stage} {n : Nat} (h : WaitsFor s till g n) : 1 ≤ n ∧ n ≤ 3 := by
  cases h <;> omega

/-- What comes of a caller on its own that asks: its slots, or less than `n` waits. -/
inductive Asked (c : Caller) (n : Nat) : Limits × Turn → Prop
  | granted {u : Limits} {t : Ticket} (caller : t.caller = c) (held : Held u t) : Asked c n (u, .granted)
  | asleep {u : Limits} {p : Pending} {till : Instant} {m : Nat} (caller : p.caller = c)
      (inLine : InLine u p (.asleep till)) (waits : WaitsFor u till p.stage m) (less : m < n) :
      Asked c n (u, .asleep till)

theorem Asked.mono {n m : Nat} {o : Limits × Turn} (h : Asked c n o) (hle : n ≤ m) : Asked c m o := by
  cases h with
  | granted caller held => exact .granted caller held
  | asleep caller inLine waits less => exact .asleep caller inLine waits (Nat.lt_of_lt_of_le less hle)

theorem Asked.inLine {n : Nat} {o : Limits × Turn} (h : Asked c n o) : Asked c n (o.1, o.2.inLine) := by
  cases h with
  | granted caller held => exact .granted caller held
  | asleep caller inLine waits less => exact .asleep caller inLine waits less

/-- The first in line is up, unless it sleeps on. -/
theorem isUp_alone (h : hold = .turn ∨ ∃ till, hold = .asleep till ∧ till ≤ now) :
    Gate.isUp ⟨[c], hold⟩ c now = true := by
  rcases h with rfl | ⟨till, rfl, hle⟩
  · simp [Gate.isUp, Gate.owner?]
  · simp [Gate.isUp, Gate.owner?, hle]

/-- Changing a bucket changes no gate but its own. -/
theorem gateAt_set {b : Bucket} (b' : Bucket) (h : s.buckets[i]? = some b) (d : Option Caller) (g : Stage) :
    ({ s with buckets := s.buckets.set i b' }.wake d).gateAt g =
      if g = .bucket i then b'.gate else s.gateAt g := by
  cases g with
  | ceiling => simp [gateAt, wake]
  | bucket j =>
    simp only [gateAt, site_set h, Stage.bucket.injEq]
    split <;> rfl

theorem Solo.set {waits : List Pending} {holds : List Ticket} {b : Bucket} (h : Solo s waits holds)
    (hb : s.buckets[i]? = some b) (b' : Bucket) (hk : b'.key = b.key) :
    Solo ({ s with buckets := s.buckets.set i b' }.wake none) waits holds :=
  ⟨h.charted.of_beside (beside_set hb b' hk none), h.pending, h.tickets, by simp [wake, h.woken]⟩

theorem Solo.grant (h : Solo s [p] []) (hq : q.caller = p.caller) (bucket : Option Nat) :
    Solo (s.grant q bucket) [] [⟨q.caller, q.wanted, bucket⟩] := by
  refine ⟨h.charted.congr rfl rfl rfl, ?_, ?_, h.woken⟩
  · simp [Limits.grant, h.pending, hq]
  · simp [Limits.grant, h.tickets]

/-- The gate of the bucket at which a caller waits on its own. -/
theorem InLine.bucket (h : InLine s p hold) (hi : p.stage = .bucket i) :
    ∃ b, s.buckets[i]? = some b ∧ b.gate = ⟨[p.caller], hold⟩ := by
  have hgate := h.gate
  rw [hi] at hgate
  cases hb : s.buckets[i]? with
  | none => simp [gateAt, site_of_none hb] at hgate
  | some b => exact ⟨b, rfl, by rw [← hgate, gateAt, site_of_some hb]⟩

/-- Whoever waits at a bucket on its own stays the only one there, whatever becomes of the bucket. -/
theorem InLine.set (h : InLine s p hold) (hi : p.stage = .bucket i) {b : Bucket}
    (hb : s.buckets[i]? = some b) (b' : Bucket) (hk : b'.key = b.key)
    (hgate : b'.gate = ⟨[p.caller], .asleep till⟩) :
    InLine ({ s with buckets := s.buckets.set i b' }.wake none) p (.asleep till) := by
  refine ⟨h.toSolo.set hb b' hk, h.routed, ?_, fun g hg => ?_⟩
  · rw [gateAt_set _ hb, if_pos hi, hgate]
  · rw [gateAt_set _ hb, if_neg (hi ▸ hg)]
    exact h.lines g hg

/-- A caller that leaves the line with its slots stays behind at the gate only if it probes. -/
theorem InLine.set_grant (h : InLine s p hold) (hi : p.stage = .bucket i) (hq : q.caller = p.caller)
    {b : Bucket} (hb : s.buckets[i]? = some b) (b' : Bucket) (hk : b'.key = b.key)
    (hgate : b'.gate.line = [] ∨ b'.gate = ⟨[p.caller], .probing⟩) :
    Held (({ s with buckets := s.buckets.set i b' }.wake none).grant q (some i))
      ⟨q.caller, q.wanted, some i⟩ := by
  have hset (g : Stage) : (({ s with buckets := s.buckets.set i b' }.wake none).grant q (some i)).gateAt g =
      if g = .bucket i then b'.gate else s.gateAt g := gateAt_set b' hb none g
  refine ⟨(h.toSolo.set hb b' hk).grant hq _, fun g => ?_⟩
  rw [hset]
  by_cases hg : g = .bucket i
  · rw [if_pos hg]
    exact hgate.imp_right fun hgate => ⟨i, hg, rfl, by rw [hgate, hq]⟩
  · rw [if_neg hg]
    exact .inl (h.lines g (hi ▸ hg))

/-- A caller on its own that is up at a bucket gets its slots, or waits for the window to end. -/
theorem InLine.pollBucket (h : InLine s p hold) (hi : p.stage = .bucket i)
    (hup : Gate.isUp ⟨[p.caller], hold⟩ p.caller now = true) (hq : q.caller = p.caller) {n : Nat}
    (hn : 1 < n ∨ ∀ till, (s.site i).window.resetAt = some till → till ≤ now) :
    Asked p.caller n (s.pollBucket now q i) := by
  obtain ⟨b, hb, hbg⟩ := h.bucket hi
  rw [site_of_some hb] at hn
  cases hr : b.window.reserve now with
  | mk window slot =>
    cases slot with
    | wait till =>
      obtain ⟨hreset, hlt, hreset'⟩ := Window.reserve_wait (show (b.window.reserve now).2 = .wait till by rw [hr])
      rw [hr] at hreset'
      let b' : Bucket := { b with window, gate := { b.gate with hold := .asleep till } }
      have ho : s.pollBucket now q i =
          ({ s with buckets := s.buckets.set i b' }.wake none, .asleep till) := by
        simp [Limits.pollBucket, hb, hbg, hq, hup, hr, b', wake]
      rw [ho]
      refine .asleep rfl (h.set hi hb b' rfl (by simp [b', hbg])) (m := 1) ?_ ?_
      · rw [hi]
        refine .bucket ?_
        rw [site_set hb, if_pos rfl]
        exact hreset'
      · exact hn.resolve_right fun hn => Nat.not_le.2 hlt (hn till hreset)
    | proceed isProbe =>
      cases isProbe with
      | true =>
        let b' : Bucket := { b with window, gate := { b.gate with hold := .probing } }
        have ho : s.pollBucket now q i =
            (({ s with buckets := s.buckets.set i b' }.wake none).grant q (some i), .granted) := by
          simp [Limits.pollBucket, hb, hbg, hq, hup, hr, b', wake]
        rw [ho]
        exact .granted hq (h.set_grant hi hq hb b' rfl (.inr (by simp [b', hbg])))
      | false =>
        let b' : Bucket := { b with window, gate := (b.gate.leave p.caller).1 }
        have ho : s.pollBucket now q i =
            (({ s with buckets := s.buckets.set i b' }.wake none).grant q (some i), .granted) := by
          simp [Limits.pollBucket, hb, hbg, hq, hup, hr, b', wake, Gate.leave]
        rw [ho]
        exact .granted hq (h.set_grant hi hq hb b' rfl (.inl (by simp [b', hbg, Gate.leave])))

theorem bucketFor_fst_lt (h : Charted s) (key : RouteKey) :
    (s.bucketFor key).1 < (s.bucketFor key).2.buckets.length :=
  (charted_bucketFor h key).routes key _ (bucketFor_spec s key).1

/-- A caller on its own gets in line at the bucket of its route as the first. -/
theorem Adrift.lineUp (h : Adrift s p) (hq : q.caller = p.caller) (key : RouteKey) :
    InLine (s.lineUp q key).2 { p with stage := .bucket (s.bucketFor key).1 } .turn := by
  obtain ⟨-, hceiling, htickets, hpending⟩ := lineUp_frame s q key
  obtain ⟨-, hsite⟩ := bucketFor_spec s key
  obtain ⟨b, hb⟩ : ∃ b, (s.bucketFor key).2.buckets[(s.bucketFor key).1]? = some b :=
    ⟨_, List.getElem?_eq_getElem (bucketFor_fst_lt h.charted key)⟩
  -- the line at the bucket is empty
  have hempty : b.gate.line = [] := by
    have := h.lines (.bucket (s.bucketFor key).1)
    rwa [gateAt, ← hsite, site_of_some hb] at this
  have hwoken : (s.bucketFor key).2.woken = [] := by
    unfold bucketFor
    split <;> exact h.woken
  let b' : Bucket := { b with gate := b.gate.join q.caller }
  have hline : (s.lineUp q key).2 =
      { ({ (s.bucketFor key).2 with buckets := (s.bucketFor key).2.buckets.set (s.bucketFor key).1 b' }.wake none) with
        pending := (s.bucketFor key).2.pending.map (·.goTo q.caller (s.bucketFor key).1) } := by
    simp only [Limits.lineUp, changeBucket_of_some hb]
    rfl
  have hgate (g : Stage) : (s.lineUp q key).2.gateAt g =
      if g = .bucket (s.bucketFor key).1 then b'.gate else s.gateAt g := by
    rw [hline]
    refine Eq.trans ?_ ((gateAt_set b' hb none g).trans ?_)
    · cases g <;> rfl
    · split
      · rfl
      · cases g with
        | ceiling => exact (bucketFor_frame s key).2.1
        | bucket j => simp only [gateAt, hsite]
  refine ⟨⟨?_, ?_, htickets.trans h.tickets, ?_⟩, h.routed, ?_, fun g hg => ?_⟩
  · rw [hline]
    exact ((charted_bucketFor h.charted key).of_beside (beside_set hb b' rfl none)).congr rfl rfl rfl
  · rw [hpending, h.pending]
    simp [Pending.goTo, hq]
  · rw [hline]
    simp [wake, hwoken]
  · rw [hgate, if_pos rfl]
    simp [b', Gate.join, hempty, hq]
  · rw [hgate, if_neg hg]
    exact h.lines g

theorem Adrift.enterBucket (h : Adrift s p) (hq : q.caller = p.caller) (now : Instant) (key : RouteKey) :
    Asked p.caller 2 (s.enterBucket now q key) := by
  have hline := h.lineUp hq key
  have hup : Gate.isUp ⟨[p.caller], .turn⟩ p.caller now = true := isUp_alone (.inl rfl)
  have hpoll := hline.pollBucket rfl hup (q := q) hq (n := 2) (.inl (Nat.lt_succ_self 1))
  exact hpoll.inLine

/-- A caller on its own that is up at the gate of the account passes it, or waits. -/
theorem InLine.pollCeiling (h : InLine s p hold) (hs : p.stage = .ceiling)
    (hup : Gate.isUp ⟨[p.caller], hold⟩ p.caller now = true) {n : Nat} (hn : 1 < n)
    (hblock : 3 < n ∨ ∀ till, s.ceiling.blockedUntil = some till → till ≤ now)
    (hwindow : 2 < n ∨ ∀ till, s.ceiling.windowEnds = some till → till ≤ now) :
    Asked p.caller n (s.pollCeiling now p) := by
  obtain ⟨key, scope, hw⟩ := h.routed
  have hgate := h.gate
  rw [hs] at hgate
  have hgate : s.ceilingGate = ⟨[p.caller], hold⟩ := hgate
  have hother (j : Nat) : (s.gateAt (.bucket j)).line = [] := h.lines _ (by simp [hs])
  cases hr : s.ceiling.reserve now with
  | mk ceiling wait =>
    cases wait with
    | some till =>
      have ho : s.pollCeiling now p = ({ s with
          ceiling, ceilingGate := { s.ceilingGate with hold := .asleep till } }, .asleep till) := by
        simp [Limits.pollCeiling, hgate, hup, hr]
      have hline : InLine ({ s with
          ceiling, ceilingGate := { s.ceilingGate with hold := .asleep till } }) p (.asleep till) := by
        refine ⟨⟨h.charted.congr rfl rfl rfl, h.pending, h.tickets, h.woken⟩, h.routed, ?_, fun g hg => ?_⟩
        · rw [hs, hgate]; rfl
        · cases g with
          | ceiling => exact absurd hs.symm hg
          | bucket j => exact hother j
      have hwait := Ceiling.reserve_wait (show (s.ceiling.reserve now).2 = some till by rw [hr])
      rw [hr] at hwait
      obtain ⟨hlt, ⟨rfl, hb⟩ | ⟨hends, hunblocked, hends'⟩⟩ := hwait
      · rw [ho]
        refine .asleep rfl hline (m := 3) (hs ▸ .block hb) ?_
        exact hblock.resolve_right fun h => Nat.not_le.2 hlt (h till hb)
      · rw [ho]
        refine .asleep rfl hline (m := 2) (hs ▸ .window hunblocked hends') ?_
        exact hwindow.resolve_right fun h => Nat.not_le.2 hlt (h till hends)
    | none =>
      have ho : s.pollCeiling now p = (s.passed now p.caller).enterBucket now p key := by
        simp [Limits.pollCeiling, hgate, hup, hr, hw, passed, wake]
      have hadrift : Adrift (s.passed now p.caller) p := by
        refine ⟨⟨h.charted.congr rfl rfl rfl, h.pending, h.tickets, ?_⟩, h.routed, fun g => ?_⟩
        · simp [passed, hgate, Gate.leave, h.woken]
        · cases g with
          | ceiling => simp [gateAt, passed, hgate, Gate.leave]
          | bucket j => exact hother j
      rw [ho]
      exact (hadrift.enterBucket rfl now key).mono hn

theorem Solo.poll_eq (h : Solo s [p] []) (now : Instant) :
    s.poll now p.caller = match p.stage with
      | .ceiling => s.pollCeiling now p
      | .bucket i => s.pollBucket now p i := by
  have hfind : s.pending.find? (·.caller = p.caller) = some p := by simp [h.pending]
  cases hs : p.stage <;> simp [Limits.poll, hfind, hs]

/-- A caller on its own that looks again in time gets its slots, or has fewer waits left. -/
theorem InLine.poll (h : InLine s p (.asleep till)) {n : Nat} (hwaits : WaitsFor s till p.stage n)
    (hle : till ≤ now) : Asked p.caller n (s.step now (.poll p.caller)) := by
  have hup : Gate.isUp ⟨[p.caller], .asleep till⟩ p.caller now = true := isUp_alone (.inr ⟨till, rfl, hle⟩)
  have ends {a : Option Instant} (hb : a = some till) : ∀ t, a = some t → t ≤ now := by
    intro t ht
    cases ht.symm.trans hb
    exact hle
  rw [step_eq, leap, h.poll_eq]
  cases hs : p.stage with
  | ceiling =>
    rw [hs] at hwaits
    cases hwaits with
    | block hb =>
      exact h.pollCeiling hs hup (n := 3) (by omega) (.inr (ends hb)) (.inl (by omega))
    | window unblocked he =>
      refine h.pollCeiling hs hup (n := 2) (by omega) (.inr ?_) (.inr (ends he))
      rw [unblocked]
      simp
  | bucket i =>
    rw [hs] at hwaits
    cases hwaits with
    | bucket hr => exact h.pollBucket hs hup rfl (.inr (ends hr))

/-- A caller on its own that looks too early looks in vain. -/
theorem InLine.poll_early (h : InLine s p (.asleep till)) (hlt : now < till) :
    s.step now (.poll p.caller) = (s, .unchanged) := by
  have hdown : Gate.isUp ⟨[p.caller], .asleep till⟩ p.caller now = false := by
    simp [Gate.isUp, hlt]
  rw [step_eq, leap, h.poll_eq]
  cases hs : p.stage with
  | ceiling =>
    have hgate := h.gate
    rw [hs] at hgate
    have hgate : s.ceilingGate = ⟨[p.caller], .asleep till⟩ := hgate
    simp [Limits.pollCeiling, hgate, hdown]
  | bucket i =>
    obtain ⟨b, hb, hbg⟩ := h.bucket hs
    simp [Limits.pollBucket, hb, hbg, hdown]

/-- A caller that comes while nobody is there gets its slots, or waits at most three times. -/
theorem Vacant.arrive (h : Vacant s) (now : Instant) (c : Caller) (key : RouteKey) (scope : Scope) :
    Asked c 4 (s.step now (.arrive c (.route key scope))) := by
  have hidle : s.isBusy c = false := by simp [isBusy, ticket?, h.pending, h.tickets]
  let p : Pending := ⟨c, .route key scope, .ceiling⟩
  have hadrift : Adrift { s with pending := s.pending ++ [p] } p := by
    refine ⟨⟨h.charted.congr rfl rfl rfl, by simp [h.pending], h.tickets, h.woken⟩, ⟨key, scope, rfl⟩,
      fun g => ?_⟩
    cases g with
    | ceiling => exact h.lines .ceiling
    | bucket j => exact h.lines (.bucket j)
  simp only [step_eq, leap, hidle, Bool.false_eq_true, if_false]
  unfold Limits.arrive
  cases scope with
  | exempt =>
    refine .granted (t := ⟨c, .route key .exempt, none⟩) rfl ⟨hadrift.toSolo.grant rfl none, fun g => .inl ?_⟩
    cases g with
    | ceiling => exact h.lines .ceiling
    | bucket j => exact h.lines (.bucket j)
  | routeOnly => exact (hadrift.enterBucket rfl now key).mono (by omega)
  | all =>
    have hline : InLine { s with
        pending := s.pending ++ [p], ceilingGate := s.ceilingGate.join c } p .turn := by
      refine ⟨⟨h.charted.congr rfl rfl rfl, by simp [h.pending], h.tickets, h.woken⟩,
        ⟨key, .all, rfl⟩, ?_, fun g hg => ?_⟩
      · have := h.lines .ceiling
        rw [gateAt] at this
        simp [gateAt, p, Gate.join, this]
      · cases g with
        | ceiling => exact absurd rfl hg
        | bucket j => exact h.lines (.bucket j)
    exact (hline.pollCeiling rfl (isUp_alone (.inl rfl)) (by omega) (.inl (by omega))
      (.inl (by omega))).inLine

/-! ### Giving slots back -/

/-- Nobody sleeps at a gate. -/
def Calm (s : Limits) : Prop := ∀ g, (s.gateAt g).rouse.2 = none

theorem rouse_twice (g : Gate) : g.rouse.1.rouse.2 = none := by
  unfold Gate.rouse
  cases hh : g.hold <;> simp [hh]

/-- A change of a bucket that rouses its sleeper wakes nobody where nobody sleeps. -/
theorem Calm.changeBucket {f : Bucket → Bucket × Option Caller} (h : Calm s)
    (hf : ∀ b, (f b).1.gate = b.gate.rouse.1 ∧ (f b).2 = b.gate.rouse.2) (i : Nat) :
    Calm (s.changeBucket i f) ∧ (s.changeBucket i f).woken = s.woken := by
  cases hb : s.buckets[i]? with
  | none => rw [changeBucket_of_none hb]; exact ⟨h, rfl⟩
  | some b =>
    have hquiet : (f b).2 = none := by
      have := h (.bucket i)
      rwa [gateAt, site_of_some hb, ← (hf b).2] at this
    rw [changeBucket_of_some hb]
    refine ⟨fun g => ?_, by simp [wake, hquiet]⟩
    rw [gateAt_set _ hb]
    split
    · rw [(hf b).1]; exact rouse_twice _
    · exact h g

theorem Calm.share (h : Calm s) (now : Instant) (i : Nat) (r : Report) :
    (s.share now i r).woken = s.woken := by
  unfold Limits.share
  split
  · dsimp only
    split
    · rfl
    · split
      · rfl
      · exact (h.changeBucket (fun b => ⟨rfl, rfl⟩) _).2
  · rfl

theorem Calm.recordBucket (h : Calm s) (now : Instant) (t : Ticket) (r : Report) :
    (s.recordBucket now t r).woken = s.woken := by
  unfold Limits.recordBucket
  split
  · rename_i i _
    obtain ⟨hcalm, hwoken⟩ := h.changeBucket (f := (·.record now r)) (fun b => ⟨rfl, rfl⟩) i
    exact (hcalm.share now i r).trans hwoken
  · rfl

theorem Calm.block (h : Calm s) (now : Instant) (wait : Span) :
    Calm (s.block now wait) ∧ (s.block now wait).woken = s.woken := by
  have hquiet : s.ceilingGate.rouse.2 = none := h .ceiling
  refine ⟨fun g => ?_, by simp [Limits.block, wake, hquiet]⟩
  cases g with
  | ceiling => exact rouse_twice _
  | bucket i => exact h (.bucket i)

theorem Calm.recordRefusal (h : Calm s) (now : Instant) (t : Ticket) (r : Report)
    (body : Option Refusal) : (s.recordRefusal now t r body).woken = s.woken := by
  cases hg : isGlobalRefusal r body with
  | true =>
    obtain ⟨hcalm, hwoken⟩ : Calm (s.held now t (refusalWait r body)) ∧
        (s.held now t (refusalWait r body)).woken = s.woken := by
      rcases held_cases s now t (refusalWait r body) with hu | hu
      · rw [hu]; exact ⟨h, rfl⟩
      · rw [hu]; exact h.block now _
    rw [recordRefusal_of_global hg]
    split
    · exact (hcalm.recordBucket now t r).trans hwoken
    · exact hwoken
  | false =>
    rw [recordRefusal_of_not_global hg]
    split
    · rename_i i _
      obtain ⟨hcalm, hwoken⟩ := h.changeBucket (f := (·.exhaust now (refusalWait r body)))
        (fun b => ⟨rfl, rfl⟩) i
      exact (hcalm.share now i r).trans hwoken
    · rfl

theorem Held.calm (h : Held s t) : Calm s := by
  intro g
  rcases h.gates g with hg | ⟨i, -, -, hg⟩
  · unfold Gate.rouse Gate.owner?
    rw [hg]
    split <;> rfl
  · rw [hg]
    rfl

/-- What is taken over from a response changes nothing about who holds what. -/
theorem Held.of_roused (h : Held s t) (charted : Charted u) (hp : u.pending = s.pending)
    (ht : u.tickets = s.tickets) (hw : u.woken = s.woken)
    (hg : ∀ g, u.gateAt g = s.gateAt g ∨ u.gateAt g = (s.gateAt g).rouse.1) : Held u t := by
  refine ⟨⟨charted, hp.trans h.pending, ht.trans h.tickets, hw.trans h.woken⟩, fun g => ?_⟩
  rcases h.gates g with hl | ⟨i, hi, hb, hl⟩
  · left
    rcases hg g with h' | h'
    · rw [h']; exact hl
    · rw [h', Gate.rouse]
      split <;> exact hl
  · refine .inr ⟨i, hi, hb, ?_⟩
    rcases hg g with h' | h'
    · rw [h']; exact hl
    · rw [h', hl]; rfl

/-- Nobody comes behind a caller on its own. -/
theorem leave_alone (hold : Hold) : Gate.leave ⟨[c], hold⟩ c = (⟨[], .turn⟩, none) := by
  simp [Gate.leave]

/-- Whoever is alone in giving its slots back leaves nobody behind. -/
theorem Held.release (h : Held s t) : Vacant (s.release t) := by
  obtain ⟨-, -, hpending, htickets⟩ := release_frame s t
  refine ⟨⟨charted_release h.charted t, hpending.trans h.pending, ?_, ?_⟩, fun g => ?_⟩
  · rw [htickets, h.tickets]
    simp
  · unfold Limits.release
    dsimp only
    split
    · rename_i i hi
      cases hb : s.buckets[i]? with
      | none => rw [changeBucket_of_none (by exact hb)]; exact h.woken
      | some b =>
        rw [changeBucket_of_some (b := b) (by exact hb)]
        have hquiet : (b.leave t.caller).2 = none := by
          have hgate : s.gateAt (.bucket i) = b.gate := by rw [gateAt, site_of_some hb]
          rcases h.gates (.bucket i) with hl | ⟨_, -, -, hl⟩
          · rw [hgate] at hl
            simp [Bucket.leave, Bucket.changeGate, Gate.leave, hl]
          · rw [hgate] at hl
            simp [Bucket.leave, Bucket.changeGate, hl, leave_alone]
        simp [wake, h.woken, hquiet]
    · exact h.woken
  · rw [gateAt_release]
    rcases h.gates g with hl | ⟨i, hi, hb, hl⟩
    · split
      · simp [Gate.leave, hl]
      · exact hl
    · rw [if_pos (by rw [hb, hi]; rfl), hl, leave_alone]

theorem Held.ticket? (h : Held s t) : s.ticket? t.caller = some t := by
  simp [Limits.ticket?, h.tickets]

/-- The end of a caller's attempt leaves nobody behind, whatever the service says. -/
theorem Held.record (h : Held s t) (now : Instant) (r : Report) :
    Vacant (s.step now (.record t.caller r)).1 := by
  obtain ⟨-, hceiling, hpending, htickets⟩ := recordBucket_frame s now t r
  have hheld : Held (s.recordBucket now t r) t := h.of_roused (charted_recordBucket h.charted now t r)
    hpending htickets (h.calm.recordBucket now t r)
    (gateAt_of_takes (.inl hceiling) (takes_recordBucket s now t r))
  simp only [step_eq, leap, h.ticket?]
  exact hheld.release

theorem Held.refuse (h : Held s t) (now : Instant) (r : Report) (body : Option Refusal) :
    Vacant (s.step now (.refuse t.caller r body)).1 := by
  obtain ⟨hceiling, hpending, htickets⟩ := recordRefusal_frame s now t r body
  have hheld : Held (s.recordRefusal now t r body) t :=
    h.of_roused (charted_recordRefusal h.charted now t r body) hpending htickets
      (h.calm.recordRefusal now t r body)
      (gateAt_of_takes (hceiling.imp And.right And.right) (takes_recordRefusal s now t r body))
  simp only [step_eq, leap, h.ticket?]
  exact hheld.release

theorem Held.withdraw (h : Held s t) (now : Instant) : Vacant (s.step now (.withdraw t.caller)).1 := by
  simp only [step_eq, leap]
  rw [withdraw_of_ticket h.ticket?]
  exact h.release

/-- Whoever neither waits nor holds slots has nothing to give back. -/
theorem Vacant.withdraw (h : Vacant s) (now : Instant) (c : Caller) :
    Vacant (s.step now (.withdraw c)).1 := by
  simp only [step_eq, leap]
  rw [withdraw_of_absent (by simp [Limits.ticket?, h.tickets]) (by simp [h.pending])]
  exact h

theorem vacant_ofLimit (limit : Nat) : Vacant (ofLimit limit) := by
  refine ⟨⟨charted_run limit [], rfl, rfl, rfl⟩, fun g => ?_⟩
  cases g <;> rfl

end Limits

end ChatApi.Limit
