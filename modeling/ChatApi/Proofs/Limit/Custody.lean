import ChatApi.Proofs.Limit.Places

/-!
# What callers hold and where they stand

An event of one caller changes nothing about what any other holds or waits for, and nobody else's place in a
line: a caller that asks may come in behind all others (`answered_arrive`, `answered_poll`), and one that
gives back what it has gets out of line (`parted_record`, `parted_refuse`, `parted_withdraw`).
-/

namespace ChatApi.Limit

/-! ### Lines -/

/-- A caller has got out of a line, if it was in it. -/
def Leaves (c : Caller) (before after : List Caller) : Prop := after = before ∨ after = before.filter (· ≠ c)

/-- Nobody but `c` has changed its place in a line: it has got out, or has come in behind all others. -/
def Stands (c : Caller) (before after : List Caller) : Prop :=
  Leaves c before after ∨ c ∉ before ∧ after = before ++ [c]

variable {c d : Caller} {w w' w'' : List Caller}

theorem Leaves.refl (c : Caller) (w : List Caller) : Leaves c w w := .inl rfl

theorem Leaves.trans (h : Leaves c w w') (h' : Leaves c w' w'') : Leaves c w w'' := by
  rcases h with rfl | rfl
  · exact h'
  · rcases h' with rfl | rfl
    · exact .inr rfl
    · exact .inr (by simp)

theorem filter_ne_of_not_mem (h : c ∉ w) : w.filter (· ≠ c) = w :=
  List.filter_eq_self.2 fun d hd => by
    have hne : d ≠ c := fun he => h (he ▸ hd)
    simpa using hne

/-- Who is in line no more has left all others where they were. -/
theorem Leaves.eq_filter (h : Leaves c w w') (hc : c ∉ w') : w' = w.filter (· ≠ c) := by
  rcases h with rfl | rfl
  · exact (filter_ne_of_not_mem hc).symm
  · rfl

/-- Who has come in behind all others and gets out again leaves the line as it was. -/
theorem Stands.leave (h : Stands c w w') (h' : Leaves c w' w'') : Stands c w w'' := by
  rcases h with h | ⟨hc, rfl⟩
  · exact .inl (h.trans h')
  · rcases h' with rfl | rfl
    · exact .inr ⟨hc, rfl⟩
    · refine .inl (.inl ?_)
      rw [List.filter_append, filter_ne_of_not_mem hc]
      simp

/-- To leave a gate is to get out of its line. -/
theorem Gate.leaves_leave {g : Gate} (h : g.waiting.Nodup) (c : Caller) :
    Leaves c g.waiting (g.leave c).1.waiting := by
  rw [Gate.waiting_leave]
  split
  · exact .refl ..
  · exact .inr ((h.erase_eq_filter c).trans (List.filter_congr fun d _ => by by_cases hd : d = c <;> simp [hd]))

namespace Site

variable {x : Site} {now : Instant}

theorem leaves_look (h : x.gate.waiting.Nodup) (now : Instant) (c : Caller) :
    Leaves c x.gate.waiting (x.look now c).gate.waiting := by
  cases hl : x.lets now c with
  | false => exact .inl (look_of_not_lets hl).2
  | true =>
    obtain ⟨-, rest, hwas, hwait, -⟩ := look_of_lets hl
    have hnot : c ∉ rest := (List.nodup_cons.1 (hwas ▸ h)).1
    refine .inr ?_
    rw [hwas, hwait, List.filter_cons_of_neg (by simp), filter_ne_of_not_mem hnot]

/-- A new caller comes in behind all others, and is out again if it is let through. -/
theorem stands_arrive_look (h : x.gate.waiting.Nodup) (hc : c ∉ x.gate.waiting) (isNew : Bool) (now : Instant) :
    Stands c x.gate.waiting ((x.arrive isNew c).look now c).gate.waiting := by
  have hwait := waiting_arrive (x := x) (c := c) isNew
  cases isNew with
  | false => exact .inl (leaves_look h now c)
  | true =>
    have hnodup : (x.arrive true c).gate.waiting.Nodup := by
      rw [hwait]
      exact List.nodup_append.2 ⟨h, by simp, fun d hd e he hde => hc (List.mem_singleton.1 he ▸ hde ▸ hd)⟩
    have hjoined : Stands c x.gate.waiting (x.arrive true c).gate.waiting := .inr ⟨hc, hwait⟩
    exact hjoined.leave (leaves_look hnodup now c)

end Site

namespace Limits

variable {s u : Limits} {now : Instant} {e : Event} {p q : Pending} {t : Ticket} {i : Nat} {o : Limits × Turn}

/-! ### Entries -/

/-- The ticket of a caller, and what it waits for. -/
def entries (s : Limits) (c : Caller) : Option Ticket × Option Pending :=
  (s.ticket? c, s.pending.find? (·.caller = c))

theorem waits_of_entries (h : s.entries c = (none, some p)) : s.place? c = some (.waits p.stage) := by
  obtain ⟨ht, hp⟩ := Prod.mk.inj h
  simp only [place?, ht, hp, Option.map_some]

theorem holds_of_entries (h : s.entries c = (some t, none)) : s.place? c = some (.holds t.bucket) :=
  place?_of_ticket (Prod.mk.inj h).1

theorem place?_of_entries_eq (h : u.entries c = s.entries c) : u.place? c = s.place? c := by
  obtain ⟨ht, hp⟩ := Prod.mk.inj h
  simp only [place?, ht, hp]

theorem place?_of_no_entries (h : s.entries c = (none, none)) : s.place? c = none := by
  obtain ⟨ht, hp⟩ := Prod.mk.inj h
  simp only [place?, ht, hp, Option.map_none]

theorem entries_congr (hp : u.pending = s.pending) (ht : u.tickets = s.tickets) (c : Caller) :
    u.entries c = s.entries c := by
  simp only [entries, ticket?, hp, ht]

theorem entries_grant_ne (hd : d ≠ p.caller) (s : Limits) (bucket : Option Nat) :
    (s.grant p bucket).entries d = s.entries d := by
  have hne : ¬ p.caller = d := Ne.symm hd
  simp only [entries, ticket?, grant, find?_filter_ne Pending.caller s.pending hd, List.find?_append, List.find?_singleton, hne,
    decide_false, Bool.false_eq_true, if_false, Option.or_none]

theorem entries_grant_self (hn : s.ticket? p.caller = none) (bucket : Option Nat) :
    (s.grant p bucket).entries p.caller = (some ⟨p.caller, p.wanted, bucket⟩, none) := by
  unfold ticket? at hn
  simp [entries, ticket?, grant, hn, List.find?_append]

theorem entries_goTo_ne (hp : u.pending = s.pending.map (·.goTo c i)) (ht : u.tickets = s.tickets)
    (hd : d ≠ c) : u.entries d = s.entries d := by
  simp only [entries, ticket?, ht, hp, find?_goTo]
  cases hq : s.pending.find? (·.caller = d) with
  | none => rfl
  | some q =>
    have hcaller : q.caller = d := by simpa using List.find?_some hq
    simp [Pending.goTo, hcaller, hd]

theorem entries_goTo_self (hp : u.pending = s.pending.map (·.goTo c i)) (ht : u.tickets = s.tickets)
    (h : s.entries c = (none, some q)) : ∃ q', u.entries c = (none, some q') := by
  obtain ⟨hn, hq⟩ := Prod.mk.inj h
  unfold ticket? at hn
  exact ⟨q.goTo c i, by simp only [entries, ticket?, ht, hp, find?_goTo, hn, hq, Option.map_some]⟩

theorem entries_release_ne (hd : d ≠ t.caller) (s : Limits) : (s.release t).entries d = s.entries d := by
  obtain ⟨-, -, hp, -⟩ := release_frame s t
  simp only [entries, ticket?_release_ne t hd, hp]

theorem entries_release_self (s : Limits) (t : Ticket) :
    (s.release t).entries t.caller = (none, s.pending.find? (·.caller = t.caller)) := by
  obtain ⟨-, -, hp, ht⟩ := release_frame s t
  simp only [entries, ticket?, hp, ht, find?_filter_self Ticket.caller s.tickets t.caller]

theorem isBusy_of_entries (h : s.entries c = (none, none)) : s.isBusy c = false := by
  obtain ⟨ht, hp⟩ := Prod.mk.inj h
  simp only [isBusy, ht, Option.isSome_none, Bool.or_false, List.any_eq_false]
  exact List.find?_eq_none.1 hp

theorem entries_of_not_busy (h : s.isBusy c = false) : s.entries c = (none, none) := by
  simp only [isBusy, Bool.or_eq_false_iff, Option.isSome_eq_false_iff, Option.isNone_iff_eq_none] at h
  exact Prod.ext h.2 (List.find?_eq_none.2 (List.any_eq_false.1 h.1))

/-- What a caller waits for once it has come in. -/
theorem entries_comeIn (hb : s.isBusy c = false) (wanted : Wanted) (d : Caller) :
    ({ s with pending := s.pending ++ [⟨c, wanted, .ceiling⟩] } : Limits).entries d =
      if d = c then (none, some ⟨c, wanted, .ceiling⟩) else s.entries d := by
  obtain ⟨ht, hnone⟩ := Prod.mk.inj (entries_of_not_busy hb)
  have ht : s.tickets.find? (·.caller = c) = none := ht
  by_cases hd : d = c
  · subst hd
    simp [entries, ticket?, ht, List.find?_append, hnone]
  · have hne : ¬ c = d := Ne.symm hd
    simp [entries, ticket?, List.find?_append, hd, hne]

/-! #### What others hold and wait for -/

theorem entries_pollBucket_ne (hd : d ≠ p.caller) (s : Limits) (now : Instant) (i : Nat) :
    (s.pollBucket now p i).1.entries d = s.entries d := by
  obtain ⟨u, hu, hv⟩ := visited_pollBucket s now p i
  have hsame : u.entries d = s.entries d := entries_congr hu.pending hu.tickets d
  cases hl : ((s.site i).arrive false p.caller).lets now p.caller with
  | true =>
    rw [hv.granted hl]
    exact (entries_grant_ne hd u _).trans hsame
  | false =>
    obtain ⟨turn, -, ho⟩ := hv.refused hl
    rwa [ho]

theorem entries_enterBucket_ne (hd : d ≠ p.caller) (s : Limits) (now : Instant) (key : RouteKey) :
    (s.enterBucket now p key).1.entries d = s.entries d := by
  obtain ⟨-, -, ht, hp⟩ := lineUp_frame s p key
  rw [enterBucket_eq]
  exact (entries_pollBucket_ne hd _ now _).trans (entries_goTo_ne hp ht hd)

theorem entries_pollCeiling_ne (hd : d ≠ p.caller) (s : Limits) (now : Instant) :
    (s.pollCeiling now p).1.entries d = s.entries d := by
  rcases pollCeiling_cases s now p with ho | ⟨-, ⟨till, -, ho⟩ | ⟨-, ⟨-, ho⟩ | ⟨key, scope, -, ho⟩⟩⟩
  · rw [ho]
  · rw [ho]; rfl
  · rw [ho]; exact entries_grant_ne hd (s.passed now p.caller) none
  · rw [ho]; exact entries_enterBucket_ne hd (s.passed now p.caller) now key

theorem entries_arrive_ne (hb : s.isBusy c = false) (hd : d ≠ c) (now : Instant) (wanted : Wanted) :
    (s.arrive now c wanted).1.entries d = s.entries d := by
  have hcome := entries_comeIn hb wanted d
  rw [if_neg hd] at hcome
  unfold arrive
  dsimp only
  split
  · exact (entries_grant_ne (p := ⟨c, _, .ceiling⟩) hd _ none).trans hcome
  · exact (entries_enterBucket_ne (p := ⟨c, _, .ceiling⟩) hd _ now _).trans hcome
  · exact (entries_pollCeiling_ne (p := ⟨c, _, .ceiling⟩) hd _ now).trans hcome
  · exact (entries_pollCeiling_ne (p := ⟨c, _, .ceiling⟩) hd _ now).trans hcome

theorem entries_poll_ne (hd : d ≠ c) (s : Limits) (now : Instant) :
    (s.poll now c).1.entries d = s.entries d := by
  unfold poll
  split
  · rfl
  · rename_i p hp
    obtain rfl : p.caller = c := by simpa using List.find?_some hp
    split
    · exact entries_pollCeiling_ne hd s now
    · exact entries_pollBucket_ne hd s now _

theorem entries_withdraw_ne (hd : d ≠ c) (s : Limits) : (s.withdraw c).entries d = s.entries d := by
  cases ht : s.ticket? c with
  | some t =>
    obtain rfl := caller_of_ticket? ht
    rw [withdraw_of_ticket ht]
    exact entries_release_ne hd s
  | none =>
    cases hp : s.pending.find? (·.caller = c) with
    | none => rw [withdraw_of_absent ht hp]
    | some p =>
      obtain ⟨-, -, hpending, htickets⟩ := withdraw_frame ht hp
      simp only [entries, ticket?, htickets, hpending, find?_filter_ne Pending.caller s.pending hd]

/-! ### Callers that ask -/

/-- What comes of a caller that asks: it has a ticket if it is through and waits otherwise. All others have and
wait for what they did, and stand where they did. -/
structure Answered (s : Limits) (c : Caller) (o : Limits × Turn) : Prop where
  others : ∀ d, d ≠ c → o.1.entries d = s.entries d
  granted : o.2 = .granted → ∃ t, o.1.entries c = (some t, none)
  waits : o.2 ≠ .granted → ∃ p, o.1.entries c = (none, some p)
  lines : ∀ g, Stands c (s.gateAt g).waiting (o.1.gateAt g).waiting

theorem gateAt_grant (s : Limits) (p : Pending) (bucket : Option Nat) (g : Stage) :
    (s.grant p bucket).gateAt g = s.gateAt g := by
  cases g <;> rfl

theorem Answered.of_unchanged (h : s.entries c = (none, some q)) : Answered s c (s, .unchanged) :=
  ⟨fun _ _ => rfl, nofun, fun _ => ⟨q, h⟩, fun _ => .inl (.refl ..)⟩

/-- Who just got in line is answered alike. -/
theorem Answered.inLine (h : Answered s c o) : Answered s c (o.1, o.2.inLine) := by
  obtain ⟨u, turn⟩ := o
  refine ⟨h.others, fun hg => h.granted ?_, fun hg => h.waits ?_, h.lines⟩
  · cases turn <;> simp_all [Turn.inLine]
  · cases turn <;> simp_all [Turn.inLine]

/-- What comes of a caller that looks at a bucket is seen from the state in which it has looked. -/
theorem Visited.answered {isNew : Bool} (hv : Visited s now p i isNew u o) (hg : u.ceilingGate = s.ceilingGate)
    (hothers : ∀ d, d ≠ p.caller → o.1.entries d = s.entries d)
    (hself : u.entries p.caller = (none, some q))
    (hlines : Stands p.caller (s.site i).gate.waiting
      (((s.site i).arrive isNew p.caller).look now p.caller).gate.waiting) : Answered s p.caller o := by
  have hstands (g : Stage) : Stands p.caller (s.gateAt g).waiting (u.gateAt g).waiting := by
    cases g with
    | ceiling => exact .inl (.inl (congrArg Gate.waiting hg))
    | bucket j =>
      simp only [gateAt, hv.site]
      split
      · subst j
        exact hlines
      · exact .inl (.refl ..)
  cases hl : ((s.site i).arrive isNew p.caller).lets now p.caller with
  | true =>
    obtain rfl := hv.granted hl
    refine ⟨hothers, fun _ => ⟨_, entries_grant_self (Prod.mk.inj hself).1 _⟩, fun hn => absurd rfl hn, fun g => ?_⟩
    rw [gateAt_grant]
    exact hstands g
  | false =>
    obtain ⟨turn, hturn, rfl⟩ := hv.refused hl
    exact ⟨hothers, fun hg => absurd hg hturn, fun _ => ⟨q, hself⟩, hstands⟩

theorem answered_pollBucket (ho : Orderly s) (hc : s.entries p.caller = (none, some q)) (now : Instant) (i : Nat) :
    Answered s p.caller (s.pollBucket now p i) := by
  obtain ⟨u, hu, hv⟩ := visited_pollBucket s now p i
  exact hv.answered hu.ceilingGate (fun d hd => entries_pollBucket_ne hd s now i)
    ((entries_congr hu.pending hu.tickets _).trans hc) (.inl (Site.leaves_look (ho.nodup (.bucket i)) now p.caller))

theorem answered_enterBucket (ho : Orderly s) (hin : InNoLine s p.caller)
    (hc : s.entries p.caller = (none, some q)) (now : Instant) (key : RouteKey) :
    Answered s p.caller (s.enterBucket now p key) := by
  obtain ⟨isNew, u, hv, -, hg, ht, hp⟩ := visited_enterBucket s now p key
  obtain ⟨q', hself⟩ := entries_goTo_self hp ht hc
  exact hv.answered hg (fun d hd => entries_enterBucket_ne hd s now key) hself
    (Site.stands_arrive_look (ho.nodup (.bucket _)) (hin (.bucket _)).1 isNew now)

/-- A caller that looks at the limit of the account gets out of line there, at most. -/
theorem answered_pollCeiling (ho : Orderly s) (hc : s.entries p.caller = (none, some q)) (now : Instant) :
    Answered s p.caller (s.pollCeiling now p) ∧
      Leaves p.caller s.ceilingGate.waiting (s.pollCeiling now p).1.ceilingGate.waiting := by
  have hothers (d : Caller) (hd : d ≠ p.caller) := entries_pollCeiling_ne hd s now
  cases hu : s.ceilingGate.isUp p.caller now with
  | false =>
    rw [pollCeiling_of_not_up hu]
    exact ⟨.of_unchanged hc, .refl ..⟩
  | true =>
    have hplace := ho.waits_of_isUp (g := .ceiling) hu
    obtain ⟨hopassed, hin⟩ := orderly_passed ho hplace now
    have hleaves : Leaves p.caller s.ceilingGate.waiting (s.passed now p.caller).ceilingGate.waiting :=
      Gate.leaves_leave (ho.nodup .ceiling) p.caller
    have hpassed (g : Stage) : Stands p.caller (s.gateAt g).waiting ((s.passed now p.caller).gateAt g).waiting := by
      cases g with
      | ceiling => exact .inl hleaves
      | bucket j => exact .inl (.refl ..)
    rcases pollCeiling_of_up hu with ⟨till, -, heq⟩ | ⟨-, ⟨-, heq⟩ | ⟨key, scope, -, heq⟩⟩
    · have hwait := (Gate.asleep_of_isUp hu till).2
      rw [heq] at hothers ⊢
      refine ⟨⟨hothers, nofun, fun _ => ⟨q, hc⟩, fun g => ?_⟩, .inl hwait⟩
      cases g with
      | ceiling => exact .inl (.inl hwait)
      | bucket j => exact .inl (.refl ..)
    · rw [heq] at hothers ⊢
      refine ⟨⟨hothers, fun _ => ?_, fun hn => absurd rfl hn, fun g => ?_⟩, hleaves⟩
      · exact ⟨_, entries_grant_self (s := s.passed now p.caller) (Prod.mk.inj hc).1 _⟩
      · rw [gateAt_grant]
        exact hpassed g
    · have henter := answered_enterBucket hopassed hin ((entries_congr rfl rfl _).trans hc) now key
      have hsame := (account_enterBucket (s.passed now p.caller) now p key).2
      rw [heq] at hothers ⊢
      refine ⟨⟨hothers, henter.granted, henter.waits, fun g => ?_⟩, ?_⟩
      · cases g with
        | ceiling =>
          refine .inl (hleaves.trans (.inl ?_))
          exact congrArg Gate.waiting hsame
        | bucket j => exact henter.lines (.bucket j)
      · rw [hsame]
        exact hleaves

theorem answered_enterCeiling (ho : Orderly s) (hin : InNoLine s p.caller)
    (hplace : s.place? p.caller = some (.waits .ceiling)) (hc : s.entries p.caller = (none, some q))
    (now : Instant) : Answered s p.caller (s.enterCeiling now p) := by
  have hjoined := orderly_joinCeiling ho hin hplace
  obtain ⟨hpoll, hleaves⟩ :=
    answered_pollCeiling hjoined ((entries_congr rfl rfl _).trans hc) now
  refine Answered.inLine ⟨fun d hd => (hpoll.others d hd).trans (entries_congr rfl rfl d), hpoll.granted,
    hpoll.waits, fun g => ?_⟩
  cases g with
  | ceiling =>
    have hstands : Stands p.caller s.ceilingGate.waiting (s.ceilingGate.join p.caller).waiting :=
      .inr ⟨(hin .ceiling).1, Gate.waiting_join⟩
    exact hstands.leave hleaves
  | bucket i => exact hpoll.lines (.bucket i)

/-- A new caller gets its ticket or waits, and comes in behind all others. -/
theorem answered_arrive (ho : Orderly s) (hb : s.isBusy c = false) (now : Instant) (wanted : Wanted) :
    Answered s c (s.arrive now c wanted) := by
  obtain ⟨hocome, hin, hplace⟩ := orderly_comeIn ho hb wanted
  have hentries := entries_comeIn hb wanted
  have hself := hentries c
  rw [if_pos rfl] at hself
  -- what comes of it is seen from the state in which the caller has come in
  have of_come {o : Limits × Turn}
      (h : Answered { s with pending := s.pending ++ [⟨c, wanted, .ceiling⟩] } c o) : Answered s c o :=
    ⟨fun d hd => (h.others d hd).trans ((hentries d).trans (if_neg hd)), h.granted, h.waits,
      fun g => by cases g with
        | ceiling => exact h.lines .ceiling
        | bucket i => exact h.lines (.bucket i)⟩
  unfold arrive
  dsimp only
  split
  · refine of_come ⟨fun d hd => entries_grant_ne hd _ none, fun _ => ?_, fun hn => absurd rfl hn, fun g => ?_⟩
    · exact ⟨_, entries_grant_self (Prod.mk.inj hself).1 none⟩
    · rw [gateAt_grant]
      exact .inl (.refl ..)
  · exact of_come (answered_enterBucket (p := ⟨c, _, .ceiling⟩) hocome hin hself now _)
  · exact of_come (answered_enterCeiling (p := ⟨c, _, .ceiling⟩) hocome hin hplace hself now)
  · exact of_come (answered_enterCeiling (p := ⟨c, _, .ceiling⟩) hocome hin hplace hself now)

/-- A caller that looks again gets its ticket or goes on waiting. -/
theorem answered_poll (ho : Orderly s) (hc : s.entries c = (none, some q)) (now : Instant) :
    Answered s c (s.step now (.poll c)) := by
  have hfind := (Prod.mk.inj hc).2
  have hcaller : q.caller = c := by simpa using List.find?_some hfind
  subst hcaller
  simp only [step_eq, leap, poll, hfind]
  split
  · exact (answered_pollCeiling ho hc now).1
  · exact answered_pollBucket ho hc now _

/-! ### Callers that leave -/

/-- A caller has given back all that it had, and got out of every line. All others have and wait for what they
did, and stand where they did. -/
structure Parted (s : Limits) (c : Caller) (u : Limits) : Prop where
  others : ∀ d, d ≠ c → u.entries d = s.entries d
  clear : u.entries c = (none, none)
  lines : ∀ g, Leaves c (s.gateAt g).waiting (u.gateAt g).waiting

theorem Parted.trans {v : Limits} (h : Parted s c u) (h' : Parted u c v) : Parted s c v :=
  ⟨fun d hd => (h'.others d hd).trans (h.others d hd), h'.clear, fun g => (h.lines g).trans (h'.lines g)⟩

theorem parted_release (ho : Orderly s) (hc : s.entries t.caller = (some t, none)) :
    Parted s t.caller (s.release t) := by
  obtain ⟨-, hp⟩ := Prod.mk.inj hc
  refine ⟨fun d hd => entries_release_ne hd s, (entries_release_self s t).trans (by rw [hp]), fun g => ?_⟩
  rw [gateAt_release]
  split
  · exact Gate.leaves_leave (ho.nodup g) t.caller
  · exact .refl ..

/-- What is taken over from a response before its caller leaves is of no matter to who waits. -/
theorem Parted.of_taken (hp : u.pending = s.pending) (ht : u.tickets = s.tickets)
    (hg : u.ceilingGate = s.ceilingGate ∨ u.ceilingGate = s.ceilingGate.rouse.1)
    (hs : ∀ i, Takes s now i u) {v : Limits} (h : Parted u c v) : Parted s c v := by
  refine ⟨fun d hd => (h.others d hd).trans (entries_congr hp ht d), h.clear, fun g => ?_⟩
  have hsame : (u.gateAt g).waiting = (s.gateAt g).waiting := by
    rcases gateAt_of_takes hg hs g with hg | hg <;> simp [hg]
  exact hsame ▸ h.lines g

theorem parted_record (ho : Orderly s) (hc : s.entries t.caller = (some t, none)) (now : Instant)
    (r : Report) : Parted s t.caller (s.record now t r) := by
  obtain ⟨-, hg, hp, ht⟩ := recordBucket_frame s now t r
  have htakes := takes_recordBucket s now t r
  exact .of_taken hp ht (.inl hg) htakes
    (parted_release (ho.of_roused now hp ht (.inl hg) htakes) ((entries_congr hp ht _).trans hc))

theorem parted_refuse (ho : Orderly s) (hc : s.entries t.caller = (some t, none)) (now : Instant)
    (r : Report) (body : Option Refusal) : Parted s t.caller (s.refuse now t r body) := by
  obtain ⟨hceiling, hp, ht⟩ := recordRefusal_frame s now t r body
  have hg := hceiling.imp And.right And.right
  have htakes := takes_recordRefusal s now t r body
  exact .of_taken hp ht hg htakes
    (parted_release (ho.of_roused now hp ht hg htakes) ((entries_congr hp ht _).trans hc))

/-- Who leaves without a response may hold a ticket or wait, but not both. -/
theorem parted_withdraw (ho : Orderly s) (hc : (s.entries c).1 = none ∨ (s.entries c).2 = none) (now : Instant) :
    Parted s c (s.step now (.withdraw c)).1 := by
  rw [step_eq]
  show Parted s c (s.withdraw c)
  cases ht : s.ticket? c with
  | some t =>
    have hcaller := caller_of_ticket? ht
    have hp : s.pending.find? (·.caller = c) = none :=
      hc.resolve_left fun hn => by rw [entries, ht] at hn; cases hn
    subst hcaller
    rw [withdraw_of_ticket ht]
    exact parted_release ho (Prod.ext ht hp)
  | none =>
    cases hp : s.pending.find? (·.caller = c) with
    | none =>
      rw [withdraw_of_absent ht hp]
      exact ⟨fun _ _ => rfl, Prod.ext ht hp, fun g => .refl ..⟩
    | some p =>
      obtain ⟨-, -, hpending, htickets⟩ := withdraw_frame ht hp
      refine ⟨fun d hd => entries_withdraw_ne hd s, ?_, fun g => ?_⟩
      · simp only [entries, ticket?, htickets, hpending, find?_filter_self Pending.caller s.pending c]
        exact Prod.ext ht rfl
      · rw [gateAt_withdraw ht hp]
        split
        · exact Gate.leaves_leave (ho.nodup g) c
        · exact .refl ..

/-! ### Budgets -/

/-- What is known of each bucket, in the order in which they were made. -/
def budgets (s : Limits) : List (RouteKey × Window) := s.buckets.map fun b => (b.key, b.window)

theorem budgets_leave (s : Limits) (i : Nat) (c : Caller) :
    (s.changeBucket i (·.leave c)).budgets = s.budgets := by
  cases hb : s.buckets[i]? with
  | none => rw [changeBucket_of_none hb]
  | some b =>
    obtain ⟨hi, rfl⟩ := List.getElem?_eq_some_iff.1 hb
    have hi' : i < s.budgets.length := by simpa [budgets] using hi
    have hself := List.set_getElem_self hi'
    rw [changeBucket_of_some hb]
    simpa [budgets, wake, Bucket.leave, Bucket.changeGate, List.map_set] using hself

/-- Who leaves without a response takes no slot along and gives none back. -/
theorem budgets_withdraw (s : Limits) (c : Caller) : (s.withdraw c).budgets = s.budgets := by
  unfold withdraw
  split
  · unfold release
    dsimp only
    split
    · exact budgets_leave ..
    · rfl
  · dsimp only
    split
    · rfl
    · exact budgets_leave ..
  · rfl

theorem ceiling_withdraw (s : Limits) (c : Caller) : (s.withdraw c).ceiling = s.ceiling := by
  cases ht : s.ticket? c with
  | some t =>
    rw [withdraw_of_ticket ht]
    exact (release_frame s t).1
  | none =>
    cases hp : s.pending.find? (·.caller = c) with
    | none => rw [withdraw_of_absent ht hp]
    | some p => exact (withdraw_frame ht hp).1

end Limits

end ChatApi.Limit
