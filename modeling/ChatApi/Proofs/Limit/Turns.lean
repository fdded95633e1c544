import ChatApi.Proofs.Limit.Return

/-!
# Callers go in order, act by act

Whoever gets in line at a bucket does so behind all others, and only the first in line leaves it with a ticket, or
whoever gives up (`Limits.shifts_act`). So a caller has its ticket before those behind it, whatever acts of whom
come in between (`Machine.Honest.precedes_step`).
-/

namespace ChatApi.Limit

/-- `c` waits, and `d` is not ahead of it. -/
def Site.Precedes (x : Site) (c d : Caller) : Prop :=
  ∃ ahead behind, x.gate.waiting = ahead ++ c :: behind ∧ d ∉ ahead

/-- Who is ahead of whom does not change where another leaves. -/
theorem ahead_erase {ahead : List Caller} (behind : List Caller) {b c d : Caller} (hb : b ≠ c) (hd : d ∉ ahead) :
    ∃ ahead' behind', (ahead ++ c :: behind).erase b = ahead' ++ c :: behind' ∧ d ∉ ahead' := by
  rw [List.erase_append]
  split
  · exact ⟨_, behind, rfl, fun h => hd (List.mem_of_mem_erase h)⟩
  · rw [List.erase_cons_tail (by simpa using Ne.symm hb)]
    exact ⟨ahead, _, rfl, hd⟩

namespace Limits

variable {s u : Limits} {now : Instant} {e : Option Caller} {c d : Caller} {i : Nat} {a : Act} {rest : List Act}
  {g : Stage}

/-- What an act makes of who waits at a bucket. -/
inductive Shifts (s u : Limits) (a : Act) (i : Nat) : Prop
  | same (h : (u.site i).gate.waiting = (s.site i).gate.waiting)
  /-- A caller gets in line. -/
  | joins (p : Pending) (ha : a = .join (.bucket i) p)
    (h : (u.site i).gate.waiting = (s.site i).gate.waiting ++ [p.caller])
  /-- The first in line has its ticket. -/
  | served (p : Pending) (h : (s.site i).gate.waiting = p.caller :: (u.site i).gate.waiting)
    (ht : ⟨p.caller, p.wanted, some i⟩ ∈ u.tickets)
  /-- A caller gives up. -/
  | leaves (p : Pending) (ha : a = .quit p) (h : (u.site i).gate.waiting = (s.site i).gate.waiting.erase p.caller)

theorem Shifts.of_gate (h : u.gateAt (.bucket i) = s.gateAt (.bucket i)) : Shifts s u a i :=
  .same (congrArg Gate.waiting h)

/-- A gate whose line is as it was. -/
theorem shifts_changeGate {f : Gate → Gate × Option Caller}
    (hf : g = .bucket i → (f (s.gateAt g)).1.waiting = (s.gateAt g).waiting) : Shifts s (s.changeGate g f) a i := by
  rcases changeGate_cases s g f with ⟨heq, -⟩ | ⟨heq, -⟩
  · rw [heq]
    exact .same rfl
  · refine .same ?_
    show ((s.changeGate g f).gateAt (.bucket i)).waiting = (s.gateAt (.bucket i)).waiting
    rw [heq]
    split
    · rename_i hg
      rw [hg]
      exact hf hg.symm
    · rfl

/-- It is the turn of the first in line. -/
theorem HasTurn.waiting (h : s.HasTurn g c) (now : Instant) :
    (s.gateAt g).prober? = none ∧ (s.gateAt g).waiting = c :: (s.gateAt g).line.tail := by
  obtain ⟨hp, hw, -⟩ := Gate.of_isUp (h.isUp now)
  exact ⟨hp, hw⟩

theorem shifts_act (h : Suits s e (a :: rest)) (ho : Orderly s) (now : Instant) (i : Nat) :
    Shifts s (s.act now a).limits a i := by
  cases a with
  | start p =>
    obtain ⟨pending, tickets, heq⟩ := start_eq s now p
    exact .of_gate (by rw [heq]; rfl)
  | seek p key => exact .of_gate (gateAt_bucketFor s key _)
  | join g p =>
    obtain ⟨pending, heq, -⟩ := join_eq s now g p
    rw [heq]
    rcases changeGate_cases s g fun gate => (gate.join p.caller, none) with ⟨hsame, -⟩ | ⟨hjoined, -⟩
    · rw [hsame]
      exact .same rfl
    · have hgate := hjoined (.bucket i)
      by_cases hg : Stage.bucket i = g
      · subst hg
        rw [if_pos rfl] at hgate
        exact .joins p rfl ((congrArg Gate.waiting hgate).trans Gate.waiting_join)
      · rw [if_neg hg] at hgate
        exact .of_gate hgate
  | resume g p =>
    unfold act
    dsimp only
    split
    · rename_i hup
      rw [gate_eq] at hup
      refine shifts_changeGate (f := fun gate => ({ gate with hold := .turn }, none)) fun _ => ?_
      refine (Gate.waiting_hold rfl (fun hh => ?_) (by decide)).1
      simp [Gate.isUp, hh] at hup
    · exact .same rfl
  | look g p hasHeard =>
    have hturn : s.HasTurn g p.caller := h.allows_head
    cases g with
    | ceiling =>
      unfold act look
      dsimp only
      split <;> exact .same rfl
    | bucket j =>
      obtain ⟨b, hb, hgate⟩ := hturn.bucket
      have hkept (window : Window) : Shifts s (s.putBucket j { b with window }) (.look (.bucket j) p hasHeard) i :=
        .of_gate (gateAt_putWindow hb window _)
      rw [act_look_bucket hb]
      split
      · exact hkept _
      · rename_i window _
        have hput := gateAt_putBucket hb window { b.gate with hold := .probing } (.bucket i)
        by_cases hij : Stage.bucket i = .bucket j
        · cases hij
          rw [if_pos rfl] at hput
          refine .served p ((hturn.waiting now).2.trans (congrArg _ ?_)) (List.mem_append_right _ (by simp))
          refine Eq.trans ?_ (congrArg Gate.waiting hput).symm
          rw [hgate]
          rfl
        · rw [if_neg hij] at hput
          exact .of_gate hput
      · exact hkept _
  | doze g p till hasHeard =>
    have hturn : s.HasTurn g p.caller := h.allows_head
    cases hasHeard with
    | true => exact .same rfl
    | false =>
      refine shifts_changeGate (f := fun gate => ({ gate with hold := .asleep till }, none)) fun _ => ?_
      exact (Gate.waiting_hold hturn.hold (by decide) (by simp)).1
  | pass g p =>
    have hturn : s.HasTurn g p.caller := h.allows_head
    have hgate := hturn.gateAt_changeGate (·.leave p.caller) (.bucket i)
    by_cases hg : Stage.bucket i = g
    · subst hg
      rw [if_pos rfl] at hgate
      obtain ⟨hp, hw⟩ := hturn.waiting now
      refine .served p (hw.trans (congrArg _ ?_)) (List.mem_append_right _ (by simp))
      refine Eq.trans ?_ (congrArg Gate.waiting hgate).symm
      rw [Gate.waiting_leave, hp, if_neg (by simp), hw, List.erase_cons_head]
    · rw [if_neg hg] at hgate
      obtain ⟨pending, tickets, heq⟩ := pass_eq s now g p
      rw [heq]
      exact .of_gate hgate
  | write i change => exact .of_gate (gateAt_changeWindow s i (·.change now change) _)
  | tell g => exact shifts_changeGate fun _ => Gate.waiting_rouse
  | fold j r =>
    obtain ⟨shared, heq⟩ := fold_eq s now j r
    rw [heq]
    exact .same rfl
  | giveBack t =>
    have hticket : s.ticket? t.caller = some t := h.allows_head
    have hrelease := gateAt_release s t (.bucket i)
    split at hrelease
    · refine .same ((congrArg Gate.waiting hrelease).trans ?_)
      rw [Gate.waiting_leave]
      split
      · rfl
      · -- who has a ticket does not wait
        refine List.erase_of_not_mem fun hmem => ?_
        cases (ticket?_of_waits (ho.waiting _ _ hmem)).symm.trans hticket
    · exact .of_gate hrelease
  | quit p =>
    have hentries : s.entries p.caller = (none, some p) := h.allows_head
    let v : Limits := { s with pending := s.pending.filter (·.caller ≠ p.caller) }
    have hquit : (s.act now (.quit p)).limits.gateAt (.bucket i) = _ :=
      gateAt_changeGate (f := (·.leave p.caller)) rfl v p.stage (.bucket i)
    split at hquit
    · rename_i hg
      refine .leaves p rfl ((congrArg Gate.waiting hquit).trans ?_)
      rw [← hg, Gate.waiting_leave, if_neg]
      · rfl
      · -- who waits does not probe
        intro hp
        obtain ⟨j, -, hplace⟩ := ho.probing (.bucket i) p.caller hp
        rw [waits_of_entries hentries] at hplace
        cases hplace
    · exact .of_gate hquit
  | listen | block | lead => exact .same rfl

theorem Shifts.waiting (h : Shifts s u a i) :
    ∃ l new, l.Sublist (s.site i).gate.waiting ∧ (u.site i).gate.waiting = l ++ Option.toList new := by
  cases h with
  | same h => exact ⟨_, none, .refl _, by simpa using h⟩
  | joins p _ h => exact ⟨_, some p.caller, .refl _, h⟩
  | served p h => exact ⟨_, none, h ▸ List.sublist_cons_self .., by simp⟩
  | leaves p _ h => exact ⟨_, none, List.erase_sublist, by simpa using h⟩

/-- A caller that waits has its ticket next, or gives up, or stays ahead of those behind it. -/
theorem Shifts.precedes (h : Shifts s u a i) (hx : (s.site i).Precedes c d) :
    (∃ t ∈ u.tickets, t.caller = c ∧ t.bucket = some i) ∨ (∃ p, a = .quit p ∧ p.caller = c) ∨
      (u.site i).Precedes c d := by
  obtain ⟨ahead, behind, hw, hd⟩ := hx
  cases h with
  | same h => exact .inr (.inr ⟨ahead, behind, h.trans hw, hd⟩)
  | joins p _ h => exact .inr (.inr ⟨ahead, behind ++ [p.caller], by simp [h, hw], hd⟩)
  | served p h ht =>
    rw [hw] at h
    cases ahead with
    | nil => exact .inl ⟨_, ht, (List.cons.inj h).1.symm, rfl⟩
    | cons b ahead =>
      exact .inr (.inr ⟨ahead, behind, (List.cons.inj h).2.symm, fun hmem => hd (List.mem_cons_of_mem _ hmem)⟩)
  | leaves p ha h =>
    by_cases hc : p.caller = c
    · exact .inr (.inl ⟨p, ha, hc⟩)
    · obtain ⟨ahead', behind', herase, hd'⟩ := ahead_erase behind hc hd
      exact .inr (.inr ⟨ahead', behind', by rw [h, hw, herase], hd'⟩)

/-- Nobody has a ticket next who is behind another. -/
theorem not_served_of_precedes (h : s.Allows a) (now : Instant) (hx : (s.site i).Precedes c d) (hne : d ≠ c)
    {t : Ticket} (ht : t ∈ (s.act now a).limits.tickets) (hb : t.bucket = some i) (hd : t.caller = d) :
    t ∈ s.tickets := by
  refine (ticket_act h now ht).resolve_right fun hturn => ?_
  obtain ⟨-, hfirst⟩ := (hturn i hb).waiting now
  have hfirst : (s.site i).gate.waiting = t.caller :: _ := hfirst
  obtain ⟨ahead, behind, hw, hnot⟩ := hx
  rw [hw, hd] at hfirst
  cases ahead with
  | nil => exact hne (List.cons.inj hfirst).1.symm
  | cons b ahead => exact hnot (by rw [(List.cons.inj hfirst).1]; exact List.mem_cons_self)

end Limits

namespace Machine

variable {m m' : Machine} {now : Instant} {limit n i : Nat} {c d : Caller}

/-- Whoever gives up does so since it withdraws. -/
theorem Reachable.quits (h : Reachable limit m) :
    ∀ j ∈ m.jobs, ∀ p, .quit p ∈ j.acts → j.event = some (.withdraw p.caller) := by
  induction h with
  | start => nofun
  | @step m m' now _ hs ih =>
    intro j hj p hquit
    cases hs with
    | happens e free =>
      rcases List.mem_append.1 hj with hj | hj
      · exact ih j hj p hquit
      · cases List.mem_singleton.1 hj
        rcases Limits.mem_program hquit with h | ⟨_, h⟩ | ⟨_, h⟩ | ⟨_, h, -⟩ | ⟨_, h, he⟩ <;> cases h
        exact congrArg some he
    | strikes i change =>
      rcases List.mem_append.1 hj with hj | hj
      · exact ih j hj p hquit
      · cases List.mem_singleton.1 hj
        simp at hquit
    | goesOn n =>
      rcases goOn_cases m now n with hsame | ⟨event, a, rest, done, hjob⟩
      · exact ih j (hsame ▸ hj) p hquit
      obtain ⟨k, hk⟩ := List.mem_iff_getElem?.1 hj
      rcases job_goOn hjob hk with ⟨rfl, rfl⟩ | ⟨-, j, hjk, rfl⟩
      · have hmem := (Act.mem_map_after (b := .quit p) trivial a).1 hquit
        have hrest := (List.mem_append.1 hmem).resolve_left Limits.leadsTo_of_mem_next
        exact ih _ (List.mem_of_getElem? hjob) p (List.mem_cons_of_mem _ hrest)
      · exact ih j (List.mem_of_getElem? hjk) p ((Act.mem_map_after (b := .quit p) trivial a).1 hquit)

/-- What comes next leaves the limits as they are for all who wait at buckets, or is an act that is begun. -/
theorem Sound.shifts_step (h : m.Sound) (hs : m.Step now m') (i : Nat) :
    m'.limits.site i = m.limits.site i ∧ m'.limits.tickets = m.limits.tickets ∨
      ∃ n event a rest done, m.jobs[n]? = some ⟨event, a :: rest, done⟩ ∧ m' = m.goOn now n ∧
        m'.limits = (m.limits.act now a).limits ∧ m.limits.Suits (event.bind Event.caller?) (a :: rest) ∧
        Limits.Shifts m.limits m'.limits a i := by
  cases hs with
  | happens e free =>
    unfold Machine.happen
    cases e <;> exact .inl ⟨rfl, rfl⟩
  | strikes j change => exact .inl ⟨rfl, rfl⟩
  | goesOn n =>
    rcases goOn_cases m now n with hsame | ⟨event, a, rest, done, hj⟩
    · rw [hsame]
      exact .inl ⟨rfl, rfl⟩
    · have hsuits := h.suits _ (List.mem_of_getElem? hj)
      have hlimits : (m.goOn now n).limits = (m.limits.act now a).limits := by rw [goOn_of_cons hj]
      refine .inr ⟨n, event, a, rest, done, hj, rfl, hlimits, hsuits, ?_⟩
      rw [hlimits]
      exact Limits.shifts_act hsuits h.orderly now i

/-- Nobody gets in line but behind all others. -/
theorem Sound.waiting_step (h : m.Sound) (hs : m.Step now m') (i : Nat) :
    ∃ l new, l.Sublist (m.limits.site i).gate.waiting ∧ (m'.limits.site i).gate.waiting = l ++ Option.toList new := by
  rcases h.shifts_step hs i with ⟨hsite, -⟩ | ⟨_, _, _, _, _, _, _, _, _, hshifts⟩
  · rw [hsite]
    exact ⟨_, none, .refl _, by simp⟩
  · exact hshifts.waiting

/-- A caller that waits has its ticket next, or withdraws, or stays ahead of those behind it, who have none before. -/
theorem Reachable.precedes_step (h : Reachable limit m) (hx : (m.limits.site i).Precedes c d) (hne : d ≠ c)
    (hs : m.Step now m') :
    (∃ t ∈ m'.limits.tickets, t.caller = c ∧ t.bucket = some i) ∨
      (∃ n p done, m.jobs[n]? = some ⟨some (.withdraw c), [.quit p], done⟩ ∧ m' = m.goOn now n) ∨
      (m'.limits.site i).Precedes c d ∧
        ∀ t ∈ m'.limits.tickets, t.bucket = some i → t.caller = d → t ∈ m.limits.tickets := by
  rcases h.sound.shifts_step hs i with ⟨hsite, ht⟩ | ⟨n, event, a, rest, done, hj, hm', hlimits, hsuits, hshifts⟩
  · rw [hsite, ht]
    exact .inr (.inr ⟨hx, fun t hmem _ _ => hmem⟩)
  · rcases hshifts.precedes hx with hserved | ⟨p, rfl, hc⟩ | hx'
    · exact .inl hserved
    · obtain rfl := hsuits.rest_eq_nil rfl
      obtain rfl := h.quits _ (List.mem_of_getElem? hj) p List.mem_cons_self
      exact .inr (.inl ⟨n, p, done, hc ▸ hj, hm'⟩)
    · refine .inr (.inr ⟨hx', fun t ht hb hd => ?_⟩)
      exact Limits.not_served_of_precedes hsuits.allows_head now hx hne (hlimits ▸ ht) hb hd

end Machine

end ChatApi.Limit
