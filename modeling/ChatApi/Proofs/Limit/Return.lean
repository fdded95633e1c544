import ChatApi.Proofs.Limit.Concert

/-!
# Tickets are given back last

A probe keeps the gate of its bucket until its ticket is given back, and nobody is let through there in the
meantime (`Machine.Sound.prober_step`). What its response says has been written to its bucket by then, and to
the bucket that its route is folded onto, whatever others have done in between: a job that gives a ticket back
has written it or is to write it first (`Limits.Honours`), and buckets keep the names that they once have
(`Limits.extends_act`).
-/

namespace ChatApi.Limit

/-- What a response has the bucket of its ticket take over, if anything, and what the response says. A refusal for
the whole account is taken over only if it tells of a bucket at all. -/
def Event.change? : Event → Option (Report × Window.Change)
  | .record _ r => some (r, .record r)
  | .refuse _ r body =>
    if Limits.isGlobalRefusal r body then if r.isTracked then some (r, .record r) else none
    else some (r, .exhaust (Limits.refusalWait r body))
  | .arrive .. | .poll _ | .withdraw _ | .block _ => none

theorem Gate.hold_of_prober {g : Gate} {c : Caller} (h : g.prober? = some c) : g.hold = .probing := by
  unfold prober? at h
  split at h
  · assumption
  · cases h

namespace Limits

variable {s u : Limits} {now : Instant} {c : Option Caller} {d : Caller} {i k : Nat} {r : Report} {a : Act} {t : Ticket}
  {e : Event} {change : Window.Change} {acts acts' rest : List Act}

/-! ### Names -/

/-- Buckets stay, and keep the routes they were made for and the names they go by. -/
structure Extends (s u : Limits) : Prop where
  keys : s.buckets.map (·.key) <+: u.buckets.map (·.key)
  shared : ∀ name i, s.shared.get? name = some i → u.shared.get? name = some i

theorem Extends.of_eq (hk : u.buckets.map (·.key) = s.buckets.map (·.key)) (hs : u.shared = s.shared) : Extends s u :=
  ⟨hk ▸ List.prefix_refl _, fun _ _ h => hs ▸ h⟩

theorem Regated.extends (h : Regated s u) : Extends s u := .of_eq h.keys h.shared

theorem Extends.canonical? (h : Extends s u) (hc : s.canonical? i r = some k) : u.canonical? i r = some k := by
  obtain ⟨hash, hr, key, hkey, hk⟩ : ∃ hash, r.bucket = some hash ∧ ∃ key, s.buckets[i]?.map (·.key) = some key ∧
      s.shared.get? (sharedName hash key) = some k := by
    simpa only [Limits.canonical?, Option.bind_eq_bind, Option.bind_eq_some_iff] using hc
  have hkey' : u.buckets[i]?.map (·.key) = some key := by
    obtain ⟨more, hmore⟩ := h.keys
    rw [← List.getElem?_map] at hkey ⊢
    rw [← hmore, List.getElem?_append_left (List.getElem?_eq_some_iff.1 hkey).1, hkey]
  simp only [Limits.canonical?, hr, hkey', Option.bind_eq_bind, Option.bind_some]
  exact h.shared _ k hk

theorem Extends.lt_length (h : Extends s u) (hi : i < s.buckets.length) : i < u.buckets.length := by
  have hlength := h.keys.length_le
  simp only [List.length_map] at hlength
  omega

theorem extends_bucketFor (s : Limits) (key : RouteKey) : Extends s (s.bucketFor key).2 := by
  unfold bucketFor
  split
  · exact .of_eq rfl rfl
  · exact ⟨by simp, fun _ _ => id⟩

theorem extends_putBucket {b : Bucket} (hb : s.buckets[i]? = some b) (window : Window) (gate : Gate) :
    Extends s (s.putBucket i { b with window, gate }) := by
  have hbeside := beside_set hb { b with window, gate } rfl none
  rw [wake_none] at hbeside
  exact .of_eq hbeside.keys rfl

/-- Only folding gives a bucket a name, and one that has none yet. -/
theorem extends_fold (s : Limits) (now : Instant) (i : Nat) (r : Report) :
    Extends s (s.act now (.fold i r)).limits := by
  unfold act
  dsimp only
  split
  · rename_i hash b hr hb
    split
    · rename_i hname
      refine ⟨List.prefix_refl _, fun name k hk => ?_⟩
      have hne : name ≠ sharedName hash b.key := fun h => by
        rw [h, hname] at hk
        cases hk
      exact (Table.get?_put_ne _ _ hne).trans hk
    · split <;> exact .of_eq rfl rfl
  · exact .of_eq rfl rfl

theorem beside_write (s : Limits) (now : Instant) (i : Nat) (change : Window.Change) :
    Beside s (s.act now (.write i change)).limits :=
  beside_changeBucket (f := fun b => ({ b with window := b.window.change now change }, none)) fun _ => rfl

theorem extends_act (h : s.Allows a) (now : Instant) : Extends s (s.act now a).limits := by
  cases a with
  | start p =>
    obtain ⟨pending, tickets, heq⟩ := start_eq s now p
    rw [heq]
    exact .of_eq rfl rfl
  | seek p key => exact extends_bucketFor s key
  | join g p =>
    obtain ⟨pending, heq, -⟩ := join_eq s now g p
    have hextends := (regated_changeGate s g fun gate => (gate.join p.caller, none)).extends
    rw [heq]
    exact ⟨hextends.keys, hextends.shared⟩
  | resume g p =>
    unfold act
    dsimp only
    split
    · exact (regated_changeGate s g fun gate => ({ gate with hold := .turn }, none)).extends
    · exact .of_eq rfl rfl
  | look g p hasHeard =>
    cases g with
    | ceiling =>
      unfold act look
      dsimp only
      split <;> exact .of_eq rfl rfl
    | bucket i =>
      obtain ⟨b, hb, -⟩ := HasTurn.bucket (c := p.caller) h
      have hput := extends_putBucket hb
      rw [act_look_bucket hb]
      split
      · exact hput _ b.gate
      · exact ⟨(hput _ { b.gate with hold := .probing }).keys, fun _ _ => id⟩
      · exact hput _ b.gate
  | doze g p till hasHeard =>
    cases hasHeard with
    | true => exact .of_eq rfl rfl
    | false => exact (regated_changeGate s g fun gate => ({ gate with hold := .asleep till }, none)).extends
  | pass g p =>
    obtain ⟨pending, tickets, heq⟩ := pass_eq s now g p
    have hextends := (regated_changeGate s g (·.leave p.caller)).extends
    rw [heq]
    exact ⟨hextends.keys, hextends.shared⟩
  | write i change =>
    have hbeside := beside_write s now i change
    exact .of_eq hbeside.keys hbeside.shared
  | tell g => exact (regated_changeGate s g Gate.rouse).extends
  | fold i r => exact extends_fold s now i r
  | giveBack t =>
    let v : Limits := { s with tickets := s.tickets.filter (·.caller ≠ t.caller) }
    show Extends s (s.release t)
    unfold release
    dsimp only
    split
    · rename_i i _
      have hbeside : Beside v (v.changeBucket i (·.leave t.caller)) := beside_changeBucket fun _ => rfl
      exact .of_eq hbeside.keys hbeside.shared
    · exact .of_eq rfl rfl
  | quit p =>
    have hextends := (regated_changeGate { s with pending := s.pending.filter (·.caller ≠ p.caller) } p.stage
      (·.leave p.caller)).extends
    exact ⟨hextends.keys, hextends.shared⟩
  | listen | block | lead => exact .of_eq rfl rfl

/-! ### Tickets and probes -/

/-- A ticket for a bucket is given to whoever has its turn there. -/
theorem ticket_act (h : s.Allows a) (now : Instant) (ht : t ∈ (s.act now a).limits.tickets) :
    t ∈ s.tickets ∨ ∀ i, t.bucket = some i → s.HasTurn (.bucket i) t.caller := by
  have granted {p : Pending} {tickets : List Ticket} {bucket : Option Nat} (htickets : tickets = s.tickets)
      (ht : t ∈ tickets ++ [⟨p.caller, p.wanted, bucket⟩])
      (hbucket : ∀ i, bucket = some i → s.HasTurn (.bucket i) p.caller) :
      t ∈ s.tickets ∨ ∀ i, t.bucket = some i → s.HasTurn (.bucket i) t.caller := by
    subst htickets
    rcases List.mem_append.1 ht with ht | ht
    · exact .inl ht
    · cases List.mem_singleton.1 ht
      exact .inr hbucket
  cases a with
  | start p =>
    unfold act at ht
    dsimp only at ht
    split at ht
    · exact granted rfl ht nofun
    · exact .inl ht
    · exact .inl ht
    · exact .inl ht
  | seek p key => exact .inl ((bucketFor_frame s key).2.2.1 ▸ ht)
  | join g p =>
    obtain ⟨pending, heq, -⟩ := join_eq s now g p
    rw [heq] at ht
    exact .inl ((regated_changeGate s g fun gate => (gate.join p.caller, none)).tickets ▸ ht)
  | resume g p =>
    unfold act at ht
    dsimp only at ht
    split at ht
    · exact .inl ((regated_changeGate s g fun gate => ({ gate with hold := .turn }, none)).tickets ▸ ht)
    · exact .inl ht
  | look g p hasHeard =>
    have hturn : s.HasTurn g p.caller := h
    cases g with
    | ceiling =>
      unfold act look at ht
      dsimp only at ht
      split at ht <;> exact .inl ht
    | bucket i =>
      obtain ⟨b, hb, -⟩ := hturn.bucket
      rw [act_look_bucket hb] at ht
      split at ht
      · exact .inl ht
      · exact granted rfl ht fun j hj => Option.some.inj hj ▸ hturn
      · exact .inl ht
  | doze g p till hasHeard =>
    cases hasHeard with
    | true => exact .inl ht
    | false => exact .inl ((regated_changeGate s g fun gate => ({ gate with hold := .asleep till }, none)).tickets ▸ ht)
  | pass g p =>
    have hturn : s.HasTurn g p.caller := h
    have htickets := (regated_changeGate s g (·.leave p.caller)).tickets
    unfold act at ht
    dsimp only at ht
    split at ht
    · exact granted htickets ht nofun
    · exact .inl (htickets ▸ ht)
    · exact granted htickets ht fun j hj => Option.some.inj hj ▸ hturn
  | write i change =>
    exact .inl ((beside_write s now i change).tickets ▸ ht)
  | tell g => exact .inl ((regated_changeGate s g Gate.rouse).tickets ▸ ht)
  | fold i r =>
    obtain ⟨shared, heq⟩ := fold_eq s now i r
    rw [heq] at ht
    exact .inl ht
  | giveBack t' =>
    obtain ⟨-, -, -, htickets⟩ := release_frame s t'
    have ht : t ∈ (s.release t').tickets := ht
    rw [htickets] at ht
    exact .inl (List.mem_filter.1 ht).1
  | quit p =>
    have htickets := (regated_changeGate { s with pending := s.pending.filter (·.caller ≠ p.caller) } p.stage
      (·.leave p.caller)).tickets
    exact .inl (htickets ▸ ht)
  | listen | block | lead => exact .inl ht

/-- Where a probe is out it is nobody's turn. -/
theorem HasTurn.not_prober {c : Caller} (h : s.HasTurn (.bucket i) d) : (s.site i).gate.prober? ≠ some c := fun hp => by
  cases h.hold.symm.trans (Gate.hold_of_prober hp)

/-- A probe keeps its gate, whatever act of anybody comes next, until its ticket is given back. -/
theorem prober_act (h : Suits s c (a :: rest)) (ho : Orderly s) (now : Instant)
    (hp : (s.site i).gate.prober? = some d) :
    ((s.act now a).limits.site i).gate.prober? = some d ∨ ∃ t, a = .giveBack t ∧ t.caller = d ∧ t.bucket = some i := by
  have hgate : (s.gateAt (.bucket i)).prober? = some d := hp
  have kept {u : Limits} (hu : u.gateAt (.bucket i) = s.gateAt (.bucket i)) : (u.site i).gate.prober? = some d :=
    (congrArg Gate.prober? hu).trans hgate
  have changed {g : Stage} {f : Gate → Gate × Option Caller}
      (hf : g = .bucket i → (f (s.gateAt g)).1.prober? = some d) :
      ((s.changeGate g f).gateAt (.bucket i)).prober? = some d := by
    rcases changeGate_cases s g f with ⟨heq, -⟩ | ⟨heq, -⟩
    · rw [heq]
      exact hgate
    · rw [heq]
      split
      · rename_i hg
        exact hf hg.symm
      · exact hgate
  cases a with
  | start p =>
    obtain ⟨pending, tickets, heq⟩ := start_eq s now p
    exact .inl (kept (by rw [heq]; rfl))
  | seek p key => exact .inl (kept (gateAt_bucketFor s key _))
  | join g p =>
    obtain ⟨pending, heq, -⟩ := join_eq s now g p
    rw [heq]
    refine .inl (changed (f := fun gate => (gate.join p.caller, none)) ?_)
    rintro rfl
    exact Gate.prober?_join.trans hgate
  | resume g p =>
    refine .inl ?_
    unfold act
    dsimp only
    split
    · rename_i hup
      refine changed (f := fun gate => ({ gate with hold := .turn }, none)) ?_
      rintro rfl
      -- a probe does not look again
      simp [gate_eq, Gate.isUp, Gate.hold_of_prober hgate] at hup
    · exact hp
  | look g p hasHeard =>
    have hturn : s.HasTurn g p.caller := h.allows_head
    cases g with
    | ceiling =>
      unfold act look
      dsimp only
      split <;> exact .inl hp
    | bucket j =>
      obtain ⟨b, hb, -⟩ := hturn.bucket
      have hij : Stage.bucket i ≠ .bucket j := fun hij => by
        rw [← hij] at hturn
        exact hturn.not_prober hp
      have hput (window : Window) (gate : Gate) : ((s.putBucket j { b with window, gate }).site i).gate.prober? = some d :=
        kept (by rw [gateAt_putBucket hb, if_neg hij])
      rw [act_look_bucket hb]
      split <;> exact .inl (hput ..)
  | doze g p till hasHeard =>
    have hturn : s.HasTurn g p.caller := h.allows_head
    cases hasHeard with
    | true => exact .inl hp
    | false =>
      refine .inl (changed (f := fun gate => ({ gate with hold := .asleep till }, none)) ?_)
      rintro rfl
      exact absurd hp hturn.not_prober
  | pass g p =>
    have hturn : s.HasTurn g p.caller := h.allows_head
    obtain ⟨pending, tickets, heq⟩ := pass_eq s now g p
    rw [heq]
    refine .inl (changed (f := (·.leave p.caller)) ?_)
    rintro rfl
    exact absurd hp hturn.not_prober
  | write i change => exact .inl (kept (gateAt_changeWindow s i (·.change now change) _))
  | tell g =>
    refine .inl (changed (f := Gate.rouse) ?_)
    rintro rfl
    exact Gate.prober?_rouse.trans hgate
  | fold j r =>
    obtain ⟨shared, heq⟩ := fold_eq s now j r
    rw [heq]
    exact .inl hp
  | giveBack t =>
    have hrelease := gateAt_release s t (.bucket i)
    by_cases hb : t.bucket.map .bucket = some (Stage.bucket i)
    · rw [if_pos hb] at hrelease
      by_cases hd : t.caller = d
      · exact .inr ⟨t, rfl, hd, by simpa using hb⟩
      · refine .inl ((congrArg Gate.prober? hrelease).trans ?_)
        rw [Gate.prober?_leave, hgate, if_neg (by simpa using Ne.symm hd)]
    · rw [if_neg hb] at hrelease
      exact .inl (kept hrelease)
  | quit p =>
    have hentries : s.entries p.caller = (none, some p) := h.allows_head
    have hpd : p.caller ≠ d := fun hpd => by
      -- a probe has its ticket
      obtain ⟨j, -, hplace⟩ := ho.probing (.bucket i) d hgate
      rw [← hpd, waits_of_entries hentries] at hplace
      cases hplace
    let v : Limits := { s with pending := s.pending.filter (·.caller ≠ p.caller) }
    have hquit : (s.act now (.quit p)).limits.gateAt (.bucket i) = _ :=
      gateAt_changeGate (f := (·.leave p.caller)) rfl v p.stage (.bucket i)
    refine .inl ((congrArg Gate.prober? hquit).trans ?_)
    split
    · rename_i hg
      rw [← hg, Gate.prober?_leave]
      have hv : (v.gateAt (.bucket i)).prober? = some d := hgate
      rw [hv, if_neg (by simpa using Ne.symm hpd)]
    · exact hgate
  | listen | block | lead => exact .inl hp

/-! ### What is written before -/

/-- The bucket that a response is folded onto has been told by acts of what it says, unless that is its own. -/
def Informed (s : Limits) (i : Nat) (r : Report) (acts : List Act) : Prop :=
  r.bucket = none ∨ ∃ k, s.canonical? i r = some k ∧ (k ≠ i → .write k (.record r) ∈ acts)

/-- A job that gives a ticket back does so for an event that ends what its caller holds, and what a response has
the ticket's bucket take over it has written there, or is to write first. So it is with the bucket that the route is
folded onto, as soon as that has been found. -/
def Honours (s : Limits) (j : Job) : Prop :=
  ∀ e ∈ j.event, ∀ t i, .giveBack t ∈ j.acts → t.bucket = some i →
    e.returns t.caller ∧ ∀ r change, e.change? = some (r, change) →
      .write i change ∈ j.done ++ j.acts ∧ (.fold i r ∈ j.acts ∨ s.Informed i r (j.done ++ j.acts))

theorem Informed.mono (h : s.Informed i r acts) (hx : Extends s u) (hsub : ∀ k, .write k (.record r) ∈ acts →
    .write k (.record r) ∈ acts') : u.Informed i r acts' :=
  h.imp_right fun ⟨k, hk, hwrite⟩ => ⟨k, hx.canonical? hk, fun hki => hsub k (hwrite hki)⟩

/-- Folding finds the bucket that is to be told, which is then told next. -/
theorem informed_fold (hi : i < s.buckets.length) (now : Instant) (r : Report) :
    (s.act now (.fold i r)).limits.Informed i r (s.act now (.fold i r)).next := by
  have hb := List.getElem?_eq_getElem hi
  cases hr : r.bucket with
  | none => exact .inl hr
  | some hash =>
    refine .inr ?_
    cases hk : s.shared.get? (sharedName hash s.buckets[i].key) with
    | none => exact ⟨i, by simp [act, canonical?, hr, hb, hk, Table.get?_put_self], fun h => absurd rfl h⟩
    | some k =>
      refine ⟨k, ?_, fun hki => ?_⟩
      · unfold act
        simp only [hr, hb, hk]
        split <;> simp [canonical?, hr, hb, hk]
      · simp [act, hr, hb, hk, hki]

/-- Nothing that is done for all gives a ticket back. -/
theorem giveBack_eq {t' : Ticket} (hacts : ∀ a ∈ acts, a.caller? = none) (h : .giveBack t ∈ acts ++ [.giveBack t']) :
    t = t' := by
  rcases List.mem_append.1 h with h | h
  · cases hacts _ h
  · simpa using h

theorem mem_takeOver (hb : t.bucket = some i) (r : Report) :
    .write i (.record r) ∈ takeOver t r ∧ .fold i r ∈ takeOver t r := by
  simp [takeOver, hb]

theorem mem_takeOverRefusal {c : Caller} {body : Option Refusal} {r' : Report} (hb : t.bucket = some i)
    (he : (Event.refuse c r body).change? = some (r', change)) :
    .write i change ∈ takeOverRefusal t r body ∧ .fold i r' ∈ takeOverRefusal t r body := by
  simp only [Event.change?] at he
  cases hg : isGlobalRefusal r body with
  | false =>
    simp only [hg, Bool.false_eq_true, if_false, Option.some.injEq, Prod.mk.injEq] at he
    obtain ⟨rfl, rfl⟩ := he
    simp [takeOverRefusal, hg, hb]
  | true =>
    simp only [hg, if_true] at he
    split at he
    · rename_i htracked
      cases he
      have hmem := mem_takeOver hb r
      simp [takeOverRefusal, hg, htracked, hmem]
    · cases he

/-- What is begun with a response is to write what the response says before it gives the ticket back. -/
theorem honours_program (s : Limits) (e : Event) : s.Honours { event := some e, acts := s.program e } := by
  intro e' he t i hgive hb
  cases he
  have hreturns : e.returns t.caller := by
    rcases mem_program hgive with h | ⟨_, h⟩ | ⟨_, h⟩ | ⟨_, h, hreturns⟩ | ⟨_, h, -⟩ <;> cases h
    exact hreturns
  refine ⟨hreturns, fun r change hchange => ?_⟩
  rcases hreturns with rfl | ⟨r', rfl⟩ | ⟨r', body, rfl⟩
  · cases hchange
  · cases hchange
    simp only [program] at hgive ⊢
    split at hgive
    · obtain rfl := giveBack_eq (fun _ => caller?_of_mem_takeOver) hgive
      have hmem := mem_takeOver hb r
      simp [hmem]
    · cases hgive
  · simp only [program] at hgive ⊢
    split at hgive
    · obtain rfl := giveBack_eq (fun _ => caller?_of_mem_takeOverRefusal) hgive
      have hmem := mem_takeOverRefusal hb hchange
      simp [hmem]
    · cases hgive

theorem Honours.mono {j : Job} (h : s.Honours j) (hx : Extends s u) : u.Honours j := by
  intro e he t i hgive hb
  obtain ⟨hreturns, hwrites⟩ := h e he t i hgive hb
  refine ⟨hreturns, fun r change hchange => ?_⟩
  obtain ⟨hwrite, hfold⟩ := hwrites r change hchange
  exact ⟨hwrite, hfold.imp_right fun hinformed => hinformed.mono hx fun _ => id⟩

/-- What is heard of others is of no matter to what a job has written. -/
theorem Honours.after {j : Job} (h : s.Honours j) (a : Act) : s.Honours (j.after a) := by
  have kept {k : Nat} {change : Window.Change} (hmem : .write k change ∈ j.done ++ j.acts) :
      .write k change ∈ j.done ++ j.acts.map (·.after a) :=
    (List.mem_append.1 hmem).elim (List.mem_append_left _) fun hmem =>
      List.mem_append_right _ ((Act.mem_map_after (b := .write k change) trivial a).2 hmem)
  intro e he t i hgive hb
  obtain ⟨hreturns, hwrites⟩ := h e he t i ((Act.mem_map_after (b := .giveBack t) trivial a).1 hgive) hb
  refine ⟨hreturns, fun r change hchange => ?_⟩
  obtain ⟨hwrite, hfold⟩ := hwrites r change hchange
  refine ⟨kept hwrite, hfold.imp ?_ fun hinformed => hinformed.mono (.of_eq rfl rfl) fun k => kept⟩
  exact (Act.mem_map_after (b := .fold i r) trivial a).2

/-- The next act of a job leaves it at what it has written, and is to write. -/
theorem Honours.act {event : Option Event} {done : List Act} (h : s.Honours ⟨event, a :: rest, done⟩)
    (hx : Extends s (s.act now a).limits)
    (hknown : ∀ t i, .giveBack t ∈ a :: rest → t.bucket = some i → i < s.buckets.length) :
    (s.act now a).limits.Honours ⟨event, (s.act now a).next ++ rest, done ++ [a]⟩ := by
  have kept {b : Act} (hmem : b ∈ done ++ a :: rest) : b ∈ done ++ [a] ++ ((s.act now a).next ++ rest) := by
    simp only [List.mem_append, List.mem_cons, List.not_mem_nil, or_false] at hmem ⊢
    rcases hmem with hmem | hmem | hmem
    · exact .inl (.inl hmem)
    · exact .inl (.inr hmem)
    · exact .inr (.inr hmem)
  intro e he t i hgive hb
  have hgive : .giveBack t ∈ a :: rest :=
    List.mem_cons_of_mem _ ((List.mem_append.1 hgive).resolve_left leadsTo_of_mem_next)
  obtain ⟨hreturns, hwrites⟩ := h e he t i hgive hb
  refine ⟨hreturns, fun r change hchange => ?_⟩
  obtain ⟨hwrite, hfold⟩ := hwrites r change hchange
  refine ⟨kept hwrite, ?_⟩
  rcases hfold with hfold | hinformed
  · rcases List.mem_cons.1 hfold with rfl | hrest
    · refine .inr ((informed_fold (hknown t i hgive hb) now r).mono (.of_eq rfl rfl) fun k hk => ?_)
      exact List.mem_append_right _ (List.mem_append_left _ hk)
    · exact .inl (List.mem_append_right _ hrest)
  · exact .inr (hinformed.mono hx fun k => kept)

/-- What a response has the bucket of its ticket take over has been written there by acts, and the response to the
bucket that the route is folded onto. -/
structure Written (s : Limits) (i : Nat) (r : Report) (change : Window.Change) (acts : List Act) : Prop where
  own : .write i change ∈ acts
  canonical : ∀ k, s.canonical? i r = some k → k ≠ i → .write k (.record r) ∈ acts

/-- Where nothing is left but to give the ticket back, everything has been written. -/
theorem Written.of_done {done : List Act} (h : .write i change ∈ done ++ [.giveBack t] ∧
    (.fold i r ∈ [Act.giveBack t] ∨ s.Informed i r (done ++ [.giveBack t]))) : s.Written i r change done := by
  have written {k : Nat} {change : Window.Change} (hmem : .write k change ∈ done ++ [.giveBack t]) :
      .write k change ∈ done := by simpa using hmem
  obtain ⟨hwrite, hfold⟩ := h
  refine ⟨written hwrite, fun k hk hki => ?_⟩
  rcases hfold with hfold | hnone | ⟨k', hk', hwrite'⟩
  · simp at hfold
  · simp [canonical?, hnone] at hk
  · cases hk.symm.trans hk'
    exact written (hwrite' hki)

end Limits

namespace Machine

variable {m m' : Machine} {now : Instant} {limit n i : Nat} {e : Event} {c : Caller} {event : Option Event} {a b : Act}
  {rest done : List Act}

/-- Tickets are for buckets that are there, and every job writes what it is to write before it gives one back. -/
structure Honest (m : Machine) : Prop where
  sound : m.Sound
  known : ∀ t ∈ m.limits.tickets, ∀ i, t.bucket = some i → i < m.limits.buckets.length
  honours : ∀ j ∈ m.jobs, m.limits.Honours j

theorem Honest.goOn (h : m.Honest) (now : Instant) (n : Nat) : (m.goOn now n).Honest := by
  rcases goOn_cases m now n with hsame | ⟨event, a, rest, done, hj⟩
  · rwa [hsame]
  have hmem := List.mem_of_getElem? hj
  have hsuits := h.sound.suits _ hmem
  have hextends := Limits.extends_act hsuits.allows_head now
  have hlimits : (m.goOn now n).limits = (m.limits.act now a).limits := by rw [goOn_of_cons hj]
  refine ⟨h.sound.goOn now n, fun t ht i hb => ?_, fun j' hj' => ?_⟩
  · rw [hlimits] at ht ⊢
    refine hextends.lt_length ?_
    rcases Limits.ticket_act hsuits.allows_head now ht with ht | hturn
    · exact h.known t ht i hb
    · obtain ⟨b, hbucket, -⟩ := (hturn i hb).bucket
      exact (List.getElem?_eq_some_iff.1 hbucket).1
  · obtain ⟨k, hk⟩ := List.mem_iff_getElem?.1 hj'
    rw [hlimits]
    rcases job_goOn hj hk with ⟨rfl, rfl⟩ | ⟨-, j, hjk, rfl⟩
    · refine (Limits.Honours.act (h.honours _ hmem) hextends fun t i hgive hb => ?_).after a
      have hticket : m.limits.ticket? t.caller = some t := (hsuits.allows hgive rfl).2
      exact h.known t (List.mem_of_find?_eq_some hticket) i hb
    · exact ((h.honours j (List.mem_of_getElem? hjk)).mono hextends).after a

/-- What is begun is to write first, too. -/
theorem Honest.begin (h : m.Honest) {s : Limits} {j : Job} (hs : Sound { limits := s, jobs := m.jobs ++ [j] })
    (ht : s.tickets = m.limits.tickets) (hb : s.buckets = m.limits.buckets) (hshared : s.shared = m.limits.shared)
    (hj : s.Honours j) : Honest { limits := s, jobs := m.jobs ++ [j] } := by
  refine ⟨hs, fun t hmem i hbucket => ?_, fun k hk => ?_⟩
  · rw [hb]
    exact h.known t (ht ▸ hmem) i hbucket
  · rcases List.mem_append.1 hk with hk | hk
    · exact (h.honours k hk).mono (.of_eq (by rw [hb]) hshared)
    · exact List.mem_singleton.1 hk ▸ hj

theorem Honest.step (h : m.Honest) (hs : m.Step now m') : m'.Honest := by
  have hsound := h.sound.step hs
  cases hs with
  | happens e free =>
    have hprogram := Limits.honours_program m.limits e
    unfold Machine.happen at hsound ⊢
    cases e with
    | poll c => exact h.begin hsound rfl rfl rfl (hprogram.mono (.of_eq rfl rfl))
    | arrive | record | refuse | withdraw | block => exact h.begin hsound rfl rfl rfl hprogram
  | strikes i change => exact h.begin hsound rfl rfl rfl nofun
  | goesOn n => exact h.goOn now n

theorem Reachable.honest (h : Reachable limit m) : m.Honest := by
  induction h with
  | start => exact ⟨Reachable.start.sound, nofun, nofun⟩
  | step _ hs ih => exact ih.step hs

/-- Who is let through where nothing is known of the window probes, and keeps the gate. -/
theorem Sound.prober_of_look (h : m.Sound) {p : Pending} {hasHeard : Bool}
    (hj : m.jobs[n]? = some ⟨event, .look (.bucket i) p hasHeard :: rest, done⟩)
    (hw : ((m.limits.site i).window.reserve now).2 = .proceed true) :
    ((m.goOn now n).limits.site i).gate.prober? = some p.caller ∧
      ⟨p.caller, p.wanted, some i⟩ ∈ (m.goOn now n).limits.tickets := by
  have hturn : m.limits.HasTurn (.bucket i) p.caller := (h.suits _ (List.mem_of_getElem? hj)).allows_head
  obtain ⟨b, hb, hgate⟩ := hturn.bucket
  rw [Limits.site_of_some hb] at hw
  rw [goOn_of_cons hj, Limits.act_look_bucket hb]
  cases hr : b.window.reserve now with
  | mk window slot =>
    have hslot : slot = .proceed true := by simpa [hr] using hw
    subst hslot
    have hput := Limits.gateAt_putBucket hb window { b.gate with hold := .probing } (.bucket i)
    rw [if_pos rfl] at hput
    refine ⟨(congrArg Gate.prober? hput).trans ?_, List.mem_append_right _ (by simp)⟩
    have howner := hturn.owner
    rw [hgate] at howner
    exact howner

/-- Whatever comes next while a probe is out, it keeps its gate and nobody is let through there, unless its own
ticket is given back. By then all that is to be written has been. -/
theorem Honest.prober_step (h : m.Honest) (hp : (m.limits.site i).gate.prober? = some c) (hs : m.Step now m') :
    ((m'.limits.site i).gate.prober? = some c ∧
      ∀ t ∈ m'.limits.tickets, t.bucket = some i → t ∈ m.limits.tickets) ∨
    ∃ n e t done, m.jobs[n]? = some ⟨some e, [.giveBack t], done⟩ ∧ m' = m.goOn now n ∧ t.caller = c ∧
      t.bucket = some i ∧ e.returns c ∧
      ∀ r change, e.change? = some (r, change) → m.limits.Written i r change done := by
  cases hs with
  | happens e free =>
    refine .inl ⟨?_, fun t ht _ => ?_⟩
    · unfold Machine.happen
      cases e <;> exact hp
    · unfold Machine.happen at ht
      cases e <;> exact ht
  | strikes j change => exact .inl ⟨hp, fun t ht _ => ht⟩
  | goesOn n =>
    rcases goOn_cases m now n with hsame | ⟨event, a, rest, done, hj⟩
    · rw [hsame]
      exact .inl ⟨hp, fun t ht _ => ht⟩
    have hmem := List.mem_of_getElem? hj
    have hsuits := h.sound.suits _ hmem
    rcases Limits.prober_act hsuits h.sound.orderly now hp with hkept | ⟨t, rfl, hc, hb⟩
    · rw [goOn_of_cons hj]
      refine .inl ⟨hkept, fun t ht hb => ?_⟩
      exact (Limits.ticket_act hsuits.allows_head now ht).resolve_right fun hturn => (hturn i hb).not_prober hp
    · refine .inr ?_
      obtain rfl := hsuits.rest_eq_nil rfl
      obtain ⟨hcaller, -⟩ := hsuits.allows List.mem_cons_self rfl
      obtain ⟨e, rfl, -⟩ := Option.bind_eq_some_iff.1 hcaller
      obtain ⟨hreturns, hwrites⟩ := h.honours _ hmem e rfl t i List.mem_cons_self hb
      refine ⟨n, e, t, done, hj, rfl, hc, hb, hc ▸ hreturns, fun r change hchange => ?_⟩
      exact .of_done (hwrites r change hchange)

end Machine

end ChatApi.Limit
