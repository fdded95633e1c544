import ChatApi.Proofs.Limit.Touch

/-!
# Where callers are

A caller waits at a gate or holds a ticket, and `Limits.place?` says which. The gates say so too: their
lines hold those who wait, and the probe that keeps one closed. `Orderly` says that the gates are
right. Every event keeps it (`orderly_step`), so it holds whatever happens to the limits of a new
client (`orderly_run`).
-/

namespace ChatApi.Limit

/-- Where a caller is. -/
inductive Place
  | waits (stage : Stage)
  | holds (bucket : Option Nat)
  deriving DecidableEq

namespace Limits

def place? (s : Limits) (c : Caller) : Option Place :=
  match s.ticket? c with
  | some t => some (.holds t.bucket)
  | none => (s.pending.find? (·.caller = c)).map fun p => .waits p.stage

def gateAt (s : Limits) : Stage → Gate
  | .ceiling => s.ceilingGate
  | .bucket i => (s.site i).gate

/-- Whoever waits at a gate waits there only, and whoever keeps one closed holds a ticket for it. -/
structure Orderly (s : Limits) : Prop where
  nodup : ∀ g, (s.gateAt g).waiting.Nodup
  waiting : ∀ g, ∀ c ∈ (s.gateAt g).waiting, s.place? c = some (.waits g)
  probing : ∀ g, ∀ c ∈ (s.gateAt g).prober?, ∃ i, g = .bucket i ∧ s.place? c = some (.holds (some i))

/-- A caller that is in no line. -/
def InNoLine (s : Limits) (c : Caller) : Prop :=
  ∀ g, c ∉ (s.gateAt g).waiting ∧ c ∉ (s.gateAt g).prober?

variable {s u : Limits} {now : Instant} {c d : Caller} {p : Pending} {i : Nat}

/-! ### Places -/

theorem place?_of_ticket {t : Ticket} (h : s.ticket? c = some t) : s.place? c = some (.holds t.bucket) := by
  simp [place?, h]

theorem ticket?_of_waits {g : Stage} (h : s.place? c = some (.waits g)) : s.ticket? c = none := by
  unfold place? at h
  split at h
  · cases h
  · assumption

theorem place?_congr (hp : u.pending = s.pending) (ht : u.tickets = s.tickets) : u.place? c = s.place? c := by
  simp [place?, ticket?, hp, ht]

theorem find?_filter_ne {α : Type} (caller : α → Caller) (l : List α) (h : d ≠ c) :
    (l.filter (caller · ≠ c)).find? (caller · = d) = l.find? (caller · = d) := by
  rw [List.find?_filter]
  congr 1
  funext q
  by_cases hq : caller q = d
  · simp [hq, h]
  · simp [hq]

theorem find?_filter_self {α : Type} (caller : α → Caller) (l : List α) (c : Caller) :
    (l.filter (caller · ≠ c)).find? (caller · = c) = none :=
  List.find?_eq_none.2 fun q hq he => by simpa [of_decide_eq_true he] using (List.mem_filter.1 hq).2

theorem place?_grant (bucket : Option Nat) (hn : s.ticket? p.caller = none) (d : Caller) :
    (s.grant p bucket).place? d = if d = p.caller then some (.holds bucket) else s.place? d := by
  have ht : (s.grant p bucket).ticket? d =
      (s.ticket? d).or (if p.caller = d then some ⟨p.caller, p.wanted, bucket⟩ else none) := by
    simp only [ticket?, grant, List.find?_append, List.find?_singleton]
    simp
  by_cases hd : d = p.caller
  · subst hd
    rw [if_pos rfl, place?, ht, hn]
    simp
  · rw [if_neg hd, place?, place?, ht, if_neg (Ne.symm hd), Option.or_none]
    simp only [grant, find?_filter_ne Pending.caller s.pending hd]

theorem ticket?_release_ne (t : Ticket) (h : d ≠ t.caller) : (s.release t).ticket? d = s.ticket? d := by
  obtain ⟨-, -, -, ht⟩ := release_frame s t
  rw [ticket?, ht, find?_filter_ne Ticket.caller s.tickets h, ticket?]

theorem place?_release (t : Ticket) (h : d ≠ t.caller) : (s.release t).place? d = s.place? d := by
  obtain ⟨-, -, hp, -⟩ := release_frame s t
  simp only [place?, ticket?_release_ne t h, hp]

@[simp] theorem caller_goTo (q : Pending) (c : Caller) (i : Nat) : (q.goTo c i).caller = q.caller := by
  unfold Pending.goTo; split <;> rfl

theorem find?_goTo (l : List Pending) (c : Caller) (i : Nat) (d : Caller) :
    (l.map (·.goTo c i)).find? (·.caller = d) = (l.find? (·.caller = d)).map (·.goTo c i) := by
  rw [List.find?_map]
  congr 2
  funext q
  simp

theorem place?_goTo_ne (hp : u.pending = s.pending.map (·.goTo c i)) (ht : u.tickets = s.tickets)
    (h : d ≠ c) : u.place? d = s.place? d := by
  simp only [place?, ticket?, ht, hp, find?_goTo]
  split
  · rfl
  · cases hq : s.pending.find? (·.caller = d) with
    | none => rfl
    | some q =>
      have hd : q.caller = d := by simpa using List.find?_some hq
      simp [Pending.goTo, hd, h]

theorem place?_goTo_self {g : Stage} (hp : u.pending = s.pending.map (·.goTo c i))
    (ht : u.tickets = s.tickets) (h : s.place? c = some (.waits g)) :
    u.place? c = some (.waits (.bucket i)) := by
  have hn := ticket?_of_waits h
  simp only [place?, hn] at h
  have hn' : u.ticket? c = none := by rwa [ticket?, ht]
  simp only [place?, hn', hp, find?_goTo]
  cases hq : s.pending.find? (·.caller = c) with
  | none => simp [hq] at h
  | some q =>
    have hc : q.caller = c := by simpa using List.find?_some hq
    simp [Pending.goTo, hc]

/-! ### Orderly states -/

/-- The gates are right if they were, and one caller has changed its place in them as it did. -/
theorem Orderly.of_moved (h : Orderly s) (c : Caller)
    (hplace : ∀ d, d ≠ c → u.place? d = s.place? d)
    (hwait : ∀ g, ∀ d ∈ (u.gateAt g).waiting, d ≠ c → d ∈ (s.gateAt g).waiting)
    (hprobe : ∀ g, ∀ d ∈ (u.gateAt g).prober?, d ≠ c → d ∈ (s.gateAt g).prober?)
    (hnodup : ∀ g, (u.gateAt g).waiting.Nodup)
    (hw : ∀ g, c ∈ (u.gateAt g).waiting → u.place? c = some (.waits g))
    (hp : ∀ g, c ∈ (u.gateAt g).prober? → ∃ i, g = .bucket i ∧ u.place? c = some (.holds (some i))) :
    Orderly u := by
  refine ⟨hnodup, fun g d hd => ?_, fun g d hd => ?_⟩
  · by_cases hdc : d = c
    · subst hdc; exact hw g hd
    · rw [hplace d hdc]; exact h.waiting g d (hwait g d hd hdc)
  · by_cases hdc : d = c
    · subst hdc; exact hp g hd
    · rw [hplace d hdc]; exact h.probing g d (hprobe g d hd hdc)

/-- Nothing that leaves lines and places alone does harm. -/
theorem Orderly.congr (h : Orderly s) (hp : u.pending = s.pending) (ht : u.tickets = s.tickets)
    (hw : ∀ g, (u.gateAt g).waiting = (s.gateAt g).waiting)
    (hq : ∀ g, (u.gateAt g).prober? = (s.gateAt g).prober?) : Orderly u := by
  refine ⟨fun g => hw g ▸ h.nodup g, fun g c hc => ?_, fun g c hc => ?_⟩
  · rw [place?_congr hp ht]; exact h.waiting g c (hw g ▸ hc)
  · rw [place?_congr hp ht]; exact h.probing g c (hq g ▸ hc)

theorem gateAt_takeWoken (s : Limits) (g : Stage) : ({ s with woken := [] } : Limits).gateAt g = s.gateAt g := by
  cases g <;> rfl

/-- Once those are noted that were given a turn, the gates are as right as before. -/
theorem Orderly.takeWoken (h : Orderly s) : Orderly { s with woken := [] } :=
  h.congr rfl rfl (fun g => by rw [gateAt_takeWoken]) (fun g => by rw [gateAt_takeWoken])

/-- Gates know only those who are there by their place. -/
theorem Orderly.not_at (h : Orderly s) (g : Stage) (hw : s.place? c ≠ some (.waits g))
    (hp : ∀ i, g = .bucket i → s.place? c ≠ some (.holds (some i))) :
    c ∉ (s.gateAt g).waiting ∧ c ∉ (s.gateAt g).prober? := by
  refine ⟨fun hc => hw (h.waiting g c hc), fun hc => ?_⟩
  obtain ⟨i, hg, hi⟩ := h.probing g c hc
  exact hp i hg hi

/-- Who is in no line owns no gate. -/
theorem InNoLine.owner_ne (h : InNoLine s c) (g : Stage) : c ∉ (s.gateAt g).owner? := by
  intro hc
  have hmem : c ∈ (s.gateAt g).line := List.mem_of_head? hc
  rw [Gate.line_eq] at hmem
  rcases List.mem_append.1 hmem with hp | hw
  · exact (h g).2 (Option.mem_toList.1 hp)
  · exact (h g).1 hw

/-- The owner of a gate that it does not keep closed waits there. -/
theorem Orderly.waits_of_owner {g : Stage} (h : Orderly s) (ho : c ∈ (s.gateAt g).owner?)
    (hp : (s.gateAt g).hold ≠ .probing) : s.place? c = some (.waits g) := by
  refine h.waiting g c ?_
  rw [Gate.waiting, if_neg hp]
  exact List.mem_of_head? ho

/-- A caller that leaves every line it was in is in none, and the gates stay right. -/
theorem Orderly.of_left (h : Orderly s) (hplace : ∀ d, d ≠ c → u.place? d = s.place? d)
    (hgate : ∀ g, u.gateAt g = ((s.gateAt g).leave c).1 ∨
      u.gateAt g = s.gateAt g ∧ c ∉ (s.gateAt g).waiting ∧ c ∉ (s.gateAt g).prober?) :
    Orderly u ∧ InNoLine u c := by
  have hout : InNoLine u c := by
    intro g
    rcases hgate g with hg | ⟨hg, hc⟩
    · rw [hg, Gate.waiting_leave, Gate.prober?_leave]
      by_cases hp : (s.gateAt g).prober? = some c
      · -- a probe that leaves is not among those who wait behind it
        obtain ⟨i, -, hi⟩ := h.probing g c hp
        refine ⟨fun hc => ?_, by simp [hp]⟩
        rw [if_pos hp] at hc
        cases (h.waiting g c hc).symm.trans hi
      · rw [if_neg hp, if_neg hp]
        exact ⟨(h.nodup g).not_mem_erase, hp⟩
    · rw [hg]; exact hc
  refine ⟨?_, hout⟩
  refine h.of_moved c hplace (fun g d hd hne => ?_) (fun g d hd hne => ?_) (fun g => ?_)
    (fun g hc => absurd hc (hout g).1) (fun g hc => absurd hc (hout g).2)
  · rcases hgate g with hg | ⟨hg, -⟩
    · rw [hg, Gate.waiting_leave] at hd
      split at hd
      · exact hd
      · exact List.mem_of_mem_erase hd
    · rw [← hg]; exact hd
  · rcases hgate g with hg | ⟨hg, -⟩
    · rw [hg, Gate.prober?_leave] at hd
      split at hd
      · cases hd
      · exact hd
    · rw [← hg]; exact hd
  · rcases hgate g with hg | ⟨hg, -⟩
    · rw [hg, Gate.waiting_leave]
      split
      · exact h.nodup g
      · exact (h.nodup g).erase c
    · rw [hg]; exact h.nodup g

/-- The first of a line takes its ticket along; everybody else stays where they are. -/
theorem Orderly.of_let_through (h : Orderly s) {rest : List Caller} (i : Nat)
    (hwas : (s.gateAt (.bucket i)).waiting = c :: rest) (hwait : (u.gateAt (.bucket i)).waiting = rest)
    (hprobe : ∀ d ∈ (u.gateAt (.bucket i)).prober?, d = c)
    (hother : ∀ g, g ≠ .bucket i → u.gateAt g = s.gateAt g)
    (hplace : ∀ d, u.place? d = if d = c then some (.holds (some i)) else s.place? d) : Orderly u := by
  have hc : s.place? c = some (.waits (.bucket i)) :=
    h.waiting _ c (by rw [hwas]; exact List.mem_cons_self)
  obtain ⟨hnot, hnodup⟩ := List.nodup_cons.1 (hwas ▸ h.nodup (.bucket i))
  -- no other gate changes, and none knows the caller
  have hgate (g : Stage) : g = .bucket i ∨
      u.gateAt g = s.gateAt g ∧ c ∉ (s.gateAt g).waiting ∧ c ∉ (s.gateAt g).prober? := by
    by_cases hg : g = .bucket i
    · exact .inl hg
    · refine .inr ⟨hother g hg, h.not_at g ?_ (by simp [hc])⟩
      rw [hc]
      simpa using Ne.symm hg
  refine h.of_moved c (fun d hd => by rw [hplace, if_neg hd]) (fun g d hd hne => ?_)
    (fun g d hd hne => ?_) (fun g => ?_) (fun g hd => ?_) (fun g hd => ?_)
  · rcases hgate g with rfl | ⟨hg, -, -⟩
    · rw [hwas]
      exact List.mem_cons_of_mem _ (hwait ▸ hd)
    · rwa [← hg]
  · rcases hgate g with rfl | ⟨hg, -, -⟩
    · exact absurd (hprobe d hd) hne
    · rwa [← hg]
  · rcases hgate g with rfl | ⟨hg, -, -⟩
    · rwa [hwait]
    · rw [hg]
      exact h.nodup g
  · rcases hgate g with rfl | ⟨hg, hnw, -⟩
    · exact absurd (hwait ▸ hd) hnot
    · exact absurd (hg ▸ hd) hnw
  · rcases hgate g with rfl | ⟨hg, -, hnp⟩
    · exact ⟨i, rfl, by rw [hplace, if_pos rfl]⟩
    · exact absurd (hg ▸ hd) hnp

/-- A caller that looks keeps the gates right: it goes from those who wait to those with a ticket. -/
theorem orderly_pollBucket (h : Orderly s) (now : Instant) (p : Pending) (i : Nat) :
    Orderly (s.pollBucket now p i).1 := by
  obtain ⟨u, hu, hv⟩ := visited_pollBucket s now p i
  have hi : u.gateAt (.bucket i) = ((s.site i).look now p.caller).gate := by
    show (u.site i).gate = _
    rw [hv.site, if_pos rfl, Site.arrive_false]
  have hother (g : Stage) (hg : g ≠ .bucket i) : u.gateAt g = s.gateAt g := by
    cases g with
    | ceiling => exact hu.ceilingGate
    | bucket j =>
      have hj : j ≠ i := fun hj => hg (congrArg Stage.bucket hj)
      show (u.site j).gate = (s.site j).gate
      rw [hv.site, if_neg hj]
  cases hl : (s.site i).lets now p.caller with
  | false =>
    obtain ⟨turn, -, ho⟩ := hv.refused hl
    obtain ⟨hprobe, hwait⟩ := Site.look_of_not_lets hl
    rw [ho]
    refine h.congr hu.pending hu.tickets (fun g => ?_) (fun g => ?_)
    · by_cases hg : g = .bucket i
      · subst hg; rw [hi]; exact hwait
      · rw [hother g hg]
    · by_cases hg : g = .bucket i
      · subst hg; rw [hi]; exact hprobe
      · rw [hother g hg]
  | true =>
    obtain ⟨-, rest, hwas, hwait, hprobe⟩ := Site.look_of_lets hl
    have hn : u.ticket? p.caller = none := by
      have hfirst : p.caller ∈ (s.gateAt (.bucket i)).waiting := by
        show p.caller ∈ (s.site i).gate.waiting
        rw [hwas]; exact List.mem_cons_self
      have := ticket?_of_waits (h.waiting _ _ hfirst)
      rwa [ticket?, hu.tickets]
    rw [hv.granted hl]
    refine h.of_let_through i hwas ?_ (fun d hd => ?_) hother fun d => ?_
    · exact (congrArg Gate.waiting hi).trans hwait
    · have hd : d ∈ (u.gateAt (.bucket i)).prober? := hd
      rw [hi, hprobe] at hd
      split at hd
      · exact (Option.some.inj hd).symm
      · cases hd
    · rw [place?_grant (some i) hn, place?_congr hu.pending hu.tickets]

/-- A caller that gets in line at a gate, and was in none before, keeps the gates right. -/
theorem Orderly.of_joined (h : Orderly s) (hc : InNoLine s c) (g : Stage)
    (hplace : ∀ d, d ≠ c → u.place? d = s.place? d) (hself : u.place? c = some (.waits g))
    (hgate : ∀ g', (u.gateAt g').prober? = (s.gateAt g').prober? ∧
      ((u.gateAt g').waiting = (s.gateAt g').waiting ∨
        g' = g ∧ (u.gateAt g').waiting = (s.gateAt g').waiting ++ [c])) : Orderly u := by
  refine h.of_moved c hplace (fun g' d hd hne => ?_) (fun g' d hd _ => (hgate g').1 ▸ hd)
    (fun g' => ?_) (fun g' hd => ?_) (fun g' hd => ?_)
  · rcases (hgate g').2 with hw | ⟨-, hw⟩
    · exact hw ▸ hd
    · rw [hw] at hd
      exact (List.mem_append.1 hd).resolve_right fun hd => hne (List.mem_singleton.1 hd)
  · rcases (hgate g').2 with hw | ⟨-, hw⟩
    · exact hw ▸ h.nodup g'
    · rw [hw]
      refine List.nodup_append.2 ⟨h.nodup g', by simp, fun a ha b hb hab => ?_⟩
      rw [List.mem_singleton] at hb
      exact (hc g').1 (hb ▸ hab ▸ ha)
  · rcases (hgate g').2 with hw | ⟨rfl, -⟩
    · exact absurd (hw ▸ hd) (hc g').1
    · exact hself
  · exact absurd ((hgate g').1 ▸ hd) (hc g').2

/-- Getting in line at a bucket, out of no line, keeps the gates right. -/
theorem orderly_lineUp {g : Stage} (h : Orderly s) (hc : InNoLine s p.caller)
    (hg : s.place? p.caller = some (.waits g)) (key : RouteKey) : Orderly (s.lineUp p key).2 := by
  obtain ⟨isNew, hsite⟩ := site_lineUp s p key
  obtain ⟨-, hceiling, ht, hp⟩ := lineUp_frame s p key
  refine h.of_joined hc (.bucket (s.bucketFor key).1) (fun d hd => place?_goTo_ne hp ht hd)
    (place?_goTo_self hp ht hg) fun g' => ?_
  cases g' with
  | ceiling => simp [gateAt, hceiling]
  | bucket j =>
    simp only [gateAt, hsite]
    split
    · rename_i hj
      cases isNew with
      | false => exact ⟨rfl, .inl rfl⟩
      | true => exact ⟨Gate.prober?_join, .inr ⟨by rw [hj], Gate.waiting_join⟩⟩
    · exact ⟨rfl, .inl rfl⟩

theorem orderly_enterBucket {g : Stage} (h : Orderly s) (hc : InNoLine s p.caller)
    (hg : s.place? p.caller = some (.waits g)) (now : Instant) (key : RouteKey) :
    Orderly (s.enterBucket now p key).1 := by
  rw [enterBucket_eq]
  exact orderly_pollBucket (orderly_lineUp h hc hg key) now p _

/-- Who is in no line may be given a ticket that no gate knows of. -/
theorem orderly_grant (h : Orderly s) (hc : InNoLine s p.caller) (hn : s.ticket? p.caller = none)
    (bucket : Option Nat) : Orderly (s.grant p bucket) := by
  refine (h.of_left (u := s.grant p bucket) (c := p.caller) (fun d hd => ?_) fun g => .inr ⟨?_, hc g⟩).1
  · rw [place?_grant bucket hn, if_neg hd]
  · cases g <;> rfl

/-- The caller whose turn it is at a gate waits there. -/
theorem Orderly.waits_of_isUp {g : Stage} (h : Orderly s) (hu : (s.gateAt g).isUp c now) :
    s.place? c = some (.waits g) := by
  refine h.waiting g c ?_
  rw [(Gate.of_isUp hu).2.1]
  exact List.mem_cons_self

/-- Who has passed the gate of the account is in no line, before it goes on. -/
theorem orderly_passed (h : Orderly s) (hplace : s.place? c = some (.waits .ceiling)) (now : Instant) :
    Orderly (s.passed now c) ∧ InNoLine (s.passed now c) c := by
  refine h.of_left (fun d _ => place?_congr rfl rfl) fun g => ?_
  cases g with
  | ceiling => exact .inl rfl
  | bucket i => exact .inr ⟨rfl, h.not_at _ (by simp [hplace]) (by simp [hplace])⟩

/-- Passing the gate of the account keeps the gates right: its owner leaves it before going on. -/
theorem orderly_pollCeiling (h : Orderly s) (now : Instant) (p : Pending) :
    Orderly (s.pollCeiling now p).1 := by
  rcases pollCeiling_cases s now p with ho | ⟨hu, hcases⟩
  · rw [ho]; exact h
  have hplace := h.waits_of_isUp (g := .ceiling) hu
  have hplace' : (s.passed now p.caller).place? p.caller = some (.waits .ceiling) :=
    (place?_congr rfl rfl).trans hplace
  obtain ⟨hpassed, hout⟩ := orderly_passed h hplace now
  rcases hcases with ⟨till, -, ho⟩ | ⟨-, ⟨-, ho⟩ | ⟨key, scope, -, ho⟩⟩
  · obtain ⟨hprobe, hwait⟩ := Gate.asleep_of_isUp hu till
    rw [ho]
    refine h.congr rfl rfl (fun g => ?_) (fun g => ?_)
    · cases g with
      | ceiling => exact hwait
      | bucket i => rfl
    · cases g with
      | ceiling => exact hprobe
      | bucket i => rfl
  · rw [ho]
    exact orderly_grant hpassed hout (ticket?_of_waits hplace') none
  · rw [ho]
    exact orderly_enterBucket hpassed hout hplace' now key

theorem orderly_joinCeiling (h : Orderly s) (hc : InNoLine s c) (hp : s.place? c = some (.waits .ceiling)) :
    Orderly { s with ceilingGate := s.ceilingGate.join c } := by
  refine h.of_joined hc .ceiling (fun d _ => place?_congr rfl rfl) hp fun g => ?_
  cases g with
  | ceiling => exact ⟨Gate.prober?_join, .inr ⟨rfl, Gate.waiting_join⟩⟩
  | bucket i => exact ⟨rfl, .inl rfl⟩

theorem orderly_enterCeiling (h : Orderly s) (hc : InNoLine s p.caller)
    (hp : s.place? p.caller = some (.waits .ceiling)) (now : Instant) :
    Orderly (s.enterCeiling now p).1 :=
  orderly_pollCeiling (orderly_joinCeiling h hc hp) now p

/-! ### Events -/

theorem place?_eq_none (h : s.isBusy c = false) : s.place? c = none := by
  simp only [isBusy, Bool.or_eq_false_iff, Option.isSome_eq_false_iff, Option.isNone_iff_eq_none,
    List.any_eq_false, decide_eq_true_eq] at h
  simpa [place?, h.2] using h.1

theorem place?_arrive (hn : s.place? p.caller = none) (d : Caller) :
    ({ s with pending := s.pending ++ [p] } : Limits).place? d =
      if d = p.caller then some (.waits p.stage) else s.place? d := by
  have ht (d : Caller) : ({ s with pending := s.pending ++ [p] } : Limits).ticket? d = s.ticket? d := rfl
  have hfind : (s.pending ++ [p]).find? (·.caller = d) =
      (s.pending.find? (·.caller = d)).or (if p.caller = d then some p else none) := by
    simp [List.find?_append, List.find?_singleton]
  by_cases hd : d = p.caller
  · subst hd
    unfold place? at hn
    split at hn
    · cases hn
    · rename_i htn
      have hpn : s.pending.find? (·.caller = p.caller) = none := by simpa using hn
      simp [place?, ht, htn, hfind, hpn]
  · rw [if_neg hd, place?, place?, ht, hfind, if_neg (Ne.symm hd), Option.or_none]

/-- A caller that comes in is in no line yet. -/
theorem orderly_comeIn (h : Orderly s) (hb : s.isBusy c = false) (wanted : Wanted) :
    Orderly { s with pending := s.pending ++ [⟨c, wanted, .ceiling⟩] } ∧
      InNoLine { s with pending := s.pending ++ [⟨c, wanted, .ceiling⟩] } c ∧
      ({ s with pending := s.pending ++ [⟨c, wanted, .ceiling⟩] } : Limits).place? c = some (.waits .ceiling) := by
  have hn := place?_eq_none hb
  have hplace := place?_arrive (p := ⟨c, wanted, .ceiling⟩) hn
  obtain ⟨h', hc⟩ : Orderly { s with pending := s.pending ++ [⟨c, wanted, .ceiling⟩] } ∧
      InNoLine { s with pending := s.pending ++ [⟨c, wanted, .ceiling⟩] } c := by
    refine h.of_left (fun d hd => by rw [hplace, if_neg hd]) fun g => .inr ⟨?_, ?_⟩
    · cases g <;> rfl
    · exact h.not_at g (by simp [hn]) (by simp [hn])
  exact ⟨h', hc, by rw [hplace, if_pos rfl]⟩

theorem orderly_arrive (h : Orderly s) (hb : s.isBusy c = false) (now : Instant) (wanted : Wanted) :
    Orderly (s.arrive now c wanted).1 := by
  obtain ⟨h', hc, hself⟩ := orderly_comeIn h hb wanted
  unfold arrive
  dsimp only
  split
  · exact orderly_grant h' hc (ticket?_of_waits hself) none
  · exact orderly_enterBucket h' hc hself now _
  · exact orderly_enterCeiling h' hc hself now
  · exact orderly_enterCeiling h' hc hself now

theorem orderly_poll (h : Orderly s) (now : Instant) (c : Caller) : Orderly (s.poll now c).1 := by
  unfold poll
  split
  · exact h
  · split
    · exact orderly_pollCeiling h now _
    · exact orderly_pollBucket h now _ _

theorem gateAt_release (s : Limits) (t : Ticket) (g : Stage) :
    (s.release t).gateAt g =
      if t.bucket.map .bucket = some g then ((s.gateAt g).leave t.caller).1 else s.gateAt g := by
  cases g with
  | ceiling => simpa [gateAt] using (release_frame s t).2.1
  | bucket j =>
    have hj : t.bucket.map .bucket = some (Stage.bucket j) ↔ t.bucket = some j := by simp
    simp only [gateAt, site_release, hj]
    split <;> rfl

/-- Who gives its ticket back is in no line. -/
theorem left_release {t : Ticket} (h : Orderly s) (ht : s.ticket? t.caller = some t) :
    Orderly (s.release t) ∧ InNoLine (s.release t) t.caller := by
  have hplace := place?_of_ticket ht
  refine h.of_left (fun d hd => place?_release t hd) fun g => ?_
  rw [gateAt_release]
  by_cases hg : t.bucket.map .bucket = some g
  · exact .inl (if_pos hg)
  · refine .inr ⟨if_neg hg, h.not_at g (by simp [hplace]) fun i hi hi' => hg ?_⟩
    have hi' : t.bucket = some i := by simpa [hplace] using hi'
    rw [hi, hi']
    rfl

theorem orderly_release {t : Ticket} (h : Orderly s) (ht : s.ticket? t.caller = some t) :
    Orderly (s.release t) := (left_release h ht).1

/-- What is taken over from a response rouses sleepers, at most. -/
theorem gateAt_of_takes (hc : u.ceilingGate = s.ceilingGate ∨ u.ceilingGate = s.ceilingGate.rouse.1)
    (hs : ∀ i, Takes s now i u) (g : Stage) :
    u.gateAt g = s.gateAt g ∨ u.gateAt g = (s.gateAt g).rouse.1 := by
  cases g with
  | ceiling => exact hc
  | bucket i =>
    obtain ⟨op, -, hi⟩ := hs i
    simp only [gateAt, hi]
    cases op with
    | none => exact .inl rfl
    | some op => exact .inr rfl

theorem Orderly.of_roused (h : Orderly s) (now : Instant) (hp : u.pending = s.pending)
    (ht : u.tickets = s.tickets)
    (hg : u.ceilingGate = s.ceilingGate ∨ u.ceilingGate = s.ceilingGate.rouse.1)
    (hs : ∀ i, Takes s now i u) : Orderly u := by
  refine h.congr hp ht (fun g => ?_) (fun g => ?_)
  · rcases gateAt_of_takes hg hs g with hg | hg <;> simp [hg]
  · rcases gateAt_of_takes hg hs g with hg | hg <;> simp [hg]

theorem orderly_record {t : Ticket} (h : Orderly s) (ht : s.ticket? t.caller = some t) (now : Instant)
    (r : Report) : Orderly (s.record now t r) := by
  obtain ⟨-, hg, hp, htickets⟩ := recordBucket_frame s now t r
  have h' := h.of_roused now hp htickets (.inl hg) (takes_recordBucket s now t r)
  exact orderly_release h' (by rwa [ticket?, htickets])

theorem orderly_refuse {t : Ticket} (h : Orderly s) (ht : s.ticket? t.caller = some t) (now : Instant)
    (r : Report) (body : Option Refusal) : Orderly (s.refuse now t r body) := by
  obtain ⟨hg, hp, htickets⟩ := recordRefusal_frame s now t r body
  have h' := h.of_roused now hp htickets (hg.imp And.right And.right) (takes_recordRefusal s now t r body)
  exact orderly_release h' (by rwa [ticket?, htickets])

theorem gateAt_withdraw (ht : s.ticket? c = none) (hp : s.pending.find? (·.caller = c) = some p) (g : Stage) :
    (s.withdraw c).gateAt g = if p.stage = g then ((s.gateAt g).leave c).1 else s.gateAt g := by
  cases g with
  | ceiling => exact (withdraw_frame ht hp).2.1
  | bucket i =>
    simp only [gateAt, site_withdraw ht hp]
    split <;> rfl

/-- Who leaves is in no line, wherever it was. -/
theorem left_withdraw (h : Orderly s) (c : Caller) : Orderly (s.withdraw c) ∧ InNoLine (s.withdraw c) c := by
  cases ht : s.ticket? c with
  | some t =>
    have hc := caller_of_ticket? ht
    rw [withdraw_of_ticket ht]
    simpa only [hc] using left_release h (t := t) (by rwa [hc])
  | none =>
    cases hp : s.pending.find? (·.caller = c) with
    | none =>
      have hnone : s.place? c = none := by simp [place?, ht, hp]
      rw [withdraw_of_absent ht hp]
      exact ⟨h, fun g => h.not_at g (by simp [hnone]) (by simp [hnone])⟩
    | some p =>
      have hplace : s.place? c = some (.waits p.stage) := by simp [place?, ht, hp]
      obtain ⟨-, -, hpending, htickets⟩ := withdraw_frame ht hp
      refine h.of_left (fun d hd => ?_) fun g => ?_
      · simp only [place?, ticket?, hpending, htickets, find?_filter_ne Pending.caller s.pending hd]
      · rw [gateAt_withdraw ht hp]
        by_cases hg : p.stage = g
        · exact .inl (if_pos hg)
        · exact .inr ⟨if_neg hg, h.not_at g (by simpa [hplace] using hg) (by simp [hplace])⟩

theorem orderly_withdraw (h : Orderly s) (c : Caller) : Orderly (s.withdraw c) := (left_withdraw h c).1

theorem orderly_step (h : Orderly s) (now : Instant) (e : Event) : Orderly (s.step now e).1 := by
  rw [step_eq]
  cases e with
  | arrive c wanted =>
    simp only [leap]
    cases hb : s.isBusy c with
    | true => exact h
    | false => exact orderly_arrive h hb now wanted
  | poll c => exact orderly_poll h now c
  | record c r =>
    simp only [leap]
    split
    · rename_i t ht
      exact orderly_record h (by rwa [caller_of_ticket? ht]) now r
    · exact h
  | refuse c r body =>
    simp only [leap]
    split
    · rename_i t ht
      exact orderly_refuse h (by rwa [caller_of_ticket? ht]) now r body
    · exact h
  | withdraw c => exact orderly_withdraw h c
  | block wait => exact h.of_roused now rfl rfl (.inr rfl) fun i => .refl s now i

theorem orderly_run (limit : Nat) (es : List (Instant × Event)) : Orderly ((ofLimit limit).run es) := by
  have hstart : Orderly (ofLimit limit) := by
    have hgate (g : Stage) : (ofLimit limit).gateAt g = {} := by cases g <;> rfl
    refine ⟨fun g => ?_, fun g c hc => ?_, fun g c hc => ?_⟩
    · rw [hgate]; exact List.nodup_nil
    · rw [hgate] at hc; cases hc
    · rw [hgate] at hc; cases hc
  exact run_induction (P := Orderly) (fun s now e h => orderly_step h now e) hstart es

end Limits

end ChatApi.Limit
