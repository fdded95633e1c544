import ChatApi.Proofs.Limit.Fits

/-!
# Jobs side by side fit the limits

At each job that is under way, the limits are as its next act relies on, whatever others have done since the act
before: its own acts leave them so (`Suits.act`), and those of others spare its caller (`Suits.spared`). Whoever
writes to a budget tells of it next. So every state that a machine can come to is `Machine.Sound`.
-/

namespace ChatApi.Limit

namespace Limits

/-- What is still to be done of a job fits the limits. An act of its caller is the last, and what follows from it
comes in its place. Whoever changes a budget tells of it next. -/
inductive Suits (s : Limits) : Option Caller → List Act → Prop
  | done {c : Option Caller} : Suits s c []
  | own {c : Caller} {a : Act} (hc : a.caller? = some c) (allows : s.Allows a) : Suits s (some c) [a]
  | write {c : Option Caller} {rest : List Act} (i : Nat) (change : Window.Change) (h : Suits s c rest) :
    Suits s c (.write i change :: .tell (.bucket i) :: rest)
  | block {c : Option Caller} {rest : List Act} (wait : Span) (h : Suits s c rest) :
    Suits s c (.block wait :: .tell .ceiling :: rest)
  | tell {c : Option Caller} {rest : List Act} (g : Stage) (h : Suits s c rest) : Suits s c (.tell g :: rest)
  | fold {c : Option Caller} {rest : List Act} (i : Nat) (r : Report) (h : Suits s c rest) :
    Suits s c (.fold i r :: rest)
  | lead {c : Option Caller} {rest : List Act} (key : RouteKey) (i : Nat) (h : Suits s c rest) :
    Suits s c (.lead key i :: rest)

variable {s u : Limits} {now : Instant} {c : Option Caller} {d : Caller} {t : Ticket} {e : Event} {a b : Act}
  {acts rest : List Act}

/-! ### What is begun -/

theorem suits_takeOver (h : Suits s c rest) (t : Ticket) (r : Report) : Suits s c (takeOver t r ++ rest) := by
  unfold takeOver
  split
  · exact .write _ _ (.fold _ _ h)
  · exact h

theorem suits_takeOverRefusal (h : Suits s c rest) (t : Ticket) (r : Report) (body : Option Refusal) :
    Suits s c (takeOverRefusal t r body ++ rest) := by
  have htracked : Suits s c ((if r.isTracked then takeOver t r else []) ++ rest) := by
    split
    · exact suits_takeOver h t r
    · exact h
  unfold takeOverRefusal
  dsimp only
  split
  · split
    · exact .block _ htracked
    · exact htracked
  · split
    · exact .write _ _ (.fold _ _ h)
    · exact h

theorem suits_giveBack (ht : s.ticket? d = some t) : Suits s (some d) [.giveBack t] := by
  have hd := caller_of_ticket? ht
  exact .own (congrArg some hd) (by rwa [Allows, hd])

/-- What is to be done at an event fits the limits at which it happens. -/
theorem suits_program (s : Limits) (e : Event) : Suits s e.caller? (s.program e) := by
  cases e with
  | arrive c wanted =>
    simp only [program]
    cases hb : s.isBusy c with
    | true => exact .done
    | false => exact .own rfl ⟨entries_of_not_busy hb, rfl⟩
  | poll c =>
    simp only [program]
    split
    · exact .done
    · rename_i p hp
      exact .own (congrArg some (by simpa using List.find?_some hp)) trivial
  | record c r =>
    simp only [program]
    split
    · exact suits_takeOver (suits_giveBack ‹_›) ..
    · exact .done
  | refuse c r body =>
    simp only [program]
    split
    · exact suits_takeOverRefusal (suits_giveBack ‹_›) ..
    · exact .done
  | withdraw c =>
    simp only [program]
    split
    · exact suits_giveBack ‹_›
    · rename_i p ht hp
      have hc : p.caller = c := by simpa using List.find?_some hp
      exact .own (congrArg some hc) (by rw [Allows, hc]; exact Prod.ext ht hp)
    · exact .done
  | block wait => exact .block wait .done

theorem caller?_of_mem_takeOver {r : Report} (h : a ∈ takeOver t r) : a.caller? = none := by
  unfold takeOver at h
  split at h
  · simp only [List.mem_cons, List.not_mem_nil, or_false] at h
    rcases h with rfl | rfl | rfl <;> rfl
  · cases h

theorem caller?_of_mem_takeOverRefusal {r : Report} {body : Option Refusal} (h : a ∈ takeOverRefusal t r body) :
    a.caller? = none := by
  have tracked (h : a ∈ if r.isTracked then takeOver t r else []) : a.caller? = none := by
    split at h
    · exact caller?_of_mem_takeOver h
    · cases h
  unfold takeOverRefusal at h
  dsimp only at h
  split at h
  · rcases List.mem_append.1 h with h | h
    · split at h
      · simp only [List.mem_cons, List.not_mem_nil, or_false] at h
        rcases h with rfl | rfl <;> rfl
      · cases h
    · exact tracked h
  · split at h
    · simp only [List.mem_cons, List.not_mem_nil, or_false] at h
      rcases h with rfl | rfl | rfl <;> rfl
    · cases h

/-- What of an event's acts is a caller's own. -/
theorem mem_program (h : a ∈ s.program e) :
    a.caller? = none ∨ (∃ p, a = .start p) ∨ (∃ p, a = .resume p.stage p) ∨
      (∃ t, a = .giveBack t ∧ e.returns t.caller) ∨ ∃ p, a = .quit p ∧ e = .withdraw p.caller := by
  cases e with
  | arrive c wanted =>
    simp only [program] at h
    split at h
    · cases h
    · exact .inr (.inl ⟨_, List.mem_singleton.1 h⟩)
  | poll c =>
    simp only [program] at h
    split at h
    · cases h
    · exact .inr (.inr (.inl ⟨_, List.mem_singleton.1 h⟩))
  | record c r =>
    simp only [program] at h
    split at h
    · rename_i t ht
      rcases List.mem_append.1 h with h | h
      · exact .inl (caller?_of_mem_takeOver h)
      · refine .inr (.inr (.inr (.inl ⟨t, List.mem_singleton.1 h, .inr (.inl ⟨r, ?_⟩)⟩)))
        rw [caller_of_ticket? ht]
    · cases h
  | refuse c r body =>
    simp only [program] at h
    split at h
    · rename_i t ht
      rcases List.mem_append.1 h with h | h
      · exact .inl (caller?_of_mem_takeOverRefusal h)
      · refine .inr (.inr (.inr (.inl ⟨t, List.mem_singleton.1 h, .inr (.inr ⟨r, body, ?_⟩)⟩)))
        rw [caller_of_ticket? ht]
    · cases h
  | withdraw c =>
    simp only [program] at h
    split at h
    · rename_i t ht
      refine .inr (.inr (.inr (.inl ⟨t, List.mem_singleton.1 h, .inl ?_⟩)))
      rw [caller_of_ticket? ht]
    · rename_i p _ hp
      have hc : p.caller = c := by simpa using List.find?_some hp
      exact .inr (.inr (.inr (.inr ⟨p, List.mem_singleton.1 h, by rw [hc]⟩)))
    · cases h
  | block wait =>
    simp only [program, List.mem_cons, List.not_mem_nil, or_false] at h
    rcases h with rfl | rfl <;> exact .inl rfl

/-! ### What is done -/

theorem Allows.spared (h : s.Allows a) (hs : ∀ d ∈ a.caller?, Spares s u d) : u.Allows a := by
  cases a with
  | start p => exact ⟨(hs _ rfl).entries.trans h.1, h.2⟩
  | seek p key => exact ⟨(hs _ rfl).inNoLine h.1, h.2.congr (hs _ rfl).entries⟩
  | join g p => exact ⟨(hs _ rfl).inNoLine h.1, h.2.congr (hs _ rfl).entries⟩
  | listen g p | look g p hasHeard | doze g p till hasHeard | pass g p => exact (hs _ rfl).hasTurn h
  | giveBack t => exact (congrArg Prod.fst (hs _ rfl).entries).trans h
  | quit p => exact (hs _ rfl).entries.trans h
  | resume | write | block | tell | fold | lead => trivial

/-- What others do spares the caller of a job. -/
theorem Suits.spared (h : Suits s c acts) (hs : ∀ d ∈ c, Spares s u d) : Suits u c acts := by
  induction h with
  | done => exact .done
  | own hc allows => exact .own hc (allows.spared fun d hd => hs d (hc ▸ hd))
  | write i change _ ih => exact .write i change (ih hs)
  | block wait _ ih => exact .block wait (ih hs)
  | tell g _ ih => exact .tell g (ih hs)
  | fold i r _ ih => exact .fold i r (ih hs)
  | lead key i _ ih => exact .lead key i (ih hs)

theorem Allows.after (h : s.Allows b) (a : Act) : s.Allows (b.after a) := by
  cases a <;> cases b <;> exact h

/-- What is heard of others is of no matter to what an act relies on. -/
theorem Suits.after (h : Suits s c acts) (a : Act) : Suits s c (acts.map (·.after a)) := by
  induction h with
  | done => exact .done
  | @own c b hc allows => exact .own ((Act.caller?_after b a).trans hc) (allows.after a)
  | write i change _ ih =>
    rw [Act.map_after_cons (b := .write i change) trivial, Act.map_after_cons (b := .tell _) trivial]
    exact .write i change ih
  | block wait _ ih =>
    rw [Act.map_after_cons (b := .block wait) trivial, Act.map_after_cons (b := .tell _) trivial]
    exact .block wait ih
  | tell g _ ih => rw [Act.map_after_cons (b := .tell g) trivial]; exact .tell g ih
  | fold i r _ ih => rw [Act.map_after_cons (b := .fold i r) trivial]; exact .fold i r ih
  | lead key i _ ih => rw [Act.map_after_cons (b := .lead key i) trivial]; exact .lead key i ih

/-- Folding adds that the other bucket takes the response over. -/
theorem suits_fold (h : Suits u c rest) (s : Limits) (now : Instant) (i : Nat) (r : Report) :
    Suits u c ((s.act now (.fold i r)).next ++ rest) := by
  unfold Limits.act
  dsimp only
  split
  · split
    · exact h
    · split
      · exact h
      · exact .write _ _ (.lead _ _ h)
  · exact h

/-- An act of a caller is the last of its job. -/
theorem Suits.rest_eq_nil (h : Suits s c (a :: rest)) (ha : a.caller? = some d) : rest = [] := by
  cases h with
  | own => rfl
  | write | block | tell | fold | lead => cases ha

/-- What is to be done next may be done. -/
theorem Suits.allows_head (h : Suits s c (a :: rest)) : s.Allows a := by
  cases h with
  | own _ allows => exact allows
  | write | block | tell | fold | lead => trivial

/-- What an act of a caller relies on holds as long as it is to be done. -/
theorem Suits.allows (h : Suits s c acts) (hb : b ∈ acts) (hd : b.caller? = some d) : c = some d ∧ s.Allows b := by
  induction h with
  | done => cases hb
  | own hc allows =>
    cases List.mem_singleton.1 hb
    exact ⟨hc.symm.trans hd, allows⟩
  | write i change _ ih | block wait _ ih =>
    rcases List.mem_cons.1 hb with rfl | hb
    · cases hd
    · rcases List.mem_cons.1 hb with rfl | hb
      · cases hd
      · exact ih hb
  | tell g _ ih | fold i r _ ih | lead key i _ ih =>
    rcases List.mem_cons.1 hb with rfl | hb
    · cases hd
    · exact ih hb

/-- The next act of a job leaves the gates right, all others as they were, and the rest of the job fitting. -/
theorem Suits.act (h : Suits s c (a :: rest)) (ho : Orderly s) (now : Instant) :
    (s.act now a).limits.Orderly ∧ (∀ d, d ∉ c → Spares s (s.act now a).limits d) ∧
      Suits (s.act now a).limits c ((s.act now a).next ++ rest) := by
  have common (hc : a.caller? = none) (hrest : Suits s c rest)
      (hnext : ∀ u, Suits u c rest → Suits u c ((s.act now a).next ++ rest)) :
      (s.act now a).limits.Orderly ∧ (∀ d, d ∉ c → Spares s (s.act now a).limits d) ∧
        Suits (s.act now a).limits c ((s.act now a).next ++ rest) := by
    obtain ⟨horderly, hspares⟩ := upholds_common ho hc now
    exact ⟨horderly, fun d _ => hspares d, hnext _ (hrest.spared fun d _ => hspares d)⟩
  cases h with
  | @own c' _ hc allows =>
    obtain ⟨horderly, hspares, hnext⟩ := upholds_act ho allows hc now
    refine ⟨horderly, fun d hd => hspares d fun hdc => hd (congrArg some hdc.symm), ?_⟩
    rcases hnext with hnext | ⟨b, hnext, hb, hallows⟩
    · rw [hnext]; exact .done
    · rw [hnext]; exact .own hb hallows
  | write i change h => exact common rfl (.tell _ h) fun u hu => hu
  | block wait h => exact common rfl (.tell _ h) fun u hu => hu
  | tell g h => exact common rfl h fun u hu => hu
  | fold i r h => exact common rfl h fun u hu => suits_fold hu s now i r
  | lead key i h => exact common rfl h fun u hu => hu

end Limits

namespace Machine

variable {m m' : Machine} {now : Instant} {limit n : Nat} {e : Event} {c : Caller}

/-- The gates are right, every job fits the limits, and no caller has two under way. -/
structure Sound (m : Machine) : Prop where
  orderly : m.limits.Orderly
  suits : ∀ j ∈ m.jobs, m.limits.Suits j.caller? j.acts
  apart : ∀ {n k : Nat} {j j' : Job} {c : Caller}, m.jobs[n]? = some j → m.jobs[k]? = some j' →
    j.caller? = some c → j'.caller? = some c → j.acts ≠ [] → j'.acts ≠ [] → n = k

/-- Jobs that are begun are free of others of their callers. -/
theorem Sound.begin (h : m.Sound) {s : Limits} {j : Job} (ho : s.Orderly) (hs : ∀ d, m.limits.Spares s d)
    (hsuits : s.Suits j.caller? j.acts) (hfree : ∀ c ∈ j.caller?, m.IsFree c) :
    Sound { limits := s, jobs := m.jobs ++ [j] } := by
  refine ⟨ho, fun k hk => ?_, fun {n k x y c} hn hk hx hy hxa hya => ?_⟩
  · rcases List.mem_append.1 hk with hk | hk
    · exact (h.suits k hk).spared fun d _ => hs d
    · rw [List.mem_singleton.1 hk]
      exact hsuits
  · have free {i : Nat} {z : Job} (hz : m.jobs[i]? = some z) (hc : z.caller? = some c) (hj : j.caller? = some c) :
        z.acts = [] := hfree c hj z (List.mem_of_getElem? hz) hc
    rcases job_append hn with hold | ⟨rfl, rfl⟩
    · rcases job_append hk with hold' | ⟨rfl, rfl⟩
      · exact h.apart hold hold' hx hy hxa hya
      · exact absurd (free hold hx hy) hxa
    · rcases job_append hk with hold' | ⟨rfl, rfl⟩
      · exact absurd (free hold' hy hx) hya
      · rfl

theorem Sound.happen (h : m.Sound) (free : ∀ c ∈ e.caller?, m.IsFree c) : (m.happen e).Sound := by
  have hsuits := Limits.suits_program m.limits e
  have begun {s : Limits} (hp : s.pending = m.limits.pending) (ht : s.tickets = m.limits.tickets)
      (hg : ∀ g, s.gateAt g = m.limits.gateAt g) :
      Sound { limits := s, jobs := m.jobs ++ [{ event := some e, acts := m.limits.program e }] } := by
    have hspares : ∀ d, m.limits.Spares s d := .of_eq hp ht hg
    have ho : s.Orderly := h.orderly.congr hp ht (fun g => congrArg _ (hg g)) fun g => congrArg _ (hg g)
    exact h.begin ho hspares (hsuits.spared fun d _ => hspares d) free
  unfold Machine.happen
  cases e with
  | poll c => exact begun rfl rfl fun g => by cases g <;> rfl
  | arrive | record | refuse | withdraw | block => exact begun rfl rfl fun _ => rfl

theorem Sound.strike (h : m.Sound) (i : Nat) (change : Window.Change) : (m.strike i change).Sound :=
  h.begin (j := { event := none, acts := [.write i change, .tell (.bucket i)] }) h.orderly
    (fun d => .of_eq rfl rfl (fun _ => rfl) d) (.write i change .done) nofun

theorem Sound.goOn (h : m.Sound) (now : Instant) (n : Nat) : (m.goOn now n).Sound := by
  rcases goOn_cases m now n with hsame | ⟨event, a, rest, done, hj⟩
  · rwa [hsame]
  obtain ⟨horderly, hspares, hrest⟩ := (h.suits _ (List.mem_of_getElem? hj)).act h.orderly now
  have hlimits : (m.goOn now n).limits = (m.limits.act now a).limits := by rw [goOn_of_cons hj]
  refine ⟨hlimits ▸ horderly, fun j' hj' => ?_, fun {i k x y c} hx hy hxc hyc hxa hya => ?_⟩
  · obtain ⟨k, hk⟩ := List.mem_iff_getElem?.1 hj'
    rw [hlimits]
    rcases job_goOn hj hk with ⟨rfl, rfl⟩ | ⟨hkn, j, hjk, rfl⟩
    · exact hrest.after a
    · by_cases ha : j.acts = []
      · rw [Job.after, ha]
        exact .done
      · refine ((h.suits j (List.mem_of_getElem? hjk)).spared fun d hd => hspares d fun hd' => hkn ?_).after a
        exact h.apart hjk hj hd hd' ha (by simp)
  · -- nobody has begun anything
    have before {i : Nat} {x : Job} (hx : (m.goOn now n).jobs[i]? = some x) (hxa : x.acts ≠ []) :
        ∃ j, m.jobs[i]? = some j ∧ j.caller? = x.caller? ∧ j.acts ≠ [] := by
      rcases job_goOn hj hx with ⟨rfl, rfl⟩ | ⟨-, j, hj, rfl⟩
      · exact ⟨_, hj, rfl, by simp⟩
      · exact ⟨j, hj, rfl, by simpa [Job.after] using hxa⟩
    obtain ⟨j, hj, hjc, hja⟩ := before hx hxa
    obtain ⟨j', hj', hjc', hja'⟩ := before hy hya
    exact h.apart hj hj' (hjc.trans hxc) (hjc'.trans hyc) hja hja'

theorem Sound.step (h : m.Sound) (hs : m.Step now m') : m'.Sound := by
  cases hs with
  | happens e free => exact h.happen free
  | strikes i change => exact h.strike i change
  | goesOn n => exact h.goOn now n

theorem Reachable.sound (h : Reachable limit m) : m.Sound := by
  induction h with
  | start => exact ⟨Limits.orderly_run limit [], nofun, nofun⟩
  | step _ hs ih => exact ih.step hs

end Machine

end ChatApi.Limit
