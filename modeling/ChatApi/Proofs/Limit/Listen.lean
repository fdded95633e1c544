import ChatApi.Proofs.Limit.Concert
import ChatApi.Proofs.Limit.Watch

/-!
# Whoever listens before it looks hears of every change

Between the look at a budget and falling asleep others may change the budget, and they tell of it only after that.
`Machine.Wakeful` says what becomes of the owner of a gate nevertheless: it is to go on, or it sleeps until just the
moment that its budget demands, or somebody is still to tell of a change. Every act of every caller keeps it
(`Wakeful.step`), since the owner began to listen before it looked: what it has not heard of when it falls asleep is
still to be told.
-/

namespace ChatApi.Limit

/-- The act is one of a caller at a gate, where it is to look or has looked. -/
def Act.IsAt (g : Stage) (c : Caller) : Act → Prop
  | .resume g' p | .listen g' p | .look g' p _ | .doze g' p _ _ | .pass g' p => g' = g ∧ p.caller = c
  | .start _ | .seek .. | .join .. | .write .. | .block _ | .tell _ | .fold .. | .lead .. | .giveBack _ | .quit _ =>
    False

/-- An owner that leaves gives the next its turn. -/
theorem Gate.leave_owner {x : Gate} {c : Caller} (h : x.owner? = some c) :
    (x.leave c).1.hold = .turn ∧ (x.leave c).1.owner? = (x.leave c).2 := by
  unfold leave owner? at *
  cases hl : x.line with
  | nil => simp [hl] at h
  | cons owner behind =>
    have ho : owner = c := by simpa [hl] using h
    simp [ho]

namespace Limits

variable {s u : Limits} {now till : Instant} {c : Caller} {e : Option Caller} {g g' : Stage} {p : Pending} {a : Act}
  {rest : List Act} {hasHeard : Bool}

/-! ### What is told of -/

theorem deadline?_congr (hc : u.ceiling = s.ceiling) (hw : ∀ i, (u.site i).window = (s.site i).window) (g : Stage)
    (t : Instant) : u.deadline? g t = s.deadline? g t := by
  cases g with
  | ceiling => simp only [deadline?, hc]
  | bucket i => simp only [deadline?, hw]

theorem Regated.deadline? (h : Regated s u) (g : Stage) (t : Instant) : u.deadline? g t = s.deadline? g t :=
  deadline?_congr h.ceiling h.windows g t

theorem deadline?_putBucket_ne {b : Bucket} {i : Nat} (hb : s.buckets[i]? = some b) (hg : g ≠ .bucket i)
    (window : Window) (gate : Gate) (t : Instant) :
    (s.putBucket i { b with window, gate }).deadline? g t = s.deadline? g t := by
  cases g with
  | ceiling => rfl
  | bucket j =>
    have hj : j ≠ i := fun hj => hg (congrArg Stage.bucket hj)
    have hsite := site_putBucket hb { b with window, gate } j
    rw [if_neg hj] at hsite
    exact congrArg (fun x : Site => (x.window.reserve t).2.till?) hsite

/-- A budget changes only where somebody tells of it next, or where its owner looks. -/
theorem deadline?_act (h : s.Suits e (a :: rest)) (now : Instant) (g : Stage) :
    (∀ t, (s.act now a).limits.deadline? g t = s.deadline? g t) ∨ .tell g ∈ rest ∨
      ∃ p hasHeard, a = .look g p hasHeard := by
  cases a with
  | start p =>
    obtain ⟨pending, tickets, heq⟩ := start_eq s now p
    rw [heq]
    exact .inl fun t => by cases g <;> rfl
  | seek p key =>
    obtain ⟨hc, -, -, -⟩ := bucketFor_frame s key
    exact .inl (deadline?_congr hc (fun i => congrArg Site.window ((bucketFor_spec s key).2 i)) g)
  | join g' p =>
    obtain ⟨pending, heq, -⟩ := join_eq s now g' p
    have hr := regated_changeGate s g' fun gate => (gate.join p.caller, none)
    rw [heq]
    exact .inl (deadline?_congr hr.ceiling hr.windows g)
  | resume g' p =>
    refine .inl fun t => ?_
    unfold act
    dsimp only
    split
    · exact (regated_changeGate s g' fun gate => ({ gate with hold := .turn }, none)).deadline? g t
    · rfl
  | listen g' p => exact .inl fun t => rfl
  | look g' p hasHeard =>
    by_cases hg : g' = g
    · exact .inr (.inr ⟨p, hasHeard, by rw [hg]⟩)
    · refine .inl fun t => ?_
      cases g' with
      | ceiling =>
        have hact : ∃ ceiling, (s.act now (.look .ceiling p hasHeard)).limits = { s with ceiling } := by
          unfold act look
          dsimp only
          split <;> exact ⟨_, rfl⟩
        obtain ⟨ceiling, hact⟩ := hact
        rw [hact]
        cases g with
        | ceiling => exact absurd rfl hg
        | bucket j => rfl
      | bucket i =>
        cases h with
        | own _ allows =>
          obtain ⟨b, hb, -⟩ := HasTurn.bucket (c := p.caller) allows
          rw [act_look_bucket hb]
          split
          · exact deadline?_putBucket_ne hb (Ne.symm hg) _ _ t
          · exact deadline?_putBucket_ne hb (Ne.symm hg) _ _ t
          · exact deadline?_putBucket_ne hb (Ne.symm hg) _ _ t
  | doze g' p till hasHeard =>
    refine .inl fun t => ?_
    cases hasHeard with
    | true => cases g <;> rfl
    | false => exact (regated_changeGate s g' fun gate => ({ gate with hold := .asleep till }, none)).deadline? g t
  | pass g' p =>
    have hr := regated_changeGate s g' (·.leave p.caller)
    refine .inl fun t => (Eq.trans ?_ (hr.deadline? g t))
    unfold act
    dsimp only
    split <;> cases g <;> rfl
  | write i change =>
    cases h with
    | own hc => cases hc
    | write _ _ h =>
      by_cases hg : g = .bucket i
      · exact .inr (.inl (hg ▸ List.mem_cons_self))
      · exact .inl fun t => deadline?_changeBucket_ne hg t
  | block wait =>
    cases h with
    | own hc => cases hc
    | block _ h =>
      cases g with
      | ceiling => exact .inr (.inl List.mem_cons_self)
      | bucket i => exact .inl fun t => rfl
  | tell g' => exact .inl ((regated_changeGate s g' Gate.rouse).deadline? g)
  | fold i r =>
    obtain ⟨shared, heq⟩ := fold_eq s now i r
    rw [heq]
    exact .inl fun t => by cases g <;> rfl
  | lead key i => exact .inl fun t => by cases g <;> rfl
  | giveBack t =>
    obtain ⟨hc, -, -, -⟩ := release_frame s t
    refine .inl (deadline?_congr hc (fun i => ?_) g)
    show ((s.release t).site i).window = (s.site i).window
    rw [site_release]
    split <;> rfl
  | quit p =>
    refine .inl fun t => ?_
    have hr := regated_changeGate { s with pending := s.pending.filter (·.caller ≠ p.caller) } p.stage (·.leave p.caller)
    exact (hr.deadline? g t).trans (by cases g <;> rfl)

/-- Whoever is to sleep after its look sleeps until just the moment that the budget demands. -/
theorem deadline?_of_look (h : s.Allows (.look g p hasHeard)) (now : Instant) {g' : Stage} {q : Pending} {heard : Bool}
    (hnext : .doze g' q till heard ∈ (s.act now (.look g p hasHeard)).next) :
    g' = g ∧ ∀ t < till, (s.act now (.look g p hasHeard)).limits.deadline? g t = some till := by
  have hturn : s.HasTurn g p.caller := h
  cases g with
  | ceiling =>
    cases hr : s.ceiling.reserve now with
    | mk ceiling wait =>
      cases wait with
      | none => simp [act, look, hr] at hnext
      | some moment =>
        simp only [act, look, hr, List.mem_singleton, Act.doze.injEq] at hnext ⊢
        obtain ⟨rfl, -, rfl, -⟩ := hnext
        refine ⟨rfl, fun t ht => ?_⟩
        have hagain := Ceiling.reserve_again (show (s.ceiling.reserve now).2 = some till by rw [hr]) ht
        rwa [hr] at hagain
  | bucket i =>
    obtain ⟨b, hb, -⟩ := hturn.bucket
    rw [act_look_bucket hb] at hnext ⊢
    cases hr : b.window.reserve now with
    | mk window slot =>
      rw [hr] at hnext
      cases slot with
      | proceed isProbe => cases isProbe <;> simp at hnext
      | wait moment =>
        simp only [List.mem_singleton, Act.doze.injEq] at hnext
        obtain ⟨rfl, -, rfl, -⟩ := hnext
        refine ⟨rfl, fun t ht => ?_⟩
        have hagain := Window.reserve_again (show (b.window.reserve now).2 = .wait till by rw [hr]) ht
        rw [hr] at hagain
        show (((s.putBucket i { b with window }).site i).window.reserve t).2.till? = some till
        rw [site_putBucket hb, if_pos rfl, hagain]
        rfl

/-! ### Who is given a turn -/

/-- What an act makes of the owner of a gate, where `next` is what its caller does next. -/
inductive Treats (s u : Limits) (a : Act) (next : List Act) (g : Stage) : Prop
  /-- It is as it was, and is not the one whose act it is. -/
  | same (hold : (u.gateAt g).hold = (s.gateAt g).hold) (owner : (u.gateAt g).owner? = (s.gateAt g).owner?)
    (away : (s.gateAt g).hold = .turn → ∀ c ∈ (s.gateAt g).owner?, ¬ a.IsAt g c)
    (told : a = .tell g → ∀ till, (s.gateAt g).hold ≠ .asleep till)
  /-- It has been given a turn. -/
  | turned (h : Turned u g)
  /-- It goes on there. -/
  | up (hold : (u.gateAt g).hold = .turn) (goesOn : ∀ c ∈ (u.gateAt g).owner?, ∃ b ∈ next, b.IsAt g c)
  /-- It falls asleep. -/
  | asleep (p : Pending) (till : Instant) (ha : a = .doze g p till false) (hold : (u.gateAt g).hold = .asleep till)
  /-- It goes on, and keeps the gate. -/
  | probes (hold : (u.gateAt g).hold = .probing)

variable {next : List Act}

/-- An act at no gate that leaves a gate as it was. -/
theorem Treats.of_away (hg : u.gateAt g = s.gateAt g) (ha : ∀ c, ¬ a.IsAt g c) (ht : a ≠ .tell g) :
    Treats s u a next g :=
  .same (by rw [hg]) (by rw [hg]) (fun _ c _ => ha c) fun h => absurd h ht

/-- What changes the owner of a gate gives it a turn. -/
theorem gives_changeGate {f : Gate → Gate × Option Caller}
    (hf : (f (s.gateAt g)).1.hold = (s.gateAt g).hold ∧ (f (s.gateAt g)).1.owner? = (s.gateAt g).owner? ∨
      (f (s.gateAt g)).1.hold = .turn ∧ (f (s.gateAt g)).1.owner? = (f (s.gateAt g)).2) (g' : Stage) :
    (((s.changeGate g f).gateAt g').hold = (s.gateAt g').hold ∧
      ((s.changeGate g f).gateAt g').owner? = (s.gateAt g').owner?) ∨ g' = g ∧ Turned (s.changeGate g f) g := by
  rcases changeGate_cases s g f with ⟨heq, -⟩ | ⟨hgate, hwoken⟩
  · rw [heq]
    exact .inl ⟨rfl, rfl⟩
  · by_cases hg : g' = g
    · subst hg
      rcases hf with ⟨hh, ho⟩ | ⟨hh, ho⟩
      · rw [hgate, if_pos rfl]
        exact .inl ⟨hh, ho⟩
      · refine .inr ⟨rfl, ?_, fun c hc => hwoken c ?_⟩
        · rw [hgate, if_pos rfl]
          exact hh
        · rw [hgate, if_pos rfl, ho] at hc
          exact hc
    · rw [hgate, if_neg hg]
      exact .inl ⟨rfl, rfl⟩

theorem treats_join (s : Limits) (now : Instant) (g' : Stage) (p : Pending) (g : Stage) :
    Treats s (s.act now (.join g' p)).limits (.join g' p) [.resume g' p] g := by
  obtain ⟨pending, heq, -⟩ := join_eq s now g' p
  have hgate : (s.act now (.join g' p)).limits.gateAt g =
      (s.changeGate g' fun gate => (gate.join p.caller, none)).gateAt g := by
    rw [heq]
    cases g <;> rfl
  rcases changeGate_cases s g' fun gate => (gate.join p.caller, none) with ⟨hsame, -⟩ | ⟨hjoined, -⟩
  · exact .of_away (hgate.trans (by rw [hsame])) (fun c => id) (by simp)
  · by_cases hg : g = g'
    · subst hg
      rw [hjoined, if_pos rfl] at hgate
      rcases (s.gateAt g).join_cases p.caller with ⟨hh, ho⟩ | ⟨hh, ho⟩
      · exact .same (hgate ▸ hh) (hgate ▸ ho) (fun _ c _ => id) (by simp)
      · refine .up (hgate ▸ hh) fun c hc => ⟨_, List.mem_singleton_self _, rfl, ?_⟩
        rw [hgate, ho] at hc
        exact Option.some.inj hc
    · rw [hjoined, if_neg hg] at hgate
      exact .of_away hgate (fun c => id) (by simp)

/-- At other gates than its own a caller does nothing. -/
theorem Treats.of_elsewhere (hg : u.gateAt g = s.gateAt g) (ha : ∀ c, a.IsAt g c → g' = g) (hne : g ≠ g')
    (ht : a ≠ .tell g) : Treats s u a next g :=
  .of_away hg (fun c hc => hne (ha c hc).symm) ht

theorem treats_resume (s : Limits) (now : Instant) (g' : Stage) (p : Pending) (g : Stage) :
    Treats s (s.act now (.resume g' p)).limits (.resume g' p) (s.act now (.resume g' p)).next g := by
  cases hu : (s.gate g').isUp p.caller now with
  | false =>
    have hact : s.act now (.resume g' p) = { limits := s } := by simp [act, hu]
    rw [hact]
    refine .same rfl rfl (fun hh c hc hat => ?_) (by simp)
    -- the owner would be up
    obtain ⟨rfl, rfl⟩ := hat
    have hc : (s.gateAt g').owner? = some p.caller := hc
    simp [gate_eq, Gate.isUp, hc, hh] at hu
  | true =>
    have hact : s.act now (.resume g' p) =
        { limits := s.changeGate g' fun gate => ({ gate with hold := .turn }, none), next := [.listen g' p] } := by
      simp [act, hu]
    rw [gate_eq] at hu
    obtain ⟨-, -, hline⟩ := Gate.of_isUp hu
    rw [hact]
    rcases changeGate_cases s g' fun gate => ({ gate with hold := .turn }, none) with ⟨-, hnone⟩ | ⟨hgate, -⟩
    · rw [hnone] at hline
      cases hline
    · by_cases hg : g = g'
      · subst hg
        refine .up ?_ fun c hc => ⟨_, List.mem_singleton_self _, rfl, ?_⟩
        · rw [hgate, if_pos rfl]
        · rw [hgate, if_pos rfl, Gate.owner?, hline] at hc
          exact Option.some.inj hc
      · exact .of_elsewhere (by rw [hgate, if_neg hg]) (fun c hc => hc.1) hg (by simp)

/-- The owner of a gate that looks goes on there, unless it is a probe. -/
theorem treats_look (h : s.Allows (.look g' p hasHeard)) (now : Instant) (g : Stage) :
    Treats s (s.act now (.look g' p hasHeard)).limits (.look g' p hasHeard) (s.act now (.look g' p hasHeard)).next
      g := by
  have hturn : s.HasTurn g' p.caller := h
  have goesOn {u : Limits} {b : Act} (hu : ∀ g, u.gateAt g = s.gateAt g) (hb : b.IsAt g' p.caller) :
      Treats s u (.look g' p hasHeard) [b] g := by
    by_cases hg : g = g'
    · subst hg
      refine .up (by rw [hu, hturn.hold]) fun c hc => ⟨b, List.mem_singleton_self _, ?_⟩
      rw [hu, hturn.owner] at hc
      exact Option.some.inj hc ▸ hb
    · exact .of_elsewhere (hu g) (fun c hc => hc.1) hg (by simp)
  cases g' with
  | ceiling =>
    unfold act look
    dsimp only
    split
    · exact goesOn (fun g => by cases g <;> rfl) ⟨rfl, rfl⟩
    · exact goesOn (fun g => by cases g <;> rfl) ⟨rfl, rfl⟩
  | bucket i =>
    obtain ⟨b, hb, -⟩ := hturn.bucket
    rw [act_look_bucket hb]
    split
    · exact goesOn (gateAt_putWindow hb _) ⟨rfl, rfl⟩
    · dsimp only
      by_cases hg : g = .bucket i
      · refine .probes ?_
        rw [gateAt_grant, gateAt_putBucket hb, if_pos hg]
      · refine .of_elsewhere ?_ (fun c hc => hc.1) hg (by simp)
        rw [gateAt_grant, gateAt_putBucket hb, if_neg hg]
    · exact goesOn (gateAt_putWindow hb _) ⟨rfl, rfl⟩

theorem treats_doze (h : s.Allows (.doze g' p till hasHeard)) (now : Instant) (g : Stage) :
    Treats s (s.act now (.doze g' p till hasHeard)).limits (.doze g' p till hasHeard) [] g := by
  have hturn : s.HasTurn g' p.caller := h
  cases hasHeard with
  | true =>
    by_cases hg : g = g'
    · subst hg
      have hgate : (s.wake p.caller).gateAt g = s.gateAt g := by cases g <;> rfl
      refine .turned ⟨hgate ▸ hturn.hold, fun c hc => ?_⟩
      rw [show c = p.caller from (Option.some.inj (hturn.owner.symm.trans (hgate ▸ hc))).symm]
      exact List.mem_append_right _ (by simp)
    · exact .of_elsewhere (by cases g <;> rfl) (fun c hc => hc.1) hg (by simp)
  | false =>
    have hgate := hturn.gateAt_changeGate fun gate => ({ gate with hold := .asleep till }, none)
    by_cases hg : g = g'
    · subst hg
      exact .asleep p till rfl (by rw [act, hgate, if_pos rfl])
    · exact .of_elsewhere (by rw [act, hgate, if_neg hg]) (fun c hc => hc.1) hg (by simp)

/-- Whoever passes a gate leaves it to the next. -/
theorem treats_pass (h : s.Allows (.pass g' p)) (now : Instant) (g : Stage) :
    Treats s (s.act now (.pass g' p)).limits (.pass g' p) (s.act now (.pass g' p)).next g := by
  have hturn : s.HasTurn g' p.caller := h
  obtain ⟨pending, tickets, heq⟩ := pass_eq s now g' p
  rw [heq]
  have hsame : ({ s.changeGate g' (·.leave p.caller) with pending, tickets } : Limits).gateAt g =
      (s.changeGate g' (·.leave p.caller)).gateAt g := by cases g <;> rfl
  rcases changeGate_cases s g' (·.leave p.caller) with ⟨-, hnone⟩ | ⟨hgate, hwoken⟩
  · have howner := hturn.owner
    rw [hnone] at howner
    cases howner
  · by_cases hg : g = g'
    · subst hg
      obtain ⟨hh, ho⟩ := Gate.leave_owner hturn.owner
      refine .turned ⟨?_, fun c hc => hwoken c ?_⟩
      · rw [hsame, hgate, if_pos rfl, hh]
      · rw [hsame, hgate, if_pos rfl, ho] at hc
        exact hc
    · exact .of_elsewhere (hsame.trans (by rw [hgate, if_neg hg])) (fun c hc => hc.1) hg (by simp)

/-- Where the owner of a gate has got a turn or is as it was, the act is one at no gate. -/
theorem Treats.of_gives (h : ((u.gateAt g).hold = (s.gateAt g).hold ∧ (u.gateAt g).owner? = (s.gateAt g).owner?) ∨
    Turned u g) (ha : ∀ c, ¬ a.IsAt g c) (ht : a ≠ .tell g) : Treats s u a next g := by
  rcases h with ⟨hh, ho⟩ | h
  · exact .same hh ho (fun _ c _ => ha c) fun h => absurd h ht
  · exact .turned h

theorem treats_tell (s : Limits) (now : Instant) (g' g : Stage) :
    Treats s (s.act now (.tell g')).limits (.tell g') [] g := by
  have hrouse := (s.gateAt g').rouse_cases
  rcases gives_changeGate (f := Gate.rouse) (hrouse.imp (fun h => ⟨by rw [h.1], by rw [h.1]⟩) id) g with
    ⟨hh, ho⟩ | ⟨rfl, h⟩
  · refine .same hh ho (fun _ c _ => id) fun htell till ha => ?_
    cases htell
    -- a sleeping owner has got a turn
    have hgate := gateAt_changeGate (f := Gate.rouse) rfl s g' g'
    rw [hgate, if_pos rfl, ha] at hh
    simp [Gate.rouse, ha] at hh
  · exact .turned h

/-- Every act of a job leaves the owner of a gate as it was, or up, or asleep in its own doing. -/
theorem treats_act (h : s.Suits e (a :: rest)) (now : Instant) (g : Stage) :
    Treats s (s.act now a).limits a (s.act now a).next g := by
  cases a with
  | start p =>
    obtain ⟨pending, tickets, heq⟩ := start_eq s now p
    rw [heq]
    exact .of_away (by cases g <;> rfl) (fun c => id) (by simp)
  | seek p key => exact .of_away (gateAt_bucketFor s key g) (fun c => id) (by simp)
  | join g' p => exact treats_join s now g' p g
  | resume g' p => exact treats_resume s now g' p g
  | listen g' p =>
    by_cases hg : g = g'
    · subst hg
      cases h with
      | own hc allows =>
        have hturn : s.HasTurn g p.caller := allows
        refine .up hturn.hold fun c hc => ⟨_, List.mem_singleton_self _, rfl, ?_⟩
        exact Option.some.inj (hturn.owner.symm.trans hc)
    · exact .of_elsewhere rfl (fun c hc => hc.1) hg (by simp)
  | look g' p hasHeard => cases h with | own hc allows => exact treats_look allows now g
  | doze g' p till hasHeard =>
    cases h with
    | own hc allows =>
      have htreats := treats_doze allows now g
      cases hasHeard <;> exact htreats
  | pass g' p => cases h with | own hc allows => exact treats_pass allows now g
  | write i change =>
    exact .of_away (gateAt_changeWindow s i (·.change now change) g) (fun c => id) (by simp)
  | block wait => exact .of_away (by cases g <;> rfl) (fun c => id) (by simp)
  | tell g' => exact treats_tell s now g' g
  | fold i r =>
    obtain ⟨shared, heq⟩ := fold_eq s now i r
    rw [heq]
    exact .of_away (by cases g <;> rfl) (fun c => id) (by simp)
  | lead key i => exact .of_away (by cases g <;> rfl) (fun c => id) (by simp)
  | giveBack t =>
    exact .of_gives (((attends_release s t).2 g).imp (fun h => ⟨h.hold, h.owner⟩) id) (fun c => id) (by simp)
  | quit p =>
    let v : Limits := { s with pending := s.pending.filter (·.caller ≠ p.caller) }
    have hv (g : Stage) : v.gateAt g = s.gateAt g := by cases g <;> rfl
    have hgives := gives_changeGate (f := (·.leave p.caller)) (Gate.leave_cases (v.gateAt p.stage) p.caller) g
    rw [hv] at hgives
    refine .of_gives (hgives.imp_right ?_) (fun c => id) (by simp)
    rintro ⟨rfl, h⟩
    exact h

end Limits

theorem Act.isAt_after {g : Stage} {c : Caller} (b a : Act) : (b.after a).IsAt g c ↔ b.IsAt g c := by
  cases a <;> cases b <;> rfl

/-- Who has heard nothing was about to fall asleep before, and nothing was told. -/
theorem Act.doze_of_after {g : Stage} {p : Pending} {till : Instant} {acts : List Act} {a : Act}
    (h : .doze g p till false ∈ acts.map (·.after a)) : .doze g p till false ∈ acts ∧ a ≠ .tell g := by
  obtain ⟨b, hb, hab⟩ := List.mem_map.1 h
  cases a with
  | tell g' =>
    cases b with
    | doze g'' q moment hasHeard =>
      simp only [Act.after, Act.doze.injEq, Bool.or_eq_false_iff, decide_eq_false_iff_not] at hab
      obtain ⟨rfl, rfl, rfl, rfl, hne⟩ := hab
      exact ⟨hb, fun ht => hne (Act.tell.inj ht).symm⟩
    | _ => simp [Act.after] at hab
  | _ =>
    have hsame : b = .doze g p till false := by cases b <;> exact hab
    exact ⟨hsame ▸ hb, nofun⟩

namespace Machine

variable {m m' : Machine} {now till : Instant} {limit n : Nat} {e : Event} {c : Caller} {g : Stage}

/-- A caller goes on at a gate. -/
def IsUp (m : Machine) (g : Stage) (c : Caller) : Prop := ∃ j ∈ m.jobs, ∃ a ∈ j.acts, a.IsAt g c

/-- It is still to be told that the budget behind a gate has changed. -/
def WillTell (m : Machine) (g : Stage) : Prop := ∃ j ∈ m.jobs, .tell g ∈ j.acts

/-- The budget behind a gate makes its owner wait until just that moment. -/
def Demands (m : Machine) (g : Stage) (till : Instant) : Prop := ∀ t < till, m.limits.deadline? g t = some till

/-- The owner of a gate is to go on, or sleeps until just the moment that its budget demands, or is still to be told
of a change. So is whoever is about to fall asleep and has heard of none. -/
structure Wakeful (m : Machine) : Prop where
  sound : m.Sound
  turn : ∀ g, (m.limits.gateAt g).hold = .turn → ∀ c ∈ (m.limits.gateAt g).owner?, c ∈ m.limits.woken ∨ m.IsUp g c
  asleep : ∀ g till, (m.limits.gateAt g).hold = .asleep till → m.WillTell g ∨ m.Demands g till
  dozing : ∀ j ∈ m.jobs, ∀ g p till, .doze g p till false ∈ j.acts → m.WillTell g ∨ m.Demands g till

/-! ### What goes on -/

/-- Turns are not taken back by what is done. -/
theorem mem_woken_act (s : Limits) (now : Instant) (a : Act) (hc : c ∈ s.woken) : c ∈ (s.act now a).limits.woken := by
  cases a with
  | start p =>
    obtain ⟨pending, tickets, heq⟩ := Limits.start_eq s now p
    rwa [heq]
  | seek p key =>
    show c ∈ (s.bucketFor key).2.woken
    unfold Limits.bucketFor
    split <;> exact hc
  | join g p =>
    obtain ⟨pending, heq, -⟩ := Limits.join_eq s now g p
    rw [heq]
    exact (Limits.regated_changeGate s g _).woken c hc
  | resume g p =>
    unfold Limits.act
    dsimp only
    split
    · exact (Limits.regated_changeGate s g _).woken c hc
    · exact hc
  | look g p hasHeard =>
    unfold Limits.act Limits.look
    cases g with
    | ceiling => dsimp only; split <;> exact hc
    | bucket i =>
      dsimp only
      split
      · exact hc
      · split <;> exact hc
  | doze g p till hasHeard =>
    cases hasHeard with
    | true => exact List.mem_append_left _ hc
    | false => exact (Limits.regated_changeGate s g _).woken c hc
  | pass g p =>
    have hleft := (Limits.regated_changeGate s g (·.leave p.caller)).woken c hc
    unfold Limits.act
    dsimp only
    split <;> exact hleft
  | write i change => exact Limits.mem_woken_changeBucket hc
  | tell g => exact (Limits.regated_changeGate s g _).woken c hc
  | fold i r =>
    obtain ⟨shared, heq⟩ := Limits.fold_eq s now i r
    rwa [heq]
  | giveBack t => exact (Limits.attends_release s t).1 c hc
  | quit p =>
    exact (Limits.regated_changeGate { s with pending := s.pending.filter (·.caller ≠ p.caller) } p.stage _).woken c hc
  | listen | block | lead => exact hc

section

variable {event : Option Event} {a : Act} {rest done : List Act}

theorem willTell_goOn (hj : m.jobs[n]? = some ⟨event, a :: rest, done⟩) (h : m.WillTell g) (ha : a ≠ .tell g) :
    (m.goOn now n).WillTell g := by
  obtain ⟨j, hjm, htell⟩ := h
  rcases mem_goOn now hj hjm with rfl | hafter
  · have hrest : .tell g ∈ rest := (List.mem_cons.1 htell).resolve_left (Ne.symm ha)
    exact ⟨_, self_mem_goOn now hj, (Act.mem_map_after (b := .tell g) trivial a).2 (List.mem_append_right _ hrest)⟩
  · exact ⟨_, hafter, (Act.mem_map_after (b := .tell g) trivial a).2 htell⟩

theorem isUp_goOn (hj : m.jobs[n]? = some ⟨event, a :: rest, done⟩) (h : m.IsUp g c) (ha : ¬ a.IsAt g c) :
    (m.goOn now n).IsUp g c := by
  obtain ⟨j, hjm, b, hb, hat⟩ := h
  rcases mem_goOn now hj hjm with rfl | hafter
  · have hrest : b ∈ rest := (List.mem_cons.1 hb).resolve_left fun hba => ha (hba ▸ hat)
    exact ⟨_, self_mem_goOn now hj, b.after a, List.mem_map_of_mem (List.mem_append_right _ hrest),
      (Act.isAt_after b a).2 hat⟩
  · exact ⟨_, hafter, b.after a, List.mem_map_of_mem hb, (Act.isAt_after b a).2 hat⟩

/-- What a budget demands it demands still, or somebody is to tell of a change, unless its owner looks. -/
theorem Sound.demands_goOn (h : m.Sound) (hj : m.jobs[n]? = some ⟨event, a :: rest, done⟩)
    (hd : m.WillTell g ∨ m.Demands g till) (ht : a ≠ .tell g) (hl : ∀ p hasHeard, a ≠ .look g p hasHeard) :
    (m.goOn now n).WillTell g ∨ (m.goOn now n).Demands g till := by
  rcases hd with hd | hd
  · exact .inl (willTell_goOn hj hd ht)
  · rcases Limits.deadline?_act (h.suits _ (List.mem_of_getElem? hj)) now g with hsame | hrest | ⟨p, hasHeard, hlook⟩
    · refine .inr fun t hlt => ?_
      rw [goOn_of_cons hj]
      exact (hsame t).trans (hd t hlt)
    · exact .inl ⟨_, self_mem_goOn now hj, (Act.mem_map_after (b := .tell g) trivial a).2 (List.mem_append_right _ hrest)⟩
    · exact absurd hlook (hl p hasHeard)

/-- Nobody else is about to fall asleep at a gate whose owner looks. -/
theorem Sound.doze_of_look (h : m.Sound) {p q : Pending} {hasHeard : Bool} {k : Nat} {j : Job}
    (hj : m.jobs[n]? = some ⟨event, .look g p hasHeard :: rest, done⟩) (hk : m.jobs[k]? = some j)
    (hdoze : .doze g q till false ∈ j.acts) : k = n := by
  obtain ⟨hc, hturn⟩ := (h.suits _ (List.mem_of_getElem? hj)).allows List.mem_cons_self rfl
  obtain ⟨hc', hturn'⟩ := (h.suits _ (List.mem_of_getElem? hk)).allows hdoze rfl
  have hturn : m.limits.HasTurn g p.caller := hturn
  have hturn' : m.limits.HasTurn g q.caller := hturn'
  have hsame : p.caller = q.caller := Option.some.inj (hturn.owner.symm.trans hturn'.owner)
  exact h.apart hk hj hc' (hsame ▸ hc) (List.ne_nil_of_mem hdoze) nofun

end

theorem Wakeful.goOn (h : m.Wakeful) (now : Instant) (n : Nat) : (m.goOn now n).Wakeful := by
  rcases goOn_cases m now n with hsame | ⟨event, a, rest, done, hj⟩
  · rwa [hsame]
  have hmem := List.mem_of_getElem? hj
  have hsuits := h.sound.suits _ hmem
  have hlimits : (m.goOn now n).limits = (m.limits.act now a).limits := by rw [goOn_of_cons hj]
  refine ⟨h.sound.goOn now n, fun g hh c hc => ?_, fun g till hh => ?_, fun j hjm g p till hdoze => ?_⟩
  · rw [hlimits] at hh hc ⊢
    cases Limits.treats_act hsuits now g with
    | same hold owner away told =>
      rw [hold] at hh
      rw [owner] at hc
      exact (h.turn g hh c hc).imp (mem_woken_act _ now a) fun hup => isUp_goOn hj hup (away hh c hc)
    | turned ht => exact .inl (ht.2 c hc)
    | up hold goesOn =>
      obtain ⟨b, hb, hat⟩ := goesOn c hc
      exact .inr ⟨_, self_mem_goOn now hj, b.after a, List.mem_map_of_mem (List.mem_append_left _ hb),
        (Act.isAt_after b a).2 hat⟩
    | asleep p till ha hold => cases hold.symm.trans hh
    | probes hold => cases hold.symm.trans hh
  · rw [hlimits] at hh
    cases Limits.treats_act hsuits now g with
    | same hold owner away told =>
      rw [hold] at hh
      refine h.sound.demands_goOn hj (h.asleep g till hh) (fun ht => told ht till hh) fun p hasHeard hlook => ?_
      -- who looks is not asleep
      subst hlook
      have hturn : m.limits.HasTurn g p.caller := (hsuits.allows List.mem_cons_self rfl).2
      cases hturn.hold.symm.trans hh
    | turned ht => cases ht.1.symm.trans hh
    | up hold => cases hold.symm.trans hh
    | asleep p moment ha hold =>
      cases hold.symm.trans hh
      subst ha
      exact h.sound.demands_goOn hj (h.dozing _ hmem g p till List.mem_cons_self) nofun nofun
    | probes hold => cases hold.symm.trans hh
  · obtain ⟨k, hk⟩ := List.mem_iff_getElem?.1 hjm
    rcases job_goOn hj hk with ⟨rfl, rfl⟩ | ⟨hkn, j, hjk, rfl⟩
    · obtain ⟨hdoze, ht⟩ := Act.doze_of_after hdoze
      rcases List.mem_append.1 hdoze with hnext | hrest
      · obtain ⟨g', q, hasHeard, rfl⟩ := Limits.leadsTo_of_mem_next hnext
        obtain ⟨rfl, hdemands⟩ := Limits.deadline?_of_look (hsuits.allows List.mem_cons_self rfl).2 now hnext
        exact .inr fun t hlt => by rw [hlimits]; exact hdemands t hlt
      · refine h.sound.demands_goOn hj (h.dozing _ hmem g p till (List.mem_cons_of_mem _ hrest)) ht ?_
        rintro q hasHeard rfl
        rw [hsuits.rest_eq_nil rfl] at hrest
        cases hrest
    · obtain ⟨hbefore, ht⟩ := Act.doze_of_after hdoze
      refine h.sound.demands_goOn hj (h.dozing j (List.mem_of_getElem? hjk) g p till hbefore) ht ?_
      rintro q hasHeard rfl
      exact hkn (h.sound.doze_of_look hj hjk hbefore)

/-! ### What begins -/

theorem Wakeful.begin (h : m.Wakeful) {s : Limits} {j : Job} (hs : Sound { limits := s, jobs := m.jobs ++ [j] })
    (hgate : ∀ g, s.gateAt g = m.limits.gateAt g) (hdeadline : ∀ g t, s.deadline? g t = m.limits.deadline? g t)
    (hwoken : ∀ g, ∀ c ∈ (m.limits.gateAt g).owner?, (m.limits.gateAt g).hold = .turn → c ∈ m.limits.woken →
      c ∈ s.woken ∨ ∃ a ∈ j.acts, a.IsAt g c)
    (hdoze : ∀ g p till, .doze g p till false ∉ j.acts) : Wakeful { limits := s, jobs := m.jobs ++ [j] } := by
  have willTell {g : Stage} (ht : m.WillTell g) : WillTell { limits := s, jobs := m.jobs ++ [j] } g :=
    have ⟨k, hk, htell⟩ := ht
    ⟨k, List.mem_append_left _ hk, htell⟩
  have demands {g : Stage} {till : Instant} (hd : m.Demands g till) :
      Demands { limits := s, jobs := m.jobs ++ [j] } g till := fun t hlt => (hdeadline g t).trans (hd t hlt)
  refine ⟨hs, fun g hh c hc => ?_, fun g till hh => ?_, fun k hk g p till hd => ?_⟩
  · rw [hgate] at hh hc
    rcases h.turn g hh c hc with hmem | ⟨k, hk, hat⟩
    · refine (hwoken g c hc hh hmem).imp_right fun hat => ⟨j, ?_, hat⟩
      exact List.mem_append_right _ (List.mem_singleton_self j)
    · exact .inr ⟨k, List.mem_append_left _ hk, hat⟩
  · rw [hgate] at hh
    exact (h.asleep g till hh).imp willTell demands
  · rcases List.mem_append.1 hk with hk | hk
    · exact (h.dozing k hk g p till hd).imp willTell demands
    · exact absurd (List.mem_singleton.1 hk ▸ hd) (hdoze g p till)

/-- Nobody is about to fall asleep who has not looked. -/
theorem doze_not_mem_program (s : Limits) (e : Event) (g : Stage) (p : Pending) (till : Instant) :
    .doze g p till false ∉ s.program e := fun h => by
  rcases Limits.mem_program h with h | ⟨_, h⟩ | ⟨_, h⟩ | ⟨_, h, -⟩ | ⟨_, h, -⟩ <;> cases h

theorem Wakeful.happen (h : m.Wakeful) (free : ∀ c ∈ e.caller?, m.IsFree c) : (m.happen e).Wakeful := by
  have hs := h.sound.happen free
  have hdoze := doze_not_mem_program m.limits e
  unfold Machine.happen at hs ⊢
  cases e with
  | poll c =>
    refine h.begin hs (fun g => by cases g <;> rfl) (fun g t => by cases g <;> rfl) (fun g d hd hh hmem => ?_) hdoze
    by_cases hdc : d = c
    · -- the caller that begins to go on waits at the gate that it owns
      subst hdc
      have hplace := h.sound.orderly.waits_of_owner hd (by rw [hh]; decide)
      obtain ⟨p, hp, hstage⟩ := Limits.waits_of_place hplace
      have hcaller : p.caller = d := by simpa using List.find?_some (Prod.mk.inj hp).2
      refine .inr ⟨.resume p.stage p, ?_, hstage, hcaller⟩
      simp [Limits.program, (Prod.mk.inj hp).2]
    · exact .inl (List.mem_filter.2 ⟨hmem, by simpa using hdc⟩)
  | arrive | record | refuse | withdraw | block =>
    exact h.begin hs (fun _ => rfl) (fun _ _ => rfl) (fun _ _ _ _ hmem => .inl hmem) hdoze

theorem Wakeful.strike (h : m.Wakeful) (i : Nat) (change : Window.Change) : (m.strike i change).Wakeful :=
  h.begin (h.sound.strike i change) (fun _ => rfl) (fun _ _ => rfl) (fun _ _ _ _ hmem => .inl hmem) (by simp)

theorem Wakeful.step (h : m.Wakeful) (hs : m.Step now m') : m'.Wakeful := by
  cases hs with
  | happens e free => exact h.happen free
  | strikes i change => exact h.strike i change
  | goesOn n => exact h.goOn now n

theorem Reachable.wakeful (h : Reachable limit m) : m.Wakeful := by
  induction h with
  | start =>
    have hgate (g : Stage) : (ofLimit limit).limits.gateAt g = {} := by cases g <;> rfl
    refine ⟨Reachable.start.sound, fun g _ c hc => ?_, fun g till hh => ?_, nofun⟩
    · rw [hgate] at hc; cases hc
    · rw [hgate] at hh; cases hh
  | step _ hs ih => exact ih.step hs

end Machine

end ChatApi.Limit
