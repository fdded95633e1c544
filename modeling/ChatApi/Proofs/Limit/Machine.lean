import ChatApi.Proofs.Limit.Custody

/-!
# Callers side by side

Where `Limits.step` does all acts of an event at once, here one act of one caller follows one of any other, in
every order: a `Machine` is the limits together with the jobs that are under way, and `Machine.Step` is one act of
one of them, or an event that begins another. A caller begins nothing before it is done with what it has begun.

Whoever listens at a gate when the budget behind it is told to have changed hears of it (`Act.after`).
-/

namespace ChatApi.Limit

namespace Act

/-- The caller whose act it is, if it concerns one. -/
def caller? : Act → Option Caller
  | .start p | .seek p _ | .join _ p | .resume _ p | .listen _ p | .look _ p _ | .doze _ p _ _ | .pass _ p
  | .quit p => some p.caller
  | .giveBack t => some t.caller
  | .write .. | .block _ | .tell _ | .fold .. | .lead .. => none

/-- Whether an act may follow from `a`. What begins or ends something follows from nothing, and nobody dozes who has not
looked. -/
def LeadsTo (a : Act) : Act → Prop
  | .start _ | .block _ | .fold .. | .giveBack _ | .quit _ => False
  | .doze .. => ∃ g p hasHeard, a = .look g p hasHeard
  | _ => True

/-- What an act is once another was done: whoever listens hears what is told. -/
def after (b a : Act) : Act :=
  match a, b with
  | .tell g, .look g' p hasHeard => .look g' p (hasHeard || g' = g)
  | .tell g, .doze g' p till hasHeard => .doze g' p till (hasHeard || g' = g)
  | _, _ => b

end Act

/-- What is done at an event. -/
structure Job where
  /-- None, where a bucket is written to that no ticket is for. -/
  event : Option Event
  /-- What is still to be done. -/
  acts : List Act
  /-- What is done, the last act last. -/
  done : List Act := []

def Job.caller? (j : Job) : Option Caller := j.event.bind Event.caller?

/-- What a job is once an act of any was done. -/
def Job.after (j : Job) (a : Act) : Job := { j with acts := j.acts.map (·.after a) }

/-- The limits, and what is done with them, the last that was begun last. -/
structure Machine where
  limits : Limits
  jobs : List Job := []

namespace Machine

def ofLimit (limit : Nat) : Machine := { limits := .ofLimit limit }

/-- A caller is done with all that it has begun. -/
def IsFree (m : Machine) (c : Caller) : Prop := ∀ j ∈ m.jobs, j.caller? = some c → j.acts = []

/-- An event begins. Whoever looks again has had the turn that it was given. -/
def happen (m : Machine) (e : Event) : Machine where
  limits := match e with
    | .poll c => { m.limits with woken := m.limits.woken.filter (· ≠ c) }
    | _ => m.limits
  jobs := m.jobs ++ [{ event := some e, acts := m.limits.program e }]

/-- The window of a bucket is written, not for a ticket. -/
def strike (m : Machine) (i : Nat) (change : Window.Change) : Machine :=
  { m with jobs := m.jobs ++ [{ event := none, acts := [.write i change, .tell (.bucket i)] }] }

/-- The next act of a job is done. -/
def goOn (m : Machine) (now : Instant) (n : Nat) : Machine :=
  match m.jobs[n]? with
  | some ⟨event, a :: rest, done⟩ =>
    let o := m.limits.act now a
    { limits := o.limits
      jobs := (m.jobs.set n ⟨event, o.next ++ rest, done ++ [a]⟩).map (·.after a) }
  | _ => m

/-- Several acts are done, each the next one of its job. -/
def goOnAll (m : Machine) (now : Instant) (ns : List Nat) : Machine := ns.foldl (fun m n => m.goOn now n) m

/-- What can come next at a moment. -/
inductive Step (m : Machine) (now : Instant) : Machine → Prop
  | happens (e : Event) (free : ∀ c ∈ e.caller?, m.IsFree c) : Step m now (m.happen e)
  | strikes (i : Nat) (change : Window.Change) : Step m now (m.strike i change)
  | goesOn (n : Nat) : Step m now (m.goOn now n)

/-- The states that a machine can come to. -/
inductive Reachable (limit : Nat) : Machine → Prop
  | start : Reachable limit (ofLimit limit)
  | step {m m' : Machine} {now : Instant} (h : Reachable limit m) (hs : m.Step now m') : Reachable limit m'

variable {m : Machine} {now : Instant} {n k : Nat} {j : Job} {event : Option Event} {a : Act}
  {rest done : List Act}

theorem isFree_ofLimit (limit : Nat) (c : Caller) : (ofLimit limit).IsFree c := fun _ hj => absurd hj List.not_mem_nil

theorem Reachable.happen {limit : Nat} (h : Reachable limit m) (e : Event) (free : ∀ c ∈ e.caller?, m.IsFree c) :
    Reachable limit (m.happen e) :=
  h.step (@Step.happens m 0 e free)

theorem Reachable.goOnAll {limit : Nat} (h : Reachable limit m) (now : Instant) (ns : List Nat) :
    Reachable limit (m.goOnAll now ns) := by
  induction ns generalizing m with
  | nil => exact h
  | cons n ns ih => exact ih (h.step (.goesOn n))

/-! ### Jobs -/

theorem goOn_of_cons (hj : m.jobs[n]? = some ⟨event, a :: rest, done⟩) :
    m.goOn now n =
      { limits := (m.limits.act now a).limits
        jobs := (m.jobs.set n ⟨event, (m.limits.act now a).next ++ rest, done ++ [a]⟩).map (·.after a) } := by
  simp [goOn, hj]

/-- A job that is done, or not there, does not go on. -/
theorem goOn_cases (m : Machine) (now : Instant) (n : Nat) :
    m.goOn now n = m ∨ ∃ event a rest done, m.jobs[n]? = some ⟨event, a :: rest, done⟩ := by
  unfold goOn
  split
  · rename_i event a rest done hj
    exact .inr ⟨event, a, rest, done, hj⟩
  · exact .inl rfl

/-- What a job has become that was under way, or has gone on. -/
theorem job_goOn (hj : m.jobs[n]? = some ⟨event, a :: rest, done⟩) {j' : Job}
    (hk : (m.goOn now n).jobs[k]? = some j') :
    k = n ∧ j' = Job.after ⟨event, (m.limits.act now a).next ++ rest, done ++ [a]⟩ a ∨
      k ≠ n ∧ ∃ j, m.jobs[k]? = some j ∧ j' = j.after a := by
  have hn : n < m.jobs.length := (List.getElem?_eq_some_iff.1 hj).1
  rw [goOn_of_cons hj, List.getElem?_map] at hk
  obtain ⟨j, hset, rfl⟩ := Option.map_eq_some_iff.1 hk
  by_cases hkn : k = n
  · subst hkn
    rw [List.getElem?_set_self hn] at hset
    exact .inl ⟨rfl, by rw [Option.some.inj hset]⟩
  · rw [List.getElem?_set_ne (Ne.symm hkn)] at hset
    exact .inr ⟨hkn, j, hset, rfl⟩

theorem self_mem_goOn (now : Instant) (hj : m.jobs[n]? = some ⟨event, a :: rest, done⟩) :
    Job.after ⟨event, (m.limits.act now a).next ++ rest, done ++ [a]⟩ a ∈ (m.goOn now n).jobs := by
  have hn : n < m.jobs.length := (List.getElem?_eq_some_iff.1 hj).1
  rw [goOn_of_cons hj]
  exact List.mem_map_of_mem (List.mem_set hn _)

/-- Every other job is there still. -/
theorem mem_goOn (now : Instant) (hj : m.jobs[n]? = some ⟨event, a :: rest, done⟩) (hmem : j ∈ m.jobs) :
    j = ⟨event, a :: rest, done⟩ ∨ j.after a ∈ (m.goOn now n).jobs := by
  obtain ⟨k, hk⟩ := List.mem_iff_getElem?.1 hmem
  by_cases hkn : k = n
  · subst hkn
    exact .inl (Option.some.inj (hk.symm.trans hj))
  · rw [goOn_of_cons hj]
    refine .inr (List.mem_map_of_mem (List.mem_of_getElem? (i := k) ?_))
    rwa [List.getElem?_set_ne (Ne.symm hkn)]

/-- A job that has been begun is one that was there, or the new one. -/
theorem job_append {new : Job} {j : Job} (hk : (m.jobs ++ [new])[k]? = some j) :
    m.jobs[k]? = some j ∨ k = m.jobs.length ∧ j = new := by
  rcases Nat.lt_trichotomy k m.jobs.length with hlt | rfl | hlt
  · rw [List.getElem?_append_left hlt] at hk
    exact .inl hk
  · simp only [List.getElem?_concat_length, Option.some.injEq] at hk
    exact .inr ⟨rfl, hk.symm⟩
  · rw [List.getElem?_eq_none (by simp; omega)] at hk
    cases hk

end Machine

namespace Act

variable {b : Act}

@[simp] theorem caller?_after (b a : Act) : (b.after a).caller? = b.caller? := by
  cases a <;> cases b <;> rfl

/-- Whatever is told is of no matter to the act. -/
def IsDeaf : Act → Prop
  | .look .. | .doze .. => False
  | _ => True

theorem after_of_isDeaf (h : b.IsDeaf) (a : Act) : b.after a = b := by
  cases b with
  | look | doze => cases h
  | _ => cases a <;> rfl

theorem map_after_cons {acts : List Act} (h : b.IsDeaf) (a : Act) :
    (b :: acts).map (·.after a) = b :: acts.map (·.after a) := by
  rw [List.map_cons, after_of_isDeaf h]

theorem mem_map_after {acts : List Act} (h : b.IsDeaf) (a : Act) : b ∈ acts.map (·.after a) ↔ b ∈ acts := by
  constructor
  · intro hb
    obtain ⟨x, hx, rfl⟩ := List.mem_map.1 hb
    have hdeaf : x.IsDeaf := by cases a <;> cases x <;> exact h
    rwa [after_of_isDeaf hdeaf a]
  · exact fun hb => List.mem_map.2 ⟨b, hb, after_of_isDeaf h a⟩

end Act

end ChatApi.Limit
