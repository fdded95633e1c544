import ChatApi.Proofs.Limit.Concert

/-!
# A job that nobody comes between

`Limits.step` is what a machine does where an event begins and all its acts are done before anything else is
(`Machine.Reachable.step_of_unbroken`). What a caller has told of in a job it does not hear of in the same job, since
acts for all come first in it, and nothing of its own that listens comes after them (`Act.AreInOrder`).
-/

namespace ChatApi.Limit

/-- Either all acts of a job are its caller's, or none but one that gives a ticket back. -/
def Act.AreInOrder (acts : List Act) : Prop :=
  (∀ a ∈ acts, a.caller?.isSome) ∨ ∀ a ∈ acts, a.caller? = none ∨ ∃ t, a = .giveBack t

namespace Limits

variable {s : Limits} {now : Instant} {c : Option Caller} {a b : Act} {acts rest : List Act}

theorem areInOrder_program (s : Limits) (e : Event) : Act.AreInOrder (s.program e) := by
  have answers {acts : List Act} {t : Ticket} (hacts : ∀ a ∈ acts, a.caller? = none) :
      Act.AreInOrder (acts ++ [.giveBack t]) := by
    refine .inr fun a ha => ?_
    rcases List.mem_append.1 ha with ha | ha
    · exact .inl (hacts a ha)
    · exact .inr ⟨t, List.mem_singleton.1 ha⟩
  cases e with
  | arrive c wanted =>
    simp only [program]
    split <;> exact .inl (by simp [Act.caller?])
  | poll c =>
    simp only [program]
    split <;> exact .inl (by simp [Act.caller?])
  | record c r =>
    simp only [program]
    split
    · exact answers fun _ => caller?_of_mem_takeOver
    · exact .inl (by simp)
  | refuse c r body =>
    simp only [program]
    split
    · exact answers fun _ => caller?_of_mem_takeOverRefusal
    · exact .inl (by simp)
  | withdraw c =>
    simp only [program]
    split <;> exact .inl (by simp [Act.caller?])
  | block wait => exact .inr fun a ha => .inl (by simp [program] at ha; rcases ha with rfl | rfl <;> rfl)

/-- What follows from an act for all is for all, too. -/
theorem caller?_of_mem_next (ha : a.caller? = none) (hb : b ∈ (s.act now a).next) : b.caller? = none := by
  cases a with
  | fold i r =>
    unfold act at hb
    dsimp only at hb
    split at hb
    · split at hb
      · cases hb
      · split at hb
        · cases hb
        · simp only [List.mem_cons, List.not_mem_nil, or_false] at hb
          rcases hb with rfl | rfl | rfl <;> rfl
    · cases hb
  | write | block | tell | lead => cases hb
  | _ => cases ha

theorem Suits.areInOrder (h : Suits s c (a :: rest)) (ho : Orderly s) (now : Instant)
    (hacts : Act.AreInOrder (a :: rest)) : Act.AreInOrder ((s.act now a).next ++ rest) := by
  rcases hacts with hown | hall
  · obtain ⟨d, hd⟩ := Option.isSome_iff_exists.1 (hown a List.mem_cons_self)
    rw [h.rest_eq_nil hd, List.append_nil]
    refine .inl fun b hb => ?_
    rcases (upholds_act ho h.allows_head hd now).next with hnext | ⟨b', hnext, hb', -⟩
    · rw [hnext] at hb
      cases hb
    · rw [hnext] at hb
      rw [List.mem_singleton.1 hb, hb']
      rfl
  · refine .inr fun b hb => ?_
    rcases List.mem_append.1 hb with hb | hb
    · rcases hall a List.mem_cons_self with ha | ⟨t, rfl⟩
      · exact .inl (caller?_of_mem_next ha hb)
      · cases hb
    · exact hall b (List.mem_cons_of_mem _ hb)

/-- A job does not hear what is told in it. -/
theorem map_after_of_areInOrder (h : Suits s c (a :: rest)) (hacts : Act.AreInOrder (a :: rest)) :
    ((s.act now a).next ++ rest).map (·.after a) = (s.act now a).next ++ rest := by
  cases a with
  | tell g =>
    rcases hacts with hown | hall
    · cases hown _ List.mem_cons_self
    · refine (List.map_congr_left fun b hb => ?_).trans (List.map_id _)
      rcases hall b (List.mem_cons_of_mem _ hb) with hb | ⟨t, rfl⟩
      · cases b <;> first | rfl | cases hb
      · rfl
  | _ => exact (List.map_congr_left fun b _ => by cases b <;> rfl).trans (List.map_id _)

end Limits

namespace Machine

variable {m : Machine} {now : Instant} {limit n : Nat} {e : Event} {event : Option Event} {acts done : List Act}

/-- Where all acts of a job are done one after another, the limits come to what finishing the job makes of them. -/
theorem Sound.finish_of_unbroken (h : m.Sound) (hj : m.jobs[n]? = some ⟨event, acts, done⟩)
    (hacts : Act.AreInOrder acts) (turn : Turn) :
    ∃ k done', (m.goOnAll now (List.replicate k n)).limits = (m.limits.finish now turn acts).1 ∧
      (m.goOnAll now (List.replicate k n)).jobs[n]? = some ⟨event, [], done'⟩ := by
  -- along what is still to be done, which each act makes less
  induction hw : Act.weigh acts using Nat.strongRecOn generalizing m acts done turn with
  | ind w ih =>
    cases acts with
    | nil => exact ⟨0, done, by simp [goOnAll], hj⟩
    | cons a rest =>
      have hsuits := h.suits _ (List.mem_of_getElem? hj)
      have hn : n < m.jobs.length := (List.getElem?_eq_some_iff.1 hj).1
      have hnext : (m.goOn now n).jobs[n]? = some ⟨event, (m.limits.act now a).next ++ rest, done ++ [a]⟩ := by
        rw [goOn_of_cons hj, List.getElem?_map, List.getElem?_set_self hn, Option.map_some, Job.after,
          Limits.map_after_of_areInOrder hsuits hacts]
      have hlt : Act.weigh ((m.limits.act now a).next ++ rest) < w := by
        have := Act.weight_next m.limits now a
        rw [← hw, Act.weigh_append, Act.weigh]
        omega
      obtain ⟨k, done', hlimits, hdone⟩ := ih _ hlt (h.goOn now n) hnext
        (hsuits.areInOrder h.orderly now hacts) ((m.limits.act now a).turn.or turn) rfl
      refine ⟨k + 1, done', ?_, hdone⟩
      rw [Limits.finish_cons]
      refine hlimits.trans ?_
      rw [goOn_of_cons hj]

/-- An event that is seen to before anything else happens makes of the limits what `Limits.step` makes of them. -/
theorem Reachable.step_of_unbroken (h : Reachable limit m) (free : ∀ c ∈ e.caller?, m.IsFree c) (now : Instant) :
    ∃ m', Reachable limit m' ∧ m'.limits = ((m.happen e).limits.step now e).1 ∧
      ∃ done, m'.jobs[m.jobs.length]? = some ⟨some e, [], done⟩ := by
  have hbegun := h.happen e free
  have hprogram : (m.happen e).limits.program e = m.limits.program e := by cases e <;> rfl
  have hjob : (m.happen e).jobs[m.jobs.length]? = some ⟨some e, m.limits.program e, []⟩ := by
    simp [Machine.happen]
  obtain ⟨k, done, hlimits, hdone⟩ :=
    hbegun.sound.finish_of_unbroken hjob (Limits.areInOrder_program m.limits e) .unchanged
  refine ⟨_, hbegun.goOnAll now (List.replicate k m.jobs.length), ?_, done, hdone⟩
  rw [hlimits, Limits.step, hprogram]

end Machine

end ChatApi.Limit
