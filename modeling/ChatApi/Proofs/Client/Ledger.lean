import Mathlib.Algebra.BigOperators.Group.List.Basic
import Mathlib.Algebra.GroupWithZero.Nat
import Mathlib.Data.List.Induction
import ChatApi.Client.Metrics
import ChatApi.Client.Progress

/-!
# Counts are conserved

A `Ledger` is what comes of the counts of a client when attempts are counted and counts are read, in any
order. Every attempt counts once in the total and once in a class, and what was read since the last time adds
up to the counts of the whole lifetime (`Ledger.sound_run`). Where the limits saw every refusal, the classes
count the outcomes that calls go by (`tells_run`).
-/

namespace ChatApi.Client

namespace Counters

instance : Add Counters where
  add a b :=
    { total := a.total + b.total
      successful := a.successful + b.successful
      rateLimited := a.rateLimited + b.rateLimited
      badRequest := a.badRequest + b.badRequest
      forbidden := a.forbidden + b.forbidden
      notFound := a.notFound + b.notFound
      otherClientErrors := a.otherClientErrors + b.otherClientErrors
      serverErrors := a.serverErrors + b.serverErrors
      transportFailures := a.transportFailures + b.transportFailures }

instance : Zero Counters := ⟨{}⟩

attribute [ext] Counters

variable {c d : Counters} {status : Option Http.Status}

theorem add_def (a b : Counters) : a + b =
    { total := a.total + b.total
      successful := a.successful + b.successful
      rateLimited := a.rateLimited + b.rateLimited
      badRequest := a.badRequest + b.badRequest
      forbidden := a.forbidden + b.forbidden
      notFound := a.notFound + b.notFound
      otherClientErrors := a.otherClientErrors + b.otherClientErrors
      serverErrors := a.serverErrors + b.serverErrors
      transportFailures := a.transportFailures + b.transportFailures } := rfl

theorem zero_def : (0 : Counters) = {} := rfl

instance : AddCommMonoid Counters where
  add_assoc a b c := by simp only [add_def, Nat.add_assoc]
  zero_add a := by simp only [add_def, zero_def, Nat.zero_add]
  add_zero a := by simp only [add_def, zero_def, Nat.add_zero]
  add_comm a b := by simp only [add_def, Nat.add_comm]
  nsmul := nsmulRec

/-- An attempt adds the counts of that attempt alone. -/
theorem record_eq_add (c : Counters) (status : Option Http.Status) :
    c.record status = c + Counters.record 0 status := by
  unfold record
  cases status with
  | none => rfl
  | some s =>
    dsimp only
    split_ifs <;> rfl

theorem record_add (c d : Counters) (status : Option Http.Status) : (c + d).record status = c + d.record status := by
  rw [record_eq_add, add_assoc, ← record_eq_add]

/-- The total is that of all classes. -/
def Balanced (c : Counters) : Prop := c.total = c.classes.sum

theorem Balanced.zero : Balanced 0 := rfl

theorem total_record (c : Counters) (status : Option Http.Status) : (c.record status).total = c.total + 1 := by
  unfold record
  cases status with
  | none => rfl
  | some s =>
    dsimp only
    split_ifs <;> rfl

/-- Every attempt is in just one class. -/
theorem Balanced.record (h : c.Balanced) (status : Option Http.Status) : (c.record status).Balanced := by
  have hsum : (c.record status).classes.sum = c.classes.sum + 1 := by
    unfold Counters.record
    cases status with
    | none => simp only [classes, List.sum_cons, List.sum_nil]; omega
    | some s =>
      dsimp only
      split_ifs <;> simp only [classes, List.sum_cons, List.sum_nil] <;> omega
  rw [Balanced, total_record, hsum, h]

/-- No class counts more than all attempts. -/
theorem Balanced.le_total (h : c.Balanced) : ∀ n ∈ c.total :: c.classes, n ≤ c.total := by
  intro n hn
  simp only [Balanced, classes, List.sum_cons, List.sum_nil] at h
  simp only [classes, List.mem_cons, List.not_mem_nil, or_false] at hn
  omega

end Counters

/-! ### Counting and reading -/

namespace Metrics

/-- What can be done with the counts of a client. -/
inductive Op
  /-- An attempt is counted. -/
  | count (status : Option Http.Status)
  /-- The counts are read, of the whole lifetime or since they were last read so. -/
  | read (sinceLast : Bool)

/-- Whether an attempt is counted. -/
def Op.isCount : Op → Bool
  | count _ => true
  | read _ => false

/-- Reads the counts. Those since the last time start again from zero. -/
def read (m : Metrics) : (sinceLast : Bool) → Counters × Metrics
  | true => m.takeInterval
  | false => (m.lifetime, m)

end Metrics

open Metrics (Op)

/-- The counts of a client, and what was read of them. -/
structure Ledger where
  metrics : Metrics := {}
  /-- The counts that were read, the first ones first, and whether they were those since the last time. -/
  readings : List (Bool × Counters) := []

namespace Ledger

def step (l : Ledger) : Op → Ledger
  | .count status => { l with metrics := l.metrics.record status }
  | .read sinceLast =>
    { metrics := (l.metrics.read sinceLast).2
      readings := l.readings ++ [(sinceLast, (l.metrics.read sinceLast).1)] }

/-- What comes of new counts. -/
def run (ops : List Op) : Ledger := ops.foldl step {}

/-- What was read of the counts since the last time. -/
def taken (l : Ledger) : List Counters := (l.readings.filter (·.1)).map (·.2)

/-- All counts that there are and that were read. -/
def all (l : Ledger) : List Counters := l.metrics.lifetime :: l.metrics.interval :: l.readings.map (·.2)

/-- No count is lost. -/
structure Sound (l : Ledger) (attempts : Nat) : Prop where
  balanced : ∀ c ∈ l.all, c.Balanced
  conserved : l.taken.sum + l.metrics.interval = l.metrics.lifetime
  counted : l.metrics.lifetime.total = attempts
  bounded : ∀ c ∈ l.all, c.total ≤ attempts

variable {l : Ledger} {attempts : Nat}

theorem Sound.count (h : l.Sound attempts) (status : Option Http.Status) :
    (l.step (.count status)).Sound (attempts + 1) := by
  refine ⟨fun c hc => ?_, ?_, ?_, fun c hc => ?_⟩
  · simp only [all, step, Metrics.record, List.mem_cons] at hc
    rcases hc with rfl | rfl | hc
    · exact (h.balanced _ (by simp [all])).record status
    · exact (h.balanced _ (by simp [all])).record status
    · exact h.balanced c (by simp [all, hc])
  · show l.taken.sum + l.metrics.interval.record status = l.metrics.lifetime.record status
    rw [← Counters.record_add, h.conserved]
  · exact (Counters.total_record ..).trans (congrArg (· + 1) h.counted)
  · simp only [all, step, Metrics.record, List.mem_cons] at hc
    rcases hc with rfl | rfl | hc
    · exact Nat.le_of_eq ((Counters.total_record ..).trans (congrArg (· + 1) h.counted))
    · rw [Counters.total_record]
      exact Nat.succ_le_succ (h.bounded _ (by simp [all]))
    · exact Nat.le_succ_of_le (h.bounded c (by simp [all, hc]))

theorem Sound.read (h : l.Sound attempts) (sinceLast : Bool) : (l.step (.read sinceLast)).Sound attempts := by
  -- whatever is there afterwards was there before, but for counts that start again
  have mem {c : Counters} (hc : c ∈ (l.step (.read sinceLast)).all) : c = 0 ∨ c ∈ l.all := by
    cases sinceLast <;>
      simp only [all, step, Metrics.read, Metrics.takeInterval, List.map_append, List.mem_cons,
        List.mem_append, List.map_cons, List.map_nil, List.not_mem_nil, or_false] at hc ⊢ <;>
      tauto
  refine ⟨fun c hc => ?_, ?_, ?_, fun c hc => ?_⟩
  · rcases mem hc with rfl | hc
    · exact .zero
    · exact h.balanced c hc
  · cases sinceLast with
    | false => simpa [taken, step, Metrics.read, List.filter_append] using h.conserved
    | true =>
      have htaken : (l.step (.read true)).taken = l.taken ++ [l.metrics.interval] := by
        simp [taken, step, Metrics.read, Metrics.takeInterval, List.filter_append]
      rw [htaken, List.sum_append, List.sum_singleton]
      exact (add_zero _).trans h.conserved
  · cases sinceLast <;> exact h.counted
  · rcases mem hc with rfl | hc
    · exact Nat.zero_le _
    · exact h.bounded c hc

/-- Whatever is counted and read, no count is lost. -/
theorem sound_run (ops : List Op) : (run ops).Sound (ops.countP Op.isCount) := by
  induction ops using List.reverseRecOn with
  | nil =>
    refine ⟨fun c hc => ?_, rfl, rfl, fun c hc => ?_⟩
    · simp only [run, List.foldl_nil, all, List.map_nil, List.mem_cons, List.not_mem_nil, or_false] at hc
      rcases hc with rfl | rfl <;> exact .zero
    · simp only [run, List.foldl_nil, all, List.map_nil, List.mem_cons, List.not_mem_nil, or_false] at hc
      rcases hc with rfl | rfl <;> exact Nat.zero_le _
  | append_singleton ops op ih =>
    rw [run, List.foldl_concat, List.countP_append, List.countP_singleton]
    cases op with
    | count status => exact ih.count status
    | read sinceLast => exact ih.read sinceLast

end Ledger

/-! ### Outcomes -/

/-- The status that an attempt ended with, if it got a response. -/
def AttemptEnd.status? : AttemptEnd → Option Http.Status
  | .noResponse => none
  | .response r _ => some r.status

/-- The limits saw a response if it was a refusal. -/
def AttemptEnd.IsSeen : AttemptEnd → Prop
  | .noResponse => True
  | .response r limited => r.status = .tooManyRequests → limited.isSome

/-- The kinds of outcomes. -/
inductive Outcome.Kind
  | success
  | clientError
  | rateLimited
  | serverError
  | networkFailure
  deriving DecidableEq

def Outcome.kind : Outcome → Outcome.Kind
  | .success => .success
  | .clientError => .clientError
  | .rateLimited _ _ => .rateLimited
  | .serverError => .serverError
  | .networkFailure => .networkFailure

/-- The counts of a kind of outcome: there are four for errors of the client. -/
def Counters.ofKind (c : Counters) : Outcome.Kind → Nat
  | .success => c.successful
  | .clientError => c.badRequest + c.forbidden + c.notFound + c.otherClientErrors
  | .rateLimited => c.rateLimited
  | .serverError => c.serverErrors
  | .networkFailure => c.transportFailures

/-- The counts tell how some attempts ended. -/
structure Counters.Tells (c : Counters) (ends : List AttemptEnd) : Prop where
  total : c.total = ends.length
  kinds : ∀ kind, c.ofKind kind = ends.countP (·.outcome.kind = kind)

theorem Counters.Tells.zero : Counters.Tells 0 [] := ⟨rfl, fun kind => by cases kind <;> rfl⟩

/-- An attempt counts in the class of its outcome. -/
theorem Counters.ofKind_record (c : Counters) {e : AttemptEnd} (seen : e.IsSeen) (kind : Outcome.Kind) :
    (c.record e.status?).ofKind kind = c.ofKind kind + if e.outcome.kind = kind then 1 else 0 := by
  cases e with
  | noResponse => cases kind <;> rfl
  | response r limited =>
    by_cases hlimited : r.status = .tooManyRequests
    · obtain ⟨⟨wait, isGlobal⟩, rfl⟩ := Option.isSome_iff_exists.1 (seen hlimited)
      have ho : (AttemptEnd.response r (some (wait, isGlobal))).outcome = .rateLimited wait isGlobal :=
        if_pos hlimited
      rw [ho, AttemptEnd.status?, hlimited]
      cases kind <;> rfl
    · have ho : (AttemptEnd.response r limited).outcome = .ofStatus r.status := by
        cases limited with
        | none => rfl
        | some limited => exact if_neg hlimited
      rw [ho, AttemptEnd.status?, Outcome.ofStatus, Counters.record]
      dsimp only
      cases hs : r.status.isSuccess with
      | true => cases kind <;> rfl
      | false =>
        cases he : r.status.isServerError with
        | true =>
          -- no status that has a class of its own is one of a server error
          have ne {s : Http.Status} (h : s.isServerError = false) : r.status ≠ s := by
            rintro rfl
            rw [he] at h
            cases h
          simp only [Bool.false_eq_true, if_false, if_true, hlimited, ne (s := .badRequest) rfl,
            ne (s := .forbidden) rfl, ne (s := .notFound) rfl]
          cases kind <;> rfl
        | false =>
          simp only [Bool.false_eq_true, if_false, hlimited, Outcome.kind]
          cases kind <;> simp only [ofKind, reduceCtorEq, if_true, if_false] <;> split_ifs <;> dsimp only <;> omega

theorem Counters.Tells.record {c : Counters} {ends : List AttemptEnd} (h : c.Tells ends) {e : AttemptEnd}
    (seen : e.IsSeen) : (c.record e.status?).Tells (ends ++ [e]) := by
  refine ⟨?_, fun kind => ?_⟩
  · rw [Counters.total_record, h.total, List.length_append, List.length_singleton]
  · rw [Counters.ofKind_record c seen, h.kinds, List.countP_append, List.countP_singleton]
    simp only [decide_eq_true_eq]

/-- What becomes of the counts of a client: an attempt ends, or they are read. -/
inductive Deed
  | ended (e : AttemptEnd)
  | read (sinceLast : Bool)

namespace Deed

def op : Deed → Op
  | ended e => .count e.status?
  | read sinceLast => .read sinceLast

/-- The attempts that ended. -/
def ends (deeds : List Deed) : List AttemptEnd :=
  deeds.foldl (fun ends deed => match deed with
    | ended e => ends ++ [e]
    | read _ => ends) []

/-- The attempts that ended since the counts were last read as those since the last time. -/
def recent (deeds : List Deed) : List AttemptEnd :=
  deeds.foldl (fun ends deed => match deed with
    | ended e => ends ++ [e]
    | read true => []
    | read false => ends) []

end Deed

/-- The counts tell how attempts ended, those of the interval since they were last read. -/
theorem Ledger.tells_run {deeds : List Deed} (seen : ∀ e, .ended e ∈ deeds → e.IsSeen) :
    (run (deeds.map Deed.op)).metrics.lifetime.Tells (Deed.ends deeds) ∧
      (run (deeds.map Deed.op)).metrics.interval.Tells (Deed.recent deeds) := by
  induction deeds using List.reverseRecOn with
  | nil => exact ⟨.zero, .zero⟩
  | append_singleton deeds deed ih =>
    obtain ⟨hlifetime, hinterval⟩ := ih fun e he => seen e (List.mem_append_left _ he)
    rw [List.map_append, run, List.foldl_append, Deed.ends, Deed.recent, List.foldl_concat, List.foldl_concat]
    cases deed with
    | ended e =>
      have he : e.IsSeen := seen e (by simp)
      exact ⟨hlifetime.record he, hinterval.record he⟩
    | read sinceLast =>
      cases sinceLast with
      | true => exact ⟨hlifetime, .zero⟩
      | false => exact ⟨hlifetime, hinterval⟩

end ChatApi.Client
