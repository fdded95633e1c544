import ChatApi.Client.Retry
import Mathlib.Order.Lattice
import Mathlib.Algebra.Order.Ring.Nat

/-!
# How long a retry waits

The wait before a retry doubles up to a cap and has a random offset on top. `RetryPolicy.heldBackoff?` computes it
in spans of a bounded length, as a clock does: a product that is too long counts as the cap, and there is no wait
if the sum is too long. Where the longest wait with the greatest offset can be held, that never happens and both
computations agree (`heldBackoff?_eq`).

The factor of the doubling is held in 32 bits. So the wait doubles 31 times, and one that has not come to the cap by
then stays at `2 ^ 32 - 1` first waits (`backoff_between_unless_factor_is_cut`).
-/

namespace ChatApi

namespace Span

/-- The longest span that can be held: the seconds of 64 bits, and the nanoseconds of one more but the last. -/
def longest : Span := UInt64.size * second - 1

/-- A span, if it can be held. -/
def held? (d : Nat) : Option Span := if d ≤ longest then some d else none

end Span

namespace Client

theorem Draws.take_le (draws : Draws) (most : Nat) : (draws.take most).1 ≤ most := by
  unfold Draws.take
  split
  · exact Nat.zero_le _
  · cases draws with
    | nil => exact Nat.zero_le _
    | cons d rest => exact Nat.min_le_right ..

namespace RetryPolicy

/-- The wait before retry `n` in spans that can be held, and the draws left after its offset. -/
def heldBackoff? (p : RetryPolicy) (n : Nat) (draws : Draws) : Option (Span × Draws) :=
  let delay := min ((Span.held? (p.baseDelay * doublings n)).getD p.maxDelay) p.maxDelay
  let (offset, rest) := draws.take p.maxOffset
  (Span.held? (delay + Span.ofMillis offset)).map (·, rest)

variable {p : RetryPolicy} {n : Nat}

/-- The doublings are as many as 32 bits hold. -/
theorem doublings_eq (n : Nat) : doublings n = min (2 ^ n) (2 ^ 32 - 1) := by
  unfold doublings
  split
  · rename_i hn
    have hlt : 2 ^ n ≤ 2 ^ 31 := Nat.pow_le_pow_right (by decide) (by omega)
    show 2 ^ n = _
    omega
  · rename_i hn
    have hle : 2 ^ 32 ≤ 2 ^ n := Nat.pow_le_pow_right (by decide) (by omega)
    show 2 ^ 32 - 1 = _
    omega

/-- The offset is at most a quarter of the first wait. -/
theorem offset_le (p : RetryPolicy) (draws : Draws) :
    Span.ofMillis (draws.take p.maxOffset).1 ≤ p.baseDelay / 4 := by
  have htake : (draws.take p.maxOffset).1 ≤ p.baseDelay / 1000000 / 4 :=
    Nat.le_trans (draws.take_le p.maxOffset) (Nat.mod_le ..)
  unfold Span.ofMillis
  unfold Span at *
  omega

/-- A product that is too long to be held is longer than the cap. -/
theorem min_held?_getD {cap : Span} (hcap : cap ≤ Span.longest) (d : Nat) :
    min ((Span.held? d).getD cap) cap = min d cap := by
  unfold Span.held?
  split
  · rfl
  · rename_i hd
    have hle : cap ≤ d := Nat.le_trans hcap (Nat.le_of_not_le hd)
    exact (Nat.min_self cap).trans (Nat.min_eq_right hle).symm

/-- Where the longest wait with the greatest offset can be held, so can every wait. -/
theorem heldBackoff?_eq (fits : p.maxDelay + p.baseDelay / 4 ≤ Span.longest) (n : Nat) (draws : Draws) :
    p.heldBackoff? n draws = some (p.backoff n draws) := by
  have hcap : p.maxDelay ≤ Span.longest := Nat.le_trans (Nat.le_add_right ..) fits
  have hsum : p.cappedDelay n + Span.ofMillis (draws.take p.maxOffset).1 ≤ Span.longest :=
    Nat.le_trans (Nat.add_le_add (Nat.min_le_right ..) (p.offset_le draws)) fits
  unfold heldBackoff?
  rw [min_held?_getD hcap]
  show (Span.held? (p.cappedDelay n + Span.ofMillis (draws.take p.maxOffset).1)).map _ = _
  rw [Span.held?, if_pos hsum]
  rfl

/-- The wait doubles up to the cap unless the factor is cut first. -/
theorem le_cappedDelay_iff : min (p.baseDelay * 2 ^ n) p.maxDelay ≤ p.cappedDelay n ↔
    n < 32 ∨ p.baseDelay = 0 ∨ p.maxDelay ≤ p.baseDelay * (2 ^ 32 - 1) := by
  unfold cappedDelay
  rw [doublings_eq]
  generalize p.baseDelay = base
  generalize p.maxDelay = cap
  unfold Span at *
  by_cases hn : n < 32
  · have hlt : 2 ^ n ≤ 2 ^ 31 := Nat.pow_le_pow_right (by decide) (by omega)
    rw [Nat.min_eq_left (show 2 ^ n ≤ 2 ^ 32 - 1 by omega)]
    simp [hn]
  · have hle : 2 ^ 32 ≤ 2 ^ n := Nat.pow_le_pow_right (by decide) (by omega)
    rw [Nat.min_eq_right (show 2 ^ 32 - 1 ≤ 2 ^ n by omega)]
    constructor
    · intro h
      by_cases hbase : base = 0
      · exact .inr (.inl hbase)
      · -- a first wait that is not zero gets longer with every doubling
        have hmore : base * (2 ^ 32 - 1) < base * 2 ^ n :=
          Nat.mul_lt_mul_of_pos_left (by omega) (by omega)
        omega
    · rintro (h | h | h)
      · exact absurd h hn
      · simp [h]
      · omega

/-- Where the longest wait with the greatest offset can be held, computing a wait never fails. The wait is the first
one times `2 ^ n` up to the cap, with an offset of at most a quarter of the first. Only the factor is cut at
`2 ^ 32 - 1`: the wait is not shorter than it should be exactly where there are less than 32 doublings, or nothing
to double, or the cap is reached by then. -/
theorem backoff_between_unless_factor_is_cut (p : RetryPolicy) (n : Nat)
    (fits : p.maxDelay + p.baseDelay / 4 ≤ Span.longest) :
    (∀ draws, p.heldBackoff? n draws = some (p.backoff n draws)) ∧
    (∀ draws, min (p.baseDelay * min (2 ^ n) (2 ^ 32 - 1)) p.maxDelay ≤ (p.backoff n draws).1 ∧
      (p.backoff n draws).1 ≤ min (p.baseDelay * min (2 ^ n) (2 ^ 32 - 1)) p.maxDelay + p.baseDelay / 4 ∧
      (p.backoff n draws).1 ≤ min (p.baseDelay * 2 ^ n) p.maxDelay + p.baseDelay / 4) ∧
    ((∀ draws, min (p.baseDelay * 2 ^ n) p.maxDelay ≤ (p.backoff n draws).1) ↔
      n < 32 ∨ p.baseDelay = 0 ∨ p.maxDelay ≤ p.baseDelay * (2 ^ 32 - 1)) := by
  have hcapped : p.cappedDelay n = min (p.baseDelay * min (2 ^ n) (2 ^ 32 - 1)) p.maxDelay := by
    rw [← doublings_eq]
    rfl
  have hwait (draws : Draws) :
      (p.backoff n draws).1 = p.cappedDelay n + Span.ofMillis (draws.take p.maxOffset).1 := rfl
  refine ⟨heldBackoff?_eq fits n, fun draws => ⟨?_, ?_, ?_⟩, ?_, ?_⟩
  · rw [← hcapped, hwait]
    exact Nat.le_add_right ..
  · rw [← hcapped, hwait]
    exact Nat.add_le_add_left (p.offset_le draws) _
  · have hle : p.cappedDelay n ≤ min (p.baseDelay * 2 ^ n) p.maxDelay := by
      rw [hcapped]
      exact min_le_min_right _ (Nat.mul_le_mul_left _ (Nat.min_le_left ..))
    exact Nat.add_le_add hle (p.offset_le draws)
  · intro h
    -- without draws left there is no offset
    have hnone : Span.ofMillis (Draws.take [] p.maxOffset).1 = 0 := by
      simp [Draws.take, Span.ofMillis]
    have h := h []
    rw [hwait, hnone] at h
    exact le_cappedDelay_iff.mp h
  · intro h draws
    exact Nat.le_trans (le_cappedDelay_iff.mpr h) (Nat.le_add_right ..)

/-- The standard waits have come to their cap of eight seconds with the fourth doubling, and an offset of up to 125
milliseconds comes on top. -/
theorem standard_backoff_four : standard.maxDelay + standard.baseDelay / 4 ≤ Span.longest ∧
    standard.heldBackoff? 4 [200] = some (Span.ofMillis 8125, []) ∧
    min (standard.baseDelay * 2 ^ 4) standard.maxDelay ≤ (standard.backoff 4 [200]).1 := by
  have fits : standard.maxDelay + standard.baseDelay / 4 ≤ Span.longest := by decide
  obtain ⟨hheld, -, hcut⟩ := backoff_between_unless_factor_is_cut standard 4 fits
  exact ⟨fits, (hheld [200]).trans (by decide), hcut.mpr (.inl (by omega)) [200]⟩

/-- A first wait of one nanosecond stays short of a cap of ten seconds, however often it is doubled. -/
theorem backoff_forty_of_nanosecond :
    let p : RetryPolicy := ⟨41, 1, Span.ofMillis 10000⟩
    p.maxDelay + p.baseDelay / 4 ≤ Span.longest ∧
    (p.backoff 40 []).1 = 4294967295 ∧ (p.backoff 40 []).1 < min (p.baseDelay * 2 ^ 40) p.maxDelay := by
  decide

end RetryPolicy

end Client

end ChatApi
