import ChatApi.Limit.Ceiling
import Mathlib.Data.List.Induction

/-!
# The pace of the account

Requests ask the limit of the account for slots, and blocks hold them all back for a while.
`Ceiling.run` is what a history of these makes of the limit, `Ceiling.grants` the moments at which it
let requests through.

The limit itself remembers four things. `deadlines` and `spent` say from the whole past what is to be
known at a moment: until when each block lasts, and how many requests were let through in the window
that goes on. `Reflects` says that what is remembered is enough for that; every operation keeps it
(`reflects_apply`).

Main theorem `granted_iff_open_and_unspent`: a request is let through exactly when all blocks are over
and the window is not used up. `Paced` is what follows for the moments of the requests let through; no
second has more than two windows' worth of them (`Paced.countP_second_le`).
-/

namespace ChatApi.Limit.Ceiling

inductive Op
  /-- A request asks for a slot. -/
  | reserve
  /-- All requests are held back for a while. -/
  | block (wait : Span)
  deriving DecidableEq

/-- Operations, each with the moment at which it happens. -/
abbrev History := List (Instant × Op)

/-- No operation happens before the one that is listed before it. -/
def Chronological (h : History) : Prop := h.Pairwise (·.1 ≤ ·.1)

instance (h : History) : Decidable (Chronological h) := inferInstanceAs (Decidable (h.Pairwise _))

/-- Whether a request is let through. -/
def lets (c : Ceiling) (now : Instant) : Bool := (c.reserve now).2.isNone

def apply (c : Ceiling) (now : Instant) : Op → Ceiling
  | .reserve => (c.reserve now).1
  | .block wait => c.block now wait

/-- The moment of an operation, if it is a request that is let through. -/
def granted (c : Ceiling) (now : Instant) : Op → List Instant
  | .reserve => if c.lets now then [now] else []
  | .block _ => []

/-- The limit after a history. -/
def run (c : Ceiling) (h : History) : Ceiling := h.foldl (fun c e => c.apply e.1 e.2) c

/-- The moments at which the requests of a history are let through. -/
def grants : Ceiling → History → List Instant
  | _, [] => []
  | c, (now, op) :: h => c.granted now op ++ grants (c.apply now op) h

variable {c : Ceiling} {limit : Nat} {now start t : Instant} {op : Op} {h : History} {gs : List Instant}

theorem run_concat (c : Ceiling) (h : History) (now : Instant) (op : Op) :
    c.run (h ++ [(now, op)]) = (c.run h).apply now op := by
  simp [run]

theorem grants_concat (c : Ceiling) (h : History) (now : Instant) (op : Op) :
    c.grants (h ++ [(now, op)]) = c.grants h ++ (c.run h).granted now op := by
  induction h generalizing c with
  | nil => simp [grants, run]
  | cons e h ih =>
    obtain ⟨moment, op'⟩ := e
    simp only [List.cons_append, grants, ih, run, List.foldl_cons, List.append_assoc]

/-! ### What is to be known of the past -/

/-- Until when an operation holds requests back, if it is a block. -/
def deadline? : Instant × Op → Option Instant
  | (now, .block wait) => some (now + wait)
  | (_, .reserve) => none

/-- Until when the blocks of a history hold requests back. -/
def deadlines (h : History) : List Instant := h.filterMap deadline?

/-- When a window ends. -/
def windowEnd (start : Instant) : Instant := start + window

/-- Whether a window goes on, if there is one. -/
def goesOn (start : Option Instant) (now : Instant) : Bool := start.any (now < windowEnd ·)

/-- When the last window began, requests having been let through at the given moments. Each window is
begun by the first of them that comes when the one before has ended. -/
def windowStart? (gs : List Instant) : Option Instant :=
  gs.foldl (fun start g => if goesOn start g then start else some g) none

/-- How many requests were let through in the last window. -/
def inLastWindow (gs : List Instant) : Nat :=
  match windowStart? gs with
  | some start => gs.countP (start ≤ ·)
  | none => 0

/-- How many requests were let through in the window that goes on. -/
def spent (gs : List Instant) (now : Instant) : Nat :=
  if goesOn (windowStart? gs) now then inLastWindow gs else 0

theorem window_pos : 0 < window := by decide

theorem lt_windowEnd (start : Instant) : start < windowEnd start := by
  unfold windowEnd
  exact Nat.lt_add_of_pos_right window_pos

@[simp] theorem goesOn_none (now : Instant) : goesOn none now = false := rfl

@[simp] theorem goesOn_some (start now : Instant) : goesOn (some start) now ↔ now < windowEnd start := by
  unfold goesOn
  rw [Option.any_some, decide_eq_true_iff]

theorem windowEnd_le_windowEnd {a b : Instant} (h : a ≤ b) : windowEnd a ≤ windowEnd b := by
  unfold windowEnd
  exact Nat.add_le_add_right h _

/-- A window that goes on when another has ended began after it. -/
theorem lt_of_lt_windowEnd {g : Instant} (he : windowEnd start ≤ now) (hg : now < windowEnd g) :
    start < g := by
  by_contra hle
  exact Nat.not_lt.2 he (Nat.lt_of_lt_of_le hg (windowEnd_le_windowEnd (Nat.not_lt.1 hle)))

theorem windowStart?_concat (gs : List Instant) (now : Instant) :
    windowStart? (gs ++ [now]) = if goesOn (windowStart? gs) now then windowStart? gs else some now := by
  unfold windowStart?
  rw [List.foldl_append]
  rfl

/-- There is a window once there was a request. -/
theorem windowStart?_eq_none : windowStart? gs = none ↔ gs = [] := by
  induction gs using List.reverseRecOn with
  | nil => simp [windowStart?]
  | append_singleton gs now ih =>
    rw [windowStart?_concat]
    cases hs : windowStart? gs with
    | none => simp
    | some start => split <;> simp

/-! ### The moments of requests -/

/-- Each request came when its window was not used up. -/
inductive Paced (limit : Nat) : List Instant → Prop
  | nil : Paced limit []
  | concat {gs : List Instant} {now : Instant} (h : Paced limit gs) (hle : ∀ g ∈ gs, g ≤ now)
      (hs : spent gs now < limit) : Paced limit (gs ++ [now])

/-- The last window was begun by a request, and there is none after its end. -/
theorem Paced.mem_window (h : Paced limit gs) (hs : windowStart? gs = some start) :
    start ∈ gs ∧ ∀ g ∈ gs, g < windowEnd start := by
  induction h generalizing start with
  | nil => cases hs
  | @concat gs now _ hle _ ih =>
    rw [windowStart?_concat] at hs
    simp only [List.mem_append, List.mem_singleton]
    split at hs
    · rename_i hgoes
      obtain ⟨hmem, hlt⟩ := ih hs
      have hnow : now < windowEnd start := by simpa [hs] using hgoes
      refine ⟨.inl hmem, fun g hg => ?_⟩
      rcases hg with hg | rfl
      · exact hlt g hg
      · exact hnow
    · cases hs
      refine ⟨.inr rfl, fun g hg => Nat.lt_of_le_of_lt ?_ (lt_windowEnd now)⟩
      rcases hg with hg | rfl
      · exact hle g hg
      · exact Nat.le_refl g

/-- A request in the window that goes on is one more of it; any other is the first of a new one. -/
theorem Paced.inLastWindow_concat (h : Paced limit gs) (hle : ∀ g ∈ gs, g ≤ now) :
    inLastWindow (gs ++ [now]) = spent gs now + 1 := by
  unfold spent inLastWindow
  rw [windowStart?_concat]
  cases hs : windowStart? gs with
  | none => simp [windowStart?_eq_none.1 hs]
  | some start =>
    obtain ⟨hmem, hlt⟩ := h.mem_window hs
    by_cases hgoes : now < windowEnd start
    · have hstart : start ≤ now := hle _ hmem
      simp [hgoes, List.countP_append, hstart]
    · have hnone : gs.countP (now ≤ ·) = 0 := by
        refine List.countP_eq_zero.2 fun g hg => ?_
        simpa using Nat.lt_of_lt_of_le (hlt g hg) (Nat.not_lt.1 hgoes)
      simp [hgoes, List.countP_append, hnone]

theorem Paced.inLastWindow_le (h : Paced limit gs) : inLastWindow gs ≤ limit := by
  cases h with
  | nil => exact Nat.zero_le _
  | concat h hle hs => rw [h.inLastWindow_concat hle]; exact hs

/-- Whether a moment lies less than a window after `start`. -/
def Within (start g : Instant) : Prop := start ≤ g ∧ g < windowEnd start

instance (start g : Instant) : Decidable (Within start g) := inferInstanceAs (Decidable (_ ∧ _))

theorem Within.trans_right {a b x : Instant} (h : Within a x) (hab : a ≤ b) (hb : b ≤ x) : Within b x :=
  ⟨hb, Nat.lt_of_lt_of_le h.2 (windowEnd_le_windowEnd hab)⟩

/-- The requests less than a window before the last one began all belong to the window before it. -/
theorem Paced.countP_before_le (h : Paced limit gs) (hs : windowStart? gs = some start) :
    gs.countP (fun g => g < start ∧ Within g start) ≤ limit := by
  induction h generalizing start with
  | nil => cases hs
  | @concat gs now h hle _ ih =>
    have hlast : ∀ x ≤ now, decide (now < x ∧ Within now x) = false :=
      fun x hx => decide_eq_false fun hb => Nat.not_lt.2 hx hb.1
    rw [windowStart?_concat] at hs
    rw [List.countP_append, List.countP_singleton]
    split at hs
    · rw [hlast start (hle _ (h.mem_window hs).1)]
      exact ih hs
    · rename_i hgoes
      cases hs
      rw [hlast now (Nat.le_refl now)]
      cases hs : windowStart? gs with
      | none => simp [windowStart?_eq_none.1 hs]
      | some start =>
        have hend : windowEnd start ≤ now := by simpa [hs] using hgoes
        have hcount : gs.countP (fun g => g < now ∧ Within g now) ≤ gs.countP (start ≤ ·) := by
          refine List.countP_mono_left fun g _ hg => ?_
          have hwithin : Within g now := (of_decide_eq_true hg).2
          exact decide_eq_true (Nat.le_of_lt (lt_of_lt_windowEnd hend hwithin.2))
        have hin : inLastWindow gs = gs.countP (start ≤ ·) := by simp [inLastWindow, hs]
        exact Nat.le_trans hcount (hin ▸ h.inLastWindow_le)

/-- No second has more requests than two windows allow. One that the last request belongs to has only
requests of the last window and of the one before it. -/
theorem Paced.countP_second_le (h : Paced limit gs) (t : Instant) :
    gs.countP (Within t) ≤ 2 * limit := by
  induction h with
  | nil => exact Nat.zero_le _
  | @concat gs now h hle hs ih =>
    by_cases hnow : Within t now
    · obtain ⟨start, hstart⟩ : ∃ start, windowStart? (gs ++ [now]) = some start :=
        Option.ne_none_iff_exists'.1 fun hn => by simp [windowStart?_eq_none] at hn
      have h' : Paced limit (gs ++ [now]) := h.concat hle hs
      have hmem : start ≤ now := by
        rcases List.mem_append.1 (h'.mem_window hstart).1 with hmem | hmem
        · exact hle _ hmem
        · exact Nat.le_of_eq (List.mem_singleton.1 hmem)
      have hlast : (gs ++ [now]).countP (start ≤ ·) ≤ limit := by
        have hin : inLastWindow (gs ++ [now]) = (gs ++ [now]).countP (start ≤ ·) := by
          simp [inLastWindow, hstart]
        exact hin ▸ h'.inLastWindow_le
      have hbefore := h'.countP_before_le hstart
      rw [List.countP_eq_countP_filter_add _ _ (start ≤ ·), List.countP_filter, List.countP_filter]
      have hsub₁ : (gs ++ [now]).countP (fun g => decide (Within t g) && decide (start ≤ g)) ≤
          (gs ++ [now]).countP (start ≤ ·) :=
        List.countP_mono_left fun g _ hg => (Bool.and_eq_true_iff.1 hg).2
      have hsub₂ : (gs ++ [now]).countP (fun g => decide (Within t g) && !decide (start ≤ g)) ≤
          (gs ++ [now]).countP (fun g => g < start ∧ Within g start) := by
        refine List.countP_mono_left fun g _ hg => ?_
        obtain ⟨hwithin, hlt⟩ := Bool.and_eq_true_iff.1 hg
        have hlt : g < start := by simpa using hlt
        have hg : t ≤ g := (of_decide_eq_true hwithin).1
        have hreach : Within t start :=
          ⟨Nat.le_trans hg (Nat.le_of_lt hlt), Nat.lt_of_le_of_lt hmem hnow.2⟩
        exact decide_eq_true ⟨hlt, hreach.trans_right hg (Nat.le_of_lt hlt)⟩
      omega
    · simpa [List.countP_append, hnow] using ih

/-! ### What the limit remembers -/

/-- What the limit remembers is enough to tell what is to be known of the past, from `now` on. -/
structure Reflects (limit : Nat) (past : History) (gs : List Instant) (now : Instant) (c : Ceiling) :
    Prop where
  limit_eq : c.limit = limit
  blocked : ∀ moment, now ≤ moment → (c.blocked? moment = none ↔ ∀ d ∈ deadlines past, d ≤ moment)
  ends : c.windowEnds = (windowStart? gs).map windowEnd
  left : c.remaining + inLastWindow gs = limit
  paced : Paced limit gs
  le_now : ∀ g ∈ gs, g ≤ now

theorem Reflects.later (hr : Reflects limit h gs t c) (ht : t ≤ now) : Reflects limit h gs now c :=
  { hr with
    blocked := fun moment hm => hr.blocked moment (Nat.le_trans ht hm)
    le_now := fun g hg => Nat.le_trans (hr.le_now g hg) ht }

theorem blocked?_eq_none : c.blocked? now = none ↔ ∀ b ∈ c.blockedUntil, b ≤ now := by
  unfold blocked?
  cases hb : c.blockedUntil <;> simp

theorem reserve_of_blocked {till : Instant} (hb : c.blocked? now = some till) :
    c.reserve now = (c, some till) := by
  simp [reserve, hb]

/-- Without a block, what is left of the window that goes on, or of the new one that the request begins,
decides. -/
theorem Reflects.reserve_of_unblocked (hr : Reflects limit h gs now c) (hl : 0 < limit)
    (hb : c.blocked? now = none) :
    ∃ u : Ceiling, u.limit = limit ∧ u.blockedUntil = none ∧ u.remaining + spent gs now = limit ∧
      u.windowEnds = (windowStart? (gs ++ [now])).map windowEnd ∧
      c.reserve now =
        if u.remaining = 0 then (u, u.windowEnds) else ({ u with remaining := u.remaining - 1 }, none) := by
  have hgoes : c.windowEnds.any (now < ·) = goesOn (windowStart? gs) now := by
    rw [hr.ends, Option.any_map]
    rfl
  have hpos : c.limit ≠ 0 := hr.limit_eq ▸ Nat.ne_of_gt hl
  have hu : Ceiling.refresh { c with blockedUntil := none } now =
      if goesOn (windowStart? gs) now then { c with blockedUntil := none }
      else { c with remaining := c.limit, windowEnds := some (windowEnd now), blockedUntil := none } := by
    rw [← hgoes]
    rfl
  refine ⟨Ceiling.refresh { c with blockedUntil := none } now, ?_, ?_, ?_, ?_, by simp [reserve, hb, hpos]⟩
  all_goals rw [hu]
  · split <;> exact hr.limit_eq
  · split <;> rfl
  · unfold spent
    split
    · exact hr.left
    · exact hr.limit_eq
  · rw [windowStart?_concat]
    split
    · exact hr.ends
    · rfl

/-- A request is let through exactly when no block is left and the window is not used up. -/
theorem Reflects.lets_iff (hr : Reflects limit h gs now c) (hl : 0 < limit) :
    c.lets now ↔ (∀ d ∈ deadlines h, d ≤ now) ∧ spent gs now < limit := by
  rw [← hr.blocked now (Nat.le_refl now)]
  unfold lets
  cases hb : c.blocked? now with
  | some till => simp [reserve_of_blocked hb]
  | none =>
    obtain ⟨u, -, -, hleft, hends, hu⟩ := hr.reserve_of_unblocked hl hb
    have hsome : u.windowEnds ≠ none := by
      rw [hends, ne_eq, Option.map_eq_none_iff, windowStart?_eq_none]
      simp
    rw [hu]
    split
    · have hfull : ¬ spent gs now < limit := by omega
      simp [hsome, hfull]
    · have hroom : spent gs now < limit := by omega
      simp [hroom]

theorem Reflects.reserve (hr : Reflects limit h gs now c) (hl : 0 < limit) :
    Reflects limit (h ++ [(now, .reserve)]) (gs ++ c.granted now .reserve) now (c.reserve now).1 := by
  have hpast : deadlines (h ++ [(now, .reserve)]) = deadlines h := by simp [deadlines, deadline?]
  have hgranted : c.granted now .reserve = if c.lets now then [now] else [] := rfl
  have hiff := hr.lets_iff hl
  cases hb : c.blocked? now with
  | some till =>
    have hno : ¬ c.lets now := by simp [lets, reserve_of_blocked hb]
    rw [hgranted, if_neg hno, List.append_nil, reserve_of_blocked hb]
    exact { hr with blocked := hpast ▸ hr.blocked }
  | none =>
    have hopen := (hr.blocked now (Nat.le_refl now)).1 hb
    obtain ⟨u, hlimit, hblock, hleft, hends, hu⟩ := hr.reserve_of_unblocked hl hb
    -- From now on no block is left, since none was and none is added.
    have hblocked : ∀ v : Ceiling, v.blockedUntil = none → ∀ moment, now ≤ moment →
        (v.blocked? moment = none ↔ ∀ d ∈ deadlines (h ++ [(now, .reserve)]), d ≤ moment) := by
      intro v hv moment hm
      rw [blocked?_eq_none, hv, hpast]
      exact iff_of_true (fun b hb => nomatch hb) fun d hd => Nat.le_trans (hopen d hd) hm
    by_cases hz : u.remaining = 0
    · -- A window that is used up goes on, so it is still the last one.
      have hspent : spent gs now = limit := by omega
      have hno : ¬ c.lets now := fun hyes => by
        have := (hiff.1 hyes).2
        omega
      have hgoes : goesOn (windowStart? gs) now := by
        by_contra hgoes
        rw [spent, if_neg hgoes] at hspent
        omega
      rw [hgranted, if_neg hno, List.append_nil, hu, if_pos hz]
      refine ⟨hlimit, hblocked _ hblock, ?_, ?_, hr.paced, hr.le_now⟩
      · rw [hends, windowStart?_concat, if_pos hgoes]
      · rwa [spent, if_pos hgoes] at hleft
    · have hspent : spent gs now < limit := by omega
      rw [hgranted, if_pos (hiff.2 ⟨hopen, hspent⟩), hu, if_neg hz]
      refine ⟨hlimit, hblocked _ hblock, hends, ?_, hr.paced.concat hr.le_now hspent, ?_⟩
      · rw [hr.paced.inLastWindow_concat hr.le_now]
        dsimp only
        omega
      · intro g hg
        rcases List.mem_append.1 hg with hg | hg
        · exact hr.le_now g hg
        · exact Nat.le_of_eq (List.mem_singleton.1 hg)

theorem Reflects.block (hr : Reflects limit h gs now c) (wait : Span) :
    Reflects limit (h ++ [(now, .block wait)]) gs now (c.block now wait) := by
  refine { hr with blocked := fun moment hm => ?_ }
  have hpast : deadlines (h ++ [(now, .block wait)]) = deadlines h ++ [now + wait] := by
    simp [deadlines, deadline?]
  have hblock : (∀ b ∈ c.blockedUntil, b ≤ moment) ↔ c.blockedUntil.getD 0 ≤ moment := by
    cases c.blockedUntil <;> simp
  rw [blocked?_eq_none, hpast]
  simp only [Ceiling.block, Option.mem_def, Option.some.injEq, forall_eq', Nat.max_le,
    List.mem_append, List.mem_singleton, or_imp, forall_and, forall_eq]
  rw [← hr.blocked moment hm, blocked?_eq_none, hblock]

theorem reflects_apply (hr : Reflects limit h gs now c) (hl : 0 < limit) (op : Op) :
    Reflects limit (h ++ [(now, op)]) (gs ++ c.granted now op) now (c.apply now op) := by
  cases op with
  | reserve => exact hr.reserve hl
  | block wait =>
    simp only [granted, List.append_nil]
    exact hr.block wait

theorem reflects_run (hl : 0 < limit) (hc : Chronological h) (ht : ∀ e ∈ h, e.1 ≤ now) :
    Reflects limit h ((ofLimit limit).grants h) now ((ofLimit limit).run h) := by
  induction h using List.reverseRecOn generalizing now with
  | nil =>
    refine ⟨rfl, fun moment _ => ?_, rfl, rfl, .nil, fun g hg => nomatch hg⟩
    simp [blocked?, ofLimit, deadlines, run]
  | append_singleton h e ih =>
    obtain ⟨moment, op⟩ := e
    obtain ⟨hbefore, -, hlast⟩ := List.pairwise_append.1 hc
    have hr : Reflects limit h ((ofLimit limit).grants h) moment ((ofLimit limit).run h) :=
      ih hbefore fun e he => hlast e he _ (List.mem_singleton.2 rfl)
    rw [grants_concat, run_concat]
    exact (reflects_apply hr hl op).later (ht (moment, op) (by simp))

theorem paced_grants (hl : 0 < limit) (hc : Chronological h) : Paced limit ((ofLimit limit).grants h) := by
  cases h using List.reverseRecOn with
  | nil => exact .nil
  | append_singleton before last =>
    have hle : ∀ e ∈ before ++ [last], e.1 ≤ last.1 := by
      intro e he
      rcases List.mem_append.1 he with he | he
      · exact (List.pairwise_append.1 hc).2.2 e he last (List.mem_singleton.2 rfl)
      · exact Nat.le_of_eq (congrArg Prod.fst (List.mem_singleton.1 he))
    exact (reflects_run hl hc hle).paced

/-- A request is let through exactly when all blocks before it are over and fewer requests than the
limit were let through in the window that goes on. So no second has more than twice the limit. -/
theorem granted_iff_open_and_unspent (limit : Nat) (hl : 0 < limit) (h : History)
    (hc : Chronological h) :
    (∀ h₁ now h₂, h = h₁ ++ (now, .reserve) :: h₂ →
      (((ofLimit limit).run h₁).lets now ↔
        (∀ d ∈ deadlines h₁, d ≤ now) ∧ spent ((ofLimit limit).grants h₁) now < limit)) ∧
    ∀ t, ((ofLimit limit).grants h).countP (fun g => t ≤ g ∧ g < t + Span.second) ≤ 2 * limit := by
  refine ⟨fun h₁ now h₂ heq => ?_, fun t => ?_⟩
  · obtain ⟨hbefore, -, hlast⟩ := List.pairwise_append.1 (heq ▸ hc)
    have hr := reflects_run hl hbefore fun e he => hlast e he _ (List.mem_cons_self ..)
    exact hr.lets_iff hl
  · have hwithin : (fun g => decide (t ≤ g ∧ g < t + Span.second)) = fun g => decide (Within t g) := rfl
    rw [hwithin]
    exact (paced_grants hl hc).countP_second_le t

/-- A shorter block does not end a longer one, and requests during a block begin no window. -/
theorem request_waits_for_longer_block :
    let h₁ : History := [(0, .reserve), (1, .block 9), (5, .block 3), (8, .reserve)]
    let h : History := h₁ ++ (10, .reserve) :: [(11, .reserve), (Span.second, .reserve)]
    0 < 2 ∧ Chronological h ∧
      (((ofLimit 2).run h₁).lets 10 ↔
        (∀ d ∈ deadlines h₁, d ≤ 10) ∧ spent ((ofLimit 2).grants h₁) 10 < 2) ∧
      (ofLimit 2).grants h = [0, 10, Span.second] ∧
      ((ofLimit 2).grants h).countP (fun g => 1 ≤ g ∧ g < 1 + Span.second) ≤ 4 := by
  intro h₁ h
  have hc : Chronological h := by decide
  obtain ⟨hiff, hsecond⟩ := granted_iff_open_and_unspent 2 (by decide) h hc
  exact ⟨by decide, hc, hiff h₁ 10 _ rfl, by decide, hsecond 1⟩

end ChatApi.Limit.Ceiling
