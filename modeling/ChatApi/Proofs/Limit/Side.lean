import ChatApi.Proofs.Kept
import ChatApi.Proofs.Limit.Kindred

/-!
# Sides

A `Side` is one string of major parameters and the callers whose requests are on routes with it. What of a
list of callers belongs to a side changes as the list does, or not at all (`waiting_leave`, `waiting_goTo`);
what becomes of a bucket lets nobody of another side in (`Side.Keeps`).
-/

namespace ChatApi.Limit

/-! ### Sides -/

/-- Some major parameters, and the callers whose requests are on routes with them. -/
structure Side where
  majors : String
  has : Caller → Bool

namespace Side

/-- A route has the major parameters. -/
def covers (d : Side) (key : RouteKey) : Bool := key.majors = d.majors

/-- The number that the bucket `i` has among those of covered routes. -/
def rank (d : Side) (keys : List RouteKey) (i : Nat) : Nat := (keys.take i).countP d.covers

end Side

/-- A caller wants a slot of its bucket only, on a route that is covered just if the side has it. -/
def Wanted.On (d : Side) (c : Caller) : Wanted → Prop
  | .route key .routeOnly => key.IsPlain ∧ d.has c = d.covers key
  | _ => False

/-- Who comes in wants what it may want, and the whole account is not held back. -/
def Event.On (d : Side) : Event → Prop
  | .arrive c wanted => wanted.On d c
  | .block _ => False
  | _ => True

/-- The event is one of a caller that the side has. -/
def Event.isOf (d : Side) : Event → Bool
  | .arrive c _ | .poll c | .record c _ | .refuse c _ _ | .withdraw c => d.has c
  | .block _ => false

def Stage.renumber (f : Nat → Nat) : Stage → Stage
  | .ceiling => .ceiling
  | .bucket i => .bucket (f i)

def Pending.renumber (f : Nat → Nat) (p : Pending) : Pending := { p with stage := p.stage.renumber f }

def Ticket.renumber (f : Nat → Nat) (t : Ticket) : Ticket := { t with bucket := t.bucket.map f }

@[simp] theorem Pending.caller_goTo (p : Pending) (c : Caller) (i : Nat) : (p.goTo c i).caller = p.caller := by
  unfold goTo
  split <;> rfl

theorem Pending.renumber_goTo (f : Nat → Nat) (p : Pending) (c : Caller) (i : Nat) :
    (p.goTo c i).renumber f = (p.renumber f).goTo c (f i) := by
  by_cases hc : p.caller = c
  · simp [goTo, renumber, Stage.renumber, hc]
  · simp [goTo, renumber, hc]

namespace Side

variable (d : Side) (f : Nat → Nat)

/-- Those of the side who wait. -/
def waiting (l : List Pending) : List Pending := (l.filter (d.has ·.caller)).map (·.renumber f)

/-- The tickets of the side. -/
def holding (l : List Ticket) : List Ticket := (l.filter (d.has ·.caller)).map (·.renumber f)

theorem waiting_leave (c : Caller) (l : List Pending) :
    d.waiting f (l.filter (·.caller ≠ c)) =
      if d.has c then (d.waiting f l).filter (·.caller ≠ c) else d.waiting f l := by
  unfold waiting
  rw [filter_filter_ne Pending.caller]
  split
  · simp [List.filter_map, Function.comp_def, Pending.renumber]
  · rfl

theorem holding_leave (c : Caller) (l : List Ticket) :
    d.holding f (l.filter (·.caller ≠ c)) =
      if d.has c then (d.holding f l).filter (·.caller ≠ c) else d.holding f l := by
  unfold holding
  rw [filter_filter_ne Ticket.caller]
  split
  · simp [List.filter_map, Function.comp_def, Ticket.renumber]
  · rfl

theorem waiting_snoc (l : List Pending) (p : Pending) :
    d.waiting f (l ++ [p]) = if d.has p.caller then d.waiting f l ++ [p.renumber f] else d.waiting f l := by
  unfold waiting
  split <;> simp [*]

theorem holding_snoc (l : List Ticket) (t : Ticket) :
    d.holding f (l ++ [t]) = if d.has t.caller then d.holding f l ++ [t.renumber f] else d.holding f l := by
  unfold holding
  split <;> simp [*]

theorem waiting_goTo (c : Caller) (i : Nat) (l : List Pending) :
    d.waiting f (l.map (·.goTo c i)) =
      if d.has c then (d.waiting f l).map (·.goTo c (f i)) else d.waiting f l := by
  have hfilter : (l.map (·.goTo c i)).filter (d.has ·.caller) =
      (l.filter (d.has ·.caller)).map (·.goTo c i) := by
    simp [List.filter_map, Function.comp_def]
  unfold waiting
  rw [hfilter, List.map_map]
  split
  · simp [Function.comp_def, Pending.renumber_goTo]
  · rename_i hc
    refine List.map_congr_left fun p hp => ?_
    -- the caller is none of the side
    have hne : p.caller ≠ c := fun he => hc (he ▸ (List.mem_filter.1 hp).2)
    simp [Pending.goTo, hne]

variable {f} in
theorem waiting_congr {g : Nat → Nat} {l : List Pending}
    (h : ∀ p ∈ l, ∀ i, p.stage = .bucket i → f i = g i) : d.waiting f l = d.waiting g l := by
  refine List.map_congr_left fun p hp => ?_
  have hstage : p.stage.renumber f = p.stage.renumber g := by
    cases hs : p.stage with
    | ceiling => rfl
    | bucket i => exact congrArg Stage.bucket (h p (List.mem_filter.1 hp).1 i hs)
  simp only [Pending.renumber, hstage]

variable {f} in
theorem holding_congr {g : Nat → Nat} {l : List Ticket}
    (h : ∀ t ∈ l, ∀ i, t.bucket = some i → f i = g i) : d.holding f l = d.holding g l := by
  refine List.map_congr_left fun t ht => ?_
  have hmap : t.bucket.map f = t.bucket.map g := Option.map_congr (h t (List.mem_filter.1 ht).1)
  simp only [Ticket.renumber, hmap]

theorem rank_append {keys : List RouteKey} {i : Nat} (hi : i ≤ keys.length) (more : List RouteKey) :
    d.rank (keys ++ more) i = d.rank keys i := by
  rw [rank, rank, List.take_append_of_le_length hi]

end Side

namespace Gate

variable {g : Gate} {c x : Caller}

theorem line_rouse (g : Gate) : g.rouse.1.line = g.line := by
  unfold rouse
  split <;> rfl

theorem mem_of_rouse (h : x ∈ g.rouse.2) : x ∈ g.line := by
  unfold rouse at h
  split at h
  · exact List.mem_of_head? h
  · cases h

theorem mem_of_line_leave (h : x ∈ (g.leave c).1.line) : x ∈ g.line := by
  unfold leave at h
  split at h
  · exact h
  · rename_i owner behind hl
    rw [hl]
    split at h
    · exact List.mem_cons_of_mem _ h
    · rcases List.mem_cons.1 h with rfl | h
      · exact List.mem_cons_self
      · exact List.mem_cons_of_mem _ (List.mem_of_mem_erase h)

theorem mem_of_leave (h : x ∈ (g.leave c).2) : x ∈ g.line := by
  unfold leave at h
  split at h
  · cases h
  · rename_i owner behind hl
    rw [hl]
    split at h
    · exact List.mem_cons_of_mem _ (List.mem_of_head? h)
    · cases h

end Gate

/-- A caller looks at the budget, if it is its turn. -/
def Bucket.poll (b : Bucket) (now : Instant) (c : Caller) : (Bucket × Option Caller) × Turn :=
  if b.gate.isUp c now then
    match b.window.reserve now with
    | (window, .wait till) => (({ b with window, gate := { b.gate with hold := .asleep till } }, none), .asleep till)
    | (window, .proceed true) => (({ b with window, gate := { b.gate with hold := .probing } }, none), .granted)
    | (window, .proceed false) => (({ b with window, gate := (b.gate.leave c).1 }, (b.gate.leave c).2), .granted)
  else ((b, none), .unchanged)

/-- What becomes of a bucket keeps callers of the other side away from it, and none of them is woken. -/
structure Side.Keeps (d : Side) (b : Bucket) (o : Bucket × Option Caller) : Prop where
  key : o.1.key = b.key
  line : ∀ c ∈ o.1.gate.line, d.has c = d.covers b.key
  woken : ∀ c ∈ o.2, d.has c = d.covers b.key

section
variable {d : Side} {b : Bucket} (h : ∀ c ∈ b.gate.line, d.has c = d.covers b.key)
include h

theorem keeps_record (now : Instant) (r : Report) : d.Keeps b (b.record now r) :=
  ⟨rfl, fun c hc => h c (Gate.line_rouse b.gate ▸ hc), fun c hc => h c (Gate.mem_of_rouse hc)⟩

theorem keeps_exhaust (now : Instant) (wait : Span) : d.Keeps b (b.exhaust now wait) :=
  ⟨rfl, fun c hc => h c (Gate.line_rouse b.gate ▸ hc), fun c hc => h c (Gate.mem_of_rouse hc)⟩

theorem keeps_leave (c : Caller) : d.Keeps b (b.leave c) :=
  ⟨rfl, fun x hx => h x (Gate.mem_of_line_leave hx), fun x hx => h x (Gate.mem_of_leave hx)⟩

theorem keeps_join {c : Caller} (hc : d.has c = d.covers b.key) :
    d.Keeps b ({ b with gate := b.gate.join c }, none) := by
  refine ⟨rfl, fun x hx => ?_, fun x hx => by cases hx⟩
  rcases List.mem_append.1 hx with hx | hx
  · exact h x hx
  · cases List.mem_singleton.1 hx
    exact hc

theorem keeps_poll (now : Instant) (c : Caller) : d.Keeps b (b.poll now c).1 := by
  unfold Bucket.poll
  split
  · split
    · exact ⟨rfl, h, fun x hx => by cases hx⟩
    · exact ⟨rfl, h, fun x hx => by cases hx⟩
    · exact ⟨rfl, fun x hx => h x (Gate.mem_of_line_leave hx), fun x hx => h x (Gate.mem_of_leave hx)⟩
  · exact ⟨rfl, h, fun x hx => by cases hx⟩

end

end ChatApi.Limit
