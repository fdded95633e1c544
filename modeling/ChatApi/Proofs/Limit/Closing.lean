import ChatApi.Proofs.Limit.Budget
import ChatApi.Proofs.Limit.Lodging
import ChatApi.Proofs.Limit.Places
import ChatApi.Proofs.Limit.Probe

/-!
# What a refusal closes

A refusal that is not for the whole account closes the bucket that the request has a slot of. The route
of the request need not lead there: the response may name a bucket that the route is folded onto, and an
earlier response may have folded it while the request was out. The bucket that the route leads to then is
told what the header fields say, and is not closed by the refusal (`window_refuse`).

Main theorem: `refusal_closes_own_bucket`; `refusal_leaves_route_open` is a route that is folded by its
own refusal and goes on at once.
-/

namespace ChatApi.Limit

variable {now wait till : Nat}

namespace Window

/-- Nothing is left of the window, and it goes on until `till`. -/
structure ClosedUntil (w : Window) (till : Instant) : Prop where
  known : w.isKnown
  spent : w.remaining = 0
  ends : w.resetAt = some till

instance (w : Window) (till : Instant) : Decidable (w.ClosedUntil till) :=
  decidable_of_iff (w.isKnown ∧ w.remaining = 0 ∧ w.resetAt = some till)
    ⟨fun ⟨hk, hz, he⟩ => ⟨hk, hz, he⟩, fun h => ⟨h.known, h.spent, h.ends⟩⟩

variable {w : Window}

theorem closedUntil_exhaust (w : Window) (now : Instant) (wait : Span) :
    (w.exhaust now wait).ClosedUntil (now + wait) := ⟨isKnown_iff.2 (.inr rfl), rfl, rfl⟩

/-- A response closes a window by itself if it says that nothing is left of it, and for how long. -/
theorem closedUntil_record {r : Report} (hr : r.remaining = some 0) (hw : r.resetAfter = some wait)
    (w : Window) (now : Instant) : (w.record now r).ClosedUntil (now + wait) := by
  have htracked : r.isTracked := by simp [Report.isTracked, hr]
  have hleft : w.leftAfter now r = 0 := by
    unfold leftAfter
    split <;> simp [hr]
  rw [record_tracked w now htracked, hleft]
  exact ⟨isKnown_iff.2 (.inr rfl), rfl, by simp [Report.resetAt, hw]⟩

/-- Whoever asks a closed window for a slot is told to wait for its end. -/
theorem ClosedUntil.reserve (h : w.ClosedUntil till) (hlt : now < till) : (w.reserve now).2 = .wait till := by
  rw [reserve_of_spent h.known h.ends hlt h.spent]

end Window

namespace Limits

variable {s : Limits} {t : Ticket} {r : Report} {body : Option Refusal} {key : RouteKey} {c : Caller}
  {i j : Nat}

/-- What a refusal that is not for the whole account does to windows. -/
theorem window_refuse (hb : t.bucket = some i) (hg : isGlobalRefusal r body = false)
    (hj : j < s.buckets.length) (now : Instant) :
    ((s.refuse now t r body).site j).window =
      if j = i then (s.site j).window.exhaust now (refusalWait r body)
      else if s.canonical? i r = some j then (s.site j).window.record now r
      else (s.site j).window := by
  have hwindow : ((s.refuse now t r body).site j).window = ((s.recordRefusal now t r body).site j).window := by
    unfold refuse
    rw [site_release]
    split <;> rfl
  rw [hwindow, recordRefusal_of_not_global hg, hb]
  dsimp only
  rw [site_changeBucket_share (Bucket.takes_exhaust now _), if_pos hj]
  split
  · rfl
  · split <;> rfl

/-- A refusal that names no bucket but the one of its ticket leads no route elsewhere. -/
theorem routes_refuse_of_canonical (hb : t.bucket = some i) (hg : isGlobalRefusal r body = false)
    (hc : ∀ k, s.canonical? i r = some k → k = i) (now : Instant) (key : RouteKey) :
    (s.refuse now t r body).routes.get? key = s.routes.get? key := by
  have htables := (tables_release (s.recordRefusal now t r body) t).trans (tables_recordRefusal s now t r body)
  rw [hg, hb] at htables
  show (s.refuse now t r body).tables.routes.get? key = s.tables.routes.get? key
  rw [refuse, htables]
  cases hr : r.bucket with
  | none => rfl
  | some hash =>
    cases hk : s.tables.keys[i]? with
    | none => simp [Tables.told, Tables.named, hk]
    | some made =>
      have hhome : s.tables.home i hash made = i := by
        rw [home_eq hr hk]
        cases hcanonical : s.canonical? i r with
        | none => rfl
        | some k => exact hc k hcanonical
      refine (Tables.get?_routes_named hk hash key).trans ?_
      rw [hhome, if_neg (by simp)]

/-- Who comes to a closed bucket sleeps until it opens, or gets in line behind those who are there. -/
theorem turn_arrive_of_closed (h : Orderly s) (hroute : s.routes.get? key = some j)
    (hj : j < s.buckets.length) (hclosed : (s.site j).window.ClosedUntil till) (hlt : now < till)
    (hc : s.isBusy c = false) :
    (s.step now (.arrive c (.route key .routeOnly))).2 =
      if (s.site j).gate.line = [] then .asleep till else .queued := by
  have hb := List.getElem?_eq_getElem hj
  have hsite := site_of_some hb
  rw [hsite] at hclosed ⊢
  have hlook := hclosed.reserve hlt
  have hgate : s.gateAt (.bucket j) = s.buckets[j].gate := by simp only [gateAt, hsite]
  -- the caller comes in only now, so that it is not in line already
  have hout := h.not_at (c := c) (.bucket j) (by simp [place?_eq_none hc]) (by simp [place?_eq_none hc])
  rw [hgate] at hout
  have hfirst : s.buckets[j].gate.owner? ≠ some c := by
    intro ho
    have hmem : c ∈ s.buckets[j].gate.line := List.mem_of_head? ho
    rw [Gate.line_eq, List.mem_append] at hmem
    rcases hmem with hmem | hmem
    · exact hout.2 (Option.mem_toList.1 hmem)
    · exact hout.1 hmem
  cases hline : s.buckets[j].gate.line with
  | nil =>
    simp [step_eq, leap, hc, arrive, enterBucket, lineUp, bucketFor, hroute, changeBucket, wake, pollBucket, hj,
      Gate.join, hline, Gate.isUp, Gate.owner?, hlook, Turn.inLine]
  | cons d behind =>
    have hd : d ≠ c := by simpa [Gate.owner?, hline] using hfirst
    simp [step_eq, leap, hc, arrive, enterBucket, lineUp, bucketFor, hroute, changeBucket, wake, pollBucket, hj,
      Gate.join, hline, Gate.isUp, Gate.owner?, hd, Turn.inLine]

/-- A refusal that is not for the whole account closes the bucket of the ticket for as long as it says. If
the route leads there, and the response does not fold it, or if the response says by itself that the
bucket which the route is folded onto has nothing left for as long, the next request on the route waits so
long. Any other bucket that the route leads to is told what the header fields say, or nothing. -/
theorem refusal_closes_own_bucket (limit : Nat) (before : List (Instant × Event)) (now : Instant)
    (t : Ticket) (key : RouteKey) (scope : Scope) (r : Report) (body : Option Refusal)
    (ht : ((ofLimit limit).run before).ticket? t.caller = some t) (hw : t.wanted = .route key scope)
    (hs : scope ≠ .exempt) (hg : isGlobalRefusal r body = false) :
    let s := (ofLimit limit).run before
    let u := (s.step now (.refuse t.caller r body)).1
    let wait := refusalWait r body
    ∃ i j, t.bucket = some i ∧ u.routes.get? key = some j ∧
      (u.site i).window.ClosedUntil (now + wait) ∧
      (u.site j).window =
        (if j = i then (s.site j).window.exhaust now wait
        else if s.canonical? i r = some j then (s.site j).window.record now r
        else (s.site j).window) ∧
      (s.routes.get? key = some i → (∀ k, s.canonical? i r = some k → k = i) → j = i) ∧
      (j = i ∨ s.canonical? i r = some j ∧ r.remaining = some 0 ∧ r.resetAfter = some wait →
        (u.site j).window.ClosedUntil (now + wait) ∧
        ∀ moment, moment < now + wait → ∀ c, u.isBusy c = false →
          (u.step moment (.arrive c (.route key .routeOnly))).2 =
            if (u.site j).gate.line = [] then .asleep (now + wait) else .queued) := by
  intro s u wait
  have hhoused : Housed s := housed_run limit before
  have hhoused' : Housed u := housed_step hhoused now _
  have horderly : Orderly u := orderly_step (orderly_run limit before) now _
  have hu : u = s.refuse now t r body := by simp only [u, step_eq, leap, ht, s]
  obtain ⟨i, hb, hkey, hi⟩ := hhoused.lodged.bucket (List.mem_of_find?_eq_some ht) hw hs
  obtain ⟨j, hroute⟩ : ∃ j, u.routes.get? key = some j :=
    Option.isSome_iff_exists.1 ((grows_step hhoused.lodged.routed now _).routes key hkey)
  have hlength : u.buckets.length = s.buckets.length := hu ▸ length_refuse s now t r body
  have hju : j < u.buckets.length := length_keys u ▸ hhoused'.sound.routes key j hroute
  have hj : j < s.buckets.length := hlength ▸ hju
  rw [length_keys] at hi
  have hwindow {k : Nat} (hk : k < s.buckets.length) : (u.site k).window =
      if k = i then (s.site k).window.exhaust now wait
      else if s.canonical? i r = some k then (s.site k).window.record now r
      else (s.site k).window := by
    rw [hu]
    exact window_refuse hb hg hk now
  refine ⟨i, j, hb, hroute, ?_, hwindow hj, fun hown hc => ?_, fun h => ?_⟩
  · rw [hwindow hi, if_pos rfl]
    exact Window.closedUntil_exhaust ..
  · rw [hu, routes_refuse_of_canonical hb hg hc now key, hown] at hroute
    exact (Option.some.inj hroute).symm
  · have hclosed : (u.site j).window.ClosedUntil (now + wait) := by
      rw [hwindow hj]
      by_cases hji : j = i
      · rw [if_pos hji]
        exact Window.closedUntil_exhaust ..
      · obtain ⟨hcanonical, hleft, hafter⟩ := h.resolve_left hji
        rw [if_neg hji, if_pos hcanonical]
        exact Window.closedUntil_record hleft hafter ..
    exact ⟨hclosed, fun moment hlt c hc => turn_arrive_of_closed horderly hroute hju hclosed hlt hc⟩

/-- A request that is refused for five seconds closes its route for as long. -/
theorem refused_route_waits :
    let pins : RouteKey := ⟨.get, "channels/1/pins"⟩
    let r : Report := { retryAfter := some (5 * Span.second), bucket := some "shared" }
    let s := (ofLimit 50).run [(0, .arrive 1 (.route pins .all))]
    let u := (s.step 3 (.refuse 1 r none)).1
    (u.site 0).window.ClosedUntil (3 + 5 * Span.second) ∧
      (u.step 4 (.arrive 2 (.route pins .routeOnly))).2 = .asleep (3 + 5 * Span.second) := by
  intro pins r s u
  obtain ⟨i, j, hi, hj, -, -, -, hclosed⟩ := refusal_closes_own_bucket 50 [(0, .arrive 1 (.route pins .all))] 3
    ⟨1, .route pins .all, some 0⟩ pins .all r none (by decide +kernel) rfl (by decide) (by decide)
  cases hi
  have hroute : u.routes.get? pins = some 0 := by decide +kernel
  obtain rfl : j = 0 := Option.some.inj (hj.symm.trans hroute)
  obtain ⟨hwindow, hnext⟩ := hclosed (.inl rfl)
  have hwait : refusalWait r none = 5 * Span.second := by decide +kernel
  rw [hwait] at hwindow hnext
  have hlt : 4 < 3 + 5 * Span.second := by decide +kernel
  have hidle : u.isBusy 2 = false := by decide +kernel
  have hline : (u.site 0).gate.line = [] := by decide +kernel
  exact ⟨hwindow, (hnext 4 hlt 2 hidle).trans (if_pos hline)⟩

/-- A route that is folded by its own refusal goes on at once: the bucket that it leads to then has
requests left, and the header fields say nothing of them. -/
theorem refusal_leaves_route_open :
    let pins : RouteKey := ⟨.get, "channels/1/pins"⟩
    let messages : RouteKey := ⟨.get, "channels/1/messages"⟩
    let r : Report := { retryAfter := some (5 * Span.second), bucket := some "shared" }
    let s := (ofLimit 50).run [(0, .arrive 1 (.route pins .routeOnly)),
      (0, .record 1 { limit := some 5, remaining := some 4, resetAfter := some (10 * Span.second),
                      bucket := some "shared" }),
      (0, .arrive 2 (.route messages .routeOnly))]
    let u := (s.step 0 (.refuse 2 r none)).1
    isGlobalRefusal r none = false ∧ s.ticket? 2 = some ⟨2, .route messages .routeOnly, some 1⟩ ∧
      u.routes.get? messages = some 0 ∧ ¬ (u.site 0).window.ClosedUntil (0 + refusalWait r none) ∧
      (u.step 0 (.arrive 3 (.route messages .routeOnly))).2 = .granted := by
  decide +kernel

end Limits

end ChatApi.Limit
