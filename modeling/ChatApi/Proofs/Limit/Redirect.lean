import ChatApi.Proofs.Limit.Lodging

/-!
# Which route a response redirects

A response that names the bucket of its request redirects the route that this bucket was made for. That is
the route of the request as long as the route leads to its own bucket; a request on a folded route has a
slot of another route's bucket, and its response redirects that other route.

Main theorem: `response_redirects_route_of_bucket`; `response_redirects_another_route` is a folded route
whose responses name another bucket later.
-/

namespace ChatApi.Limit

namespace Tables

open Limits (sharedName)

/-- A route leads to the bucket that goes by a name for its major parameters, and all others lead where
they did. -/
structure Redirects (x y : Tables) (key : RouteKey) (hash : String) : Prop where
  entry : ∃ i, y.shared.get? (sharedName hash key) = some i ∧ y.routes.get? key = some i
  others : ∀ other, other ≠ key → y.routes.get? other = x.routes.get? other

variable {x : Tables} {key made : RouteKey} {hash : String} {i : Nat}

/-- A response redirects the route that its bucket was made for, unless the route was led elsewhere before
and the response does not lead it on. -/
theorem redirects_named_own (h : x.keys[i]? = some key) :
    x.Redirects (x.named i hash) key hash ↔ x.home i hash key ≠ i ∨ x.routes.get? key = some i := by
  have hroute := get?_routes_named h hash key
  have hshared := get?_shared_named h hash (sharedName hash key)
  rw [if_pos rfl] at hshared
  have hothers (other : RouteKey) (hne : other ≠ key) :
      (x.named i hash).routes.get? other = x.routes.get? other :=
    (get?_routes_named h hash other).trans (if_neg fun hc => hne hc.1)
  by_cases hhome : x.home i hash key = i
  · rw [if_neg fun hc => hc.2 hhome] at hroute
    rw [hhome] at hshared
    refine ⟨fun hr => .inr ?_, fun hr => ⟨⟨i, hshared, hroute.trans (hr.resolve_left fun hne => hne hhome)⟩, hothers⟩⟩
    obtain ⟨j, hj, hentry⟩ := hr.entry
    cases hshared.symm.trans hj
    exact hroute.symm.trans hentry
  · rw [if_pos ⟨rfl, hhome⟩] at hroute
    exact ⟨fun _ => .inl hhome, fun _ => ⟨⟨_, hshared, hroute⟩, hothers⟩⟩

/-- A response to a request on a route that is folded onto the bucket of another redirects that other one.
So both have to lead to the right bucket already. -/
theorem redirects_named_folded (h : x.keys[i]? = some made) (hne : made ≠ key)
    (hm : made.majors = key.majors) :
    x.Redirects (x.named i hash) key hash ↔ x.routes.get? key = some (x.home i hash made) ∧
      (x.home i hash made = i ∨ x.routes.get? made = some (x.home i hash made)) := by
  have hname : sharedName hash key = sharedName hash made := by simp [sharedName, hm]
  have hshared := get?_shared_named h hash (sharedName hash key)
  rw [if_pos hname] at hshared
  have hroute : (x.named i hash).routes.get? key = x.routes.get? key :=
    (get?_routes_named h hash key).trans (if_neg fun hc => hne hc.1.symm)
  constructor
  · rintro ⟨⟨j, hj, hentry⟩, hothers⟩
    cases hshared.symm.trans hj
    refine ⟨hroute.symm.trans hentry, ?_⟩
    by_cases hhome : x.home i hash made = i
    · exact .inl hhome
    · have := hothers made hne
      rw [get?_routes_named h hash made, if_pos ⟨rfl, hhome⟩] at this
      exact .inr this.symm
  · rintro ⟨hentry, hmade⟩
    refine ⟨⟨_, hshared, hroute.trans hentry⟩, fun other _ => ?_⟩
    rw [get?_routes_named h hash other]
    split
    · rename_i hc
      rw [hc.1, hmade.resolve_left hc.2]
    · rfl

end Tables

/-- A response to a caller that says `r` comes in and is taken over. A refusal for the whole account is
only taken over if it says something of a bucket's budget. -/
def Event.Reports (e : Event) (c : Caller) (r : Report) : Prop :=
  e = .record c r ∨ ∃ body, e = .refuse c r body ∧ (Limits.isGlobalRefusal r body → r.isTracked)

namespace Limits

variable {s : Limits} {e : Event} {c : Caller} {r : Report}

theorem named?_of_reports (h : e.Reports c r) : s.named? e = s.naming? c r := by
  rcases h with rfl | ⟨body, rfl, hg⟩
  · rfl
  · refine if_neg ?_
    cases hglobal : isGlobalRefusal r body with
    | false => simp
    | true => simp [hg hglobal]

/-- A response that names the bucket of its request redirects the route which that bucket was made for, if
any. Where this is the route of the request, it leads to the bucket that goes by the name then, unless it
was led elsewhere while the request was out and is not led on. Where it is another route, both must lead
to that bucket already. -/
theorem response_redirects_route_of_bucket (limit : Nat) (before : List (Instant × Event)) (now : Instant)
    (t : Ticket) (key : RouteKey) (scope : Scope) (e : Event) (r : Report) (hash : String)
    (ht : ((ofLimit limit).run before).ticket? t.caller = some t) (hw : t.wanted = .route key scope)
    (hs : scope ≠ .exempt) (he : e.Reports t.caller r) (hr : r.bucket = some hash) :
    let x := ((ofLimit limit).run before).tables
    let y := (((ofLimit limit).run before).step now e).1.tables
    ∃ i made, t.bucket = some i ∧ x.keys[i]? = some made ∧
      (∀ other, y.routes.get? other =
        if other = made ∧ x.home i hash made ≠ i then some (x.home i hash made) else x.routes.get? other) ∧
      (made = key → (x.Redirects y key hash ↔ x.home i hash key ≠ i ∨ x.routes.get? key = some i)) ∧
      (made ≠ key → made.majors = key.majors →
        (x.Redirects y key hash ↔ x.routes.get? key = some (x.home i hash made) ∧
          (x.home i hash made = i ∨ x.routes.get? made = some (x.home i hash made)))) := by
  intro x y
  have hhoused : Housed ((ofLimit limit).run before) := housed_run limit before
  obtain ⟨i, hb, -, hi⟩ := hhoused.lodged.bucket (List.mem_of_find?_eq_some ht) hw hs
  obtain ⟨made, hmade⟩ : ∃ made, x.keys[i]? = some made := ⟨_, List.getElem?_eq_getElem hi⟩
  have hnamed : ((ofLimit limit).run before).named? e = some ⟨key, i, hash⟩ := by
    simp [named?_of_reports he, naming?, ht, hw, hb, hr, Wanted.route?]
  have hy : y = x.named i hash := by
    rcases tables_step hhoused.lodged.routed now e with ⟨n, hn, htables⟩ | ⟨hn, -⟩
    · cases hnamed.symm.trans hn
      exact htables
    · cases hnamed.symm.trans hn
  rw [hy]
  refine ⟨i, made, hb, hmade, Tables.get?_routes_named hmade hash, fun hown => ?_, fun hne hm => ?_⟩
  · exact Tables.redirects_named_own (hown ▸ hmade)
  · exact Tables.redirects_named_folded hmade hne hm

/-- A second route whose first response names the bucket of the first one is folded onto it. -/
theorem named_route_redirected :
    let pins : RouteKey := ⟨.get, "channels/1/pins"⟩
    let messages : RouteKey := ⟨.get, "channels/1/messages"⟩
    let r : Report := { limit := some 5, remaining := some 4, bucket := some "shared" }
    let s := (ofLimit 0).run [(0, .arrive 1 (.route pins .routeOnly)), (0, .record 1 r),
      (0, .arrive 2 (.route messages .routeOnly))]
    s.ticket? 2 = some ⟨2, .route messages .routeOnly, some 1⟩ ∧
      s.tables.Redirects (s.step 0 (.record 2 r)).1.tables messages "shared" := by
  intro pins messages r s
  have ht : s.ticket? 2 = some ⟨2, .route messages .routeOnly, some 1⟩ := by decide +kernel
  obtain ⟨i, made, hi, hmade, -, hown, -⟩ := response_redirects_route_of_bucket 0
    [(0, .arrive 1 (.route pins .routeOnly)), (0, .record 1 r), (0, .arrive 2 (.route messages .routeOnly))] 0
    ⟨2, .route messages .routeOnly, some 1⟩ messages .routeOnly (.record 2 r) r "shared" ht rfl (by decide)
    (.inl rfl) rfl
  cases hi
  have hkey : s.tables.keys[1]? = some messages := by decide +kernel
  cases hmade.symm.trans hkey
  exact ⟨ht, (hown rfl).2 (.inl (by decide +kernel))⟩

/-- A folded route whose response names another bucket stays where it is, and the route whose bucket it
is folded onto is led to that other bucket. -/
theorem response_redirects_another_route :
    let pins : RouteKey := ⟨.get, "channels/1/pins"⟩
    let messages : RouteKey := ⟨.get, "channels/1/messages"⟩
    let typing : RouteKey := ⟨.post, "channels/1/typing"⟩
    let r : Report := { limit := some 5, remaining := some 4, bucket := some "shared" }
    let s := (ofLimit 0).run [(0, .arrive 1 (.route pins .routeOnly)), (0, .record 1 r),
      (0, .arrive 2 (.route messages .routeOnly)), (0, .record 2 r),
      (0, .arrive 3 (.route typing .routeOnly)), (0, .record 3 { r with bucket := some "other" }),
      (0, .arrive 4 (.route messages .routeOnly))]
    let u := (s.step 0 (.record 4 { r with bucket := some "other" })).1
    s.ticket? 4 = some ⟨4, .route messages .routeOnly, some 0⟩ ∧
      u.shared.get? (sharedName "other" messages) = some 2 ∧ u.routes.get? messages = some 0 ∧
      s.routes.get? pins = some 0 ∧ u.routes.get? pins = some 2 := by
  decide +kernel

end Limits

end ChatApi.Limit
