import ChatApi.Proofs.Limit.Lodging
import ChatApi.Proofs.Limit.Major

/-!
# Folding comes to rest

Where the responses of each route always name one bucket, and no major parameter holds a blank, routes
that were named alike share a bucket from then on: the one that was first named so. `Tables.Settled` says
what the tables have to do with the names given so far. A route leads to the bucket that was made for it
until its responses name another, and so does every caller that is still at a bucket from before
(`Tables.Leads`). That is why a late response only repeats what the tables say already
(`Tables.Settled.named`).

Main theorem: `folding_converges`; `global_refusal_folds_nothing` is a response that is not taken over.
-/

namespace ChatApi.Limit

/-- What the bucket of a response goes by from then on. -/
def Naming.name (n : Naming) : String := Limits.sharedName n.hash n.key

/-- Two responses name one bucket for the same major parameters. -/
def Naming.Alike (m n : Naming) : Prop := m.hash = n.hash ∧ m.key.majors = n.key.majors

instance (m n : Naming) : Decidable (m.Alike n) := inferInstanceAs (Decidable (_ ∧ _))

/-- The responses of each route always name one bucket. -/
def Steady (ns : List Naming) : Prop := ∀ m ∈ ns, ∀ n ∈ ns, m.key = n.key → m.hash = n.hash

theorem Steady.of_append {ns more : List Naming} (h : Steady (ns ++ more)) : Steady ns :=
  fun m hm n hn => h m (List.mem_append_left _ hm) n (List.mem_append_left _ hn)

theorem Naming.name_eq_iff {m n : Naming} (hm : m.key.IsPlain) (hn : n.key.IsPlain) :
    m.name = n.name ↔ m.Alike n := Limits.sharedName_inj hm hn

namespace Tables

open Limits (sharedName)

/-- A caller on a route may be at a bucket: it was made for the route, or the responses of the route have
named it. -/
def Leads (x : Tables) (ns : List Naming) (key : RouteKey) (i : Nat) : Prop :=
  key.IsPlain ∧ (x.keys[i]? = some key ∨ ∃ n ∈ ns, n.key = key ∧ x.shared.get? n.name = some i)

/-- What the tables have to do with the names that were given so far. -/
structure Settled (x : Tables) (ns : List Naming) : Prop where
  sound : x.Sound
  /-- A name leads to the bucket that was first named so. -/
  registered : ∀ name, x.shared.get? name = (ns.find? (·.name = name)).map (·.bucket)
  /-- That bucket was made for the route which was first named so. -/
  first : ∀ name n, ns.find? (·.name = name) = some n → x.keys[n.bucket]? = some n.key
  /-- A route that was named leads where its name does. -/
  named : ∀ n ∈ ns, x.routes.get? n.key = x.shared.get? n.name
  leads : ∀ key i, x.routes.get? key = some i → x.Leads ns key i

variable {x : Tables} {ns : List Naming} {key : RouteKey} {i : Nat} {n : Naming} {name : String}

/-- A name that was given leads somewhere. -/
theorem Settled.isSome_of_mem (h : x.Settled ns) (hn : n ∈ ns) : (x.shared.get? n.name).isSome := by
  rw [h.registered, Option.isSome_map, List.find?_isSome]
  exact ⟨n, hn, by simp⟩

theorem Settled.isPlain (h : x.Settled ns) (hn : n ∈ ns) : n.key.IsPlain := by
  obtain ⟨i, hi⟩ := Option.isSome_iff_exists.1 (h.isSome_of_mem hn)
  exact (h.leads n.key i ((h.named n hn).trans hi)).1

theorem Settled.first_mem (h : x.Settled ns) (hi : x.shared.get? name = some i) :
    ∃ m ∈ ns, m.name = name ∧ x.keys[i]? = some m.key := by
  rw [h.registered] at hi
  obtain ⟨m, hm, rfl⟩ := Option.map_eq_some_iff.1 hi
  exact ⟨m, List.mem_of_find?_eq_some hm, by simpa using List.find?_some hm, h.first name m hm⟩

theorem Leads.mono {y : Tables} {more : List Naming} (h : x.Leads ns key i) (hxy : x.Grows y)
    (hns : ∀ n ∈ ns, n ∈ more) : y.Leads more key i := by
  refine ⟨h.1, h.2.imp (hxy.keys i key) fun ⟨n, hn, hkey, hi⟩ => ?_⟩
  exact ⟨n, hns n hn, hkey, hxy.shared _ _ hi⟩

theorem Settled.opened (h : x.Settled ns) (hkey : key.IsPlain) : (x.opened key).Settled ns := by
  cases hk : x.routes.get? key with
  | some i => simpa [Tables.opened, hk] using h
  | none =>
    have hshared : (x.opened key).shared = x.shared := by simp [Tables.opened, hk]
    have hroutes (key' : RouteKey) : (x.opened key).routes.get? key' =
        if key' = key then some x.keys.length else x.routes.get? key' := by
      simp [Tables.opened, hk, Table.get?_put]
    have hgrows := grows_opened x key
    refine ⟨h.sound.opened key, fun name => hshared ▸ h.registered name,
      fun name n hn => hgrows.keys _ _ (h.first name n hn), fun n hn => ?_, fun key' i hi => ?_⟩
    · -- a route that was named has an entry
      have hne : n.key ≠ key := by
        rintro rfl
        have := h.isSome_of_mem hn
        rw [← h.named n hn, hk] at this
        cases this
      rw [hroutes, if_neg hne, hshared, h.named n hn]
    · rw [hroutes] at hi
      split at hi
      · cases hi
        subst key'
        exact ⟨hkey, .inl (keys_opened_of_new hk)⟩
      · exact (h.leads key' i hi).mono hgrows fun n hn => hn

/-! ### Another name -/

theorem find?_snoc (ns : List Naming) (n : Naming) (name : String) :
    (ns ++ [n]).find? (·.name = name) =
      (ns.find? (·.name = name)).or (if n.name = name then some n else none) := by
  rw [List.find?_append, List.find?_singleton]
  simp

/-- A caller that is not at the bucket made for its route is at the one that its response names again. -/
theorem Leads.own_or_named (h : x.Leads ns n.key i) (hs : Steady (ns ++ [n])) :
    x.keys[i]? = some n.key ∨ ∃ m ∈ ns, m.key = n.key ∧ m.name = n.name ∧ x.shared.get? n.name = some i := by
  refine h.2.imp_right fun ⟨m, hm, hkey, hi⟩ => ?_
  have hhash : m.hash = n.hash := hs m (List.mem_append_left _ hm) n (by simp) hkey
  have hname : m.name = n.name := by simp [Naming.name, hhash, hkey]
  exact ⟨m, hm, hkey, hname, hname ▸ hi⟩

/-- A route that has a bucket of its own leads there, or where its responses lead it. -/
theorem Settled.entry (h : x.Settled ns) (hs : Steady (ns ++ [n])) (hown : x.keys[i]? = some n.key) :
    x.routes.get? n.key = some i ∨ ∃ j, x.routes.get? n.key = some j ∧ x.shared.get? n.name = some j := by
  obtain ⟨j, hj⟩ := Option.isSome_iff_exists.1 (h.sound.covered n.key (List.mem_of_getElem? hown))
  rcases (h.leads n.key j hj).own_or_named hs with hmade | ⟨m, hm, hkey, hname, hshared⟩
  · have hlt : i < x.keys.length := (List.getElem?_eq_some_iff.1 hown).1
    have hij : i = j := (List.getElem?_inj hlt h.sound.nodup).1 (hown.trans hmade.symm)
    exact .inl (hij ▸ hj)
  · exact .inr ⟨j, hj, hshared⟩

/-- A name that is given for the first time is given to the bucket that was made for the route. -/
theorem Settled.named_new (h : x.Settled ns) (hl : x.Leads ns n.key n.bucket) (hs : Steady (ns ++ [n]))
    (hnew : x.shared.get? n.name = none) :
    x.keys[n.bucket]? = some n.key ∧ x.routes.get? n.key = some n.bucket ∧
      x.named n.bucket n.hash = { x with shared := x.shared.put n.name n.bucket } := by
  have hown : x.keys[n.bucket]? = some n.key := by
    refine (hl.own_or_named hs).resolve_right ?_
    rintro ⟨-, -, -, -, hi⟩
    cases hnew.symm.trans hi
  refine ⟨hown, (h.entry hs hown).resolve_right ?_, ?_⟩
  · rintro ⟨j, -, hj⟩
    cases hnew.symm.trans hj
  · have : x.shared.get? (sharedName n.hash n.key) = none := hnew
    simp only [Tables.named, hown, this]
    rfl

/-- A name that was given before leads the route to the bucket that goes by it. -/
theorem Settled.named_known (h : x.Settled ns) (hl : x.Leads ns n.key n.bucket) (hs : Steady (ns ++ [n]))
    {j : Nat} (hknown : x.shared.get? n.name = some j) :
    (x.named n.bucket n.hash).shared = x.shared ∧
      ∀ key, (x.named n.bucket n.hash).routes.get? key = if key = n.key then some j else x.routes.get? key := by
  have of_same (hx : x.named n.bucket n.hash = x) (hroute : x.routes.get? n.key = some j) :
      (x.named n.bucket n.hash).shared = x.shared ∧ ∀ key,
        (x.named n.bucket n.hash).routes.get? key = if key = n.key then some j else x.routes.get? key := by
    rw [hx]
    refine ⟨rfl, fun key => ?_⟩
    split
    · subst key
      exact hroute
    · rfl
  rcases hl.own_or_named hs with hown | ⟨m, hm, hkey, hname, hi⟩
  · have hknown' : x.shared.get? (sharedName n.hash n.key) = some j := hknown
    by_cases hj : j = n.bucket
    · refine of_same (by simp [Tables.named, hown, hknown', hj]) ?_
      rcases h.entry hs hown with hroute | ⟨j', hroute, hj'⟩
      · exact hj ▸ hroute
      · cases hknown.symm.trans hj'
        exact hroute
    · have hx : x.named n.bucket n.hash = { x with routes := x.routes.put n.key j } := by
        simp [Tables.named, hown, hknown', hj]
      rw [hx]
      exact ⟨rfl, fun key => Table.get?_put ..⟩
  · -- the response comes from the bucket that it names: nothing changes
    cases hknown.symm.trans hi
    obtain ⟨m', hm', hname', hmade⟩ := h.first_mem hknown
    have hhash : m'.hash = n.hash :=
      ((Naming.name_eq_iff (h.isPlain hm') (hkey ▸ h.isPlain hm)).1 hname').1
    have hknown' : x.shared.get? (sharedName n.hash m'.key) = some n.bucket := by
      rw [← hhash, ← hknown, ← hname']
      rfl
    refine of_same (by simp [Tables.named, hmade, hknown']) ?_
    rw [← hkey, h.named m hm, hname, hknown]

theorem Settled.of_new (h : x.Settled ns) (hl : x.Leads ns n.key n.bucket) (hs : Steady (ns ++ [n]))
    (hnew : x.shared.get? n.name = none) : (x.named n.bucket n.hash).Settled (ns ++ [n]) := by
  obtain ⟨hown, hroute, hy⟩ := h.named_new hl hs hnew
  have hsound := h.sound.named n.bucket n.hash
  rw [hy] at hsound ⊢
  have hshared (name : String) : (x.shared.put n.name n.bucket).get? name =
      if name = n.name then some n.bucket else x.shared.get? name := Table.get?_put ..
  have hfind : ns.find? (·.name = n.name) = none := by
    rw [h.registered, Option.map_eq_none_iff] at hnew
    exact hnew
  refine ⟨hsound, fun name => ?_, fun name m hm => ?_, fun m hm => ?_, fun key i hi => ?_⟩
  · rw [hshared, find?_snoc]
    by_cases hname : name = n.name
    · simp [hname, hfind]
    · simp [hname, Ne.symm hname, h.registered]
  · rw [find?_snoc] at hm
    rcases Option.or_eq_some_iff.1 hm with hm | ⟨-, hm⟩
    · exact h.first name m hm
    · split at hm
      · cases hm
        exact hown
      · cases hm
  · rw [hshared]
    rcases List.mem_append.1 hm with hm | hm
    · have hname : m.name ≠ n.name := by
        intro hname
        have := h.isSome_of_mem hm
        rw [hname, hnew] at this
        cases this
      rw [if_neg hname]
      exact h.named m hm
    · cases List.mem_singleton.1 hm
      rw [if_pos rfl]
      exact hroute
  · rw [← hy]
    exact (h.leads key i hi).mono (grows_named x n.bucket n.hash) fun m hm => List.mem_append_left _ hm

theorem Settled.of_known (h : x.Settled ns) (hl : x.Leads ns n.key n.bucket) (hs : Steady (ns ++ [n]))
    {j : Nat} (hknown : x.shared.get? n.name = some j) :
    (x.named n.bucket n.hash).Settled (ns ++ [n]) := by
  obtain ⟨hshared, hroutes⟩ := h.named_known hl hs hknown
  have hfind (name : String) : (ns ++ [n]).find? (·.name = name) = ns.find? (·.name = name) := by
    rw [find?_snoc]
    by_cases hname : n.name = name
    · obtain ⟨m, hm, -⟩ := Option.map_eq_some_iff.1 ((h.registered n.name).symm.trans hknown)
      rw [← hname, hm, Option.some_or]
    · rw [if_neg hname, Option.or_none]
  refine ⟨h.sound.named n.bucket n.hash, fun name => ?_, fun name m hm => ?_, fun m hm => ?_,
    fun key i hi => ?_⟩
  · rw [hshared, hfind, h.registered]
  · rw [hfind] at hm
    rw [keys_named]
    exact h.first name m hm
  · rw [hroutes, hshared]
    rcases List.mem_append.1 hm with hm | hm
    · by_cases hkey : m.key = n.key
      · have hhash := hs m (List.mem_append_left _ hm) n (by simp) hkey
        have hname : m.name = n.name := by simp [Naming.name, hhash, hkey]
        rw [if_pos hkey, hname, hknown]
      · rw [if_neg hkey]
        exact h.named m hm
    · cases List.mem_singleton.1 hm
      rw [if_pos rfl, hknown]
  · rw [hroutes] at hi
    split at hi
    · cases hi
      subst key
      exact ⟨hl.1, .inr ⟨n, by simp, rfl, by rw [hshared, hknown]⟩⟩
    · exact (h.leads key i hi).mono (grows_named x n.bucket n.hash) fun m hm => List.mem_append_left _ hm

/-- What the tables have to do with the names stays so when another one is given. -/
theorem settled_named (h : x.Settled ns) (hl : x.Leads ns n.key n.bucket) (hs : Steady (ns ++ [n])) :
    (x.named n.bucket n.hash).Settled (ns ++ [n]) := by
  cases hn : x.shared.get? n.name with
  | none => exact h.of_new hl hs hn
  | some j => exact h.of_known hl hs hn

end Tables

namespace Limits

variable {R : RouteKey → Nat → Prop} {s : Limits} {ns : List Naming} {n : Naming} {now : Instant} {e : Event}

/-- Whoever names a bucket is lodged there. -/
theorem Lodged.named (h : Lodged R s) (hn : s.named? e = some n) : R n.key n.bucket := by
  have of_naming {c : Caller} {r : Report} (hn : s.naming? c r = some n) : R n.key n.bucket := by
    simp only [naming?, Option.bind_eq_bind, Option.bind_eq_some_iff, Option.pure_def, Option.some.injEq] at hn
    obtain ⟨t, ht, key, hkey, i, hi, hash, -, rfl⟩ := hn
    cases h.holding t (List.mem_of_find?_eq_some ht) with
    | bucket wanted bucket fits =>
      rw [wanted] at hkey
      cases hkey
      cases bucket.symm.trans hi
      exact fits
    | account wanted bucket => cases bucket.symm.trans hi
    | exempt wanted bucket => cases bucket.symm.trans hi
  cases e with
  | record c r => exact of_naming hn
  | refuse c r body =>
    simp only [named?] at hn
    split at hn
    · cases hn
    · exact of_naming hn
  | arrive c wanted => cases hn
  | poll c => cases hn
  | withdraw c => cases hn
  | block wait => cases hn

/-- Folding is at rest but for what responses name for the first time. -/
structure Resting (s : Limits) (ns : List Naming) : Prop where
  housed : Housed s
  plain : Among RouteKey.IsPlain s
  settled : s.tables.Settled ns
  lodged : Lodged (s.tables.Leads ns) s

theorem resting_step (h : Resting s ns) (now : Instant) (he : e.BringsOnly RouteKey.IsPlain)
    (hs : Steady (ns ++ (s.named? e).toList)) :
    Resting (s.step now e).1 (ns ++ (s.named? e).toList) := by
  have hsettled : (s.step now e).1.tables.Settled (ns ++ (s.named? e).toList) := by
    rcases tables_step h.housed.lodged.routed now e with ⟨n, hn, ht⟩ | ⟨hn, ht | ⟨key, ha, ht⟩⟩
    · rw [hn] at hs ⊢
      rw [ht]
      exact Tables.settled_named h.settled (h.lodged.named hn) hs
    · rw [hn, ht]
      simpa using h.settled
    · rw [hn, ht]
      simpa using h.settled.opened (h.plain.askedFor he ha)
  refine ⟨housed_step h.housed now e, among_step h.plain h.housed now he, hsettled, ?_⟩
  have hgrows := grows_step h.housed.lodged.routed now e
  have hlodged := h.lodged.mono fun key i hi => hi.mono hgrows fun n hn =>
    List.mem_append_left (s.named? e).toList hn
  refine lodged_step hlodged h.housed.singleMinded now e fun key hkey => hsettled.leads key _ ?_
  rw [hkey]
  exact Tables.get?_opened_self ..

theorem resting_run {es : List (Instant × Event)} (h : Resting s ns)
    (he : ∀ x ∈ es, x.2.BringsOnly RouteKey.IsPlain) (hs : Steady (ns ++ s.namings es)) :
    Resting (s.run es) (ns ++ s.namings es) := by
  induction es generalizing s ns with
  | nil => simpa [namings, run] using h
  | cons x es ih =>
    obtain ⟨now, e⟩ := x
    simp only [namings, ← List.append_assoc] at hs ⊢
    have hstep := resting_step h now (he _ List.mem_cons_self) hs.of_append
    exact ih hstep (fun x hx => he x (List.mem_cons_of_mem _ hx)) hs

theorem resting_ofLimit (limit : Nat) : Resting (ofLimit limit) [] := by
  have hhoused : Housed (ofLimit limit) := housed_run limit []
  refine ⟨hhoused, ⟨fun p hp => ?_, fun key hkey => ?_⟩,
    ⟨hhoused.sound, fun name => rfl, fun name n hn => ?_, fun n hn => ?_, fun key i hi => ?_⟩,
    ⟨fun p hp => ?_, fun t ht => ?_⟩⟩
  · cases hp
  · cases hkey
  · cases hn
  · cases hn
  · cases hi
  · cases hp
  · cases ht

/-- Which bucket was first named so. -/
theorem find?_name_eq (h : ∀ n ∈ ns, n.key.IsPlain) {m : Naming} (hm : m.key.IsPlain) :
    ns.find? (·.name = m.name) = ns.find? (·.Alike m) := by
  induction ns with
  | nil => rfl
  | cons n ns ih =>
    have hn := Naming.name_eq_iff (h n List.mem_cons_self) hm
    simp only [List.find?_cons, hn, ih fun n hn => h n (List.mem_cons_of_mem _ hn)]

/-- Where each route is always named one bucket, and no major parameter holds a blank: once responses have
named two routes alike, both lead to the bucket that was first named so, at every moment from then on. And
a route that has an entry keeps one. -/
theorem folding_converges (limit : Nat) (es : List (Instant × Event))
    (hplain : ∀ x ∈ es, x.2.BringsOnly RouteKey.IsPlain) (hsteady : Steady ((ofLimit limit).namings es))
    (before after : List (Instant × Event)) (hes : es = before ++ after) :
    let s := (ofLimit limit).run before
    (∀ m ∈ (ofLimit limit).namings before, ∀ n ∈ (ofLimit limit).namings before, m.Alike n →
      ∃ first, ((ofLimit limit).namings es).find? (·.Alike m) = some first ∧
        s.shared.get? (sharedName m.hash m.key) = some first.bucket ∧
        s.routes.get? m.key = some first.bucket ∧ s.routes.get? n.key = some first.bucket) ∧
    ∀ key, (s.routes.get? key).isSome → (((ofLimit limit).run es).routes.get? key).isSome := by
  subst hes
  intro s
  have hnames := namings_append (ofLimit limit) before after
  have hbefore : Resting s ((ofLimit limit).namings before) := by
    rw [hnames] at hsteady
    have hrun := resting_run (resting_ofLimit limit) (fun x hx => hplain x (List.mem_append_left _ hx)) hsteady.of_append
    exact hrun
  refine ⟨fun m hm n hn halike => ?_, fun key hkey => ?_⟩
  · have hisPlain : ∀ n ∈ (ofLimit limit).namings before, n.key.IsPlain := fun n hn => hbefore.settled.isPlain hn
    have hname : m.name = n.name := (Naming.name_eq_iff (hisPlain m hm) (hisPlain n hn)).2 halike
    obtain ⟨i, hi⟩ := Option.isSome_iff_exists.1 (hbefore.settled.isSome_of_mem hm)
    obtain ⟨first, hfirst, rfl⟩ := Option.map_eq_some_iff.1 ((hbefore.settled.registered m.name).symm.trans hi)
    refine ⟨first, ?_, hi, (hbefore.settled.named m hm).trans hi, ?_⟩
    · rw [hnames, List.find?_append, ← find?_name_eq hisPlain (hisPlain m hm), hfirst, Option.some_or]
    · exact (hbefore.settled.named n hn).trans (hname ▸ hi)
  · rw [run_append]
    exact (grows_run hbefore.housed after).routes key hkey

/-- The second of two responses on a folded route comes from the bucket that the route had before. -/
theorem late_response_changes_nothing :
    let pins : RouteKey := ⟨.get, "channels/1/pins"⟩
    let messages : RouteKey := ⟨.get, "channels/1/messages"⟩
    let r : Report := { remaining := some 4, bucket := some "shared" }
    let es : List (Instant × Event) := [(0, .arrive 1 (.route pins .routeOnly)), (0, .record 1 r),
      (0, .arrive 2 (.route messages .routeOnly)), (0, .record 2 { remaining := some 4 }),
      (0, .arrive 3 (.route messages .routeOnly)), (0, .arrive 4 (.route messages .routeOnly)),
      (0, .record 3 r), (0, .record 4 r)]
    (ofLimit 0).namings es =
        [⟨pins, 0, "shared"⟩, ⟨messages, 1, "shared"⟩, ⟨messages, 1, "shared"⟩] ∧
      ((ofLimit 0).run es).routes.get? messages = some 0 := by
  intro pins messages r es
  have hnamings : (ofLimit 0).namings es =
      [⟨pins, 0, "shared"⟩, ⟨messages, 1, "shared"⟩, ⟨messages, 1, "shared"⟩] := by decide +kernel
  have hplain : ∀ x ∈ es, x.2.BringsOnly RouteKey.IsPlain := by
    have hpins : pins.IsPlain := by decide +kernel
    have hmessages : messages.IsPlain := by decide +kernel
    simp [es, Event.BringsOnly, hpins, hmessages]
  have hsteady : Steady ((ofLimit 0).namings es) := by
    rw [hnamings]
    simp [Steady, pins, messages]
  obtain ⟨hfolded, -⟩ := folding_converges 0 es hplain hsteady es [] (List.append_nil es).symm
  obtain ⟨first, hfirst, -, -, hroute⟩ := hfolded ⟨pins, 0, "shared"⟩ (by simp [hnamings])
    ⟨messages, 1, "shared"⟩ (by simp [hnamings]) (by decide +kernel)
  rw [hnamings] at hfirst
  have hfind : first = ⟨pins, 0, "shared"⟩ := Option.some.inj (hfirst.symm.trans (by decide +kernel))
  exact ⟨hnamings, by rw [hroute, hfind]⟩

/-- A refusal for the whole account that says nothing of a bucket's budget folds no route, though it names
the bucket of another one. -/
theorem global_refusal_folds_nothing :
    let pins : RouteKey := ⟨.get, "channels/1/pins"⟩
    let messages : RouteKey := ⟨.get, "channels/1/messages"⟩
    let r : Report := { bucket := some "shared", isGlobal := true, retryAfter := some (5 * Span.second) }
    let es : List (Instant × Event) := [(0, .arrive 1 (.route pins .routeOnly)),
      (0, .record 1 { remaining := some 4, bucket := some "shared" }),
      (0, .arrive 2 (.route messages .routeOnly)), (0, .refuse 2 r none)]
    pins.IsPlain ∧ messages.IsPlain ∧ pins.majors = messages.majors ∧
      ((ofLimit 0).run es).routes.get? pins = some 0 ∧
      ((ofLimit 0).run es).routes.get? messages = some 1 := by
  decide +kernel

end Limits

end ChatApi.Limit
