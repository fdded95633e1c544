import ChatApi.Proofs.Limit.Lodging
import ChatApi.Proofs.Limit.Major

/-!
# Routes with the same major parameters

Names keep routes with other major parameters apart: where no major parameter holds a blank, a route only
ever leads to a bucket that was made for a route with the same ones, whatever the responses name
(`majors_eq_of_bucket`). So does every caller that is at a bucket.
-/

namespace ChatApi.Limit

namespace Tables

open Limits (sharedName)

/-- A bucket was made for a route with the same major parameters. -/
def Kin (x : Tables) (key : RouteKey) (i : Nat) : Prop :=
  ∃ made, x.keys[i]? = some made ∧ made.majors = key.majors

/-- Routes and names lead to buckets that were made for the same major parameters. -/
structure Kindred (x : Tables) : Prop where
  routes : ∀ key i, x.routes.get? key = some i → x.Kin key i
  shared : ∀ hash key i, key.IsPlain → x.shared.get? (sharedName hash key) = some i → x.Kin key i

variable {x y : Tables} {key made : RouteKey} {hash : String} {i : Nat}

theorem Kin.mono (h : x.Kin key i) (hxy : x.Grows y) : y.Kin key i :=
  let ⟨made, hmade, hm⟩ := h
  ⟨made, hxy.keys i made hmade, hm⟩

theorem Kindred.opened (h : x.Kindred) (key : RouteKey) : (x.opened key).Kindred := by
  have hgrows := grows_opened x key
  cases hk : x.routes.get? key with
  | some i => simpa [Tables.opened, hk] using h
  | none =>
    have hshared : (x.opened key).shared = x.shared := by simp [Tables.opened, hk]
    have hroutes (key' : RouteKey) : (x.opened key).routes.get? key' =
        if key' = key then some x.keys.length else x.routes.get? key' := by
      simp [Tables.opened, hk, Table.get?_put]
    refine ⟨fun key' i hi => ?_, fun hash key' i hplain hi => ?_⟩
    · rw [hroutes] at hi
      split at hi
      · cases hi
        subst key'
        exact ⟨key, keys_opened_of_new hk, rfl⟩
      · exact (h.routes key' i hi).mono hgrows
    · rw [hshared] at hi
      exact (h.shared hash key' i hplain hi).mono hgrows

/-- A name can only lead to buckets with the major parameters that are in it. -/
theorem Kindred.named (h : x.Kindred) (hplain : ∀ made ∈ x.keys, made.IsPlain) (i : Nat) (hash : String) :
    (x.named i hash).Kindred := by
  have hgrows := grows_named x i hash
  cases hi : x.keys[i]? with
  | none => simpa [Tables.named, hi] using h
  | some made =>
    have hmade := hplain made (List.mem_of_getElem? hi)
    have hhome : x.Kin made (x.home i hash made) := by
      unfold home
      cases hn : x.shared.get? (sharedName hash made) with
      | none => exact ⟨made, hi, rfl⟩
      | some j => exact h.shared hash made j hmade hn
    refine ⟨fun key j hj => ?_, fun hash' key j hkey hj => ?_⟩
    · rw [get?_routes_named hi] at hj
      split at hj
      · rename_i hc
        cases hj
        obtain ⟨rfl, -⟩ := hc
        exact hhome.mono hgrows
      · exact (h.routes key j hj).mono hgrows
    · rw [get?_shared_named hi] at hj
      split at hj
      · rename_i hname
        cases hj
        obtain ⟨other, hother, hm⟩ := hhome.mono hgrows
        exact ⟨other, hother, hm.trans ((Limits.sharedName_inj hkey hmade).1 hname).2.symm⟩
      · exact (h.shared hash' key j hkey hj).mono hgrows

end Tables

namespace Limits

variable {s : Limits} {e : Event}

/-- Routes, names and callers are at buckets of the same major parameters. -/
structure Separate (s : Limits) : Prop where
  housed : Housed s
  plain : Among RouteKey.IsPlain s
  kindred : s.tables.Kindred
  lodged : Lodged s.tables.Kin s

theorem Separate.made_isPlain (h : Separate s) : ∀ made ∈ s.tables.keys, made.IsPlain :=
  fun made hmade => h.plain.routes made (h.housed.sound.covered made hmade)

/-- It does not matter who was woken. -/
theorem Separate.withWoken (h : Separate s) (woken : List Caller) : Separate { s with woken } :=
  ⟨⟨h.housed.sound, h.housed.lodged.congr rfl rfl, h.housed.singleMinded⟩, ⟨h.plain.waiting, h.plain.routes⟩,
    h.kindred, h.lodged.congr rfl rfl⟩

theorem separate_step (h : Separate s) (now : Instant) (he : e.BringsOnly RouteKey.IsPlain) :
    Separate (s.step now e).1 := by
  have hkindred : (s.step now e).1.tables.Kindred := by
    rcases tables_step h.housed.lodged.routed now e with ⟨n, -, ht⟩ | ⟨-, ht | ⟨key, -, ht⟩⟩
    · rw [ht]; exact h.kindred.named h.made_isPlain n.bucket n.hash
    · rw [ht]; exact h.kindred
    · rw [ht]; exact h.kindred.opened key
  have hlodged := h.lodged.mono fun key i hi => hi.mono (grows_step h.housed.lodged.routed now e)
  refine ⟨housed_step h.housed now e, among_step h.plain h.housed now he, hkindred, ?_⟩
  refine lodged_step hlodged h.housed.singleMinded now e fun key hkey => hkindred.routes key _ ?_
  rw [hkey]
  exact Tables.get?_opened_self ..

theorem separate_ofLimit (limit : Nat) : Separate (ofLimit limit) := by
  refine ⟨housed_run limit [], ⟨fun p hp => ?_, fun key hkey => ?_⟩, ⟨fun key i hi => ?_, fun hash key i _ hi => ?_⟩,
    ⟨fun p hp => ?_, fun t ht => ?_⟩⟩
  · cases hp
  · cases hkey
  · cases hi
  · cases hi
  · cases hp
  · cases ht

/-- Whatever responses name, no bucket serves routes with different major parameters. -/
theorem majors_eq_of_bucket (h : Separate s) {k k' : RouteKey} {i : Nat} (hk : s.routes.get? k = some i)
    (hk' : s.routes.get? k' = some i) : k.majors = k'.majors := by
  obtain ⟨made, hmade, hm⟩ := h.kindred.routes k i hk
  obtain ⟨made', hmade', hm'⟩ := h.kindred.routes k' i hk'
  cases hmade.symm.trans hmade'
  exact hm.symm.trans hm'

end Limits

end ChatApi.Limit
