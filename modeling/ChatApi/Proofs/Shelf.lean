import ChatApi.Shelf
import Mathlib.Data.List.Nodup

/-!
# Handles last

A key refers to the cell that it was given when it came: updates write through the reference and leave it where it
is, and a key that is new gets a cell to which no key refers. So whatever is done to a shelf, the references before
are references afterwards (`Shelf.Extends`), and each shows what its key has by then (`Shelf.KeepsHandles`).
-/

namespace ChatApi.Shelf

variable {κ α : Type} [DecidableEq κ] {s t u : Shelf κ α} {key other : κ} {h k : Handle α}

/-- Every key has the reference in `t` that it has in `s`. -/
structure Extends (s t : Shelf κ α) : Prop where
  handle? : ∀ {key h}, s.handle? key = some h → t.handle? key = some h

/-- Operations that make `t` of `s` give `h` as the handle of `key`: it is the one that the entry has afterwards,
and the one that it had before if it is not new. -/
structure Gives (s t : Shelf κ α) (key : κ) (h : Handle α) : Prop where
  after : t.handle? key = some h
  before : ∀ h', s.handle? key = some h' → h' = h

/-- Whatever has an entry in `s` has the same handle in `t`. Reading through a handle shows the entry of its key,
which `isOf` says is that key's, and no two keys have one handle. -/
structure KeepsHandles (isOf : κ → α → Prop) (s t : Shelf κ α) : Prop where
  kept : ∀ key, (s.get? key).isSome → ∃ h, s.handle? key = some h ∧ t.handle? key = some h
  shown : ∀ key h, t.handle? key = some h → ∃ x, t.at? h = some x ∧ t.get? key = some x ∧ isOf key x
  distinct : ∀ key other h, t.handle? key = some h → t.handle? other = some h → key = other

@[simp] theorem get?_empty (key : κ) : (empty : Shelf κ α).get? key = none := rfl

/-! ### References -/

theorem at?_of_handle? (hh : s.handle? key = some h) : ∃ x, s.at? h = some x ∧ s.get? key = some x := by
  have hlt : h.place < s.cells.length := s.allocated _ (Table.mem_of_get? hh)
  refine ⟨s.cells[h.place], List.getElem?_eq_getElem hlt, ?_⟩
  unfold get?
  rw [hh]
  exact List.getElem?_eq_getElem hlt

theorem get?_of_handle? (hh : s.handle? key = some h) : s.get? key = s.at? h := by
  unfold get?
  rw [hh, Option.bind_some]

theorem handle?_eq_none : s.handle? key = none ↔ s.get? key = none := by
  constructor
  · intro hh
    unfold get?
    rw [hh, Option.bind_none]
  · intro hg
    cases hh : s.handle? key with
    | none => rfl
    | some h =>
      obtain ⟨x, -, hx⟩ := at?_of_handle? hh
      cases hg.symm.trans hx

/-- No cell is referred to under two keys. -/
theorem handle?_inj (hh : s.handle? key = some h) (ho : s.handle? other = some h) : key = other := by
  have heq := List.inj_on_of_nodup_map s.nodup_refs (Table.mem_of_get? hh) (Table.mem_of_get? ho) rfl
  exact congrArg Prod.fst heq

/-! ### Writing through a reference -/

@[simp] theorem handle?_rewrite (s : Shelf κ α) (h : Handle α) (f : α → α) (key : κ) :
    (s.rewrite h f).handle? key = s.handle? key := rfl

omit [DecidableEq κ] in
theorem at?_rewrite (s : Shelf κ α) (h k : Handle α) (f : α → α) :
    (s.rewrite h f).at? k = if k = h then (s.at? h).map f else s.at? k := by
  unfold at? rewrite
  by_cases hk : k = h
  · subst hk
    rw [if_pos rfl, List.getElem?_modify_eq]
    rfl
  · have hplace : h.place ≠ k.place := fun he => hk (Handle.ext_place he.symm)
    rw [if_neg hk]
    exact List.getElem?_modify_ne f s.cells hplace

/-- All see the change, whatever key they came by, and nothing else changes. -/
theorem get?_rewrite (hh : s.handle? key = some h) (f : α → α) (other : κ) :
    (s.rewrite h f).get? other = if other = key then (s.get? key).map f else s.get? other := by
  unfold get?
  rw [handle?_rewrite]
  by_cases ho : other = key
  · subst ho
    rw [if_pos rfl, hh, Option.bind_some, Option.bind_some, at?_rewrite, if_pos rfl]
  · rw [if_neg ho]
    cases hk : s.handle? other with
    | none => rfl
    | some k =>
      have hne : k ≠ h := fun he => ho (handle?_inj (he ▸ hk) hh)
      rw [Option.bind_some, Option.bind_some, at?_rewrite, if_neg hne]

theorem get?_modify (s : Shelf κ α) (key other : κ) (f : α → α) :
    (s.modify key f).get? other = if other = key then (s.get? key).map f else s.get? other := by
  unfold modify
  cases hh : s.handle? key with
  | some h => exact get?_rewrite hh f other
  | none =>
    by_cases ho : other = key
    · subst ho
      rw [if_pos rfl, handle?_eq_none.1 hh, Option.map_none]
    · rw [if_neg ho]

/-! ### Entries that come and those that are updated -/

theorem handle?_insert (s : Shelf κ α) (key other : κ) (x : α) :
    (s.insert key x).2.handle? other = if other = key then some s.vacant else s.handle? other :=
  Table.get?_put ..

theorem at?_vacant_insert (s : Shelf κ α) (key : κ) (x : α) : (s.insert key x).2.at? s.vacant = some x :=
  List.getElem?_concat_length ..

theorem at?_insert (hh : s.handle? other = some h) (key : κ) (x : α) : (s.insert key x).2.at? h = s.at? h :=
  List.getElem?_append_left (s.allocated _ (Table.mem_of_get? hh))

theorem get?_insert (s : Shelf κ α) (key other : κ) (x : α) :
    (s.insert key x).2.get? other = if other = key then some x else s.get? other := by
  unfold get?
  rw [handle?_insert]
  by_cases ho : other = key
  · rw [if_pos ho, if_pos ho, Option.bind_some]
    exact at?_vacant_insert s key x
  · rw [if_neg ho, if_neg ho]
    cases hh : s.handle? other with
    | none => rfl
    | some h => exact at?_insert hh key x

/-- What is stored has the reference that is given back. -/
theorem handle?_upsert (s : Shelf κ α) (key : κ) (fresh : α) (update : α → α) :
    (s.upsert key fresh update).2.handle? key = some (s.upsert key fresh update).1 := by
  unfold upsert
  cases hh : s.handle? key with
  | some h => exact hh
  | none =>
    rw [handle?_insert, if_pos rfl]
    rfl

theorem get?_upsert (s : Shelf κ α) (key other : κ) (fresh : α) (update : α → α) :
    (s.upsert key fresh update).2.get? other =
      if other = key then some (((s.get? key).map update).getD fresh) else s.get? other := by
  unfold upsert
  cases hh : s.handle? key with
  | some h =>
    obtain ⟨x, -, hx⟩ := at?_of_handle? hh
    refine (get?_rewrite hh update other).trans ?_
    rw [hx]
    rfl
  | none =>
    refine (get?_insert s key other fresh).trans ?_
    rw [handle?_eq_none.1 hh]
    rfl

/-- What is read through the reference that is given back. -/
theorem at?_upsert (s : Shelf κ α) (key : κ) (fresh : α) (update : α → α) :
    (s.upsert key fresh update).2.at? (s.upsert key fresh update).1 =
      some (((s.get? key).map update).getD fresh) := by
  rw [← get?_of_handle? (handle?_upsert s key fresh update), get?_upsert, if_pos rfl]

/-! ### Shelves that are written on -/

theorem Extends.refl (s : Shelf κ α) : s.Extends s := ⟨id⟩

theorem Extends.trans (hs : s.Extends t) (ht : t.Extends u) : s.Extends u :=
  ⟨fun hh => ht.handle? (hs.handle? hh)⟩

theorem extends_rewrite (s : Shelf κ α) (h : Handle α) (f : α → α) : s.Extends (s.rewrite h f) :=
  ⟨id⟩

/-- Under a known key nothing may be inserted, since it would lose its cell. -/
theorem extends_insert (hnew : s.handle? key = none) (x : α) : s.Extends (s.insert key x).2 := by
  refine ⟨fun {other h} hh => ?_⟩
  rw [handle?_insert, if_neg]
  · exact hh
  · rintro rfl
    cases hnew.symm.trans hh

theorem extends_upsert (s : Shelf κ α) (key : κ) (fresh : α) (update : α → α) :
    s.Extends (s.upsert key fresh update).2 := by
  unfold upsert
  split
  · exact extends_rewrite ..
  · exact extends_insert ‹_› fresh

theorem extends_modify (s : Shelf κ α) (key : κ) (f : α → α) : s.Extends (s.modify key f) := by
  unfold modify
  split
  · exact extends_rewrite ..
  · exact .refl s

theorem gives_upsert (s : Shelf κ α) (key : κ) (fresh : α) (update : α → α) :
    s.Gives (s.upsert key fresh update).2 key (s.upsert key fresh update).1 := by
  refine ⟨handle?_upsert .., fun h hh => ?_⟩
  have hafter := (extends_upsert s key fresh update).handle? hh
  exact Option.some.inj (hafter.symm.trans (handle?_upsert ..))

theorem Gives.extends (hg : s.Gives t key h) (ht : t.Extends u) : s.Gives u key h :=
  ⟨ht.handle? hg.after, hg.before⟩

theorem Extends.gives (hs : s.Extends t) (hg : t.Gives u key h) : s.Gives u key h :=
  ⟨hg.after, fun h' hh => hg.before h' (hs.handle? hh)⟩

theorem Extends.keepsHandles {isOf : κ → α → Prop} (hs : s.Extends t)
    (hof : ∀ key x, t.get? key = some x → isOf key x) : KeepsHandles isOf s t := by
  refine ⟨fun key hkey => ?_, fun key h hh => ?_, fun key other h hh ho => handle?_inj hh ho⟩
  · cases hh : s.handle? key with
    | none =>
      rw [handle?_eq_none.1 hh] at hkey
      cases hkey
    | some h => exact ⟨h, rfl, hs.handle? hh⟩
  · obtain ⟨x, hat, hget⟩ := at?_of_handle? hh
    exact ⟨x, hat, hget, hof key x hget⟩

end ChatApi.Shelf
