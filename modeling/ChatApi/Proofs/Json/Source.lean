import ChatApi.Json.Codec

/-!
# Where the values of a record come from

A record that was read holds in each of its fields either the value for when that field is left out or what its
codec read one level deeper, from an object (`Fields.sourced_of_close`) as from an array
(`Fields.sourced_of_readItems`). Nothing is read from an array or an object where no nesting is left.
-/

namespace ChatApi.Json

variable {α β : Type} {depth : Nat}

theorem ok_of_map {ε : Type} {r : Except ε α} {f : α → β} {y : β} (h : r.map f = .ok y) :
    ∃ x, r = .ok x ∧ f x = y := by
  cases r with
  | error e => cases h
  | ok x =>
    cases h
    exact ⟨x, rfl, rfl⟩

theorem ok_of_bind {r : Decoded α} {f : α → Decoded β} {y : β} (h : r >>= f = .ok y) :
    ∃ x, r = .ok x ∧ f x = .ok y := by
  cases r with
  | error e => cases h
  | ok x => exact ⟨x, rfl, h⟩

theorem Doc.refuse_ne_ok (d : Doc) (want : String) (x : α) : d.refuse want ≠ .ok x := by
  unfold refuse
  split
  · nofun
  · nofun

/-- The value for when the field is left out, or one that was read for it. -/
def Field.Sourced (field : Field α) (depth : Nat) (x : α) : Prop :=
  field.absent = some x ∨ ∃ d, field.codec.read depth d = .ok x

namespace Fields

variable {ts : List Type}

def Sourced {ts : List Type} (depth : Nat) : Fields ts → Values ts → Prop
  | nil, _ => True
  | cons field rest, (x, xs) => field.Sourced depth x ∧ rest.Sourced depth xs

/-- What has been read so far was read for its field. -/
def SlotsSourced {ts : List Type} (depth : Nat) : Fields ts → Slots ts → Prop
  | nil, _ => True
  | cons field rest, (slot, slots) =>
    (∀ x ∈ slot, ∃ d, field.codec.read depth d = .ok x) ∧ rest.SlotsSourced depth slots

theorem slotsSourced_emptySlots (fields : Fields ts) : fields.SlotsSourced depth fields.emptySlots := by
  induction fields with
  | nil => trivial
  | cons field rest ih => exact ⟨nofun, ih⟩

theorem slotsSourced_of_put {fields : Fields ts} {name : String} {d : Doc} {slots slots' : Slots ts}
    (h : fields.SlotsSourced depth slots) (hput : fields.put depth name d slots = some (.ok slots')) :
    fields.SlotsSourced depth slots' := by
  induction fields with
  | nil => cases hput
  | cons field rest ih =>
    obtain ⟨slot, slots⟩ := slots
    obtain ⟨hslot, hslots⟩ := h
    simp only [put] at hput
    split at hput
    · cases slot with
      | some x => cases hput
      | none =>
        obtain ⟨x, hread, rfl⟩ := ok_of_map (Option.some.inj hput)
        refine ⟨?_, hslots⟩
        intro y hy
        cases hy
        exact ⟨d, hread⟩
    · obtain ⟨r, hrest, hr⟩ := Option.map_eq_some_iff.1 hput
      obtain ⟨more, rfl, rfl⟩ := ok_of_map hr
      exact ⟨hslot, ih hslots hrest⟩

theorem slotsSourced_of_readMembers {fields : Fields ts} : ∀ {members : Members} {slots slots' : Slots ts},
    fields.SlotsSourced depth slots → fields.readMembers depth slots members = .ok slots' →
      fields.SlotsSourced depth slots'
  | .close, _, _, h, hread => by
    cases hread
    exact h
  | .broken _, _, _, _, hread => nomatch hread
  | .member none _ _, _, _, _, hread => nomatch hread
  | .member (some name) value rest, slots, _, h, hread => by
    rw [readMembers] at hread
    split at hread
    · rename_i more hput
      exact slotsSourced_of_readMembers (slotsSourced_of_put h hput) hread
    · cases hread
    · split at hread
      · cases hread
      · exact slotsSourced_of_readMembers h hread

theorem sourced_of_close {fields : Fields ts} {slots : Slots ts} {xs : Values ts}
    (h : fields.SlotsSourced depth slots) (hclose : fields.close slots = .ok xs) : fields.Sourced depth xs := by
  induction fields with
  | nil => trivial
  | cons field rest ih =>
    obtain ⟨slot, slots⟩ := slots
    obtain ⟨hslot, hslots⟩ := h
    simp only [close] at hclose
    split at hclose
    · cases hclose
    · rename_i x hx
      obtain ⟨more, hrest, rfl⟩ := ok_of_map hclose
      refine ⟨?_, ih hslots hrest⟩
      cases slot with
      | none => exact .inl hx
      | some y =>
        cases hx
        exact .inr (hslot _ rfl)

theorem sourced_of_readItems {record : String} {total : Nat} {fields : Fields ts} {seen : Nat} {items : Items}
    {xs : Values ts} (hread : fields.readItems record total depth seen items = .ok xs) : fields.Sourced depth xs := by
  induction fields generalizing seen items with
  | nil => trivial
  | cons field rest ih =>
    cases items with
    | broken f => cases hread
    | close =>
      simp only [readItems] at hread
      split at hread
      · rename_i x hx
        obtain ⟨more, hrest, rfl⟩ := ok_of_map hread
        exact ⟨.inl hx, ih hrest⟩
      · cases hread
    | item d items =>
      simp only [readItems] at hread
      obtain ⟨x, hx, hread⟩ := ok_of_bind hread
      obtain ⟨more, hrest, hread⟩ := ok_of_bind hread
      cases hread
      exact ⟨.inr ⟨d, hx⟩, ih hrest⟩

end Fields

/-- A record is read with a level of nesting left, and its fields one level deeper. -/
theorem Record.sourced_of_read {σ : Type} {ts : List Type} {r : Record σ ts} {d : Doc} {x : σ}
    (h : r.read depth d = .ok x) : ∃ below xs, depth = below + 1 ∧ r.fields.Sourced below xs ∧ r.build xs = x := by
  unfold Record.read at h
  split at h
  · cases h
  · cases h
  · rename_i below items
    obtain ⟨xs, hread, rfl⟩ := ok_of_map h
    exact ⟨below, xs, rfl, Fields.sourced_of_readItems hread, rfl⟩
  · rename_i below members
    obtain ⟨slots, hslots, h⟩ := ok_of_bind h
    obtain ⟨xs, hclose, h⟩ := ok_of_bind h
    cases h
    have hsourced := Fields.slotsSourced_of_readMembers (Fields.slotsSourced_emptySlots r.fields) hslots
    exact ⟨below, xs, rfl, Fields.sourced_of_close hsourced hclose, rfl⟩
  · exact absurd h (Doc.refuse_ne_ok _ _ _)

theorem Record.pos_of_read {σ : Type} {ts : List Type} {r : Record σ ts} {d : Doc} {x : σ}
    (h : r.codec.read depth d = .ok x) : 0 < depth := by
  obtain ⟨below, xs, rfl, -⟩ := sourced_of_read h
  exact Nat.succ_pos below

/-- The values of a list are read one level deeper than the list. -/
theorem Codec.read_of_list_cons {c : Codec α} {d : Doc} {x : α} {xs : List α}
    (h : c.list.read depth d = .ok (x :: xs)) : ∃ below d', depth = below + 1 ∧ c.read below d' = .ok x := by
  simp only [list] at h
  split at h
  · cases h
  · rename_i below items
    cases items with
    | close => cases h
    | broken f => cases h
    | item d' rest =>
      obtain ⟨y, hy, h⟩ := ok_of_bind h
      obtain ⟨ys, -, h⟩ := ok_of_bind h
      cases h
      exact ⟨below, d', rfl, hy⟩
  · exact absurd h (Doc.refuse_ne_ok _ _ _)

end ChatApi.Json
