/-!
# Tables

A table holds one entry under each of its keys, in the order in which the keys came. Nothing is ever
taken off, and what is put under a known key takes the place of the entry that was there.
-/

namespace ChatApi

/-- Entries in order of arrival, at most one under each key. -/
structure Table (κ α : Type) where
  entries : List (κ × α)
  nodup_keys : (entries.map Prod.fst).Nodup

namespace Table

variable {κ α : Type} [DecidableEq κ]

/-- The table that holds nothing yet. -/
def empty : Table κ α := ⟨[], List.nodup_nil⟩

instance : Inhabited (Table κ α) := ⟨empty⟩

/-- Writes an entry in its place, or behind all others if its key is new. -/
def write (key : κ) (x : α) : List (κ × α) → List (κ × α)
  | [] => [(key, x)]
  | e :: rest => if e.1 = key then (key, x) :: rest else e :: write key x rest

theorem keys_write (key : κ) (x : α) (l : List (κ × α)) :
    (write key x l).map Prod.fst =
      if key ∈ l.map Prod.fst then l.map Prod.fst else l.map Prod.fst ++ [key] := by
  induction l with
  | nil => simp [write]
  | cons e rest ih =>
    by_cases h : e.1 = key
    · simp [write, h]
    · simp only [write, h, if_false, List.map_cons, ih, List.mem_cons, Ne.symm h, false_or]
      split <;> simp

theorem nodup_keys_write (key : κ) (x : α) {l : List (κ × α)} (h : (l.map Prod.fst).Nodup) :
    ((write key x l).map Prod.fst).Nodup := by
  rw [keys_write]
  split
  · exact h
  · rename_i hk
    exact List.nodup_append.2 ⟨h, by simp, by simpa using fun a _ hm e => hk (by simp_all)⟩

theorem mem_of_mem_write {key : κ} {x : α} {l : List (κ × α)} {e : κ × α} (h : e ∈ write key x l) :
    e = (key, x) ∨ e ∈ l := by
  induction l with
  | nil => exact .inl (List.mem_singleton.1 h)
  | cons d rest ih =>
    unfold write at h
    split at h
    · exact (List.mem_cons.1 h).imp_right (List.mem_cons_of_mem d)
    · rcases List.mem_cons.1 h with rfl | h
      · exact .inr List.mem_cons_self
      · exact (ih h).imp_right (List.mem_cons_of_mem d)

/-- What is written is new, so that no two keys have one entry afterwards if none had before. -/
theorem nodup_entries_write (key : κ) {x : α} {l : List (κ × α)} (hx : x ∉ l.map Prod.snd)
    (h : (l.map Prod.snd).Nodup) : ((write key x l).map Prod.snd).Nodup := by
  induction l with
  | nil => simp [write]
  | cons d rest ih =>
    rw [List.map_cons, List.mem_cons, not_or] at hx
    rw [List.map_cons, List.nodup_cons] at h
    unfold write
    split
    · rw [List.map_cons, List.nodup_cons]
      exact ⟨hx.2, h.2⟩
    · rw [List.map_cons, List.nodup_cons]
      refine ⟨fun hd => ?_, ih hx.2 h.2⟩
      obtain ⟨e, he, heq⟩ := List.mem_map.1 hd
      rcases mem_of_mem_write he with rfl | he
      · exact hx.1 heq
      · exact h.1 (heq ▸ List.mem_map_of_mem he)

def size (t : Table κ α) : Nat := t.entries.length

def get? (t : Table κ α) (key : κ) : Option α :=
  (t.entries.find? fun e => decide (e.1 = key)).map Prod.snd

def put (t : Table κ α) (key : κ) (x : α) : Table κ α :=
  ⟨write key x t.entries, nodup_keys_write key x t.nodup_keys⟩

theorem get?_put_self (t : Table κ α) (key : κ) (x : α) : (t.put key x).get? key = some x := by
  obtain ⟨l, _⟩ := t
  simp only [get?, put]
  induction l with
  | nil => simp [write]
  | cons e rest ih => by_cases h : e.1 = key <;> simp_all [write]

theorem get?_put_ne {key other : κ} (t : Table κ α) (x : α) (h : other ≠ key) :
    (t.put key x).get? other = t.get? other := by
  obtain ⟨l, _⟩ := t
  simp only [get?, put]
  induction l with
  | nil => simp [write, Ne.symm h]
  | cons e rest ih =>
    by_cases he : e.1 = key
    · have : e.1 ≠ other := by rw [he]; exact Ne.symm h
      simp [write, he, Ne.symm h]
    · by_cases ho : e.1 = other <;> simp_all [write]

@[simp] theorem get?_empty (key : κ) : (empty : Table κ α).get? key = none := rfl

theorem get?_put (t : Table κ α) (key other : κ) (x : α) :
    (t.put key x).get? other = if other = key then some x else t.get? other := by
  split
  · subst other; exact get?_put_self t key x
  · exact get?_put_ne t x ‹_›

theorem mem_of_get? {t : Table κ α} {key : κ} {x : α} (h : t.get? key = some x) : (key, x) ∈ t.entries := by
  obtain ⟨e, he, rfl⟩ := Option.map_eq_some_iff.1 h
  have hfound := List.find?_some he
  have hkey : e.1 = key := of_decide_eq_true hfound
  exact hkey ▸ List.mem_of_find?_eq_some he

end Table

end ChatApi
