import ChatApi.Table

/-!
# Shelves

A shelf keeps entities in cells of their own and a reference to a cell under each key. Whoever is given
the reference shares the cell: what is written through one is read through all. A key that is known is
updated by writing through its reference, so that the reference stays the same and shows the update; a
key that is new gets a cell that nothing refers to yet.
-/

namespace ChatApi

/-- A shared reference to a cell. -/
structure Handle (α : Type) where
  place : Nat
  deriving Inhabited

theorem Handle.ext_place {α : Type} {a b : Handle α} (h : a.place = b.place) : a = b := by
  cases a; cases b; cases h; rfl

instance {α : Type} : DecidableEq (Handle α) := fun a b =>
  if h : a.place = b.place then isTrue (Handle.ext_place h)
  else isFalse fun e => h (congrArg Handle.place e)

/-- The cells that have been allocated, and under each key a reference to one of them. -/
structure Shelf (κ α : Type) where
  refs : Table κ (Handle α)
  cells : List α
  allocated : ∀ e ∈ refs.entries, e.2.place < cells.length
  nodup_refs : (refs.entries.map Prod.snd).Nodup

namespace Shelf

variable {κ α : Type} [DecidableEq κ]

/-- The shelf that holds nothing yet. -/
def empty : Shelf κ α := ⟨.empty, [], by simp [Table.empty], List.nodup_nil⟩

instance : Inhabited (Shelf κ α) := ⟨empty⟩

def size (s : Shelf κ α) : Nat := s.refs.size

/-- The reference under a key. -/
def handle? (s : Shelf κ α) (key : κ) : Option (Handle α) := s.refs.get? key

/-- Reads through a reference. -/
def at? (s : Shelf κ α) (h : Handle α) : Option α := s.cells[h.place]?

def get? (s : Shelf κ α) (key : κ) : Option α := (s.handle? key).bind s.at?

/-- Writes through a reference. -/
def rewrite (s : Shelf κ α) (h : Handle α) (f : α → α) : Shelf κ α :=
  { s with
    cells := s.cells.modify h.place f
    allocated := by rw [List.length_modify]; exact s.allocated }

/-- The next cell to be allocated. -/
def vacant (s : Shelf κ α) : Handle α := ⟨s.cells.length⟩

omit [DecidableEq κ] in
theorem vacant_not_mem (s : Shelf κ α) : s.vacant ∉ s.refs.entries.map Prod.snd := by
  intro h
  obtain ⟨e, he, heq⟩ := List.mem_map.1 h
  have hlt := s.allocated e he
  rw [heq] at hlt
  exact Nat.lt_irrefl _ hlt

/-- Allocates a cell and refers to it under `key`, from then on to no other. -/
def insert (s : Shelf κ α) (key : κ) (x : α) : Handle α × Shelf κ α :=
  (s.vacant, {
    refs := s.refs.put key s.vacant
    cells := s.cells ++ [x]
    allocated := by
      intro e he
      rw [List.length_append]
      rcases Table.mem_of_mem_write he with rfl | he
      · exact Nat.lt_succ_self _
      · exact Nat.lt_succ_of_lt (s.allocated e he)
    nodup_refs := Table.nodup_entries_write key s.vacant_not_mem s.nodup_refs })

/-- Updates the entry under a known key in place, or inserts a fresh one. The reference is given back. -/
def upsert (s : Shelf κ α) (key : κ) (fresh : α) (update : α → α) : Handle α × Shelf κ α :=
  match s.handle? key with
  | some h => (h, s.rewrite h update)
  | none => s.insert key fresh

/-- Changes the entry under `key` in place, if there is one. -/
def modify (s : Shelf κ α) (key : κ) (f : α → α) : Shelf κ α :=
  match s.handle? key with
  | some h => s.rewrite h f
  | none => s

end Shelf

end ChatApi
