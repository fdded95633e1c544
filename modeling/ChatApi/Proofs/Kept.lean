import Mathlib.Data.List.Basic

/-!
# What is kept of a list

Where only the entries are kept that `p` says, an entry that is kept comes behind as many as are kept before
it (`getElem?_filter_of_pos`). To change it, or to leave others out, can be done before or after.
-/

namespace ChatApi

variable {α : Type} {p : α → Bool} {l : List α} {i : Nat} {x y : α}

theorem exists_eq_append (h : l[i]? = some x) : ∃ before after, l = before ++ x :: after ∧ before.length = i := by
  obtain ⟨hi, rfl⟩ := List.getElem?_eq_some_iff.1 h
  refine ⟨l.take i, l.drop (i + 1), ?_, List.length_take_of_le (Nat.le_of_lt hi)⟩
  rw [← List.drop_eq_getElem_cons hi, List.take_append_drop]

/-- An entry that is kept comes behind those that are kept before it. -/
theorem getElem?_filter_of_pos (h : l[i]? = some x) (hx : p x) :
    (l.filter p)[(l.take i).countP p]? = some x := by
  obtain ⟨before, after, rfl, rfl⟩ := exists_eq_append h
  simp [hx, List.countP_eq_length_filter]

theorem filter_set_of_pos (h : l[i]? = some x) (hx : p x) (hy : p y) :
    (l.set i y).filter p = (l.filter p).set ((l.take i).countP p) y := by
  obtain ⟨before, after, rfl, rfl⟩ := exists_eq_append h
  simp [hx, hy, List.countP_eq_length_filter]

theorem filter_set_of_neg (h : l[i]? = some x) (hx : ¬ p x) (hy : ¬ p y) :
    (l.set i y).filter p = l.filter p := by
  obtain ⟨before, after, rfl, rfl⟩ := exists_eq_append h
  simp [hx, hy]

/-- Two entries that are kept come in two places. -/
theorem countP_take_inj {j : Nat} (hi : l[i]? = some x) (hx : p x) (hj : l[j]? = some y) (hy : p y) :
    (l.take i).countP p = (l.take j).countP p ↔ i = j := by
  refine ⟨fun h => ?_, fun h => h ▸ rfl⟩
  have lt_of_lt {i j : Nat} {x : α} (hi : l[i]? = some x) (hx : p x) (hlt : i < j) :
      (l.take i).countP p < (l.take j).countP p := by
    have hle : ((l.take (i + 1))).countP p ≤ (l.take j).countP p :=
      (List.take_sublist_take_left hlt).countP_le
    rw [List.take_add_one, hi, Option.toList_some, List.countP_append] at hle
    simp only [List.countP_singleton, hx, if_true] at hle
    exact hle
  rcases Nat.lt_trichotomy i j with hlt | rfl | hlt
  · exact absurd h (Nat.ne_of_lt (lt_of_lt hi hx hlt))
  · rfl
  · exact absurd h (Nat.ne_of_gt (lt_of_lt hj hy hlt))

/-- To keep less first changes nothing where all that is kept in the end is among it. -/
theorem filter_filter_of_imp {q : α → Bool} (h : ∀ x ∈ l, p x → q x) : (l.filter q).filter p = l.filter p := by
  rw [List.filter_filter]
  refine List.filter_congr fun x hx => ?_
  cases hp : p x with
  | true => rw [h x hx hp, Bool.and_self]
  | false => rfl

/-- To leave out the entries of `c` leaves out some that are kept, or none. -/
theorem filter_filter_ne {β : Type} [DecidableEq β] (key : α → β) (p : β → Bool) (c : β) (l : List α) :
    (l.filter (key · ≠ c)).filter (p <| key ·) =
      if p c then (l.filter (p <| key ·)).filter (key · ≠ c) else l.filter (p <| key ·) := by
  split
  · exact List.filter_comm ..
  · rename_i hc
    refine filter_filter_of_imp fun x _ hx => ?_
    have hne : key x ≠ c := fun he => hc (he ▸ hx)
    simpa using hne

end ChatApi
