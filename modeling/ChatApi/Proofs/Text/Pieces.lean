import ChatApi.Text.Blank
import ChatApi.Text.Pieces
import Mathlib.Data.List.DropRight

/-!
# Joining pieces and taking them apart

Pieces that hold no separator come back when the text that joins them is taken apart, and the pieces of any
text hold none. Trimming a text that was trimmed changes nothing.
-/

namespace ChatApi.Text

variable {sep : Char} {cs : List Char} {p : Char → Bool}

theorem splitAt_eq_splitOn (sep : Char) (cs : List Char) : splitAt sep cs = cs.splitOn sep := by
  induction cs with
  | nil => rfl
  | cons c cs ih =>
    rw [splitAt, List.splitOn_cons_eq_if_modifyHead, ih]
    cases h : cs.splitOn sep with
    | nil => exact absurd h (List.splitOn_ne_nil sep cs)
    | cons piece pieces => simp

/-- Pieces without separators are those of the text that joins them. -/
theorem splitAt_intercalate {pieces : List (List Char)} (hne : pieces ≠ [])
    (h : ∀ piece ∈ pieces, sep ∉ piece) : splitAt sep ([sep].intercalate pieces) = pieces := by
  rw [splitAt_eq_splitOn, List.splitOn_intercalate sep h hne]

theorem notMem_of_mem_splitAt {piece : List Char} (h : piece ∈ splitAt sep cs) : sep ∉ piece := by
  induction cs generalizing piece with
  | nil =>
    rw [splitAt, List.mem_singleton] at h
    simp [h]
  | cons c cs ih =>
    cases hs : splitAt sep cs with
    | nil => exact absurd hs (splitAt_ne_nil sep cs)
    | cons first pieces =>
      rw [hs] at ih
      simp only [splitAt, hs] at h
      split at h
      · rcases List.mem_cons.1 h with rfl | h
        · simp
        · exact ih h
      · rename_i hc
        rcases List.mem_cons.1 h with rfl | h
        · simp [Ne.symm hc, ih List.mem_cons_self]
        · exact ih (List.mem_cons_of_mem _ h)

theorem splitAt_append (sep : Char) (before after : List Char) :
    splitAt sep (before ++ sep :: after) = splitAt sep before ++ splitAt sep after := by
  simp only [splitAt_eq_splitOn, List.splitOn]
  exact List.splitOnP_append_cons before after (by simp)

/-- A text that begins or ends with the separator has an empty piece. -/
theorem nil_mem_splitAt (h : cs.head? = some sep ∨ cs.getLast? = some sep) : [] ∈ splitAt sep cs := by
  rcases h with h | h
  · obtain ⟨after, rfl⟩ := List.head?_eq_some_iff.1 h
    exact (splitAt_append sep [] after) ▸ List.mem_cons_self
  · obtain ⟨before, rfl⟩ := List.getLast?_eq_some_iff.1 h
    rw [splitAt_append]
    exact List.mem_append_right _ List.mem_cons_self

/-- `inner` is what is left of a text without the characters of a class that stand around it. -/
structure Trims (p : Char → Bool) (cs inner : List Char) : Prop where
  exists_around : ∃ front back, cs = front ++ inner ++ back ∧ (∀ c ∈ front, p c) ∧ ∀ c ∈ back, p c
  head : ∀ c ∈ inner.head?, p c = false
  last : ∀ c ∈ inner.getLast?, p c = false

theorem dropAround_eq_rdropWhile (p : Char → Bool) (cs : List Char) :
    dropAround p cs = (cs.dropWhile p).rdropWhile p := rfl

theorem trims_dropAround (p : Char → Bool) (cs : List Char) : Trims p cs (dropAround p cs) := by
  rw [dropAround_eq_rdropWhile]
  refine ⟨⟨cs.takeWhile p, (cs.dropWhile p).rtakeWhile p, ?_, fun c => List.mem_takeWhile_imp,
    fun c => List.mem_rtakeWhile_imp⟩, fun c hc => ?_, fun c hc => ?_⟩
  · rw [List.append_assoc, List.rdropWhile_append_rtakeWhile, List.takeWhile_append_dropWhile]
  · -- what is cut from the end leaves the first character where it is
    obtain ⟨back, hback⟩ := List.rdropWhile_prefix p (cs.dropWhile p)
    have hfirst := List.head?_dropWhile_not p cs
    rw [← hback, List.head?_append, Option.mem_def.1 hc] at hfirst
    exact hfirst
  · obtain ⟨hne, rfl⟩ := List.mem_getLast?_eq_getLast hc
    simpa using List.rdropWhile_last_not p (cs.dropWhile p) hne

/-- Trimming is the only way to leave a text that begins and ends with none of the class. -/
theorem dropAround_eq_iff {inner : List Char} : dropAround p cs = inner ↔ Trims p cs inner := by
  refine ⟨fun h => h ▸ trims_dropAround p cs, ?_⟩
  rintro ⟨⟨front, back, rfl, hfront, hback⟩, hhead, hlast⟩
  rw [dropAround_eq_rdropWhile, List.append_assoc, List.dropWhile_append_of_pos hfront]
  cases inner with
  | nil =>
    rw [List.nil_append, List.dropWhile_eq_nil_iff.2 hback]
    rfl
  | cons c rest =>
    have hc : ¬ p c = true := by simpa using hhead c rfl
    rw [List.cons_append, List.dropWhile_cons_of_neg hc, ← List.cons_append, List.rdropWhile,
      List.reverse_append, List.dropWhile_append_of_pos (by simpa using hback)]
    exact List.rdropWhile_eq_self_iff.2 fun hne => by
      simpa using hlast _ (List.getLast_mem_getLast? hne)

theorem Trims.trans_self {inner : List Char} (h : Trims p cs inner) : Trims p inner inner :=
  ⟨⟨[], [], by simp, by simp, by simp⟩, h.head, h.last⟩

theorem Trims.subset {inner : List Char} (h : Trims p cs inner) : inner ⊆ cs := by
  obtain ⟨front, back, rfl, -, -⟩ := h.exists_around
  intro c hc
  simp [hc]

end ChatApi.Text
