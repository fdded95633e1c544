import ChatApi.Limit.Limits

/-!
# Names for major parameters

The name that a bucket is shared by is the name of the service, a blank, and the major parameters. Where
the values of major parameters hold no blank, as no identifier does, the two can be told apart again
(`sharedName_inj`).
-/

namespace ChatApi.Limit

namespace RouteKey

/-- No value of a major parameter holds a blank. -/
def IsPlain (k : RouteKey) : Prop := ∀ p ∈ majorPairs (segments k.template), ' ' ∉ p.2.toList

instance (k : RouteKey) : Decidable k.IsPlain := inferInstanceAs (Decidable (∀ _ ∈ _, _))

theorem noun_of_majorPairs {l : List String} {p : String × String} (h : p ∈ majorPairs l) :
    p.1 ∈ majorNouns := by
  fun_induction majorPairs l with
  | case1 noun value rest hn ih =>
    rcases List.mem_cons.1 h with rfl | h
    · simpa using hn
    · exact ih h
  | case2 noun value rest hn ih => exact ih h
  | case3 => cases h

theorem isLower_of_noun {noun : String} (h : noun ∈ majorNouns) : noun.toList.all Char.isLower := by
  revert noun
  decide

/-- A noun holds nothing but small letters. -/
theorem notMem_noun {noun : String} (h : noun ∈ majorNouns) {c : Char} (hc : c.isLower = false) :
    c ∉ noun.toList :=
  fun hmem => Bool.false_ne_true (hc.symm.trans (List.all_eq_true.1 (isLower_of_noun h) c hmem))

theorem notMem_intercalate {c : Char} {sep : String} {l : List String} (hsep : c ∉ sep.toList)
    (h : ∀ piece ∈ l, c ∉ piece.toList) : c ∉ (sep.intercalate l).toList := by
  induction l with
  | nil => simp
  | cons piece rest ih =>
    have hpiece := h piece List.mem_cons_self
    have hrest : ∀ other ∈ rest, c ∉ other.toList := fun other ho => h other (List.mem_cons_of_mem _ ho)
    cases rest with
    | nil => simpa using hpiece
    | cons next rest =>
      rw [String.intercalate_cons_cons]
      simp only [String.toList_append, List.mem_append, not_or]
      exact ⟨⟨hpiece, hsep⟩, ih hrest⟩

theorem IsPlain.blank_notMem_majors {k : RouteKey} (h : k.IsPlain) : ' ' ∉ k.majors.toList := by
  refine notMem_intercalate (by decide) fun piece hpiece => ?_
  obtain ⟨p, hp, rfl⟩ := List.mem_map.1 hpiece
  simp only [String.toList_append, List.mem_append, not_or]
  exact ⟨⟨notMem_noun (noun_of_majorPairs hp) (by decide), by decide⟩, h p hp⟩

end RouteKey

/-- What comes before the last separator and what comes after it can be told apart. -/
theorem eq_of_last_separator {α : Type} {sep : α} {a b c d : List α} (hb : sep ∉ b) (hd : sep ∉ d)
    (h : a ++ sep :: b = c ++ sep :: d) : a = c ∧ b = d := by
  rcases List.append_eq_append_iff.1 h with ⟨as, hc, hb'⟩ | ⟨as, ha, hd'⟩
  · cases as with
    | nil => exact ⟨by simpa using hc.symm, (List.cons.inj hb').2⟩
    | cons x as => exact absurd ((List.cons.inj hb').2 ▸ by simp) hb
  · cases as with
    | nil => exact ⟨by simpa using ha, (List.cons.inj hd').2.symm⟩
    | cons x as => exact absurd ((List.cons.inj hd').2 ▸ by simp) hd

namespace Limits

/-- Names for plain major parameters are the same only if both parts are. -/
theorem sharedName_inj {k k' : RouteKey} (h : k.IsPlain) (h' : k'.IsPlain) {hash hash' : String} :
    sharedName hash k = sharedName hash' k' ↔ hash = hash' ∧ k.majors = k'.majors := by
  refine ⟨fun he => ?_, fun ⟨hh, hm⟩ => by simp [sharedName, hh, hm]⟩
  have hlist : hash.toList ++ ' ' :: k.majors.toList = hash'.toList ++ ' ' :: k'.majors.toList := by
    simpa [sharedName] using congrArg String.toList he
  obtain ⟨hhash, hmajors⟩ := eq_of_last_separator h.blank_notMem_majors h'.blank_notMem_majors hlist
  exact ⟨String.toList_inj.1 hhash, String.toList_inj.1 hmajors⟩

/-- A value that ends in a blank is taken for the end of a name. -/
example : sharedName "x channels/1" ⟨.get, "gateway"⟩ = sharedName "x" ⟨.get, "channels/1 "⟩ := by
  decide +kernel

end Limits

end ChatApi.Limit
