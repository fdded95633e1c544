import ChatApi.Proofs.Limit.Template

/-!
# Which values are listed as major parameters

A template is read twice for its major parameters. Accepting it, one looks back: a segment is the value of a
major parameter if a noun stands in front of it (`substituted`). Listing them, one takes each noun together
with the segment behind it and goes on after both (`majorPairs`), so that a value is not taken for a noun.

The two differ where a noun is the value of another one and something stands behind it (`Crowded`), and only
there: `majors_list_substituted`. All other keys list every number that their templates hold.
-/

namespace ChatApi.Limit

/-- The segments with a noun in front of them, `previous` being in front of the first. -/
def substituted : (previous : Option String) → List String → List String
  | _, [] => []
  | previous, s :: rest =>
    if previous.any majorNouns.contains then s :: substituted (some s) rest else substituted (some s) rest

/-- A noun stands behind another one, and something behind it. -/
def Crowded (l : List String) : Prop :=
  ∃ before noun value next after, l = before ++ noun :: value :: next :: after ∧
    noun ∈ majorNouns ∧ value ∈ majorNouns

/-- Whether a segment is made of digits. -/
def isNumber (s : String) : Bool := s.toList.all Char.isDigit

theorem crowded_cons {noun value next : String} {rest : List String} :
    Crowded (noun :: value :: next :: rest) ↔
      noun ∈ majorNouns ∧ value ∈ majorNouns ∨ Crowded (value :: next :: rest) := by
  constructor
  · rintro ⟨before, noun', value', next', after, heq, hn, hv⟩
    cases before with
    | nil =>
      simp only [List.nil_append, List.cons.injEq] at heq
      obtain ⟨rfl, rfl, -, -⟩ := heq
      exact .inl ⟨hn, hv⟩
    | cons b before =>
      obtain ⟨-, heq⟩ := List.cons.inj heq
      exact .inr ⟨before, noun', value', next', after, heq, hn, hv⟩
  · rintro (⟨hn, hv⟩ | ⟨before, noun', value', next', after, heq, hn, hv⟩)
    · exact ⟨[], noun, value, next, rest, rfl, hn, hv⟩
    · exact ⟨noun :: before, noun', value', next', after, by rw [heq]; rfl, hn, hv⟩

theorem not_crowded_of_length_le {l : List String} (h : l.length ≤ 2) : ¬ Crowded l := by
  rintro ⟨before, noun, value, next, after, rfl, -⟩
  simp only [List.length_append, List.length_cons] at h
  omega

/-- What stands first and is no noun crowds nothing. -/
theorem crowded_cons_of_notMem {s : String} (h : s ∉ majorNouns) (l : List String) :
    Crowded (s :: l) ↔ Crowded l := by
  rcases l with _ | ⟨value, _ | ⟨next, rest⟩⟩
  · exact iff_of_false (not_crowded_of_length_le (by simp)) (not_crowded_of_length_le (by simp))
  · exact iff_of_false (not_crowded_of_length_le (by simp)) (not_crowded_of_length_le (by simp))
  · simp [crowded_cons, h]

/-! ### Looking back and taking pairs -/

theorem substituted_none_cons (s : String) (rest : List String) :
    substituted none (s :: rest) = substituted (some s) rest := by
  simp [substituted]

theorem substituted_of_notMem {previous : String} (h : previous ∉ majorNouns) (l : List String) :
    substituted (some previous) l = substituted none l := by
  cases l <;> simp [substituted, h]

theorem substituted_of_mem {noun : String} (h : noun ∈ majorNouns) (value : String) (rest : List String) :
    substituted (some noun) (value :: rest) = value :: substituted (some value) rest := by
  simp [substituted, h]

theorem sublist_substituted (previous : Option String) (l : List String) :
    (substituted none l).Sublist (substituted previous l) := by
  cases l with
  | nil => exact List.Sublist.refl _
  | cons s rest =>
    rw [substituted_none_cons, substituted]
    split
    · exact List.sublist_cons_self ..
    · exact List.Sublist.refl _

/-- Whatever is taken as the value of a noun has that noun in front of it. -/
theorem values_sublist (l : List String) :
    ((RouteKey.majorPairs l).map Prod.snd).Sublist (substituted none l) := by
  fun_induction RouteKey.majorPairs l with
  | case1 noun value rest hn ih =>
    rw [substituted_none_cons, substituted_of_mem (by simpa using hn)]
    exact (ih.trans (sublist_substituted ..)).cons_cons value
  | case2 noun value rest hn ih =>
    rw [substituted_none_cons, substituted_of_notMem (by simpa using hn)]
    exact ih
  | case3 => exact List.nil_sublist _

/-- Taking pairs and looking back find the same values exactly where the template is not crowded. -/
theorem values_eq_iff (l : List String) :
    (RouteKey.majorPairs l).map Prod.snd = substituted none l ↔ ¬ Crowded l := by
  fun_induction RouteKey.majorPairs l with
  | case1 noun value rest hn ih =>
    have hn : noun ∈ majorNouns := by simpa using hn
    rw [substituted_none_cons, substituted_of_mem hn, List.map_cons]
    cases rest with
    | nil => exact iff_of_true rfl (not_crowded_of_length_le (by simp))
    | cons next rest =>
      rw [crowded_cons]
      by_cases hv : value ∈ majorNouns
      · -- the noun in second place is passed over, and what it stands in front of is not listed
        refine iff_of_false (fun heq => ?_) (fun hc => hc (.inl ⟨hn, hv⟩))
        have hle := (values_sublist (next :: rest)).length_le
        have hlen := congrArg List.length heq
        rw [substituted_of_mem hv] at hlen
        rw [substituted_none_cons] at hle
        simp only [List.length_cons] at hlen
        omega
      · simp only [substituted_of_notMem hv, crowded_cons_of_notMem hv, hv, and_false, false_or,
          List.cons.injEq, true_and]
        exact ih
  | case2 noun value rest hn ih =>
    have hn : noun ∉ majorNouns := by simpa using hn
    rw [substituted_none_cons, substituted_of_notMem hn, crowded_cons_of_notMem hn]
    exact ih
  | case3 l hshort =>
    rcases l with _ | ⟨value, _ | ⟨next, rest⟩⟩
    · exact iff_of_true rfl (not_crowded_of_length_le (by simp))
    · exact iff_of_true (by simp [substituted]) (not_crowded_of_length_le (by simp))
    · exact (hshort value next rest rfl).elim

/-! ### Numbers -/

/-- Every number of a template is the value of a major parameter. -/
theorem numbers_substituted {previous : Option String} {l : List String}
    (h : segmentsFault? previous l = none) : (substituted previous l).filter isNumber = l.filter isNumber := by
  induction l generalizing previous with
  | nil => rfl
  | cons s rest ih =>
    rw [segmentsFault?, Option.or_eq_none_iff, segmentFault?_eq_none_iff] at h
    have hrest := ih h.2
    cases hs : isNumber s with
    | true =>
      have hnoun := followsNoun_iff.1 (h.1.minor (List.all_eq_true.1 hs))
      rw [substituted, if_pos hnoun, List.filter_cons_of_pos hs, List.filter_cons_of_pos hs, hrest]
    | false =>
      have hs' : ¬ isNumber s = true := by simp [hs]
      rw [substituted, List.filter_cons_of_neg hs', ← hrest]
      split
      · rw [List.filter_cons_of_neg hs']
      · rfl

theorem notMem_of_isNumber {s : String} (h : isNumber s) {c : Char} (hc : c.isDigit = false) : c ∉ s.toList :=
  fun hmem => Bool.false_ne_true (hc.symm.trans (List.all_eq_true.1 h c hmem))

theorem isNumber_noun {noun : String} (h : noun ∈ majorNouns) : isNumber noun = false := by
  revert noun
  decide

theorem segmentFault?_noun {noun : String} (h : noun ∈ majorNouns) : segmentFault? none noun = none := by
  revert noun
  decide

/-- Behind a segment that is no noun, segments are read as in the beginning. -/
theorem segmentsFault?_of_notMem {previous : String} (h : previous ∉ majorNouns) (l : List String) :
    segmentsFault? (some previous) l = segmentsFault? none l := by
  cases l with
  | nil => rfl
  | cons s rest => simp [segmentsFault?, segmentFault?, h]

/-- A number may stand behind a noun, and makes no difference for what is behind it. -/
theorem segmentsFault?_substituted {noun value : String} {l : List String} (hnoun : noun ∈ majorNouns)
    (hvalue : isNumber value) (hne : value ≠ "") :
    segmentsFault? none (noun :: value :: l) = segmentsFault? none l := by
  have hother : value ∉ majorNouns := fun hmem => by simp [isNumber_noun hmem] at hvalue
  have hcolon : value.toList.head? ≠ some ':' := fun hhead =>
    notMem_of_isNumber hvalue (by decide) (List.mem_of_head? hhead)
  have hfits : segmentFault? (some noun) value = none :=
    (segmentFault?_value hne hcolon).2 fun _ => ⟨noun, hnoun, rfl⟩
  rw [segmentsFault?, segmentsFault?, segmentFault?_noun hnoun, hfits, segmentsFault?_of_notMem hother]
  rfl

namespace RouteKey

/-! ### The text that lists the values -/

/-- The second of every two. -/
def everySecond : List String → List String
  | _ :: value :: rest => value :: everySecond rest
  | _ => []

/-- The values that the text of the major parameters lists. -/
def listed (k : RouteKey) : List String := everySecond (segments k.majors)

/-- The numbers that a template holds. -/
def numbers (k : RouteKey) : List String := (segments k.template).filter isNumber

theorem value_of_majorPairs {l : List String} {p : String × String} (h : p ∈ majorPairs l) : p.2 ∈ l := by
  fun_induction majorPairs l with
  | case1 noun value rest hn ih =>
    rcases List.mem_cons.1 h with rfl | h
    · simp
    · exact List.mem_cons_of_mem _ (List.mem_cons_of_mem _ (ih h))
  | case2 noun value rest hn ih => exact List.mem_cons_of_mem _ (ih h)
  | case3 => cases h

theorem intercalate_pairs (ps : List (String × String)) :
    "/".intercalate (ps.map fun p => p.1 ++ "/" ++ p.2) = "/".intercalate (ps.flatMap fun p => [p.1, p.2]) := by
  induction ps with
  | nil => rfl
  | cons p ps ih =>
    cases ps with
    | nil => simp
    | cons q ps =>
      simp only [List.map_cons] at ih ⊢
      rw [String.intercalate_cons_cons, ih]
      simp [String.append_assoc]

theorem everySecond_pairs (ps : List (String × String)) :
    everySecond (ps.flatMap fun p => [p.1, p.2]) = ps.map Prod.snd := by
  induction ps with
  | nil => rfl
  | cons p ps ih => simpa [everySecond] using ih

/-- The text lists the values of the pairs. -/
theorem listed_eq (k : RouteKey) : k.listed = (majorPairs (segments k.template)).map Prod.snd := by
  cases hps : majorPairs (segments k.template) with
  | nil =>
    have hmajors : k.majors = "" := by simp [majors, hps]
    rw [listed, hmajors]
    decide
  | cons p ps =>
    have hsplit : Splits k.majors ((p :: ps).flatMap fun p => [p.1, p.2]) := by
      refine ⟨?_, by simp, fun s hs => ?_⟩
      · rw [majors, hps, intercalate_pairs]
      · obtain ⟨q, hq, hs⟩ := List.mem_flatMap.1 hs
        rw [← hps] at hq
        simp only [List.mem_cons, List.not_mem_nil, or_false] at hs
        rcases hs with rfl | rfl
        · exact notMem_noun (noun_of_majorPairs hq) (by decide)
        · exact (splits_segments k.template).plain _ (value_of_majorPairs hq)
    rw [listed, splits_iff.1 hsplit, everySecond_pairs]

/-- The key of a template lists the values that stand behind a noun, in order, exactly if the template is not
crowded, and it never lists anything else. Every number of the template stands behind a noun; so, if the
template is not crowded, every number is listed, and two such keys that hold different numbers have different
major parameters. -/
theorem majors_list_substituted {method : Http.Method} {route : String} {k : RouteKey}
    (h : resolve method route = .ok k) :
    (k.listed = substituted none (segments k.template) ↔ ¬ Crowded (segments k.template)) ∧
    k.listed.Sublist (substituted none (segments k.template)) ∧
    (∀ s ∈ segments k.template, isNumber s → s ∈ substituted none (segments k.template)) ∧
    (¬ Crowded (segments k.template) →
      (∀ s ∈ segments k.template, isNumber s → s ∈ k.listed) ∧
      ∀ method' route' k', resolve method' route' = .ok k' → ¬ Crowded (segments k'.template) →
        k.numbers ≠ k'.numbers → k.majors ≠ k'.majors) := by
  have hnumbers {method : Http.Method} {route : String} {k : RouteKey} (h : resolve method route = .ok k) :
      (substituted none (segments k.template)).filter isNumber = k.numbers :=
    numbers_substituted (areSegments_iff.2 (resolve_eq_ok_iff.1 h).1.2.2.2)
  have hlisted (k : RouteKey) : k.listed = substituted none (segments k.template) ↔
      ¬ Crowded (segments k.template) := by
    rw [listed_eq]
    exact values_eq_iff _
  have hbehind : ∀ s ∈ segments k.template, isNumber s → s ∈ substituted none (segments k.template) := by
    intro s hs hd
    have hmem : s ∈ k.numbers := List.mem_filter.2 ⟨hs, hd⟩
    rw [← hnumbers h] at hmem
    exact (List.mem_filter.1 hmem).1
  refine ⟨hlisted k, ?_, hbehind, fun hc => ⟨?_, fun method' route' k' h' hc' hne heq => hne ?_⟩⟩
  · rw [listed_eq]
    exact values_sublist _
  · rwa [(hlisted k).2 hc]
  · calc k.numbers = k.listed.filter isNumber := by rw [(hlisted k).2 hc, hnumbers h]
      _ = k'.listed.filter isNumber := by rw [listed, listed, heq]
      _ = k'.numbers := by rw [(hlisted k').2 hc', hnumbers h']

/-- The second of two nouns in a row may stand last: it is a value, and nothing is behind it. -/
theorem noun_for_a_value_listed :
    let k : RouteKey := ⟨.get, "guilds/1/channels/webhooks"⟩
    let k' : RouteKey := ⟨.get, "guilds/2/channels/webhooks"⟩
    resolve .get "/guilds/1/channels/webhooks" = .ok k ∧ resolve .get k'.template = .ok k' ∧
      ¬ Crowded (segments k.template) ∧ k.listed = substituted none (segments k.template) ∧
      "1" ∈ k.listed ∧ k.majors ≠ k'.majors := by
  intro k k'
  have h : resolve .get "/guilds/1/channels/webhooks" = .ok k := by decide +kernel
  have h' : resolve .get k'.template = .ok k' := by decide +kernel
  obtain ⟨hiff, -, -, hlists⟩ := majors_list_substituted h
  obtain ⟨hiff', -⟩ := majors_list_substituted h'
  have hc : ¬ Crowded (segments k.template) := hiff.1 (by decide +kernel)
  have hc' : ¬ Crowded (segments k'.template) := hiff'.1 (by decide +kernel)
  obtain ⟨hnumber, hothers⟩ := hlists hc
  exact ⟨h, h', hc, hiff.2 hc, hnumber "1" (by decide +kernel) (by decide),
    hothers .get _ k' h' hc' (by decide +kernel)⟩

/-- A noun that is the value of another hides the number behind it: the two keys have the same major
parameters. -/
theorem crowded_key_hides_number :
    let k : RouteKey := ⟨.get, "channels/guilds/5"⟩
    let k' : RouteKey := ⟨.get, "channels/guilds/6"⟩
    (resolve .get k.template = .ok k ∧ resolve .get k'.template = .ok k') ∧
      substituted none (segments k.template) = ["guilds", "5"] ∧ k.listed = ["guilds"] ∧
      k.numbers ≠ k'.numbers ∧ k.majors = k'.majors := by
  decide +kernel

end RouteKey

end ChatApi.Limit
