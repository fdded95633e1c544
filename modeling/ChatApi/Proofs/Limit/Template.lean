import ChatApi.Proofs.Limit.Major
import ChatApi.Proofs.Text.Pieces

/-!
# Which templates have a key

`IsSegment` says what may follow a segment in a template. `resolves_exactly_templates` says that a text has
a key exactly if it is made of such segments, that the template of a key has that same key, and that keys
are told apart by their methods and templates, also where only their texts are compared.
-/

namespace ChatApi.Limit

/-! ### Segments -/

/-- The segments of a template: slashes stand between them, and none inside. -/
structure Splits (template : String) (pieces : List String) : Prop where
  join : "/".intercalate pieces = template
  ne_nil : pieces ≠ []
  plain : ∀ s ∈ pieces, '/' ∉ s.toList

theorem splits_segments (template : String) : Splits template (segments template) := by
  refine ⟨?_, by simp [segments, Text.splitAt_ne_nil], fun s hs => ?_⟩
  · refine String.toList_inj.1 ?_
    have hid : String.toList ∘ String.ofList = id := by
      funext cs
      simp
    rw [String.toList_intercalate, segments, List.map_map, hid, List.map_id]
    exact Text.intercalate_splitAt '/' template.toList
  · obtain ⟨cs, hcs, rfl⟩ := List.mem_map.1 hs
    simpa using Text.notMem_of_mem_splitAt hcs

/-- A template has only one row of segments. -/
theorem splits_iff {template : String} {pieces : List String} :
    Splits template pieces ↔ segments template = pieces := by
  refine ⟨?_, fun h => h ▸ splits_segments template⟩
  rintro ⟨rfl, hne, hplain⟩
  have hlist : ∀ cs ∈ pieces.map String.toList, '/' ∉ cs := by
    rintro cs hcs
    obtain ⟨s, hs, rfl⟩ := List.mem_map.1 hcs
    exact hplain s hs
  have hsplit := Text.splitAt_intercalate (by simpa using hne) hlist
  have hsep : "/".toList = ['/'] := rfl
  rw [segments, String.toList_intercalate, hsep, hsplit, List.map_map]
  simp

/-- The segment in front makes the next one the value of a major parameter. -/
def FollowsNoun (previous : Option String) : Prop := ∃ noun ∈ majorNouns, previous = some noun

/-- What a segment of a template is like, `previous` being the one in front of it. -/
structure IsSegment (previous : Option String) (s : String) : Prop where
  ne_empty : s ≠ ""
  /-- A placeholder has a name of small letters and underscores. -/
  placeholder : ∀ name, s.toList = ':' :: name → name ≠ [] ∧ ∀ c ∈ name, 'a' ≤ c ∧ c ≤ 'z' ∨ c = '_'
  /-- A major parameter has a value. -/
  substituted : FollowsNoun previous → s.toList.head? ≠ some ':'
  /-- No other parameter has a number for its value. -/
  minor : (∀ c ∈ s.toList, c.isDigit) → FollowsNoun previous

theorem followsNoun_iff {previous : Option String} :
    FollowsNoun previous ↔ previous.any majorNouns.contains = true := by
  cases previous <;> simp [FollowsNoun]

theorem isNameChar_iff {c : Char} : isNameChar c = true ↔ 'a' ≤ c ∧ c ≤ 'z' ∨ c = '_' := by
  simp [isNameChar]

theorem isName_iff {name : List Char} : (name.isEmpty || !name.all isNameChar) = false ↔
    name ≠ [] ∧ ∀ c ∈ name, 'a' ≤ c ∧ c ≤ 'z' ∨ c = '_' := by
  simp [isNameChar_iff]

theorem segmentFault?_placeholder {previous : Option String} {s : String} {name : List Char}
    (hs : s.toList = ':' :: name) : segmentFault? previous s = none ↔
      (name ≠ [] ∧ ∀ c ∈ name, 'a' ≤ c ∧ c ≤ 'z' ∨ c = '_') ∧ ¬ FollowsNoun previous := by
  rw [segmentFault?, followsNoun_iff, ← isName_iff]
  split
  · simp_all
  · rename_i name' hs'
    obtain rfl : name = name' := (List.cons.inj (hs.symm.trans hs')).2
    cases name.isEmpty || !name.all isNameChar <;> cases previous.any majorNouns.contains <;> decide
  · rename_i hcolon
    exact absurd hs (hcolon name)

theorem segmentFault?_value {previous : Option String} {s : String} (hne : s ≠ "")
    (hcolon : s.toList.head? ≠ some ':') : segmentFault? previous s = none ↔
      ((∀ c ∈ s.toList, c.isDigit) → FollowsNoun previous) := by
  rw [segmentFault?, followsNoun_iff, ← List.all_eq_true]
  split
  · exact absurd (String.toList_eq_nil_iff.1 ‹_›) hne
  · rename_i name hs
    simp [hs] at hcolon
  · cases s.toList.all Char.isDigit <;> cases previous.any majorNouns.contains <;> decide

/-- A segment has no fault exactly if it may stand where it stands. -/
theorem segmentFault?_eq_none_iff {previous : Option String} {s : String} :
    segmentFault? previous s = none ↔ IsSegment previous s := by
  rcases hs : s.toList with _ | ⟨c, name⟩
  · have hempty : s = "" := String.toList_eq_nil_iff.1 hs
    exact iff_of_false (by simp [segmentFault?, hempty]) fun h => h.ne_empty hempty
  · have hne : s ≠ "" := fun he => by simp [he] at hs
    by_cases hc : c = ':'
    · subst hc
      rw [segmentFault?_placeholder hs]
      constructor
      · rintro ⟨hname, hafter⟩
        refine ⟨hne, ?_, fun hf => absurd hf hafter, fun hd => ?_⟩
        · rintro name' hs'
          obtain rfl : name = name' := (List.cons.inj (hs.symm.trans hs')).2
          exact hname
        · rw [hs] at hd
          exact absurd (hd ':' List.mem_cons_self) (by decide)
      · intro h
        exact ⟨h.placeholder name hs, fun hf => h.substituted hf (by rw [hs]; rfl)⟩
    · have hhead : s.toList.head? ≠ some ':' := by simpa [hs] using hc
      rw [segmentFault?_value hne hhead]
      refine ⟨fun hminor => ⟨hne, fun name hs' => ?_, fun _ => hhead, hminor⟩, fun h => h.minor⟩
      exact absurd (List.cons.inj (hs.symm.trans hs')).1 hc

/-- Segments have no fault exactly if each of them may stand behind the one in front of it. -/
theorem segmentsFault?_eq_none_iff {previous : Option String} {l : List String} :
    segmentsFault? previous l = none ↔
      ∀ before s after, l = before ++ s :: after → IsSegment (before.getLast?.or previous) s := by
  induction l generalizing previous with
  | nil => simp [segmentsFault?]
  | cons s rest ih =>
    have hlast (before : List String) :
        (s :: before).getLast?.or previous = before.getLast?.or (some s) := by
      rw [List.getLast?_cons]
      cases before.getLast? <;> rfl
    rw [segmentsFault?, Option.or_eq_none_iff, segmentFault?_eq_none_iff, ih]
    constructor
    · rintro ⟨hs, hrest⟩ before t after heq
      cases before with
      | nil =>
        obtain ⟨rfl, rfl⟩ := List.cons.inj heq
        exact hs
      | cons b before =>
        obtain ⟨rfl, hrest'⟩ := List.cons.inj heq
        rw [hlast]
        exact hrest before t after hrest'
    · intro h
      refine ⟨h [] s rest rfl, fun before t after heq => ?_⟩
      rw [← hlast]
      exact h (s :: before) t after (by rw [heq]; rfl)

/-- The segments of a template: each may stand behind the one in front of it. -/
def AreSegments (l : List String) : Prop :=
  ∀ before s after, l = before ++ s :: after → IsSegment before.getLast? s

theorem areSegments_iff {l : List String} : segmentsFault? none l = none ↔ AreSegments l := by
  simp [segmentsFault?_eq_none_iff, AreSegments]

/-! ### Slashes around a template -/

/-- `template` is what is left of a text without the slashes around it. -/
def Strips (route template : String) : Prop := Text.Trims (· == '/') route.toList template.toList

theorem strips_iff {route template : String} : Strips route template ↔ trimSlashes route = template := by
  rw [Strips, ← Text.dropAround_eq_iff, trimSlashes, ← String.toList_inj, String.toList_ofList]

theorem AreSegments.ne_empty {l : List String} (h : AreSegments l) {s : String} (hs : s ∈ l) : s ≠ "" := by
  obtain ⟨before, after, heq⟩ := List.append_of_mem hs
  exact (h before s after heq).ne_empty

/-- A template made of segments has no slashes around it. -/
theorem strips_self {template : String} (h : AreSegments (segments template)) : Strips template template := by
  have hinside : ¬ (template.toList.head? = some '/' ∨ template.toList.getLast? = some '/') := fun haround =>
    h.ne_empty (List.mem_map_of_mem (Text.nil_mem_splitAt haround)) rfl
  refine ⟨⟨[], [], by simp, by simp, by simp⟩, fun c hc => ?_, fun c hc => ?_⟩
  · rw [beq_eq_false_iff_ne]
    rintro rfl
    exact hinside (.inl hc)
  · rw [beq_eq_false_iff_ne]
    rintro rfl
    exact hinside (.inr hc)

namespace RouteKey

/-! ### Keys -/

/-- A text has a key if it is a template, and the key is made of the method and the stripped text. -/
theorem resolve_eq_ok_iff {method : Http.Method} {route : String} {k : RouteKey} :
    resolve method route = .ok k ↔
      ('?' ∉ route.toList ∧ Strips route k.template ∧ k.template ≠ "" ∧
        AreSegments (segments k.template)) ∧ k.method = method := by
  rw [resolve, strips_iff]
  split
  · rename_i hquery
    exact iff_of_false (by simp) fun h => h.1.1 (List.contains_iff_mem.1 hquery)
  · rename_i hquery
    have hquery' : '?' ∉ route.toList := fun h => hquery (List.contains_iff_mem.2 h)
    dsimp only
    split
    · rename_i hempty
      exact iff_of_false (by simp) fun ⟨⟨_, hstrip, hne, _⟩, _⟩ => hne (hstrip ▸ hempty)
    · rename_i hempty
      obtain ⟨method', template⟩ := k
      cases hfault : segmentsFault? none (segments (trimSlashes route)) with
      | some fault =>
        refine iff_of_false (by simp) fun ⟨⟨_, hstrip, _, hsegments⟩, _⟩ => ?_
        dsimp only at hstrip
        rw [← hstrip, ← areSegments_iff, hfault] at hsegments
        cases hsegments
      | none =>
        rw [Except.ok.injEq, RouteKey.mk.injEq]
        constructor
        · rintro ⟨rfl, rfl⟩
          exact ⟨⟨hquery', rfl, hempty, areSegments_iff.1 hfault⟩, rfl⟩
        · rintro ⟨⟨-, hstrip, -, -⟩, hmethod⟩
          exact ⟨hmethod.symm, hstrip⟩

/-- Segments that may each stand where they stand make a template. -/
theorem resolve_intercalate (method : Http.Method) {pieces : List String} (hne : pieces ≠ [])
    (hplain : ∀ s ∈ pieces, '/' ∉ s.toList ∧ '?' ∉ s.toList) (hsegments : AreSegments pieces) :
    resolve method ("/".intercalate pieces) = .ok ⟨method, "/".intercalate pieces⟩ ∧
      segments ("/".intercalate pieces) = pieces := by
  have hpieces : segments ("/".intercalate pieces) = pieces :=
    splits_iff.1 ⟨rfl, hne, fun s hs => (hplain s hs).1⟩
  have hquery : '?' ∉ ("/".intercalate pieces).toList :=
    notMem_intercalate (by decide) fun s hs => (hplain s hs).2
  have hsegments' : AreSegments (segments ("/".intercalate pieces)) := by rwa [hpieces]
  refine ⟨resolve_eq_ok_iff.2 ⟨⟨hquery, strips_self hsegments', fun hempty => ?_, hsegments'⟩, rfl⟩, hpieces⟩
  replace hempty : "/".intercalate pieces = "" := hempty
  have hmem : "" ∈ segments ("/".intercalate pieces) := by
    rw [hempty]
    decide
  exact hsegments'.ne_empty hmem rfl

/-- The text of a key tells its method and its template, since no method holds a blank. -/
theorem text_inj {k k' : RouteKey} : k.text = k'.text ↔ k = k' := by
  refine ⟨fun h => ?_, fun h => h ▸ rfl⟩
  have hlist : k.method.name.toList ++ ' ' :: k.template.toList =
      k'.method.name.toList ++ ' ' :: k'.template.toList := by
    simpa [text] using congrArg String.toList h
  -- the first blank is the last one from behind
  have hback : k.template.toList.reverse ++ ' ' :: k.method.name.toList.reverse =
      k'.template.toList.reverse ++ ' ' :: k'.method.name.toList.reverse := by
    simpa using congrArg List.reverse hlist
  obtain ⟨htemplate, hmethod⟩ := eq_of_last_separator (by simpa using k.method.blank_notMem)
    (by simpa using k'.method.blank_notMem) hback
  rw [List.reverse_inj, String.toList_inj] at htemplate hmethod
  obtain ⟨method, template⟩ := k
  obtain ⟨method', template'⟩ := k'
  rw [RouteKey.mk.injEq]
  exact ⟨Http.Method.ext_name hmethod, htemplate⟩

/-- A text has a key exactly if it holds no question mark and what is left of it without its outer slashes
is not empty and made of segments that may each stand where they stand. The template of a key has that key,
and two keys are equal, or have equal texts, exactly if their methods are equal and nothing but outer slashes
tells the texts apart that they were made of. -/
theorem resolves_exactly_templates (method : Http.Method) (route : String) :
    ((∃ k, resolve method route = .ok k) ↔ '?' ∉ route.toList ∧ ∃ template pieces,
      Strips route template ∧ template ≠ "" ∧ Splits template pieces ∧ AreSegments pieces) ∧
    ∀ k, resolve method route = .ok k →
      resolve method k.template = .ok k ∧
      ∀ method' route' k', resolve method' route' = .ok k' →
        (k = k' ↔ method = method' ∧ ∃ template, Strips route template ∧ Strips route' template) ∧
        (k.text = k'.text ↔ k = k') := by
  refine ⟨⟨?_, ?_⟩, fun k hk => ⟨?_, fun method' route' k' hk' => ⟨?_, text_inj⟩⟩⟩
  · rintro ⟨k, hk⟩
    obtain ⟨⟨hquery, hstrip, hne, hsegments⟩, -⟩ := resolve_eq_ok_iff.1 hk
    exact ⟨hquery, k.template, _, hstrip, hne, splits_segments _, hsegments⟩
  · rintro ⟨hquery, template, pieces, hstrip, hne, hsplit, hsegments⟩
    rw [← splits_iff.1 hsplit] at hsegments
    exact ⟨⟨method, template⟩, resolve_eq_ok_iff.2 ⟨⟨hquery, hstrip, hne, hsegments⟩, rfl⟩⟩
  · obtain ⟨⟨hquery, hstrip, hne, hsegments⟩, hmethod⟩ := resolve_eq_ok_iff.1 hk
    exact resolve_eq_ok_iff.2
      ⟨⟨fun h => hquery (hstrip.subset h), hstrip.trans_self, hne, hsegments⟩, hmethod⟩
  · obtain ⟨⟨-, hstrip, -, -⟩, rfl⟩ := resolve_eq_ok_iff.1 hk
    obtain ⟨⟨-, hstrip', -, -⟩, rfl⟩ := resolve_eq_ok_iff.1 hk'
    constructor
    · rintro rfl
      exact ⟨rfl, k.template, hstrip, hstrip'⟩
    · rintro ⟨hmethod, template, ht, ht'⟩
      have htemplate : k.template = k'.template :=
        ((strips_iff.1 hstrip).symm.trans (strips_iff.1 ht)).trans
          ((strips_iff.1 ht').symm.trans (strips_iff.1 hstrip'))
      cases k
      cases k'
      exact (RouteKey.mk.injEq ..).mpr ⟨hmethod, htemplate⟩

/-- Outer slashes tell no templates apart; a literal segment does, also where it is no ASCII text. -/
theorem slashed_template_resolves :
    let route := "//channels/10/pins/:user_id/é/"
    let k : RouteKey := ⟨.get, "channels/10/pins/:user_id/é"⟩
    let k' : RouteKey := ⟨.get, "channels/10/pins/:user_id/e"⟩
    resolve .get route = .ok k ∧ resolve .get k'.template = .ok k' ∧
      (∃ template pieces, Strips route template ∧ template ≠ "" ∧ Splits template pieces ∧
        AreSegments pieces) ∧
      resolve .get k.template = .ok k ∧ k.text ≠ k'.text := by
  intro route k k'
  have hk : resolve .get route = .ok k := by decide +kernel
  have hk' : resolve .get k'.template = .ok k' := by decide +kernel
  obtain ⟨hiff, hown⟩ := resolves_exactly_templates .get route
  obtain ⟨hagain, hothers⟩ := hown k hk
  have hdiffer : k ≠ k' := by decide +kernel
  exact ⟨hk, hk', (hiff.1 ⟨k, hk⟩).2, hagain, fun h => hdiffer ((hothers .get _ k' hk').2.1 h)⟩

end RouteKey

end ChatApi.Limit
