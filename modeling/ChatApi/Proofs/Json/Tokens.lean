import ChatApi.Json.Value
import ChatApi.Proofs.Json.Octets
import ChatApi.Proofs.Text.Digits

/-!
# Strings and numbers are read as they were written

A string is scanned up to its closing quote, whatever characters it holds (`scanText_written`), and a whole
number of 64 bits up to the first character behind it that can follow a value (`scanNumeral_digits`,
`value_digits`).
-/

namespace ChatApi.Json

/-! ### Strings -/

namespace TextState

/-- What is known of a string whose escapes pair up so far. -/
abbrev after (content : List Char) : TextState := { content := content.reverse }

theorem push_after (content cs : List Char) : (after content).push cs = after (content ++ cs) := by
  simp [push, settle]

theorem close_after (s : String) : (after (octetsOf s.toList)).close = some s := by
  simp [close, settle, ofOctets?_octetsOf]

end TextState

open TextState (after push_after close_after)

/-- An octet that stands for itself in a string. -/
def IsBare (c : Char) : Prop := c ≠ '"' ∧ c ≠ '\\' ∧ 32 ≤ c.toNat

variable {content k : List Char}

theorem scanText_bare {c : Char} (hc : IsBare c) :
    scanText (after content) (c :: k) = scanText (after (content ++ [c])) k := by
  obtain ⟨hquote, hslash, hcontrol⟩ := hc
  rw [scanText, if_neg (Nat.not_lt.2 hcontrol), push_after]
  all_goals grind

theorem scanText_bares {cs : List Char} (h : ∀ c ∈ cs, IsBare c) :
    scanText (after content) (cs ++ k) = scanText (after (content ++ cs)) k := by
  induction cs generalizing content with
  | nil => simp
  | cons c cs ih =>
    rw [List.cons_append, scanText_bare (h c List.mem_cons_self), ih fun d hd => h d (List.mem_cons_of_mem _ hd)]
    simp

theorem scanText_short {e c : Char} (he : shortEscape? e = some c) (hu : e ≠ 'u') :
    scanText (after content) ('\\' :: e :: k) = scanText (after (content ++ [c])) k := by
  rw [scanText, he]
  · exact congrArg (scanText · k) (push_after content [c])
  all_goals grind

/-- An escaped control character is taken for the character. -/
theorem scanText_control {n : Nat} (hn : n < 32) :
    scanText (after content)
        ('\\' :: 'u' :: '0' :: '0' :: Text.lowerHexDigit (n / 16) :: Text.lowerHexDigit (n % 16) :: k) =
      scanText (after (content ++ charOctets (Char.ofNat n))) k := by
  have hhex : ∀ n < 32, hexFour? '0' '0' (Text.lowerHexDigit (n / 16)) (Text.lowerHexDigit (n % 16)) = some n := by
    decide
  have hunit : (after content).pushUnit n = after (content ++ charOctets (Char.ofNat n)) := by
    have hhigh : isHighSurrogate n = false := by simp [isHighSurrogate]; omega
    have hlow : isLowSurrogate n = false := by simp [isLowSurrogate]; omega
    rw [← push_after]
    simp [TextState.pushUnit, hhigh, hlow]
  rw [scanText, hhex n hn]
  exact congrArg (scanText · k) hunit

theorem octetsOf_cons {c : Char} (h : c.toNat < 128) (cs : List Char) : octetsOf (c :: cs) = c :: octetsOf cs := by
  rw [octetsOf, List.flatMap_cons, charOctets_of_ascii h]
  rfl

theorem octetsOf_of_ascii {cs : List Char} (h : ∀ c ∈ cs, c.toNat < 128) : octetsOf cs = cs := by
  induction cs with
  | nil => rfl
  | cons c cs ih =>
    rw [octetsOf_cons (h c List.mem_cons_self), ih fun d hd => h d (List.mem_cons_of_mem _ hd)]

/-- How a character is escaped: in short, as a control character, or not at all. -/
theorem escapeChar_cases (c : Char) :
    (∃ e, escapeChar c = ['\\', e] ∧ shortEscape? e = some c ∧ e ≠ 'u' ∧ c.toNat < 128 ∧ e.toNat < 128) ∨
      (c.toNat < 32 ∧ escapeChar c =
        ['\\', 'u', '0', '0', Text.lowerHexDigit (c.toNat / 16), Text.lowerHexDigit (c.toNat % 16)]) ∨
      (escapeChar c = [c] ∧ IsBare c) := by
  unfold escapeChar
  split
  iterate 7 exact .inl ⟨_, rfl, by decide, by decide, by decide, by decide⟩
  rename_i hquote hslash _ _ _ _ _
  split
  · rename_i hcontrol
    exact .inr (.inl ⟨hcontrol, rfl⟩)
  · rename_i hcontrol
    exact .inr (.inr ⟨rfl, hquote, hslash, Nat.le_of_not_lt hcontrol⟩)

/-- A character is read as it was written. -/
theorem scanText_escapeChar (c : Char) :
    scanText (after content) (octetsOf (escapeChar c) ++ k) = scanText (after (content ++ charOctets c)) k := by
  rcases escapeChar_cases c with ⟨e, hesc, hshort, hu, hc, he⟩ | ⟨hcontrol, hesc⟩ | ⟨hesc, hbare⟩
  · rw [hesc, octetsOf_of_ascii (by simp [he]), charOctets_of_ascii hc]
    exact scanText_short hshort hu
  · have hhex : ∀ n < 16, (Text.lowerHexDigit n).toNat < 128 := by decide
    have hhigh := hhex (c.toNat / 16) (by omega)
    have hlow := hhex (c.toNat % 16) (by omega)
    rw [hesc, octetsOf_of_ascii (by simp [hhigh, hlow])]
    have hread : scanText (after content) _ = scanText (after (content ++ charOctets (Char.ofNat c.toNat))) k :=
      scanText_control hcontrol
    rwa [Char.ofNat_toNat] at hread
  · rw [hesc, show octetsOf [c] = charOctets c from List.flatMap_singleton _ _]
    refine scanText_bares fun d hd => ?_
    by_cases hc : c.toNat < 128
    · rw [charOctets_of_ascii hc, List.mem_singleton] at hd
      exact hd ▸ hbare
    · have hle := le_of_mem_charOctets (Nat.le_of_not_lt hc) hd
      refine ⟨?_, ?_, by omega⟩
      · rintro rfl
        exact absurd hle (by decide)
      · rintro rfl
        exact absurd hle (by decide)

theorem scanText_escaped (cs : List Char) :
    scanText (after content) (octetsOf (cs.flatMap escapeChar) ++ k) = scanText (after (content ++ octetsOf cs)) k := by
  induction cs generalizing content with
  | nil => simp
  | cons c cs ih =>
    rw [List.flatMap_cons, octetsOf_append, List.append_assoc, scanText_escapeChar, ih]
    simp [octetsOf, List.flatMap_cons]

/-- A string is read as it was written. -/
theorem scanText_written (s : String) :
    scanText {} (octetsOf (s.toList.flatMap escapeChar) ++ '"' :: k) = .closed (some s) k := by
  have hread : scanText (after []) (_ ++ '"' :: k) = _ := scanText_escaped s.toList
  rw [List.nil_append, scanText, close_after] at hread
  exact hread

/-! ### Numbers -/

/-- What can follow a value in a text: nothing, another value, or the end of an array or an object. -/
def Follows (k : List Char) : Prop := ∀ c ∈ k.head?, c = ',' ∨ c = ']' ∨ c = '\x7d'

theorem Follows.isDigit (h : Follows k) : ∀ c ∈ k.head?, c.isDigit = false := by
  intro c hc
  rcases h c hc with rfl | rfl | rfl <;> rfl

theorem someDigits_append {ds : List Char} (hne : ds ≠ []) (hd : ∀ c ∈ ds, c.isDigit) (h : Follows k) :
    someDigits (ds ++ k) = .ok (ds, k) := by
  have htake : k.takeWhile Char.isDigit = [] ∧ k.dropWhile Char.isDigit = k := by
    cases k with
    | nil => exact ⟨rfl, rfl⟩
    | cons c k => simp [h.isDigit c rfl]
  obtain ⟨c, cs, rfl⟩ := List.exists_cons_of_ne_nil hne
  rw [List.cons_append, someDigits, if_pos (hd c List.mem_cons_self), ← List.cons_append,
    List.takeWhile_append_of_pos hd, List.dropWhile_append_of_pos hd, htake.1, htake.2, List.append_nil]

theorem wholeDigits_toDigits (n : Nat) (h : Follows k) :
    wholeDigits (Nat.toDigits 10 n ++ k) = .ok (Nat.toDigits 10 n, k) := by
  rw [wholeDigits, someDigits_append Nat.toDigits_ne_nil (fun c hc => Text.isDigit_of_mem_toDigits hc) h]
  simp only [bind, Except.bind]
  split
  · rename_i c cs hzero
    -- only zero itself begins with a zero
    by_cases hn : n = 0
    · rw [hn, Nat.toDigits_zero] at hzero
      cases hzero
    · exact absurd (by rw [hzero]; rfl) (Text.head?_toDigits hn)
  · rfl

/-- A whole number is scanned as it was written. -/
theorem scanNumeral_digits (negative : Bool) (n : Nat) (h : Follows k) :
    scanNumeral negative (Nat.toDigits 10 n ++ k) = .ok (⟨negative, Nat.toDigits 10 n, [], true, 0⟩, k) := by
  have hfraction : fractionDigits k = .ok (none, k) := by
    unfold fractionDigits
    split
    · rename_i rest
      rcases h '.' rfl with hc | hc | hc <;> cases hc
    · rfl
  have hexponent : exponentPart k = .ok (none, k) := by
    cases k with
    | nil => rfl
    | cons c k =>
      rcases h c rfl with rfl | rfl | rfl <;> rfl
  rw [scanNumeral, wholeDigits_toDigits n h]
  simp only [bind, Except.bind, hfraction, hexponent]
  rfl

theorem takeDigits_of_lt (n : Nat) {ds : List Char} (h : Text.digitsValueFrom n ds < UInt64.size) :
    takeDigits n ds = (Text.digitsValueFrom n ds, []) := by
  induction ds generalizing n with
  | nil => rfl
  | cons d ds ih =>
    have hmore : n * 10 + Text.digitValue d < UInt64.size := Nat.lt_of_le_of_lt (Text.le_digitsValueFrom _ ds) h
    rw [takeDigits, if_pos hmore]
    exact ih _ h

/-- A whole number of 64 bits has the value that it was written for. -/
theorem value_digits {i : Int} (hlow : Int64.minValue.toInt ≤ i) (hhigh : i < UInt64.size) :
    (⟨decide (i < 0), Nat.toDigits 10 i.natAbs, [], true, 0⟩ : Numeral).value = some (.integer i) := by
  rw [Int64.toInt_minValue] at hlow
  rw [UInt64.size] at hhigh
  have hvalue := Text.digitsValue_toDigits i.natAbs
  have hsize : Text.digitsValueFrom 0 (Nat.toDigits 10 i.natAbs) < UInt64.size := by
    rw [← Text.digitsValue, hvalue, UInt64.size]
    omega
  have htake := takeDigits_of_lt 0 hsize
  rw [← Text.digitsValue, hvalue] at htake
  unfold Numeral.value
  simp only [htake]
  by_cases hi : i < 0
  · have hrange : i.natAbs ≤ 9223372036854775808 := by omega
    have hne : i ≠ 0 := by omega
    have hback : -(i.natAbs : Int) = i := by omega
    rw [hback]
    simp [hi, hrange, hne]
  · have hback : (i.natAbs : Int) = i := by omega
    rw [hback]
    simp [hi]

end ChatApi.Json
