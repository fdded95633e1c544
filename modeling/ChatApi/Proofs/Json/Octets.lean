import ChatApi.Json.Scan

/-!
# The octets of a text

A text is read octet by octet and written character by character. `octetsOf` is what the one sees of the
other: the octets of a text are those of its characters one after another (`octets_ofList`), ASCII characters
stand for themselves, no octet of any other looks like one of them, and the characters come back from their
octets (`ofOctets?_octetsOf`).
-/

namespace ChatApi.Json

/-- The octets of characters one after another. -/
def octetsOf (cs : List Char) : List Char := cs.flatMap charOctets

@[simp] theorem octetsOf_nil : octetsOf [] = [] := rfl

@[simp] theorem octetsOf_append (cs ds : List Char) : octetsOf (cs ++ ds) = octetsOf cs ++ octetsOf ds :=
  List.flatMap_append

theorem toList_loop (bs : ByteArray) (i : Nat) (seen : List UInt8) :
    ByteArray.toList.loop bs i seen = seen.reverse ++ bs.data.toList.drop i := by
  fun_induction ByteArray.toList.loop bs i seen with
  | case1 i seen h ih =>
    have hi : i < bs.data.toList.length := by simpa using h
    have hget : bs.get! i = bs.data.toList[i] := by
      simp [ByteArray.get!, h]
    rw [ih, List.drop_eq_getElem_cons hi, hget]
    simp
  | case2 i seen h =>
    have hi : bs.data.toList.length ≤ i := by simpa using h
    rw [List.drop_eq_nil_of_le hi, List.append_nil]

theorem octets_eq (bs : ByteArray) : octets bs = bs.data.toList.map fun b => Char.ofNat b.toNat := by
  rw [octets, ByteArray.toList, toList_loop]
  rfl

theorem charOctets_eq (c : Char) : charOctets c = (String.utf8EncodeChar c).map fun b => Char.ofNat b.toNat := by
  rw [charOctets, octets_eq, String.toUTF8_eq_toByteArray, String.singleton_eq_ofList, String.toByteArray_ofList,
    List.utf8Encode, List.toList_data_toByteArray, List.flatMap_singleton]

/-- The octets of a text are those of its characters. -/
theorem octets_ofList (cs : List Char) : octets (String.ofList cs).toUTF8 = octetsOf cs := by
  rw [octets_eq, String.toUTF8_eq_toByteArray, String.toByteArray_ofList, List.utf8Encode,
    List.toList_data_toByteArray, octetsOf, List.map_flatMap]
  congr 1
  funext c
  rw [charOctets_eq]

theorem toNat_octet (b : UInt8) : (Char.ofNat b.toNat).toNat = b.toNat := by
  have hb : b.toNat < 256 := b.toNat_lt
  have hvalid : b.toNat.isValidChar := .inl (by omega)
  rw [Char.ofNat, dif_pos hvalid]
  rfl

/-- ASCII characters stand for themselves. -/
theorem charOctets_of_ascii {c : Char} (h : c.toNat < 128) : charOctets c = [c] := by
  have hv : c.val.toNat ≤ 127 := Nat.le_of_lt_succ h
  have hmod : (UInt8.ofNat c.val.toNat).toNat = c.toNat := Nat.mod_eq_of_lt (Nat.lt_trans h (by decide))
  rw [charOctets_eq, String.utf8EncodeChar, if_pos hv, List.map_singleton, hmod, Char.ofNat_toNat]

/-- An octet of any other character is no ASCII character. -/
theorem le_of_mem_charOctets {c d : Char} (h : 128 ≤ c.toNat) (hd : d ∈ charOctets c) : 128 ≤ d.toNat := by
  have hv : ¬ c.val.toNat ≤ 127 := Nat.not_le.2 h
  rw [charOctets_eq, String.utf8EncodeChar, if_neg hv] at hd
  obtain ⟨b, hb, rfl⟩ := List.mem_map.1 hd
  rw [toNat_octet]
  split at hb
  · simp only [List.mem_cons, List.not_mem_nil, or_false] at hb
    rcases hb with rfl | rfl <;> simp <;> omega
  · split at hb
    · simp only [List.mem_cons, List.not_mem_nil, or_false] at hb
      rcases hb with rfl | rfl | rfl <;> simp <;> omega
    · simp only [List.mem_cons, List.not_mem_nil, or_false] at hb
      rcases hb with rfl | rfl | rfl | rfl <;> simp <;> omega

/-- The characters of a text come back from their octets. -/
theorem ofOctets?_octetsOf (s : String) : ofOctets? (octetsOf s.toList) = some s := by
  have hbytes : (octetsOf s.toList).map (fun c => c.toNat.toUInt8) = s.toByteArray.data.toList := by
    rw [← octets_ofList, String.ofList_toList, octets_eq, List.map_map]
    refine (List.map_congr_left fun b _ => ?_).trans (List.map_id _)
    simp [toNat_octet]
  rw [ofOctets?, hbytes, Array.toArray_toList]
  exact dif_pos s.isValidUTF8

end ChatApi.Json
