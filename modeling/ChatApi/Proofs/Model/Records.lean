import ChatApi.Model.Message
import ChatApi.Proofs.Json.Laws
import ChatApi.Proofs.Time.Reread

/-!
# Entities are read back as they were written

Identifiers are written as strings of digits, discriminators as a zero or as four digits, timestamps in their own
format, and entities as objects with all their fields. Each of their codecs is lawful, at a height that says how
deep it nests.
-/

namespace ChatApi

open Json (Codec Record)

variable {n depth : Nat}

namespace Snowflake

variable {kind : IdKind}

theorem toList_text (id : Snowflake kind) : id.text.toList = Nat.toDigits 10 id.value.toNat := by
  rw [text, Nat.toString_eq_repr, Nat.toList_repr]

theorem readNatBelow?_text (id : Snowflake kind) :
    Text.readNatBelow? UInt64.size id.text.toList = some id.value.toNat := by
  have hvalue := Text.digitsValue_toDigits id.value.toNat
  have hread : Text.readNatBelow? UInt64.size (Nat.toDigits 10 id.value.toNat) = _ :=
    Text.readNatBelow?_of_digits Nat.toDigits_ne_nil (fun _ hc => Text.isDigit_of_mem_toDigits hc)
      (by rw [hvalue]; exact id.value.toNat_lt)
  rw [toList_text, hread, hvalue]

@[simp] theorem codec_lawful : (codec : Codec (Snowflake kind)).Lawful n where
  whole _ := trivial
  readsBack id _ := by
    simp only [Codec.ReadsBack, codec, Json.toDoc, read, readNatBelow?_text]
    simp

@[simp] theorem codec_present : (codec : Codec (Snowflake kind)).Present := fun _ => nofun

end Snowflake

namespace Discriminator

theorem readNatBelow?_text (d : Discriminator) : Text.readNatBelow? UInt64.size (text d).toList = some d.val := by
  have hsize : d.val < UInt64.size := Nat.lt_trans d.isLt (by decide)
  rw [text]
  split
  · rename_i hzero
    rw [hzero]
    decide
  · have hvalue := Text.digitsValue_padded 4 d.val
    have hread : Text.readNatBelow? UInt64.size (Text.padded 4 d.val) = _ :=
      Text.readNatBelow?_of_digits (Text.padded_ne_nil 4 d.val) (fun _ hc => Text.isDigit_of_mem_padded hc)
        (by rwa [hvalue])
    rw [String.toList_ofList, hread, hvalue]

@[simp] theorem codec_lawful : codec.Lawful n where
  whole _ := trivial
  readsBack d _ := by
    simp only [Codec.ReadsBack, codec, Json.toDoc, read, readNatBelow?_text]
    simp

end Discriminator

@[simp] theorem Timestamp.codec_lawful : Timestamp.codec.Lawful n :=
  Codec.ofText_lawful fun t => by
    rw [Timestamp.read_write]
    rfl

@[simp] theorem Timestamp.codec_present : Timestamp.codec.Present := Codec.ofText_present

namespace User

theorem names_nodup : record.fields.names.Nodup := by
  decide

theorem fields_lawful : record.fields.Lawful n := by
  simp [record]

@[simp] theorem codec_lawful : codec.Lawful (n + 1) := record.lawful names_nodup (fun _ => rfl) fields_lawful

@[simp] theorem codec_present : codec.Present := fun _ => nofun

end User

/-- A value that is neither an array nor an object. -/
def Json.IsSingle : Json → Prop
  | .list _ | .record _ => False
  | _ => True

theorem Json.IsSingle.readFault? {j : Json} (h : j.IsSingle) : j.toDoc.readFault? depth = none := by
  cases j with
  | list => cases h
  | record => cases h
  | _ => cases depth <;> rfl

/-- All members of a written user are single values. -/
theorem User.isSingle_of_mem_write (u : User) : ∀ m ∈ record.fields.write (record.parts u), m.2.IsSingle := by
  have hoption (x : Option String) : (Codec.text.option.write x).IsSingle := by
    cases x <;> trivial
  intro m hm
  simp only [record, Json.Fields.write, Json.Field.required, Json.Field.default, Json.Field.optional, List.mem_cons,
    List.not_mem_nil, or_false] at hm
  rcases hm with rfl | rfl | rfl | rfl | rfl | rfl | rfl | rfl
  · trivial
  · trivial
  · exact hoption u.globalName
  · trivial
  · exact hoption u.avatar
  · exact hoption u.banner
  · trivial
  · trivial

namespace CurrentUser

theorem names_nodup : ownFields.names.Nodup := by
  decide

theorem ownFields_lawful : ownFields.Lawful n := by
  simp [ownFields]

/-- Members that no field is named for are passed over where they are single values. -/
theorem readOwn_eq {members : List (String × Json)} (h : ∀ m ∈ members, m.1 ∉ ownFields.names → m.2.IsSingle)
    (slots : Json.Slots [Bool, Bool, Option String]) :
    readOwn depth slots (Json.toMembers members) = ownFields.readMembers depth slots (Json.toMembers members) := by
  induction members generalizing slots with
  | nil => rfl
  | cons m members ih =>
    obtain ⟨key, value⟩ := m
    have ih := ih fun m hm => h m (List.mem_cons_of_mem _ hm)
    rw [Json.toMembers, readOwn, Json.Fields.readMembers]
    by_cases hkey : key ∈ ownFields.names
    · obtain ⟨r, hput⟩ : ∃ r, ownFields.put depth key value.toDoc slots = some r :=
        Json.Fields.put_of_mem hkey _ _
      rw [hput]
      cases r with
      | error e => rfl
      | ok slots => exact ih slots
    · have hsingle := h (key, value) List.mem_cons_self hkey
      rw [Json.Fields.put_of_notMem hkey]
      simp only [hsingle.readFault?, Json.skipFault?_toDoc]
      exact ih slots

theorem names_disjoint : ∀ name ∈ User.record.fields.names, name ∉ ownFields.names := by
  decide

/-- The fields beside those of the user are read from among them. -/
theorem readOwn_write (depth : Nat) (u : User) (own : Json.Values [Bool, Bool, Option String]) :
    (do let slots ← readOwn depth ownFields.emptySlots
          (Json.toMembers (User.record.fields.write (User.record.parts u) ++ ownFields.write own))
        ownFields.close slots) = .ok own := by
  have hsingle : ∀ m ∈ User.record.fields.write (User.record.parts u) ++ ownFields.write own,
      m.1 ∉ ownFields.names → m.2.IsSingle := by
    intro m hm hforeign
    rcases List.mem_append.1 hm with hm | hm
    · exact u.isSingle_of_mem_write m hm
    · exact absurd (Json.Fields.mem_names_of_mem_write hm) hforeign
  have hread : ownFields.readAll depth (Json.toMembers (ownFields.write own ++ [])) = _ :=
    Json.Fields.readAll_append (Json.Fields.map_fst_write own) names_nodup (by simp)
  rw [List.append_nil, Json.Fields.readEach_write (ownFields_lawful (n := 0)) (Nat.zero_le _),
    Json.Fields.readAll] at hread
  rw [readOwn_eq hsingle, Json.Fields.readMembers_foreign]
  · exact hread
  · intro m hm
    exact names_disjoint _ (Json.Fields.mem_names_of_mem_write hm)

theorem readUser_write (depth : Nat) (u : User) (own : Json.Values [Bool, Bool, Option String]) :
    User.record.readMembers depth
      (Json.toMembers (User.record.fields.write (User.record.parts u) ++ ownFields.write own)) = .ok u := by
  rw [Record.readMembers_eq, Json.Fields.readAll_append (Json.Fields.map_fst_write _) User.names_nodup,
    Json.Fields.readEach_write (User.fields_lawful (n := 0)) (Nat.zero_le _)]
  · rfl
  · intro m hm hname
    exact names_disjoint _ hname (Json.Fields.mem_names_of_mem_write hm)

theorem codec_lawful : codec.Lawful 1 where
  whole u := Json.membersWhole_append (Json.Fields.membersWhole_write (User.fields_lawful (n := 0)) _)
    (Json.Fields.membersWhole_write (ownFields_lawful (n := 0)) _)
  readsBack {depth} u hn := by
    obtain ⟨depth, rfl⟩ : ∃ d, depth = d + 1 := ⟨depth - 1, by omega⟩
    have hown := readOwn_write depth u.user (u.mfaEnabled, u.verified, u.locale, ())
    have huser := readUser_write depth u.user (u.mfaEnabled, u.verified, u.locale, ())
    simp only [Codec.ReadsBack, codec, Json.toDoc, read, huser]
    cases hslots : readOwn depth ownFields.emptySlots _ with
    | error e =>
      rw [hslots] at hown
      cases hown
    | ok slots =>
      rw [hslots] at hown
      simp only [bind, Except.bind] at hown ⊢
      rw [hown]
      rfl

end CurrentUser

namespace Role

@[simp] theorem codec_lawful : codec.Lawful (n + 1) :=
  record.lawful (by decide) (fun _ => rfl) (by simp [record])

end Role

namespace Guild

theorem codec_lawful : codec.Lawful (n + 3) :=
  record.lawful (by decide) (fun _ => rfl) (by simp [record])

end Guild

namespace Member

@[simp] theorem codec_lawful : codec.Lawful (n + 2) :=
  record.lawful (by decide) (fun _ => rfl) (by simp [record])

@[simp] theorem codec_present : codec.Present := fun _ => nofun

end Member

namespace Attachment

@[simp] theorem codec_lawful : codec.Lawful (n + 1) :=
  record.lawful (by decide) (fun _ => rfl) (by simp [record])

end Attachment

end ChatApi
