import ChatApi.Json.Codec
import ChatApi.Proofs.Json.Spell

/-!
# Values are read back as they were written

A codec is lawful at a height if whatever it writes has integers of 64 bits only and is read back as it was,
wherever that many levels of nesting are left. Single values are lawful at every height, a list or a record
one level above what it holds. An object that has the fields of a record in order is read field by field
(`Record.read_members`), whether that succeeds or not.
-/

namespace ChatApi.Json

variable {α β : Type} {n depth : Nat}

/-- What is written for a value is read as that value, nested at most `depth` deep. -/
def Codec.ReadsBack (c : Codec α) (depth : Nat) (x : α) : Prop := c.read depth (c.write x).toDoc = .ok x

theorem Codec.ReadsBack.eq {c : Codec α} {x : α} (h : c.ReadsBack depth x) :
    c.read depth (c.write x).toDoc = .ok x := h

/-- All values are written with integers of 64 bits only, and read back with `height` levels of nesting. -/
structure Codec.Lawful (c : Codec α) (height : Nat) : Prop where
  whole : ∀ x, (c.write x).IsWhole
  readsBack : ∀ {depth : Nat} (x : α), height ≤ depth → c.ReadsBack depth x

/-- What is read back without any nesting is read back at all depths. -/
theorem Codec.Lawful.read_write {c : Codec α} (h : c.Lawful 0) (x : α) : c.read depth (c.write x).toDoc = .ok x :=
  h.readsBack x (Nat.zero_le _)

/-- No value is written as null. -/
def Codec.Present (c : Codec α) : Prop := ∀ x, c.write x ≠ .null

namespace Codec

/-! ### Single values -/

@[simp] theorem text_lawful : text.Lawful n where
  whole _ := trivial
  readsBack _ _ := rfl

@[simp] theorem text_present : text.Present := fun _ => nofun

@[simp] theorem flag_lawful : flag.Lawful n where
  whole _ := trivial
  readsBack _ _ := rfl

theorem readInteger_of_mem {low high i : Int} (hlow : low ≤ i) (hhigh : i ≤ high) (want : String) :
    readInteger low high want (Json.num (.integer i)).toDoc = .ok i := by
  simp [readInteger, toDoc, hlow, hhigh]

@[simp] theorem uint8_lawful : uint8.Lawful n where
  whole x := by
    have hx := x.toNat_lt
    simp only [uint8, IsWhole, Number.IsWhole, Int64.toInt_minValue, UInt64.size]
    omega
  readsBack x _ := by
    have hx := x.toNat_lt
    have hread : readInteger 0 255 "u8" _ = .ok (x.toNat : Int) := readInteger_of_mem (by omega) (by omega) "u8"
    simp only [ReadsBack, uint8]
    rw [hread]
    simp [Except.map]

@[simp] theorem uint64_lawful : uint64.Lawful n where
  whole x := by
    have hx := x.toNat_lt
    simp only [uint64, IsWhole, Number.IsWhole, Int64.toInt_minValue, UInt64.size]
    omega
  readsBack x _ := by
    have hx := x.toNat_lt
    have hsize : (x.toNat : Int) ≤ UInt64.size - 1 := by
      rw [UInt64.size]
      omega
    have hread : readInteger 0 (UInt64.size - 1) "u64" _ = .ok (x.toNat : Int) :=
      readInteger_of_mem (by omega) hsize "u64"
    simp only [ReadsBack, uint64]
    rw [hread]
    simp [Except.map]

@[simp] theorem uint64_present : uint64.Present := fun _ => nofun

@[simp] theorem int64_lawful : int64.Lawful n where
  whole x := by
    have hhigh := x.toInt_lt
    simp only [int64, IsWhole, Number.IsWhole, UInt64.size]
    exact ⟨x.minValue_le_toInt, by omega⟩
  readsBack x _ := by
    have hread := readInteger_of_mem x.minValue_le_toInt x.toInt_le "i64"
    simp only [ReadsBack, int64]
    rw [hread]
    simp [Except.map]

theorem ofText_lawful {want : String} {read : String → Except String α} {write : α → String}
    (h : ∀ x, read (write x) = .ok x) : (ofText want read write).Lawful n where
  whole _ := trivial
  readsBack x _ := by
    simp only [ReadsBack, ofText, toDoc, h]
    rfl

theorem ofText_present {want : String} {read : String → Except String α} {write : α → String} :
    (ofText want read write).Present := fun _ => nofun

/-! ### Values that may be absent, and lists -/

theorem toDoc_ne_null {j : Json} (h : j ≠ .null) : j.toDoc ≠ .null := by
  cases j <;> simp_all [toDoc]

theorem option_read_some {c : Codec α} (hc : c.Present) (x : α) :
    c.option.read depth (c.option.write (some x)).toDoc = (c.read depth (c.write x).toDoc).map some := by
  have hnull := toDoc_ne_null (hc x)
  simp only [option]

theorem option_readsBack {c : Codec α} (hc : c.Present) {x : α} (h : c.ReadsBack depth x) :
    c.option.ReadsBack depth (some x) := by
  rw [ReadsBack, option_read_some hc, h.eq]
  rfl

@[simp] theorem option_lawful {c : Codec α} (hc : c.Present) (h : c.Lawful n) : c.option.Lawful n where
  whole
    | none => trivial
    | some x => h.whole x
  readsBack
    | none, _ => rfl
    | some x, hn => option_readsBack hc (h.readsBack x hn)

theorem readItems_toItems {read : Doc → Decoded α} {write : α → Json} {xs : List α}
    (h : ∀ x ∈ xs, read (write x).toDoc = .ok x) : readItems read (toItems (xs.map write)) = .ok xs := by
  induction xs with
  | nil => rfl
  | cons x xs ih =>
    have hx := h x List.mem_cons_self
    have hxs := ih fun y hy => h y (List.mem_cons_of_mem _ hy)
    simp [toItems, readItems, hx, hxs, bind, Except.bind, pure, Except.pure]

theorem list_readsBack {c : Codec α} {xs : List α} (h : ∀ x ∈ xs, c.ReadsBack depth x) :
    c.list.ReadsBack (depth + 1) xs := by
  simpa [ReadsBack, list, toDoc] using readItems_toItems h

theorem list_read_zero (c : Codec α) (xs : List α) : c.list.read 0 (c.list.write xs).toDoc = malformed := rfl

/-- An empty list needs one level of nesting, and values in it one more. -/
theorem Lawful.list_readsBack {c : Codec α} (h : c.Lawful 1) {xs : List α} (hpos : 0 < depth)
    (hone : xs ≠ [] → 1 < depth) : c.list.ReadsBack depth xs := by
  obtain ⟨depth, rfl⟩ : ∃ d, depth = d + 1 := ⟨depth - 1, by omega⟩
  refine Codec.list_readsBack fun x hx => h.readsBack x ?_
  have := hone (List.ne_nil_of_mem hx)
  omega

theorem itemsWhole_map {write : α → Json} (h : ∀ x, (write x).IsWhole) (xs : List α) :
    ItemsWhole (xs.map write) := by
  induction xs with
  | nil => trivial
  | cons x xs ih => exact ⟨h x, ih⟩

@[simp] theorem list_lawful {c : Codec α} (h : c.Lawful n) : c.list.Lawful (n + 1) where
  whole xs := itemsWhole_map h.whole xs
  readsBack {depth} xs hn := by
    obtain ⟨depth, rfl⟩ : ∃ d, depth = d + 1 := ⟨depth - 1, by omega⟩
    exact list_readsBack fun x _ => h.readsBack x (by omega)

end Codec

/-! ### Records -/

@[simp] theorem Field.codec_required (name : String) (c : Codec α) : (Field.required name c).codec = c := rfl

@[simp] theorem Field.codec_default (name : String) (c : Codec α) (x : α) : (Field.default name c x).codec = c := rfl

@[simp] theorem Field.codec_optional (name : String) (c : Codec α) : (Field.optional name c).codec = c.option := rfl

namespace Fields

variable {ts : List Type}

def names {ts : List Type} : Fields ts → List String
  | nil => []
  | cons field rest => field.name :: rest.names

/-- All fields have lawful codecs. -/
def Lawful {ts : List Type} (n : Nat) : Fields ts → Prop
  | nil => True
  | cons field rest => field.codec.Lawful n ∧ rest.Lawful n

@[simp] theorem lawful_nil : Lawful n nil := trivial

@[simp] theorem lawful_cons {field : Field α} {rest : Fields ts} :
    Lawful n (cons field rest) ↔ field.codec.Lawful n ∧ rest.Lawful n := Iff.rfl

/-- The values of the fields, each read from the member in its place. -/
def readEach {ts : List Type} (depth : Nat) : Fields ts → List (String × Json) → Decoded (Values ts)
  | nil, _ => .ok ()
  | cons _ _, [] => malformed
  | cons field rest, m :: members => do
    let x ← field.codec.read depth m.2.toDoc
    let xs ← rest.readEach depth members
    return (x, xs)

/-- Reads the members of an object and fills in what was left out. -/
def readAll (fields : Fields ts) (depth : Nat) (members : Members) : Decoded (Values ts) := do
  let slots ← fields.readMembers depth fields.emptySlots members
  fields.close slots

theorem put_of_ne {field : Field α} {rest : Fields ts} {name : String} (h : field.name ≠ name) (d : Doc)
    (slot : Option α) (slots : Slots ts) :
    (cons field rest).put depth name d (slot, slots) =
      (rest.put depth name d slots).map fun r => r.map fun slots => (slot, slots) :=
  if_neg h

theorem put_of_notMem {fields : Fields ts} {name : String} (h : name ∉ fields.names) (d : Doc) (slots : Slots ts) :
    fields.put depth name d slots = none := by
  induction fields with
  | nil => rfl
  | cons field rest ih =>
    obtain ⟨slot, slots⟩ := slots
    simp only [names, List.mem_cons, not_or] at h
    rw [put_of_ne (Ne.symm h.1), ih h.2]
    rfl

theorem put_of_mem {fields : Fields ts} {name : String} (h : name ∈ fields.names) (d : Doc) (slots : Slots ts) :
    ∃ r, fields.put depth name d slots = some r := by
  induction fields with
  | nil => cases h
  | cons field rest ih =>
    obtain ⟨slot, slots⟩ := slots
    by_cases hname : field.name = name
    · exact ⟨_, if_pos hname⟩
    · obtain ⟨r, hr⟩ := ih ((List.mem_cons.1 h).resolve_left (Ne.symm hname)) slots
      rw [put_of_ne hname, hr]
      exact ⟨_, rfl⟩

end Fields

mutual

theorem skipFault?_toDoc : (j : Json) → j.toDoc.skipFault? = none
  | .null | .flag _ | .num _ | .text _ => rfl
  | .list items => skipFault?_toItems items
  | .record members => skipFault?_toMembers members

theorem skipFault?_toItems : (items : List Json) → (toItems items).skipFault? = none
  | [] => rfl
  | item :: items => by
    rw [toItems, Items.skipFault?, skipFault?_toDoc item, skipFault?_toItems items]
    rfl

theorem skipFault?_toMembers : (members : List (String × Json)) → (toMembers members).skipFault? = none
  | [] => rfl
  | (_, value) :: members => by
    rw [toMembers, Members.skipFault?, skipFault?_toDoc value, skipFault?_toMembers members]
    rfl

end

namespace Fields

variable {ts : List Type} {members extra : List (String × Json)}

/-- Members that no field is named for change nothing. -/
theorem readMembers_foreign {fields : Fields ts} (h : ∀ m ∈ extra, m.1 ∉ fields.names) (slots : Slots ts) :
    fields.readMembers depth slots (toMembers (extra ++ members)) =
      fields.readMembers depth slots (toMembers members) := by
  induction extra with
  | nil => rfl
  | cons m extra ih =>
    have hm : fields.put depth m.1 m.2.toDoc slots = none := put_of_notMem (h m List.mem_cons_self) _ _
    rw [List.cons_append, toMembers, readMembers, hm]
    simp only [skipFault?_toDoc]
    exact ih fun m' hm' => h m' (List.mem_cons_of_mem _ hm')

/-- Where no member has the name of the first field, the others are read as if it were not there. -/
theorem readMembers_rest {field : Field α} {rest : Fields ts} (h : ∀ m ∈ members, field.name ≠ m.1)
    (slot : Option α) (slots : Slots ts) :
    (cons field rest).readMembers depth (slot, slots) (toMembers members) =
      (rest.readMembers depth slots (toMembers members)).map fun slots => (slot, slots) := by
  induction members generalizing slots with
  | nil => rfl
  | cons m members ih =>
    have hne := h m List.mem_cons_self
    have ih := ih fun m' hm' => h m' (List.mem_cons_of_mem _ hm')
    obtain ⟨key, value⟩ := m
    simp only [toMembers, readMembers, put_of_ne hne]
    cases hput : rest.put depth key value.toDoc slots with
    | none =>
      simp only [Option.map_none, skipFault?_toDoc]
      exact ih slots
    | some r =>
      cases r with
      | error e => rfl
      | ok slots => exact ih slots

theorem map_fst_write {fields : Fields ts} (xs : Values ts) : (fields.write xs).map Prod.fst = fields.names := by
  induction fields with
  | nil => rfl
  | cons field rest ih => exact congrArg (field.name :: ·) (ih xs.2)

theorem mem_names_of_mem_write {fields : Fields ts} {xs : Values ts} {m : String × Json} (h : m ∈ fields.write xs) :
    m.1 ∈ fields.names :=
  map_fst_write xs ▸ List.mem_map_of_mem h

/-- Where an object has all fields in order, they are read one by one, whatever other members follow. -/
theorem readAll_append {fields : Fields ts} (hmembers : members.map Prod.fst = fields.names)
    (hnames : fields.names.Nodup) (hextra : ∀ m ∈ extra, m.1 ∉ fields.names) :
    fields.readAll depth (toMembers (members ++ extra)) = fields.readEach depth members := by
  induction fields generalizing members with
  | nil =>
    obtain rfl : members = [] := List.map_eq_nil_iff.1 hmembers
    have hskip : nil.readMembers depth () (toMembers (extra ++ [])) = .ok () := readMembers_foreign hextra ()
    rw [List.append_nil] at hskip
    simp only [readAll, emptySlots, List.nil_append, hskip]
    rfl
  | cons field rest ih =>
    obtain ⟨⟨key, value⟩, members, rfl, rfl, hrest⟩ := List.map_eq_cons_iff.1 hmembers
    obtain ⟨hname, hnames⟩ := List.nodup_cons.1 hnames
    have ih := ih hrest hnames fun m hm hin => hextra m hm (List.mem_cons_of_mem _ hin)
    have hothers : ∀ m ∈ members ++ extra, field.name ≠ m.1 := by
      intro m hm heq
      rcases List.mem_append.1 hm with hm | hm
      · exact hname (heq ▸ hrest ▸ List.mem_map_of_mem hm)
      · exact hextra m hm (heq ▸ List.mem_cons_self)
    simp only [readAll] at ih ⊢
    rw [List.cons_append, toMembers, readMembers, emptySlots, put, if_pos rfl, readEach]
    cases hx : field.codec.read depth value.toDoc with
    | error e => rfl
    | ok x =>
      simp only [Except.map]
      rw [readMembers_rest hothers, ← ih]
      cases rest.readMembers depth rest.emptySlots (toMembers (members ++ extra)) with
      | error e => rfl
      | ok slots =>
        simp only [Except.map, bind, Except.bind, close, Option.or]
        cases rest.close slots <;> rfl

theorem readEach_write {fields : Fields ts} (h : fields.Lawful n) (hn : n ≤ depth) (xs : Values ts) :
    fields.readEach depth (fields.write xs) = .ok xs := by
  induction fields with
  | nil => rfl
  | cons field rest ih =>
    obtain ⟨x, xs⟩ := xs
    have hx : field.codec.read depth (field.codec.write x).toDoc = .ok x := h.1.readsBack x hn
    rw [write, readEach, hx, ih h.2 xs]
    rfl

theorem membersWhole_write {fields : Fields ts} (h : fields.Lawful n) (xs : Values ts) :
    MembersWhole (fields.write xs) := by
  induction fields with
  | nil => trivial
  | cons field rest ih => exact ⟨h.1.whole xs.1, ih h.2 xs.2⟩

end Fields

theorem membersWhole_append {members more : List (String × Json)} (hm : MembersWhole members)
    (hmore : MembersWhole more) : MembersWhole (members ++ more) := by
  induction members with
  | nil => exact hmore
  | cons m members ih => exact ⟨hm.1, ih hm.2⟩

namespace Record

variable {σ : Type} {ts : List Type}

theorem readMembers_eq (r : Record σ ts) (members : Members) :
    r.readMembers depth members = (r.fields.readAll depth members).map r.build := by
  rw [readMembers, Fields.readAll]
  cases r.fields.readMembers depth r.fields.emptySlots members <;> rfl

/-- An object that has all fields in order is read field by field. -/
theorem read_members {r : Record σ ts} {members : List (String × Json)} (hnames : r.fields.names.Nodup)
    (hmembers : members.map Prod.fst = r.fields.names) :
    r.read (depth + 1) (Json.record members).toDoc = (r.fields.readEach depth members).map r.build := by
  have hread : r.fields.readAll depth (toMembers (members ++ [])) = _ :=
    Fields.readAll_append hmembers hnames (by simp)
  rw [List.append_nil] at hread
  rw [toDoc, read, readMembers_eq, hread]

theorem lawful {r : Record σ ts} (hnames : r.fields.names.Nodup) (hbuild : ∀ x, r.build (r.parts x) = x)
    (h : r.fields.Lawful n) : r.codec.Lawful (n + 1) where
  whole x := Fields.membersWhole_write h (r.parts x)
  readsBack {depth} x hn := by
    obtain ⟨depth, rfl⟩ : ∃ d, depth = d + 1 := ⟨depth - 1, by omega⟩
    have hread : r.read (depth + 1) (r.write x).toDoc = _ := read_members hnames (Fields.map_fst_write (r.parts x))
    rw [Fields.readEach_write h (Nat.le_of_succ_le_succ hn) (r.parts x), Except.map, hbuild] at hread
    exact hread

end Record

/-! ### Whole texts -/

namespace Codec

theorem readText_write (c : Codec α) {j : Json} (hj : j.IsWhole) :
    c.readText j.write.toUTF8 = c.read maxDepth j.toDoc := by
  rw [readText, ofText_write hj]
  cases hread : c.read maxDepth j.toDoc <;> simp [hread]

theorem Lawful.readText_writeText {c : Codec α} (h : c.Lawful n) (hn : n ≤ maxDepth) (x : α) :
    c.readText (c.writeText x).toUTF8 = .ok x :=
  (c.readText_write (h.whole x)).trans (h.readsBack x hn)

end Codec

end ChatApi.Json
