import ChatApi.Json.Value
import ChatApi.Proofs.Json.Tokens

/-!
# A written value is read as it was

`Json.toDoc` is the document that spells a value. Where all numbers of the value are integers of 64 bits, its
text is read into that document, and nothing of what follows the text is touched (`spells_chars`).
-/

namespace ChatApi

open Json (Number Doc Items Members Follows octetsOf readDoc readItems readMembers skipSpace)

namespace Json

mutual

/-- The document that spells a value. -/
def toDoc : Json → Doc
  | .null => .null
  | .flag b => .flag b
  | .num n => .num (some n)
  | .text s => .text (some s)
  | .list items => .list (toItems items)
  | .record members => .record (toMembers members)

def toItems : List Json → Items
  | [] => .close
  | item :: items => .item (toDoc item) (toItems items)

def toMembers : List (String × Json) → Members
  | [] => .close
  | (key, value) :: members => .member (some key) (toDoc value) (toMembers members)

end

/-- An integer that 64 bits hold, with a sign or without. -/
def Number.IsWhole : Number → Prop
  | .integer n => Int64.minValue.toInt ≤ n ∧ n < UInt64.size
  | .float _ => False

mutual

/-- All numbers of a value are integers of 64 bits. -/
def IsWhole : Json → Prop
  | .num n => n.IsWhole
  | .list items => ItemsWhole items
  | .record members => MembersWhole members
  | _ => True

def ItemsWhole : List Json → Prop
  | [] => True
  | item :: items => IsWhole item ∧ ItemsWhole items

def MembersWhole : List (String × Json) → Prop
  | [] => True
  | (_, value) :: members => IsWhole value ∧ MembersWhole members

end

variable {k r : List Char}

theorem skipSpace_cons {c : Char} (h : isSpace c = false) : skipSpace (c :: k) = c :: k := by
  simp [skipSpace, h]

theorem readWord_append (word : List Char) : readWord word (word ++ k) = .ok k := by
  induction word with
  | nil => rfl
  | cons w word ih => simp [readWord, ih]

/-- What is read at the start of a text, and what is left of it. -/
def ReadsDoc (cs : List Char) (d : Doc) (k : List Char) : Prop := (readDoc cs).1 = d ∧ (readDoc cs).2.1 = k

def ReadsItems (cs : List Char) (items : Items) (k : List Char) : Prop :=
  (readItems cs).1 = items ∧ (readItems cs).2.1 = k

def ReadsMembers (cs : List Char) (members : Members) (k : List Char) : Prop :=
  (readMembers cs).1 = members ∧ (readMembers cs).2.1 = k

/-- A character that begins a value, and no blank. -/
def Starts (cs : List Char) : Prop := ∃ c r, cs = c :: r ∧ isSpace c = false ∧ c ≠ ']'

/-- What the first character of a value decides. -/
inductive Begins : Char → List Char → Doc → List Char → Prop
  | null {k : List Char} : Begins 'n' ("ull".toList ++ k) .null k
  | yes {k : List Char} : Begins 't' ("rue".toList ++ k) (.flag true) k
  | no {k : List Char} : Begins 'f' ("alse".toList ++ k) (.flag false) k
  | text {r k : List Char} {s : Option String} (h : scanText {} r = .closed s k) : Begins '"' r (.text s) k
  | negative {r k : List Char} {x : Numeral} (h : scanNumeral true r = .ok (x, k)) : Begins '-' r (.num x.value) k
  | natural {c : Char} {r k : List Char} {x : Numeral} (hc : c.isDigit)
      (h : scanNumeral false (c :: r) = .ok (x, k)) : Begins c r (.num x.value) k
  | noItems {k : List Char} : Begins '[' (']' :: k) (.list .close) k
  | items {r k : List Char} {items : Items} (hr : Starts r) (h : ReadsItems r items k) :
      Begins '[' r (.list items) k
  | noMembers {k : List Char} : Begins '\x7b' ('\x7d' :: k) (.record .close) k
  | members {r k : List Char} {members : Members} (h : ReadsMembers ('"' :: r) members k) :
      Begins '\x7b' ('"' :: r) (.record members) k

/-- No digit is a blank, or begins any value but a number. -/
theorem ne_of_isDigit {c d : Char} (hc : c.isDigit) (hd : d.isDigit = false) : c ≠ d := by
  rintro rfl
  rw [hc] at hd
  cases hd

theorem isSpace_of_isDigit {c : Char} (hc : c.isDigit) : isSpace c = false := by
  have hne {d : Char} (hd : d.isDigit = false) : c ≠ d := ne_of_isDigit hc hd
  simp [isSpace, hne]

theorem Begins.isSpace {c : Char} {d : Doc} (h : Begins c r d k) : isSpace c = false := by
  cases h with
  | natural hc _ => exact isSpace_of_isDigit hc
  | _ => rfl

theorem Begins.reads {c : Char} {d : Doc} (h : Begins c r d k) : ReadsDoc (c :: r) d k := by
  have hskip := skipSpace_cons (k := r) h.isSpace
  unfold ReadsDoc
  rw [readDoc]
  split
  · rename_i heq
    cases hskip.symm.trans heq
  rename_i c' r' heq
  cases hskip.symm.trans heq
  cases h with
  | null | yes | no =>
    simp only [Char.reduceEq, if_false, if_true]
    split
    · rename_i hw
      cases (readWord_append _).symm.trans hw
      exact ⟨rfl, rfl⟩
    · rename_i hw
      cases (readWord_append _).symm.trans hw
  | text h =>
    simp only [Char.reduceEq, if_false, if_true]
    split
    · rename_i ht
      cases h.symm.trans ht
      exact ⟨rfl, rfl⟩
    · rename_i ht
      cases h.symm.trans ht
  | negative h =>
    simp only [Char.reduceEq, if_false, if_true]
    split
    · rename_i hn
      cases h.symm.trans hn
      exact ⟨rfl, rfl⟩
    · rename_i hn
      cases h.symm.trans hn
  | natural hc h =>
    have hne {d : Char} (hd : d.isDigit = false) : ¬ c = d := ne_of_isDigit hc hd
    simp only [hne (d := 'n') rfl, hne (d := 't') rfl, hne (d := 'f') rfl, hne (d := '"') rfl, hne (d := '-') rfl,
      hc, if_false, if_true]
    split
    · rename_i hn
      cases h.symm.trans hn
      exact ⟨rfl, rfl⟩
    · rename_i hn
      cases h.symm.trans hn
  | noItems =>
    have hskip' := skipSpace_cons (c := ']') (k := k) rfl
    simp only [Char.reduceEq, show '['.isDigit = false from rfl, Bool.false_eq_true, if_false, if_true]
    split
    · rename_i hi
      cases hskip'.symm.trans hi
    · rename_i hi
      cases hskip'.symm.trans hi
      exact ⟨rfl, rfl⟩
    · rename_i hne
      exact absurd hskip' (hne k)
  | items hr h =>
    obtain ⟨d, s, rfl, hd, hclose⟩ := hr
    have hskip' := skipSpace_cons (k := s) hd
    simp only [Char.reduceEq, show '['.isDigit = false from rfl, Bool.false_eq_true, if_false, if_true]
    split
    · rename_i hi
      cases hskip'.symm.trans hi
    · rename_i hi
      cases hskip'.symm.trans hi
      exact absurd rfl hclose
    · exact ⟨congrArg Doc.list h.1, h.2⟩
  | noMembers =>
    have hskip' := skipSpace_cons (c := '\x7d') (k := k) rfl
    simp only [Char.reduceEq, show '\x7b'.isDigit = false from rfl, Bool.false_eq_true, if_false, if_true]
    split
    · rename_i hm
      cases hskip'.symm.trans hm
      exact ⟨rfl, rfl⟩
    · rename_i hne
      exact absurd hskip' (hne k)
  | @members s _ _ h =>
    have hskip' := skipSpace_cons (c := '"') (k := s) rfl
    simp only [Char.reduceEq, show '\x7b'.isDigit = false from rfl, Bool.false_eq_true, if_false, if_true]
    split
    · rename_i hm
      cases hskip'.symm.trans hm
    · exact ⟨congrArg Doc.record h.1, h.2⟩

theorem ReadsDoc.eq {cs : List Char} {d : Doc} (h : ReadsDoc cs d k) : ∃ hk, readDoc cs = (d, ⟨k, hk⟩) := by
  obtain ⟨rfl, rfl⟩ := h
  exact ⟨(readDoc cs).2.2, rfl⟩

/-- What stands behind a value in an array. -/
inductive ItemsBehind : List Char → Items → List Char → Prop
  | close {k : List Char} : ItemsBehind (']' :: k) .close k
  | more {m k : List Char} {items : Items} (h : ReadsItems m items k) : ItemsBehind (',' :: m) items k

/-- What stands behind a member in an object. -/
inductive MembersBehind : List Char → Members → List Char → Prop
  | close {k : List Char} : MembersBehind ('\x7d' :: k) .close k
  | more {m k : List Char} {members : Members} (h : ReadsMembers m members k) : MembersBehind (',' :: m) members k

variable {e v : List Char} {d : Doc}

theorem ReadsDoc.items {items : Items} (hd : ReadsDoc r d e) (hb : ItemsBehind e items k) :
    ReadsItems r (.item d items) k := by
  obtain ⟨he, hd⟩ := hd.eq
  unfold ReadsItems
  rw [readItems, hd]
  dsimp only
  cases hb with
  | close =>
    split
    · rename_i heq
      cases (skipSpace_cons (c := ']') rfl).symm.trans heq
    · rename_i heq
      cases (skipSpace_cons (c := ']') rfl).symm.trans heq
      simp only [Char.reduceEq, if_false, if_true, and_self]
  | more h =>
    split
    · rename_i heq
      cases (skipSpace_cons (c := ',') rfl).symm.trans heq
    · rename_i heq
      cases (skipSpace_cons (c := ',') rfl).symm.trans heq
      simp only [if_true]
      exact ⟨congrArg (Items.item d) h.1, h.2⟩

theorem ReadsDoc.members {key : Option String} {members : Members} (hs : scanText {} r = .closed key (':' :: v))
    (hd : ReadsDoc v d e) (hb : MembersBehind e members k) : ReadsMembers ('"' :: r) (.member key d members) k := by
  obtain ⟨he, hd⟩ := hd.eq
  unfold ReadsMembers
  rw [readMembers]
  split
  · rename_i heq
    cases (skipSpace_cons (c := '"') rfl).symm.trans heq
  · rename_i heq
    cases (skipSpace_cons (c := '"') rfl).symm.trans heq
    split
    · rename_i ht
      cases hs.symm.trans ht
    · rename_i ht
      cases hs.symm.trans ht
      split
      · rename_i hc
        cases (skipSpace_cons (c := ':') rfl).symm.trans hc
      · rename_i hc
        cases (skipSpace_cons (c := ':') rfl).symm.trans hc
        dsimp only
        cases hb with
        | close =>
          have hskip : skipSpace (readDoc v).2.1 = '\x7d' :: k := by rw [hd]; exact skipSpace_cons rfl
          split
          · rename_i h
            cases hskip.symm.trans h
          · rename_i h
            cases hskip.symm.trans h
            simp only [Char.reduceEq, if_false, if_true, hd, and_self]
        | @more m _ _ hm =>
          have hskip : skipSpace (readDoc v).2.1 = ',' :: m := by rw [hd]; exact skipSpace_cons rfl
          split
          · rename_i h
            cases hskip.symm.trans h
          · rename_i h
            cases hskip.symm.trans h
            simp only [if_true, hd]
            exact ⟨congrArg (Members.member key d) hm.1, hm.2⟩
      · rename_i hne
        exact absurd (skipSpace_cons rfl) (hne v)
  · rename_i hne
    exact absurd (skipSpace_cons rfl) (hne r)

/-! ### Whole values -/

theorem toNat_lt_of_isDigit {c : Char} (h : c.isDigit) : c.toNat < 128 := by
  simp only [Char.isDigit, Bool.and_eq_true, decide_eq_true_eq] at h
  have hle : c.toNat ≤ 57 := h.2
  omega

theorem octetsOf_toDigits (n : Nat) : octetsOf (Nat.toDigits 10 n) = Nat.toDigits 10 n :=
  octetsOf_of_ascii fun _ hc => toNat_lt_of_isDigit (Text.isDigit_of_mem_toDigits hc)

theorem chars_of_nonneg {n : Int} (hn : 0 ≤ n) : (Json.num (.integer n)).chars = Nat.toDigits 10 n.natAbs := by
  rw [chars, Number.write, Int.toString_eq_repr, Int.repr_eq_if, if_pos hn, Nat.toList_repr]
  congr 1
  omega

theorem chars_of_neg {n : Int} (hn : n < 0) : (Json.num (.integer n)).chars = '-' :: Nat.toDigits 10 n.natAbs := by
  have habs : (-n).toNat = n.natAbs := by omega
  rw [chars, Number.write, Int.toString_eq_repr, Int.repr_eq_if, if_neg (Int.not_le.2 hn), String.toList_append,
    Nat.toList_repr, habs]
  rfl

/-- The text begins a value and is that value up to `k`. -/
def Spells (cs : List Char) (d : Doc) (k : List Char) : Prop := ∃ c r, cs = c :: r ∧ Begins c r d k

theorem Spells.reads {cs : List Char} (h : Spells cs d k) : ReadsDoc cs d k := by
  obtain ⟨c, r, rfl, hb⟩ := h
  exact hb.reads

theorem Begins.starts {c : Char} (h : Begins c r d k) : Starts (c :: r) := by
  refine ⟨c, r, rfl, h.isSpace, ?_⟩
  cases h with
  | natural hc _ => exact ne_of_isDigit hc rfl
  | _ => decide

theorem Spells.starts {cs : List Char} (h : Spells cs d k) : Starts cs := by
  obtain ⟨c, r, rfl, hb⟩ := h
  exact hb.starts

/-- A whole number is read as it was written. -/
theorem spells_integer {n : Int} (hn : (Number.integer n).IsWhole) (hk : Follows k) :
    Spells (octetsOf (Json.num (.integer n)).chars ++ k) (toDoc (.num (.integer n))) k := by
  have hvalue := Json.value_digits hn.1 hn.2
  rw [toDoc, ← hvalue]
  by_cases hneg : n < 0
  · rw [chars_of_neg hneg, octetsOf_cons (by decide), octetsOf_toDigits]
    exact ⟨_, _, rfl, .negative (by rw [decide_eq_true hneg]; exact Json.scanNumeral_digits true n.natAbs hk)⟩
  · rw [chars_of_nonneg (Int.not_lt.1 hneg), octetsOf_toDigits]
    obtain ⟨c, r, hc⟩ := List.exists_cons_of_ne_nil (Nat.toDigits_ne_nil (n := n.natAbs) (b := 10))
    have hdigit : c.isDigit := Text.isDigit_of_mem_toDigits (hc ▸ List.mem_cons_self)
    have hscan := Json.scanNumeral_digits false n.natAbs hk
    rw [hc, List.cons_append] at hscan
    rw [hc, List.cons_append]
    exact ⟨c, _, rfl, .natural hdigit (by rw [decide_eq_false hneg]; exact hscan)⟩

/-- A string in its quotes, seen octet by octet. -/
theorem octetsOf_writeText (s : String) :
    octetsOf (writeText s) ++ k = '"' :: (octetsOf (s.toList.flatMap escapeChar) ++ '"' :: k) := by
  rw [writeText, List.cons_append, octetsOf_cons (by decide), octetsOf_append, octetsOf_cons (by decide)]
  simp

theorem ItemsBehind.follows {cs : List Char} {items : Items} (h : ItemsBehind cs items k) : Follows cs := by
  cases h <;> simp [Follows]

theorem MembersBehind.follows {cs : List Char} {members : Members} (h : MembersBehind cs members k) :
    Follows cs := by
  cases h <;> simp [Follows]

/-- The first member of an object, and those behind it. -/
theorem readsMembers_cons (key : String) {cs rest : List Char} {members : Members} (hd : ReadsDoc (cs ++ rest) d rest)
    (hb : MembersBehind rest members k) :
    ReadsMembers ('"' :: (octetsOf (key.toList.flatMap escapeChar) ++ '"' :: ':' :: (cs ++ rest)))
      (.member (some key) d members) k :=
  ReadsDoc.members (scanText_written key) hd hb

/-- A member of an object seen octet by octet, with what stands behind it. -/
theorem octetsOf_member (key : String) (value : Json) (cs : List Char) :
    octetsOf (writeText key ++ ':' :: value.chars ++ cs) ++ k =
      '"' :: (octetsOf (key.toList.flatMap escapeChar) ++
        '"' :: ':' :: (octetsOf value.chars ++ (octetsOf cs ++ k))) := by
  rw [List.append_assoc, octetsOf_append, List.cons_append, octetsOf_cons (by decide), octetsOf_append,
    List.append_assoc, octetsOf_writeText, List.cons_append, List.append_assoc]

mutual

/-- A value is read as it was written. -/
theorem spells_chars : (j : Json) → j.IsWhole → ∀ k, Follows k → Spells (octetsOf j.chars ++ k) j.toDoc k
  | .null, _, k, _ => by
    rw [chars, octetsOf_of_ascii (by simp)]
    exact ⟨'n', _, rfl, .null⟩
  | .flag true, _, k, _ => by
    rw [chars, octetsOf_of_ascii (by simp)]
    exact ⟨'t', _, rfl, .yes⟩
  | .flag false, _, k, _ => by
    rw [chars, octetsOf_of_ascii (by simp)]
    exact ⟨'f', _, rfl, .no⟩
  | .num (.integer n), hj, k, hk => spells_integer hj hk
  | .num (.float x), hj, k, hk => absurd hj id
  | .text s, _, k, _ => by
    rw [chars, octetsOf_writeText]
    exact ⟨'"', _, rfl, .text (scanText_written s)⟩
  | .list [], _, k, _ => by
    rw [chars, octetsOf_of_ascii (by simp)]
    exact ⟨'[', _, rfl, .noItems⟩
  | .list (item :: items), hj, k, _ => by
    have hitems := itemsBehind_chars items hj.2 k
    have hitem := spells_chars item hj.1 _ hitems.follows
    rw [chars, List.cons_append, octetsOf_cons (by decide), octetsOf_append, List.cons_append, List.append_assoc]
    exact ⟨'[', _, rfl, .items hitem.starts (hitem.reads.items hitems)⟩
  | .record [], _, k, _ => by
    rw [chars, octetsOf_of_ascii (by simp)]
    exact ⟨'\x7b', _, rfl, .noMembers⟩
  | .record ((key, value) :: members), hj, k, _ => by
    have hmembers := membersBehind_chars members hj.2 k
    have hvalue := spells_chars value hj.1 _ hmembers.follows
    rw [chars, List.cons_append, List.cons_append, octetsOf_cons (by decide), List.cons_append, octetsOf_member]
    exact ⟨'\x7b', _, rfl, .members (readsMembers_cons key hvalue.reads hmembers)⟩

theorem itemsBehind_chars : (items : List Json) → ItemsWhole items →
    ∀ k, ItemsBehind (octetsOf (itemsChars items) ++ k) (toItems items) k
  | [], _, k => by
    rw [itemsChars, octetsOf_of_ascii (by simp)]
    exact .close
  | item :: items, hi, k => by
    have hitems := itemsBehind_chars items hi.2 k
    have hitem := spells_chars item hi.1 _ hitems.follows
    rw [itemsChars, List.cons_append, octetsOf_cons (by decide), octetsOf_append, List.cons_append, List.append_assoc]
    exact .more (hitem.reads.items hitems)

theorem membersBehind_chars : (members : List (String × Json)) → MembersWhole members →
    ∀ k, MembersBehind (octetsOf (membersChars members) ++ k) (toMembers members) k
  | [], _, k => by
    rw [membersChars, octetsOf_of_ascii (by simp)]
    exact .close
  | (key, value) :: members, hm, k => by
    have hmembers := membersBehind_chars members hm.2 k
    have hvalue := spells_chars value hm.1 _ hmembers.follows
    rw [membersChars, List.cons_append, List.cons_append, octetsOf_cons (by decide), List.cons_append, octetsOf_member]
    exact .more (readsMembers_cons key hvalue.reads hmembers)

end

/-- A whole text is read into the value that it was written for. -/
theorem ofText_write {j : Json} (hj : j.IsWhole) : Doc.ofText j.write.toUTF8 = (j.toDoc, true) := by
  have hend : Follows [] := by simp [Follows]
  have hread := (spells_chars j hj [] hend).reads
  rw [List.append_nil, ← Json.octets_ofList] at hread
  obtain ⟨_, hread⟩ := hread.eq
  rw [Doc.ofText, write, hread]
  rfl

end Json

end ChatApi
