import ChatApi.Json.Scan

/-!
# Reading a JSON text

`Doc.ofText` reads the value that a text begins with and says whether anything but blanks follows.
Each step hands on what is left of the text together with the fact that it is no longer than before.
-/

namespace ChatApi.Json

/-- The blanks between the tokens of a text. -/
def isSpace (c : Char) : Bool := c = ' ' || c = '\n' || c = '\t' || c = '\r'

def skipSpace (cs : List Char) : List Char := cs.dropWhile isSpace

theorem length_skipSpace_le (cs : List Char) : (skipSpace cs).length ≤ cs.length :=
  length_dropWhile_le _ _

/-- What is left behind the letters of a word. -/
def readWord : (word : List Char) → List Char → Except Fault (List Char)
  | [], cs => .ok cs
  | _ :: _, [] => .error .early
  | w :: word, c :: cs => if c = w then readWord word cs else .error .malformed

theorem length_le_of_readWord {word cs rest : List Char} (h : readWord word cs = .ok rest) :
    rest.length ≤ cs.length := by
  fun_induction readWord word cs <;> simp_all
  omega

/-- What is left of `cs`. -/
abbrev Rest (cs : List Char) := { r : List Char // r.length ≤ cs.length }

/-- Nothing is left, as behind a break. -/
def Rest.none {cs : List Char} : Rest cs := ⟨[], Nat.zero_le _⟩

mutual

/-- The value at the start of `cs`, blanks before it aside. -/
def readDoc (cs : List Char) : Doc × Rest cs :=
  match h : skipSpace cs with
  | [] => (.broken (.both .early), Rest.none)
  | c :: r =>
    have hr : r.length < cs.length := by
      have := length_skipSpace_le cs
      rw [h] at this
      simp at this
      omega
    let word (letters : String) (d : Doc) : Doc × Rest cs :=
      match hw : readWord letters.toList r with
      | .ok r' => (d, ⟨r', by have := length_le_of_readWord hw; omega⟩)
      | .error f => (.broken (.both f), Rest.none)
    let number (negative : Bool) (digits : List Char) (hd : digits.length ≤ cs.length) :
        Doc × Rest cs :=
      match hn : scanNumeral negative digits with
      | .ok (x, r') => (.num x.value, ⟨r', by have := length_le_of_scanNumeral hn; omega⟩)
      | .error b => (.broken b, Rest.none)
    if c = 'n' then word "ull" .null
    else if c = 't' then word "rue" (.flag true)
    else if c = 'f' then word "alse" (.flag false)
    else if c = '"' then
      match ht : scanText {} r with
      | .closed s r' => (.text s, ⟨r', by have := length_lt_of_scanText ht; omega⟩)
      | .broken b => (.broken b, Rest.none)
    else if c = '-' then number true r (by omega)
    else if c.isDigit then number false (c :: r) (by simp; omega)
    else if c = '[' then
      match hi : skipSpace r with
      | [] => (.list (.broken .early), Rest.none)
      | ']' :: r' =>
        (.list .close, ⟨r', by have := length_skipSpace_le r; rw [hi] at this; simp at this; omega⟩)
      | _ =>
        let (items, rest) := readItems r
        (.list items, ⟨rest.1, by have := rest.2; omega⟩)
    else if c = '{' then
      match hm : skipSpace r with
      | '}' :: r' =>
        (.record .close,
          ⟨r', by have := length_skipSpace_le r; rw [hm] at this; simp at this; omega⟩)
      | _ =>
        let (members, rest) := readMembers r
        (.record members, ⟨rest.1, by have := rest.2; omega⟩)
    else (.broken (.both .malformed), Rest.none)
termination_by (cs.length, 0)

/-- The values of an array, the next of which starts here. -/
def readItems (cs : List Char) : Items × Rest cs :=
  let (d, rest) := readDoc cs
  match h : skipSpace rest.1 with
  | [] => (.item d (.broken .early), Rest.none)
  | c :: r =>
    have hr : r.length < cs.length := by
      have := length_skipSpace_le rest.1
      have := rest.2
      rw [h] at *
      simp at *
      omega
    if c = ',' then
      let (items, rest) := readItems r
      (.item d items, ⟨rest.1, by have := rest.2; omega⟩)
    else if c = ']' then (.item d .close, ⟨r, by omega⟩)
    else (.item d (.broken .malformed), Rest.none)
termination_by (cs.length, 1)

/-- The members of an object, the next of which starts here. -/
def readMembers (cs : List Char) : Members × Rest cs :=
  match h : skipSpace cs with
  | [] => (.broken (.both .early), Rest.none)
  | '"' :: k =>
    have hk : k.length < cs.length := by
      have := length_skipSpace_le cs
      rw [h] at this
      simp at this
      omega
    match ht : scanText {} k with
    | .broken b => (.broken b, Rest.none)
    | .closed key r =>
      match hc : skipSpace r with
      | [] => (.member key (.broken (.both .early)) .close, Rest.none)
      | ':' :: v =>
        have hv : v.length < cs.length := by
          have := length_lt_of_scanText ht
          have := length_skipSpace_le r
          rw [hc] at this
          simp at this
          omega
        let (value, rest) := readDoc v
        match he : skipSpace rest.1 with
        | [] => (.member key value (.broken (.both .early)), Rest.none)
        | c :: r =>
          have hr : r.length < cs.length := by
            have := length_skipSpace_le rest.1
            have := rest.2
            rw [he] at *
            simp at *
            omega
          if c = ',' then
            let (members, rest) := readMembers r
            (.member key value members, ⟨rest.1, by have := rest.2; omega⟩)
          else if c = '}' then (.member key value .close, ⟨r, by omega⟩)
          else (.member key value (.broken (.both .malformed)), Rest.none)
      | _ => (.member key (.broken (.both .malformed)) .close, Rest.none)
  | _ => (.broken (.both .malformed), Rest.none)
termination_by (cs.length, 1)

end

/-- The value that a text begins with, and whether only blanks follow. -/
def Doc.ofText (bytes : ByteArray) : Doc × Bool :=
  let (d, rest) := readDoc (octets bytes)
  (d, (skipSpace rest.1).isEmpty)

end ChatApi.Json
