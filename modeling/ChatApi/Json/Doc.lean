/-!
# The shape of a JSON text

A text is read into a `Doc` whether or not it follows the grammar: where it does not, the tree ends
in a break. A reader that walks the tree from left to right thus meets a value of the wrong type and
a break of the grammar in the order in which they stand in the text.

Some members of an object are only skipped. Skipping asks less of a text than reading it: a number
may be too large for a double, and a string need not be Unicode.
-/

namespace ChatApi.Json

/-- How a text departs from the grammar. -/
inductive Fault
  /-- It holds something that cannot stand there. -/
  | malformed
  /-- It ends before the value does. -/
  | early
  deriving DecidableEq, Repr, Inhabited

/-- The fault at a place, for a reader and for one who only skips. -/
structure Break where
  read : Fault
  skip : Fault
  deriving DecidableEq, Repr, Inhabited

/-- The same fault for both. -/
def Break.both (f : Fault) : Break := ⟨f, f⟩

/-- A number: an integer of 64 bits, with a sign or without, or a double. -/
inductive Number
  | integer (n : Int)
  | float (x : Float)
  deriving Inhabited

mutual

/-- A value as far as the text gives it. -/
inductive Doc
  | null
  | flag (b : Bool)
  /-- Nothing stands for a number too large for a double. -/
  | num (n : Option Number)
  /-- Nothing stands for a string that is not Unicode. -/
  | text (s : Option String)
  | list (items : Items)
  | record (members : Members)
  | broken (b : Break)

/-- The values of an array. -/
inductive Items
  | close
  | broken (f : Fault)
  | item (d : Doc) (rest : Items)

/-- The members of an object in the order of the text. -/
inductive Members
  | close
  | broken (b : Break)
  | member (key : Option String) (value : Doc) (rest : Members)

end

instance : Inhabited Doc := ⟨.null⟩
instance : Inhabited Items := ⟨.close⟩
instance : Inhabited Members := ⟨.close⟩

mutual

/-- The first fault that one meets who only skips. -/
def Doc.skipFault? : Doc → Option Fault
  | .list items => items.skipFault?
  | .record members => members.skipFault?
  | .broken b => some b.skip
  | _ => none

def Items.skipFault? : Items → Option Fault
  | .close => none
  | .broken f => some f
  | .item d rest => d.skipFault?.or rest.skipFault?

def Members.skipFault? : Members → Option Fault
  | .close => none
  | .broken b => some b.skip
  | .member _ value rest => value.skipFault?.or rest.skipFault?

end

/-- Arrays and objects may be nested this deep. -/
def maxDepth : Nat := 127

mutual

/-- The first fault that a reader meets who takes any value, nested at most `depth` deep. -/
def Doc.readFault? : (depth : Nat) → Doc → Option Fault
  | 0, .list _ | 0, .record _ => some .malformed
  | depth + 1, .list items => items.readFault? depth
  | depth + 1, .record members => members.readFault? depth
  | _, .num none | _, .text none => some .malformed
  | _, .broken b => some b.read
  | _, _ => none

def Items.readFault? : (depth : Nat) → Items → Option Fault
  | _, .close => none
  | _, .broken f => some f
  | depth, .item d rest => (d.readFault? depth).or (rest.readFault? depth)

def Members.readFault? : (depth : Nat) → Members → Option Fault
  | _, .close => none
  | _, .broken b => some b.read
  | _, .member none _ _ => some .malformed
  | depth, .member (some _) value rest => (value.readFault? depth).or (rest.readFault? depth)

end

end ChatApi.Json
