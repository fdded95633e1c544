/-!
# Blank characters and trimming

`isBlank` is the white-space property of the character database. `dropAround` removes every
character of a class from both ends of a text and touches nothing in between.
-/

namespace ChatApi.Text

/-- The characters that count as white space, the ASCII ones first. -/
def blanks : List Char :=
  ['\x09', '\x0a', '\x0b', '\x0c', '\x0d', ' ', '\u0085', '\u00a0', '\u1680',
   '\u2000', '\u2001', '\u2002', '\u2003', '\u2004', '\u2005', '\u2006', '\u2007', '\u2008',
   '\u2009', '\u200a', '\u2028', '\u2029', '\u202f', '\u205f', '\u3000']

def isBlank (c : Char) : Bool := blanks.contains c

/-- `cs` without the leading and trailing characters of class `p`. -/
def dropAround (p : Char → Bool) (cs : List Char) : List Char :=
  ((cs.dropWhile p).reverse.dropWhile p).reverse

/-- `cs` without its trailing characters of class `p`. -/
def dropRight (p : Char → Bool) (cs : List Char) : List Char :=
  (cs.reverse.dropWhile p).reverse

/-- The text without the white space around it. -/
def trim (s : String) : String := String.ofList (dropAround isBlank s.toList)

end ChatApi.Text
