/-!
# Classes of characters

Texts of numbers may be surrounded by blanks and may use the decimal digits of any script.

* `isBlank`: the blanks that may surround a number.
* `digitValue?`: the value of a decimal digit of any script.
* `normalizeDigits`: the same text with blanks as spaces and digits as `0` to `9`.
* `Boundaries`: sets of code points given by their boundaries.
-/

namespace PlateModel.Text

/-- The six blank characters of ASCII. -/
def isAsciiBlank (c : Char) : Bool :=
  c = ' ' || (9 ≤ c.toNat && c.toNat ≤ 13)

/-- The blank characters outside ASCII. -/
def isWideBlank (c : Char) : Bool :=
  [0x85, 0xa0, 0x1680, 0x2000, 0x2001, 0x2002, 0x2003, 0x2004, 0x2005, 0x2006, 0x2007, 0x2008,
    0x2009, 0x200a, 0x2028, 0x2029, 0x202f, 0x205f, 0x3000].contains c.toNat

/-- The blanks that may surround the text of a number. -/
def isBlank (c : Char) : Bool := isAsciiBlank c || isWideBlank c

/-- The zeros of all scripts; the other nine digits of a script follow its zero. -/
def zeros : List Nat := [
  0x30, 0x660, 0x6f0, 0x7c0, 0x966, 0x9e6, 0xa66, 0xae6, 0xb66, 0xbe6, 0xc66, 0xce6, 0xd66,
    0xde6, 0xe50, 0xed0, 0xf20, 0x1040, 0x1090, 0x17e0, 0x1810, 0x1946, 0x19d0, 0x1a80,
    0x1a90, 0x1b50, 0x1bb0, 0x1c40, 0x1c50, 0xa620, 0xa8d0, 0xa900, 0xa9d0, 0xa9f0, 0xaa50,
    0xabf0, 0xff10, 0x104a0, 0x10d30, 0x11066, 0x110f0, 0x11136, 0x111d0, 0x112f0, 0x11450,
    0x114d0, 0x11650, 0x116c0, 0x11730, 0x118e0, 0x11950, 0x11c50, 0x11d50, 0x11da0, 0x16a60,
    0x16ac0, 0x16b50, 0x1d7ce, 0x1d7d8, 0x1d7e2, 0x1d7ec, 0x1d7f6, 0x1e140, 0x1e2f0, 0x1e950,
    0x1fbf0]

/-- The value of a decimal digit. -/
def digitValue? (c : Char) : Option Nat :=
  (zeros.find? fun z => z ≤ c.toNat && c.toNat < z + 10).map (c.toNat - ·)

/-- The character of ASCII that a blank or a digit of any script stands for in a number. -/
def normalizeDigit (c : Char) : Char :=
  if isWideBlank c then ' '
  else
    match digitValue? c with
    | some d => Char.ofNat (48 + d)
    | none => c

/-- A text with every blank and every digit replaced by the one of ASCII it stands for. -/
def normalizeDigits (cs : List Char) : List Char := cs.map normalizeDigit

/-- The characters that are cut off at the ends of a line. -/
def isSpace (c : Char) : Bool := isBlank c || (0x1c ≤ c.toNat && c.toNat ≤ 0x1f)

/-- A text without the blanks at its two ends. -/
def trimBlanks (cs : List Char) : List Char :=
  ((cs.dropWhile isAsciiBlank).reverse.dropWhile isAsciiBlank).reverse

/-- Whether a character is one of `0` to `9`. -/
def isDigit (c : Char) : Bool := '0' ≤ c && c ≤ '9'

/-! ## Sets of code points

A set of code points is written as the ascending list of the code points at which membership
changes: the first is the first member, the second the first non-member after it, and so on.
-/

/-- Code points at which membership of a set changes, ascending, the first one a member. -/
abbrev Boundaries := Array Nat

/-- A code point is a member if an odd number of boundaries is at or below it. -/
def Boundaries.contains (bs : Boundaries) (code : Nat) : Bool :=
  bs.foldl (fun inside b => if b ≤ code then !inside else inside) false

end PlateModel.Text
