import PlateModel.Text.Printable

/-!
# Quoted texts in messages

A text inside a message stands between single quotes, or between double quotes if it holds a single
quote and no double one. The quote in use and the backslash are escaped, tab, line feed and carriage
return have letters, and any other unprintable character is written by its code.

A text that is read from escapes may hold code points that are no characters: halves of pairs. It is
a list of code points, and in quotes the halves are written by their codes.

* `quotedPoints`, `quoted`: a text between quotes.
* `ofCodePoints`: the characters of a list of code points.
-/

namespace PlateModel.Text

private def hex (width n : Nat) : List Char :=
  let ds := Nat.toDigits 16 n
  List.replicate (width - ds.length) '0' ++ ds

/-- The code points of a text. -/
def codePoints (s : String) : List Nat := s.toList.map Char.toNat

/-- The character of a code point; one that is no character is replaced. -/
def ofCodePoint (code : Nat) : Char := if code.isValidChar then Char.ofNat code else '\ufffd'

/-- The text of a list of code points. -/
def ofCodePoints (codes : List Nat) : String := String.ofList (codes.map ofCodePoint)

/-- One code point between the given quotes. -/
def escapeIn (quote : Char) (code : Nat) : List Char :=
  let c := ofCodePoint code
  if c = quote ∨ c = '\\' then ['\\', c]
  else if c = '\t' then ['\\', 't']
  else if c = '\n' then ['\\', 'n']
  else if c = '\r' then ['\\', 'r']
  else if isPrintable code then [c]
  else if code < 0x100 then '\\' :: 'x' :: hex 2 code
  else if code < 0x10000 then '\\' :: 'u' :: hex 4 code
  else '\\' :: 'U' :: hex 8 code

/-- The quote that a text is put between. -/
def quoteFor (codes : List Nat) : Char :=
  if codes.contains '\''.toNat && !codes.contains '"'.toNat then '"' else '\''

/-- Code points between quotes. -/
def quotedPoints (codes : List Nat) : String :=
  let q := quoteFor codes
  String.ofList (q :: codes.flatMap (escapeIn q) ++ [q])

/-- A text between quotes. -/
def quoted (s : String) : String := quotedPoints (codePoints s)

/-- Some texts as a tuple; a single one is followed by a comma. -/
def tuple : List String → String
  | [x] => "(" ++ x ++ ",)"
  | xs => "(" ++ ", ".intercalate xs ++ ")"

end PlateModel.Text
