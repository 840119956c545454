import PlateModel.Binary64
import PlateModel.Text.Classes

/-!
# Reading numbers

The two grammars of written numbers. Both allow blanks around the number, digits of any script, a
sign, and single underscores between digits.

* `integer? cs`: an integer, of at most `maxDigits` digits.
* `float? cs`: digits with an optional point and exponent, or `nan`, `inf`, `infinity` in any case;
  the value is the float nearest to the exact decimal.
-/

namespace PlateModel.Decimal

open Text

/-- Integers with more digits are neither read nor written. -/
def maxDigits : Nat := 4300

/-- The text of an integer, unless it has too many digits to be written. -/
def boundedInt? (i : Int) : Option String :=
  if i.natAbs < tenPow maxDigits then
    let text := Nat.repr i.natAbs
    some (if i < 0 then "-" ++ text else text)
  else none

/-- Digits with single underscores between them; gives the digits alone. -/
def separatedDigits? : List Char → Option (List Char)
  | [] => none
  | [c] => if isDigit c then some [c] else none
  | c :: '_' :: rest => if isDigit c then (separatedDigits? rest).map (c :: ·) else none
  | c :: rest => if isDigit c then (separatedDigits? rest).map (c :: ·) else none

/-- The value of a list of digits. -/
def natOfDigits (cs : List Char) : Nat := cs.foldl (fun n c => n * 10 + (c.toNat - 48)) 0

/-- The sign of a number and what follows it. -/
def splitSign : List Char → Bool × List Char
  | '-' :: rest => (true, rest)
  | '+' :: rest => (false, rest)
  | cs => (false, cs)

/-- The integer that a text writes. -/
def integer? (cs : List Char) : Option Int :=
  let (negative, body) := splitSign (trimBlanks (normalizeDigits cs))
  match separatedDigits? body with
  | none => none
  | some ds =>
    if maxDigits < ds.length then none
    else some (if negative then -(natOfDigits ds : Int) else natOfDigits ds)

/-- A text without its underscores, if each stands between two digits. -/
def dropUnderscores? : List Char → Option (List Char)
  | [] => some []
  | '_' :: _ => none
  | c :: '_' :: d :: rest =>
    if isDigit c && isDigit d then (dropUnderscores? (d :: rest)).map (c :: ·) else none
  | c :: rest => (dropUnderscores? rest).map (c :: ·)

/-- The float nearest to `± digits · 10 ^ exponent`. Beyond the range of floats the answer does not
depend on the digits, and no power of ten is computed. -/
def scale (negative : Bool) (digits : Nat) (exponent : Int) : Float :=
  let top : Int := (Nat.repr digits).length + exponent
  if digits = 0 then Binary64.ofSignBits negative 0
  else if 400 < top then (if negative then Binary64.negInfinity else Binary64.infinity)
  else if top < -400 then Binary64.ofSignBits negative 0
  else Binary64.ofRatio negative (digits * tenPow exponent.toNat) (tenPow (-exponent).toNat)

/-- The exponent at the end of a float, or nothing at all. -/
def exponent? : List Char → Option Int
  | [] => some 0
  | e :: rest =>
    if e = 'e' || e = 'E' then
      let (negative, ds) := splitSign rest
      if ds.isEmpty || !ds.all isDigit then none
      else
        -- an exponent this long is out of range whatever the digits before it are
        let n : Nat := natOfDigits (ds.dropWhile (· = '0') |>.take 12)
        some (if negative then -(n : Int) else n)
    else none

def lower (cs : List Char) : List Char := cs.map Char.toLower

/-- The float that a text writes. -/
def float? (cs : List Char) : Option Float :=
  match dropUnderscores? (trimBlanks (normalizeDigits cs)) with
  | none => none
  | some body =>
    let (negative, rest) := splitSign body
    let word := lower rest
    if word = "nan".toList then some Binary64.nan
    else if word = "inf".toList ∨ word = "infinity".toList then
      some (if negative then Binary64.negInfinity else Binary64.infinity)
    else
      let whole := rest.takeWhile isDigit
      let afterWhole := rest.dropWhile isDigit
      let (fraction, tail) :=
        match afterWhole with
        | '.' :: more => (more.takeWhile isDigit, more.dropWhile isDigit)
        | _ => ([], afterWhole)
      if whole.isEmpty && fraction.isEmpty then none
      else
        (exponent? tail).map fun e =>
          scale negative (natOfDigits (whole ++ fraction)) (e - fraction.length)

end PlateModel.Decimal
