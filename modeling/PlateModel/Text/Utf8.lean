/-!
# Files as text

The characters that UTF-8 encoded bytes stand for, and the normal form of line ends. The first
malformed sequence makes the whole file unreadable; it is described by where it begins, how many
bytes belong to it and what is wrong.

* `decode`: the characters of a list of bytes.
* `normalizeLines`: every line end as a line feed.
-/

namespace PlateModel.Text

/-- What is wrong with a sequence of bytes. -/
inductive Utf8Flaw
  | startByte
  | continuationByte
  | endOfData
  deriving Repr, DecidableEq

/-- A malformed sequence: its first byte, its position, its length and its flaw. -/
structure Utf8Failure where
  byte : Nat
  position : Nat
  length : Nat
  flaw : Utf8Flaw
  deriving Repr, DecidableEq

private def hexByte (b : Nat) : String :=
  let ds := Nat.toDigits 16 b
  String.ofList (List.replicate (2 - ds.length) '0' ++ ds)

/-- The wording of a failure. -/
def Utf8Failure.message (f : Utf8Failure) : String :=
  let reason := match f.flaw with
    | .startByte => "invalid start byte"
    | .continuationByte => "invalid continuation byte"
    | .endOfData => "unexpected end of data"
  if f.length = 1 then
    "'utf-8' codec can't decode byte 0x" ++ hexByte f.byte ++ " in position " ++
      Nat.repr f.position ++ ": " ++ reason
  else
    "'utf-8' codec can't decode bytes in position " ++ Nat.repr f.position ++ "-" ++
      Nat.repr (f.position + f.length - 1) ++ ": " ++ reason

/-- How many bytes follow a start byte, and the least and greatest value of the first of them; none
for a byte that starts no character. -/
def startByte? (b : Nat) : Option (Nat × Nat × Nat) :=
  if b < 0x80 then some (0, 0x80, 0xbf)
  else if b < 0xc2 then none
  else if b < 0xe0 then some (1, 0x80, 0xbf)
  else if b = 0xe0 then some (2, 0xa0, 0xbf)
  else if b = 0xed then some (2, 0x80, 0x9f)
  else if b < 0xf0 then some (2, 0x80, 0xbf)
  else if b = 0xf0 then some (3, 0x90, 0xbf)
  else if b = 0xf4 then some (3, 0x80, 0x8f)
  else if b < 0xf4 then some (3, 0x80, 0xbf)
  else none

/-- How many bytes at the front of `bytes` continue a character that needs `n` more, and whether the
bytes end there. -/
def continuation (low high : Nat) : Nat → List UInt8 → Nat × Bool
  | 0, _ => (0, false)
  | _ + 1, [] => (0, true)
  | n + 1, b :: rest =>
    if low ≤ b.toNat ∧ b.toNat ≤ high then
      let (k, atEnd) := continuation 0x80 0xbf n rest
      (k + 1, atEnd)
    else (0, false)

/-- The code point of a start byte and the bytes that follow it. -/
def codePoint (b : Nat) (rest : List UInt8) : Nat :=
  let lead := match rest.length with
    | 0 => b
    | 1 => b % 32
    | 2 => b % 16
    | _ => b % 8
  rest.foldl (fun n c => n * 64 + c.toNat % 64) lead

/-- The characters that bytes from a position on stand for. -/
def decodeFrom (position : Nat) : List UInt8 → Except Utf8Failure (List Char)
  | [] => .ok []
  | b :: rest =>
    match startByte? b.toNat with
    | none => .error ⟨b.toNat, position, 1, .startByte⟩
    | some (n, low, high) =>
      let (k, atEnd) := continuation low high n rest
      if k < n then
        .error ⟨b.toNat, position, k + 1, if atEnd then .endOfData else .continuationByte⟩
      else
        (decodeFrom (position + n + 1) (rest.drop n)).map
          (Char.ofNat (codePoint b.toNat (rest.take n)) :: ·)
termination_by bytes => bytes.length
decreasing_by simp only [List.length_drop, List.length_cons]; omega

/-- The characters that bytes stand for. -/
def decode (bytes : List UInt8) : Except Utf8Failure (List Char) := decodeFrom 0 bytes

/-- The text with every line end as a line feed. -/
def normalizeLines : List Char → List Char
  | '\r' :: '\n' :: rest => '\n' :: normalizeLines rest
  | '\r' :: rest => '\n' :: normalizeLines rest
  | c :: rest => c :: normalizeLines rest
  | [] => []

/-- The text of a file. -/
def ofFile (bytes : List UInt8) : Except Utf8Failure String :=
  (decode bytes).map fun cs => String.ofList (normalizeLines cs)

end PlateModel.Text
