import PlateModel.Data.Datum
import PlateModel.Decimal.Reading

/-!
# Tokens of JSON

A text is cut into marks, strings and plain values; blanks separate them. A string or a number that
cannot be read, and a character that begins nothing, end the tokens: each is met when the reader
gets to it, so that the first failure of the text is the one reported.

* `scanString`: the code points of a string, and what follows.
* `scanPlain?`: a word or a number, and how long it is.
* `tokens`: all tokens of a text.
-/

namespace PlateModel.Json

/-- What is wrong at a place of a text. -/
inductive Flaw
  | noValue
  | noKey
  | noColon
  | noComma
  | furtherText
  | unclosedString
  | controlCharacter
  | unknownEscape
  | badCode
  | byteOrderMark
  deriving Repr, DecidableEq

def Flaw.message : Flaw → String
  | noValue => "Expecting value"
  | noKey => "Expecting property name enclosed in double quotes"
  | noColon => "Expecting ':' delimiter"
  | noComma => "Expecting ',' delimiter"
  | furtherText => "Extra data"
  | unclosedString => "Unterminated string starting at"
  | controlCharacter => "Invalid control character at"
  | unknownEscape => "Invalid \\escape"
  | badCode => "Invalid \\uXXXX escape"
  | byteOrderMark => "Unexpected UTF-8 BOM (decode using utf-8-sig)"

/-- Why a text is not a JSON document. Positions count from the beginning of the text. -/
inductive Refusal
  | malformed (flaw : Flaw) (position : Nat)
  | tooManyDigits (count : Nat)
  deriving Repr, DecidableEq

/-! ## Strings -/

/-- The value of a hexadecimal digit. -/
def hexDigit? (c : Char) : Option Nat :=
  if '0' ≤ c ∧ c ≤ '9' then some (c.toNat - 48)
  else if 'a' ≤ c ∧ c ≤ 'f' then some (c.toNat - 87)
  else if 'A' ≤ c ∧ c ≤ 'F' then some (c.toNat - 55)
  else none

/-- The number that four hexadecimal digits write, and what follows them. -/
def codeUnit? : List Char → Option (Nat × List Char)
  | a :: b :: c :: d :: rest =>
    match hexDigit? a, hexDigit? b, hexDigit? c, hexDigit? d with
    | some a, some b, some c, some d => some (((a * 16 + b) * 16 + c) * 16 + d, rest)
    | _, _, _, _ => none
  | _ => none

theorem length_of_codeUnit {cs rest : List Char} {n : Nat} (h : codeUnit? cs = some (n, rest)) :
    rest.length < cs.length := by
  unfold codeUnit? at h
  split at h
  · split at h
    · simp only [Option.some.injEq, Prod.mk.injEq] at h
      simp only [← h.2, List.length_cons]; omega
    · simp at h
  · simp at h

/-- Whether a code unit begins a pair. -/
def isHigh (unit : Nat) : Bool := 0xd800 ≤ unit && unit ≤ 0xdbff

/-- Whether a code unit ends a pair. -/
def isLow (unit : Nat) : Bool := 0xdc00 ≤ unit && unit ≤ 0xdfff

/-- The code point of a pair of code units. -/
def ofPair (high low : Nat) : Nat := 0x10000 + (high - 0xd800) * 1024 + (low - 0xdc00)

/-- The code point that the code behind `\u` writes, and the text behind it. `position` is that of
the `u`. A code of half a pair is joined with the code of the other half, if that follows. The text
must not end behind a code. -/
def scanCode (position : Nat) (cs : List Char) : Except Refusal (Nat × List Char) :=
  match codeUnit? cs with
  | none | some (_, []) => .error (.malformed .badCode position)
  | some (unit, '\\' :: 'u' :: more) =>
    if isHigh unit && 5 ≤ more.length then
      match codeUnit? more with
      | none => .error (.malformed .badCode (position + 6))
      | some (low, rest) =>
        if isLow low then .ok (ofPair unit low, rest)
        else .ok (unit, '\\' :: 'u' :: more)
    else .ok (unit, '\\' :: 'u' :: more)
  | some (unit, rest) => .ok (unit, rest)

/-- The character that a single character behind a backslash stands for. -/
def unescape? : Char → Option Char
  | '"' => some '"'
  | '\\' => some '\\'
  | '/' => some '/'
  | 'b' => some '\x08'
  | 'f' => some '\x0c'
  | 'n' => some '\n'
  | 'r' => some '\r'
  | 't' => some '\t'
  | _ => none

/-- The code point that the text behind a backslash writes, and what follows it. `start` is the
position of the string and `position` that of the backslash. -/
def scanEscape (start position : Nat) : List Char → Except Refusal (Nat × List Char)
  | [] => .error (.malformed .unclosedString start)
  | 'u' :: rest => scanCode (position + 1) rest
  | c :: rest =>
    match unescape? c with
    | some d => .ok (d.toNat, rest)
    | none => .error (.malformed .unknownEscape position)

theorem length_of_scanCode {position : Nat} {cs rest : List Char} {c : Nat}
    (h : scanCode position cs = .ok (c, rest)) : rest.length < cs.length := by
  unfold scanCode at h
  split at h
  · simp at h
  · simp at h
  · rename_i hu
    have := length_of_codeUnit hu
    split at h
    · split at h
      · simp at h
      · rename_i hl
        have := length_of_codeUnit hl
        simp only [List.length_cons] at *
        split at h <;> simp at h <;> simp [← h.2] <;> omega
    · simp at h; simpa [← h.2] using this
  · rename_i hu
    have := length_of_codeUnit hu
    simp at h; simpa [← h.2] using this

theorem length_of_scanEscape {start position : Nat} {cs rest : List Char} {c : Nat}
    (h : scanEscape start position cs = .ok (c, rest)) : rest.length < cs.length := by
  unfold scanEscape at h
  split at h
  · simp at h
  · have := length_of_scanCode h
    simp only [List.length_cons]; omega
  · split at h <;> simp at h
    simp [← h.2]

/-- The code points of a string up to its closing quote, and the text behind it. `start` is the
position of the string and `size` the length of the whole text. -/
def scanString (start size : Nat) : List Char → Except Refusal (List Nat × List Char)
  | [] => .error (.malformed .unclosedString start)
  | '"' :: rest => .ok ([], rest)
  | '\\' :: rest =>
    match h : scanEscape start (size - rest.length - 1) rest with
    | .error e => .error e
    | .ok (c, more) =>
      have := length_of_scanEscape h
      (scanString start size more).map fun (s, r) => (c :: s, r)
  | c :: rest =>
    if c.toNat ≤ 0x1f then .error (.malformed .controlCharacter (size - rest.length - 1))
    else (scanString start size rest).map fun (s, r) => (c.toNat :: s, r)
termination_by cs => cs.length
decreasing_by all_goals simp only [List.length_cons] at *; omega

theorem length_of_scanString {start size : Nat} {cs r : List Char} {s : List Nat}
    (h : scanString start size cs = .ok (s, r)) : r.length ≤ cs.length := by
  fun_induction scanString start size cs generalizing s r with
  | case1 => simp at h
  | case2 rest => simp at h; simp [h.2]
  | case3 => simp at h
  | case4 rest c more he hlt ih =>
    cases hs : scanString start size more with
    | error e => simp [hs, Except.map] at h
    | ok p =>
      simp [hs, Except.map] at h
      have := ih (s := p.1) (r := p.2) hs
      simp [← h.2]; omega
  | case5 => simp at h
  | case6 c rest _ _ hc ih =>
    cases hs : scanString start size rest with
    | error e => simp [hs, Except.map] at h
    | ok p =>
      simp [hs, Except.map] at h
      have := ih (s := p.1) (r := p.2) hs
      simp [← h.2]; omega

/-! ## Plain values -/

/-- The digits of a whole number: a zero, or digits that do not begin with one. -/
def wholeDigits : List Char → List Char
  | '0' :: _ => ['0']
  | cs => cs.takeWhile Text.isDigit

/-- The point and the digits of a fraction that a text begins with. -/
def fractionPart : List Char → List Char
  | '.' :: rest =>
    let ds := rest.takeWhile Text.isDigit
    if ds.isEmpty then [] else '.' :: ds
  | _ => []

/-- The exponent that a text begins with: a letter, perhaps a sign, and digits. -/
def exponentPart : List Char → List Char
  | e :: rest =>
    if e = 'e' || e = 'E' then
      let sign := match rest with
        | '-' :: _ => ['-']
        | '+' :: _ => ['+']
        | _ => []
      let ds := (rest.drop sign.length).takeWhile Text.isDigit
      if ds.isEmpty then [] else e :: sign ++ ds
    else []
  | [] => []

/-- The number that a text begins with, or why it is refused, and how many characters write it.
Without fraction and exponent a number is an integer. -/
def scanNumber? (cs : List Char) : Option (Except Refusal Number × Nat) :=
  let sign := if cs.head? = some '-' then ['-'] else []
  let body := cs.drop sign.length
  let whole := wholeDigits body
  let fraction := fractionPart (body.drop whole.length)
  let exponent := exponentPart (body.drop (whole.length + fraction.length))
  let text := sign ++ whole ++ fraction ++ exponent
  if whole.isEmpty then none
  else if fraction.isEmpty && exponent.isEmpty then
    if Decimal.maxDigits < whole.length then
      some (.error (.tooManyDigits whole.length), text.length)
    else
      let n : Int := Decimal.natOfDigits whole
      some (.ok (.int (if sign.isEmpty then n else -n)), text.length)
  else (Decimal.float? text).map fun x => (.ok (.real x), text.length)

/-- The words that are values. -/
def words : List (String × Datum) :=
  [("null", .missing), ("true", .number (.truth true)), ("false", .number (.truth false)),
    ("NaN", .number (.real Binary64.nan)), ("Infinity", .number (.real Binary64.infinity)),
    ("-Infinity", .number (.real Binary64.negInfinity))]

/-- The word or the number that a text begins with, and how many characters write it. -/
def scanPlain? (cs : List Char) : Option (Except Refusal Datum × Nat) :=
  match words.find? fun w => w.1.toList.isPrefixOf cs with
  | some (word, d) => some (.ok d, word.length)
  | none => (scanNumber? cs).map fun (r, width) => (r.map .number, width)

/-! ## Tokens -/

inductive TokenKind
  /-- One of the brackets, the colon or the comma. -/
  | mark (c : Char)
  | string (codes : List Nat)
  | plain (d : Datum)
  /-- A string or a number that cannot be read. -/
  | refused (e : Refusal)
  /-- A character that begins nothing. -/
  | unknown

/-- A token and the position where it begins. -/
structure Token where
  position : Nat
  kind : TokenKind

/-- The blanks between tokens. -/
def isBlank (c : Char) : Bool := c = ' ' || c = '\t' || c = '\n' || c = '\r'

def isMark (c : Char) : Bool := ['\x7b', '\x7d', '[', ']', ':', ','].contains c

/-- The tokens of a text, whose whole length is `size`. -/
def tokensFrom (size : Nat) : List Char → List Token
  | [] => []
  | c :: cs =>
    let position := size - cs.length - 1
    if isBlank c then tokensFrom size cs
    else if isMark c then ⟨position, .mark c⟩ :: tokensFrom size cs
    else if c = '"' then
      match h : scanString position size cs with
      | .error e => [⟨position, .refused e⟩]
      | .ok (s, rest) =>
        have := length_of_scanString h
        ⟨position, .string s⟩ :: tokensFrom size rest
    else
      match scanPlain? (c :: cs) with
      | some (.ok d, width) => ⟨position, .plain d⟩ :: tokensFrom size (cs.drop (width - 1))
      | some (.error e, _) => [⟨position, .refused e⟩]
      | none => [⟨position, .unknown⟩]
termination_by cs => cs.length

/-- All tokens of a text. -/
def tokens (cs : List Char) : List Token := tokensFrom cs.length cs

end PlateModel.Json
