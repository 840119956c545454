import PlateModel.Json.Token

/-!
# Reading JSON

Tokens are read from left to right; what may come next is a state, and the lists and tables that are
open are on a stack. Of several entries of a table under one key the last one counts, at the place
of the first.

* `readTokens`: the one document that tokens write.
* `Datum.ofJson`: the document of a text.
-/

namespace PlateModel.Json

/-- A list or a table that is open: what it holds so far, the last first; of a table also the key
that the next value belongs to. -/
inductive Frame
  | list (items : List Datum)
  | table (entries : List (List Nat × Datum)) (key : List Nat)

/-- What may come next. -/
inductive Expected
  | value
  /-- The first item of a list, or the end of the list. -/
  | firstItem
  /-- A key of a table with some entries; a table without entries may also end. -/
  | key (entries : List (List Nat × Datum))
  | colon (entries : List (List Nat × Datum)) (key : List Nat)
  /-- What follows a value. -/
  | next (d : Datum)

/-- What is wrong where something else comes than may come. -/
def Expected.flaw : Expected → List Frame → Flaw
  | value, _ | firstItem, _ => .noValue
  | key _, _ => .noKey
  | colon _ _, _ => .noColon
  | next _, [] => .furtherText
  | next _, _ :: _ => .noComma

/-- Entries with a further one, which takes the place of one under the same key. -/
def putEntry (key : List Nat) (d : Datum) : List (List Nat × Datum) → List (List Nat × Datum)
  | [] => [(key, d)]
  | (k, e) :: rest => if k = key then (key, d) :: rest else (k, e) :: putEntry key d rest

/-- A table that ends. -/
def closeTable (entries : List (List Nat × Datum)) : Datum :=
  .table (entries.foldr (fun (k, d) es => putEntry k d es) [])

/-- A mark where it may come. -/
def stepMark? : Char → Expected → List Frame → Option (Expected × List Frame)
  | '[', .value, fs | '[', .firstItem, fs => some (.firstItem, .list [] :: fs)
  | '\x7b', .value, fs | '\x7b', .firstItem, fs => some (.key [], fs)
  | ']', .firstItem, .list _ :: fs => some (.next (.list []), fs)
  | '\x7d', .key [], fs => some (.next (.table []), fs)
  | ':', .colon es k, fs => some (.value, .table es k :: fs)
  | ',', .next d, .list ds :: fs => some (.value, .list (d :: ds) :: fs)
  | ']', .next d, .list ds :: fs => some (.next (.list (d :: ds).reverse), fs)
  | ',', .next d, .table es k :: fs => some (.key ((k, d) :: es), fs)
  | '\x7d', .next d, .table es k :: fs => some (.next (closeTable ((k, d) :: es)), fs)
  | _, _, _ => none

/-- What may come next behind a token. -/
def step (t : Token) (expected : Expected) (fs : List Frame) :
    Except Refusal (Expected × List Frame) :=
  match t.kind, expected with
  | .string s, .value | .string s, .firstItem => .ok (.next (.text s), fs)
  | .string s, .key es => .ok (.colon es s, fs)
  | .plain d, .value | .plain d, .firstItem => .ok (.next d, fs)
  | .refused (.malformed flaw p), .value | .refused (.malformed flaw p), .firstItem
  | .refused (.malformed flaw p), .key _ => .error (.malformed flaw p)
  | .refused e, .value | .refused e, .firstItem => .error e
  | .mark c, e =>
    match stepMark? c e fs with
    | some next => .ok next
    | none => .error (.malformed (e.flaw fs) t.position)
  | _, e => .error (.malformed (e.flaw fs) t.position)

/-- The one document that tokens write; `size` is the length of the text. -/
def readTokens (size : Nat) : List Token → Expected → List Frame → Except Refusal Datum
  | [], .next d, [] => .ok d
  | [], e, fs => .error (.malformed (e.flaw fs) size)
  | t :: rest, e, fs =>
    match step t e fs with
    | .error refusal => .error refusal
    | .ok (e, fs) => readTokens size rest e fs

/-- Line and column of a position, both from one. -/
def place (cs : List Char) (position : Nat) : Nat × Nat :=
  let before := cs.take position
  (before.count '\n' + 1, (before.reverse.takeWhile (· != '\n')).length + 1)

/-- The wording of a refusal of a text. -/
def Refusal.message (text : String) : Refusal → String
  | malformed flaw position =>
    let (line, column) := place text.toList position
    flaw.message ++ ": line " ++ Nat.repr line ++ " column " ++ Nat.repr column ++ " (char " ++
      Nat.repr position ++ ")"
  | tooManyDigits count =>
    "Exceeds the limit (" ++ Nat.repr Decimal.maxDigits ++
      " digits) for integer string conversion: value has " ++ Nat.repr count ++
      " digits; use sys.set_int_max_str_digits() to increase the limit"

end PlateModel.Json

/-- The document of a text. -/
def PlateModel.Datum.ofJson (text : String) : Except PlateModel.Json.Refusal PlateModel.Datum :=
  match text.toList with
  | '\ufeff' :: _ => .error (.malformed .byteOrderMark 0)
  | cs => PlateModel.Json.readTokens cs.length (PlateModel.Json.tokens cs) .value []
