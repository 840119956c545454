import PlateModel.Value.Plain

/-!
# Operators on arrays, cell by cell

A binary operation converts both operands to a common kind and spreads both to a common shape. Plain
numbers other than truth values yield to arrays: beside words an integer is a word of their kind and
must be one, beside floats it is a float, and a float makes words floats. Cells of any kind at all
are combined as plain values are.

* `Tensor.arith`, `Tensor.comparison`, `Tensor.logical`: the operators on two arrays.
* `Operand`: an array, or a plain number that yields.
-/

namespace PlateModel

/-- A power of words: `i ^ n` for a natural `n`, wrapped. -/
def CellKind.wordPow (k : CellKind) (i : Int) (n : Nat) : Int :=
  let rec go (base acc : Nat) (n : Nat) : Nat :=
    if n = 0 then acc
    else
      go (base * base % twoPow 64) (if n % 2 = 1 then acc * base % twoPow 64 else acc) (n / 2)
  termination_by n
  k.wrap (go (i % twoPow 64).toNat 1 n)

/-- A float as one of a kind. -/
def CellKind.roundFloat (k : CellKind) (x : Float) : Float :=
  if k = .half then Binary64.toHalf x else x

namespace BinaryOp

open Value

/-- An arithmetic operator on floats. -/
def onFloats : BinaryOp → Float → Float → Float
  | add, x, y => x + y
  | sub, x, y => x - y
  | mul, x, y => x * y
  | div, x, y => x / y
  | pow, x, y => Float.pow x y
  | _, x, _ => x

/-- An arithmetic operator on words of one kind. -/
def onWords (op : BinaryOp) (k : CellKind) (i j : Int) : Except Failure Int :=
  match op with
  | add => .ok (k.wrap (i + j))
  | sub => .ok (k.wrap (i - j))
  | mul => .ok (k.wrap (i * j))
  | pow => if j < 0 then .error .unsuitableValue else .ok (k.wordPow i j.toNat)
  | _ => .error .unsuitableKind

/-- An arithmetic operator on complex cells; a quotient by zero is no failure. -/
def onComplexCells : BinaryOp → Complex → Complex → Complex
  | add, y, z => y.add z
  | sub, y, z => y.sub z
  | mul, y, z => y.mul z
  | div, y, z => y.quotient z
  | pow, y, z => y.approximatePower z
  | _, y, _ => y

/-- The kind in which an operator computes on operands of a kind. Truth values are added and
multiplied, but not subtracted; texts are only added. -/
def computingKind (op : BinaryOp) (k : CellKind) : Except Failure CellKind :=
  match k with
  | .truth =>
    match op with
    | add | mul => .ok .truth
    | div => .ok .real
    | pow => .ok .byte
    | _ => .error .unsuitableKind
  | .text => if op = add then .ok .text else .error .unsuitableKind
  | k => .ok (if op = div && k.isWords then .real else k)

/-- An arithmetic operator on two cells of one kind. -/
def onCells (op : BinaryOp) (k : CellKind) (a b : Value) : Except Failure Value :=
  match k with
  | .truth => .ok (truth (if op = mul then a.cellTruth && b.cellTruth
      else a.cellTruth || b.cellTruth))
  | .byte | .word | .unsigned => (op.onWords k (a.toWord k) (b.toWord k)).map int
  | .half | .real => .ok (float (k.roundFloat (op.onFloats a.toFloat b.toFloat)))
  | .complex => .ok (complex (op.onComplexCells a.toComplex b.toComplex))
  | .text => .ok (text (a.cellText ++ b.cellText))
  | .mixed => op.onPlain a b

/-- A comparison of two cells of one kind. Words of all kinds are compared exactly. -/
def compareCells (op : BinaryOp) (k : CellKind) (a b : Value) : Except Failure Bool :=
  match k with
  | .complex => .ok (op.holds (a.toComplex.order b.toComplex))
  | .half | .real => .ok (op.holds (Binary64.compareFloat a.toFloat b.toFloat))
  | _ => op.comparePlain a b

end BinaryOp

namespace Tensor

open Value

/-- Combines two arrays cell by cell. -/
def zipWith (k : CellKind) (f : Value → Value → Except Failure Value) (a b : Tensor Value) :
    Except Failure (Tensor Value) :=
  match Shape.broadcast? a.shape b.shape with
  | none => .error .unsuitableValue
  | some shape =>
    (((a.spread shape).zip (b.spread shape)).mapM fun (x, y) => f x y).map fun cells =>
      ⟨k, shape, cells⟩

/-- Whether just one of two arrays has texts and none has cells of any kind. -/
def isTextBesideOther (a b : Tensor Value) : Bool :=
  a.kind.join b.kind = .text && a.kind ≠ b.kind

/-- An arithmetic operator on two arrays. -/
def arith (op : BinaryOp) (a b : Tensor Value) : Except Failure (Tensor Value) :=
  if isTextBesideOther a b then .error .unsuitableKind
  else
    match op.computingKind (a.kind.join b.kind) with
    | .error e => .error e
    | .ok k => zipWith k (op.onCells k) (a.toKind k) (b.toKind k)

/-- The kind in which two kinds are compared. -/
def comparingKind (j k : CellKind) : CellKind :=
  if j.isWords || j = .truth then
    if k.isWords || k = .truth then .mixed else j.join k
  else j.join k

/-- A comparison of two arrays. Texts differ from everything else. -/
def comparison (op : BinaryOp) (a b : Tensor Value) : Except Failure (Tensor Value) :=
  let k := comparingKind a.kind b.kind
  if isTextBesideOther a b then
    match op.equality false with
    | .error e => .error e
    | .ok differs => zipWith .truth (fun _ _ => .ok (truth differs)) a b
  else
    zipWith .truth (fun x y => (op.compareCells k x y).map truth) (a.toKind k) (b.toKind k)

/-- A logical operator on the truth of the cells of two arrays. Beside cells of any kind the cell
that decides stays as it is. -/
def logical (op : BinaryOp) (a b : Tensor Value) : Except Failure (Tensor Value) :=
  if a.kind.join b.kind = .mixed then zipWith .mixed (fun x y => .ok (op.deciding x y)) a b
  else zipWith .truth (fun x y => .ok (truth (op.deciding x y).cellTruth)) a b

/-- The unary minus; truth values and texts have none. -/
def neg (t : Tensor Value) : Except Failure (Tensor Value) :=
  match t.kind with
  | .truth | .text => .error .unsuitableKind
  | .mixed => t.mapM .mixed UnaryOp.neg.onPlain
  | .complex => .ok (t.map .complex fun c => complex c.toComplex.neg)
  | .half | .real => .ok (t.map t.kind fun c => Value.float (-c.toFloat))
  | k => .ok (t.map k fun c => int (k.wrap (-c.toWord k)))

/-- The unary plus; truth values and texts have none. -/
def pos (t : Tensor Value) : Except Failure (Tensor Value) :=
  match t.kind with
  | .truth | .text => .error .unsuitableKind
  | .mixed => t.mapM .mixed UnaryOp.pos.onPlain
  | _ => .ok t

/-- The negated truth of every cell. -/
def not (t : Tensor Value) : Except Failure (Tensor Value) :=
  match t.kind with
  | .text => .error .unsuitableKind
  | .mixed => .ok (t.map .mixed fun c => truth !c.cellTruth)
  | _ => .ok (t.map .truth fun c => truth !c.cellTruth)

end Tensor

/-- An operand of an operation on arrays: an array, or a plain number that yields to arrays. -/
inductive Operand
  | constant (v : Value)
  | array (t : Tensor Value)

namespace Operand

open Value

/-- A value as an operand. -/
def ofValue (v : Value) : Except Failure Operand :=
  match v with
  | number (.int _) | number (.real _) | complex _ => .ok (constant v)
  | v => v.tensor?.map array

/-- The kind of a plain number where no array decides it. -/
def ownKind : Value → CellKind
  | complex _ => .complex
  | number (.real _) => .real
  | _ => .word

/-- The kind of a plain number beside an array of a kind. -/
def kindBeside (v : Value) (k : CellKind) : CellKind :=
  match v, k with
  | _, .mixed => .mixed
  | v, .text => v.kind
  | complex _, _ => .complex
  | number (.real _), k => if k.isWords || k = .truth then .real else k
  | _, k => if k = .truth then .word else k

/-- A plain number as an array of a kind without axes. -/
def convert (k : CellKind) (v : Value) : Except Failure (Tensor Value) :=
  match v with
  | number (.int i) =>
    if k = .mixed || k.fits i then .ok (.single k v)
    else if k.isWords || (Binary64.ofInt i).isInf then .error .overflow
    else .ok (.single k (v.toKind k))
  | v => .ok (.single k (v.toKind k))

/-- A plain number beside an array of a kind. -/
def beside (k : CellKind) (v : Value) : Except Failure (Tensor Value) :=
  convert (kindBeside v k) v

/-- A plain number to be compared with an array of a kind. With words an integer of any size can be
compared. -/
def comparable (k : CellKind) (v : Value) : Except Failure (Tensor Value) :=
  if k.isWords && ownKind v = .word then .ok (.single .mixed v) else beside k v

/-- A plain number whose truth matters beside an array of a kind. An integer must be a word unless
the cells of the array are of any kind. -/
def condition (k : CellKind) (v : Value) : Except Failure (Tensor Value) :=
  convert (if k = .mixed then .mixed else ownKind v) v

/-- Two operands as two arrays, a plain number beside an array being converted as given. -/
def pair (lift : CellKind → Value → Except Failure (Tensor Value)) (a b : Operand) :
    Except Failure (Tensor Value × Tensor Value) :=
  match a, b with
  | array s, array t => .ok (s, t)
  | array s, constant v => (lift s.kind v).map fun t => (s, t)
  | constant v, array t => (lift t.kind v).map fun s => (s, t)
  | constant u, constant v => do
    let k := (ownKind u).join (ownKind v)
    return (← convert k u, ← convert k v)

/-- A plain number by which an array of a kind is divided, or the other way round. Words are divided
as floats, so that an integer beside them need not be a word. -/
def quotientTerm (k : CellKind) (v : Value) : Except Failure (Tensor Value) :=
  if k.isWords || k = .truth then beside .real v else beside k v

/-- An arithmetic operator on two operands. -/
def arith (op : BinaryOp) (a b : Operand) : Except Failure (Tensor Value) := do
  let (s, t) ← pair (if op = .div then quotientTerm else beside) a b
  s.arith op t

/-- A comparison of two operands. -/
def comparison (op : BinaryOp) (a b : Operand) : Except Failure (Tensor Value) := do
  let (s, t) ← pair comparable a b
  s.comparison op t

/-- A logical operator on two operands. -/
def logical (op : BinaryOp) (a b : Operand) : Except Failure (Tensor Value) := do
  let (s, t) ← pair condition a b
  s.logical op t

end Operand

end PlateModel
