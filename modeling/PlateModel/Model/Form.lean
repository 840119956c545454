import PlateModel.Diagnostic.Fault
import PlateModel.Sexpr.Reader

/-!
# Written model trees

Model trees as S-expressions, in both directions.

```text
(model
  (for i 1 N
    (~ (ref y i) (dnorm (ref mu i) tau))
    (= (ref mu i) (+ a (* b i)))))
```

The forms are `(model stmt...)`, `(= lhs rhs)`, `(~ lhs rhs)`, `(for var lower upper stmt...)`, `(if
cond stmt...)`, `(ref name idx...)`, `(range lower upper [step])`, `(colon)`, `(array-literal
(dims...) elem...)`, and `(f args...)` for calls. Booleans are `true` and `false`; a name that is
not a plain symbol is a string. Any form may end with `:line N :column N`.

* `Program.parse`: the program that a text writes.
* `Program.toSexpr`, `Expr.toSexpr`: the forms of trees.
-/

namespace PlateModel

namespace Form

/-- Heads and constants that cannot be the name of a variable. -/
def reserved : List String :=
  ["model", "=", "~", "for", "if", "ref", "range", "colon", "array-literal", "true", "false"]

def isLetter (c : Char) : Bool := ('A' ≤ c && c ≤ 'Z') || ('a' ≤ c && c ≤ 'z') || c = '_'

def isNameChar (c : Char) : Bool := isLetter c || Text.isDigit c || c = '.'

/-- The further characters of a plain name; one line feed may end it. -/
def isNameTail : List Char → Bool
  | [] => true
  | ['\n'] => true
  | c :: rest => isNameChar c && isNameTail rest

/-- Whether a name is written as a symbol: a letter or an underscore, and then letters, digits,
underscores and points. -/
def isPlainName (s : String) : Bool :=
  match s.toList with
  | [] => false
  | c :: rest => isLetter c && isNameTail rest && !reserved.contains s

/-! ## Writing -/

/-- The place at the end of a form, where places are written. -/
def placeItems (located : Bool) (l : Option Location) : List Sexpr :=
  match located, l with
  | true, some l => [.symbol ":line", .int l.line, .symbol ":column", .int l.column]
  | _, _ => []

/-- A form with its place at the end. -/
def form (located : Bool) (head : String) (l : Option Location) (items : List Sexpr) : Sexpr :=
  .list (.symbol head :: items ++ placeItems located l)

def ofNumber (v : Number) (mark : Nat) : Sexpr :=
  match v with
  | .int i => .int i
  | .real x => .real x mark
  | .truth b => .symbol (if b then "true" else "false")

def ofName (x : String) : Sexpr := if isPlainName x then .symbol x else .string x

end Form

namespace Expr

mutual

/-- The form of an expression. -/
def toSexpr (located : Bool) : Expr → Sexpr
  | literal v mark => Form.ofNumber v mark
  | name x => Form.ofName x
  | index base is l => Form.form located "ref" l (toSexpr located base :: toSexprs located is)
  | call f args l => Form.form located f l (toSexprs located args)
  | range a b l => Form.form located "range" l [toSexpr located a, toSexpr located b]
  | stepped a b s l =>
    Form.form located "range" l [toSexpr located a, toSexpr located b, toSexpr located s]
  | colon l => Form.form located "colon" l []
  | array xs shape l =>
    Form.form located "array-literal" l (.list (shape.map .int) :: toSexprs located xs)

/-- The forms of some expressions. -/
def toSexprs (located : Bool) : List Expr → List Sexpr
  | [] => []
  | x :: xs => toSexpr located x :: toSexprs located xs

end

end Expr

namespace Stmt

mutual

/-- The form of a statement. -/
def toSexpr (located : Bool) : Stmt → Sexpr
  | assign lhs rhs l => Form.form located "=" l [lhs.toSexpr located, rhs.toSexpr located]
  | sample lhs rhs l => Form.form located "~" l [lhs.toSexpr located, rhs.toSexpr located]
  | loop i lower upper body l =>
    Form.form located "for" l
      (.symbol i :: lower.toSexpr located :: upper.toSexpr located :: toSexprs located body)
  | branch condition body l =>
    Form.form located "if" l (condition.toSexpr located :: toSexprs located body)

/-- The forms of some statements. -/
def toSexprs (located : Bool) : List Stmt → List Sexpr
  | [] => []
  | s :: rest => toSexpr located s :: toSexprs located rest

end

end Stmt

/-- The form of a program. -/
def Program.toSexpr (located : Bool) (p : Program) : Sexpr :=
  Form.form located "model" p.location (Stmt.toSexprs located p.statements)

namespace Form

/-! ## Reading -/

/-- The integer that a number or the text of one stands for; a float loses its fraction. -/
def toInteger : Sexpr → Except Failure Int
  | .int i => .ok i
  | .real x _ =>
    if x.isNaN then .error .unsuitableValue
    else
      match Binary64.truncate? x with
      | some i => .ok i
      | none => .error .overflow
  | .symbol s | .string s =>
    match Decimal.integer? s.toList with
    | some i => .ok i
    | none => .error .unsuitableValue
  | .list _ | .square _ | .quoted _ => .error .unsuitableKind

/-- Takes the pairs of `:line` and `:column` off the end of a form, whose items come last one first.
Of several lines the one written first counts, and so for columns. -/
def stripPlace : List Sexpr → Option Int → Option Int →
    Except Failure (List Sexpr × Option Int × Option Int)
  | value :: key :: rest, line, column =>
    if key.symbol? = some ":line" then
      match toInteger value with
      | .error e => .error e
      | .ok i => stripPlace rest (some i) column
    else if key.symbol? = some ":column" then
      match toInteger value with
      | .error e => .error e
      | .ok i => stripPlace rest line (some i)
    else .ok (value :: key :: rest, line, column)
  | items, line, column => .ok (items, line, column)

/-- Taking the place off a form leaves its first items. -/
theorem stripPlace_suffix {items rest : List Sexpr} {l c l' c' : Option Int}
    (h : stripPlace items l c = .ok (rest, l', c')) : ∃ front, items = front ++ rest := by
  fun_induction stripPlace items l c with
  | case1 => simp at h
  | case2 value key tail _ _ _ _ _ ih =>
    obtain ⟨front, hf⟩ := ih h
    exact ⟨value :: key :: front, by simp [hf]⟩
  | case3 => simp at h
  | case4 value key tail _ _ _ _ _ _ ih =>
    obtain ⟨front, hf⟩ := ih h
    exact ⟨value :: key :: front, by simp [hf]⟩
  | case5 => simp at h; exact ⟨[], by simp [h.1]⟩
  | case6 => simp at h; exact ⟨[], by simp [h.1]⟩

/-- A malformed form. -/
def fault (why : FormProblem) (found : Sexpr) (l : Option Location) : Fault :=
  .model (.malformedForm why found) l

/-- Head, items and place of a form. -/
def split (file : String) (x : Sexpr) : Except Fault (String × List Sexpr × Option Location) :=
  match x with
  | .list (.symbol head :: items) =>
    match stripPlace items.reverse none none with
    | .error e => .error (.evaluation e)
    | .ok (rest, line, column) =>
      .ok (head, rest.reverse, line.map fun i => Location.point file i (column.getD 0))
  | x => .error (fault .noForm x none)

theorem sizeOf_left_le (xs ys : List Sexpr) : sizeOf xs ≤ sizeOf (xs ++ ys) := by
  induction xs with
  | nil => cases ys <;> simp <;> omega
  | cons x xs ih => simp; omega

/-- The items of a form are smaller than the form. -/
theorem sizeOf_of_split {file head : String} {x : Sexpr} {items : List Sexpr} {l : Option Location}
    (h : split file x = .ok (head, items, l)) : sizeOf items < sizeOf x := by
  unfold split at h
  split at h
  · rename_i head' all
    split at h
    · simp at h
    · rename_i rest line column hs
      obtain ⟨front, hf⟩ := stripPlace_suffix hs
      have hall : all = rest.reverse ++ front.reverse := by
        have := congrArg List.reverse hf
        simpa using this
      simp at h
      have := sizeOf_left_le rest.reverse front.reverse
      rw [← hall, h.2.1] at this
      simp; omega
  · simp at h

/-- The numbers at the head of an array. -/
def dimensions : List Sexpr → Except Fault (List Int)
  | [] => .ok []
  | x :: xs =>
    match toInteger x with
    | .error e => .error (.evaluation e)
    | .ok i => (dimensions xs).map (i :: ·)

mutual

/-- The expression that a form stands for. -/
def expression (file : String) (x : Sexpr) : Except Fault Expr :=
  match x with
  | .int i => .ok (.literal (.int i) 0)
  | .real v mark => .ok (.literal (.real v) mark)
  | .symbol s =>
    .ok (if s = "true" then .literal (.truth true) 0
      else if s = "false" then .literal (.truth false) 0 else .name s)
  | .string s => .ok (.name s)
  | x =>
    match h : split file x with
    | .error e => .error e
    | .ok (head, items, l) =>
      have := sizeOf_of_split h
      if head = "ref" then
        if items.isEmpty then .error (fault .noArrayName x l)
        else
          match expressions file items with
          | .error e => .error e
          | .ok (base :: is) => .ok (.index base is l)
          | .ok [] => .error (fault .noArrayName x l)
      else if head = "range" then
        if items.length = 2 ∨ items.length = 3 then
          match expressions file items with
          | .error e => .error e
          | .ok [a, b] => .ok (.range a b l)
          | .ok [a, b, s] => .ok (.stepped a b s l)
          | .ok _ => .error (fault .rangeBounds x l)
        else .error (fault .rangeBounds x l)
      else if head = "colon" then .ok (.colon l)
      else if head = "array-literal" then
        match _ : items with
        | .list dims :: elements =>
          match dimensions dims with
          | .error e => .error e
          | .ok shape => (expressions file elements).map fun xs => .array xs shape l
        | _ => .error (fault .noDimensions x l)
      else if reserved.contains head then .error (fault (.notExpression head) x l)
      else (expressions file items).map fun args => .call head args l
termination_by sizeOf x
decreasing_by all_goals simp_all <;> omega

/-- The expressions that some forms stand for. -/
def expressions (file : String) (xs : List Sexpr) : Except Fault (List Expr) :=
  match xs with
  | [] => .ok []
  | x :: rest =>
    match expression file x with
    | .error e => .error e
    | .ok e => (expressions file rest).map (e :: ·)
termination_by sizeOf xs

end

/-- The two sides of a definition. -/
def sides (file : String) (make : Expr → Expr → Option Location → Stmt) (x : Sexpr) (head : String)
    (items : List Sexpr) (l : Option Location) : Except Fault Stmt :=
  match items with
  | [a, b] =>
    match expression file a with
    | .error e => .error e
    | .ok lhs => (expression file b).map fun rhs => make lhs rhs l
  | _ => .error (fault (.needsTwoSides head) x l)

mutual

/-- The statement that a form stands for. -/
def statement (file : String) (x : Sexpr) : Except Fault Stmt :=
  match h : split file x with
  | .error e => .error e
  | .ok (head, items, l) =>
    have := sizeOf_of_split h
    if head = "=" then sides file .assign x head items l
    else if head = "~" then sides file .sample x head items l
    else if head = "for" then
      match _ : items with
      | .symbol i :: lower :: upper :: body =>
        match statements file body with
        | .error e => .error e
        | .ok body =>
          match expression file lower with
          | .error e => .error e
          | .ok lower => (expression file upper).map fun upper => .loop i lower upper body l
      | _ => .error (fault .loopHeader x l)
    else if head = "if" then
      match _ : items with
      | condition :: body =>
        match statements file body with
        | .error e => .error e
        | .ok body => (expression file condition).map fun c => .branch c body l
      | [] => .error (fault .noCondition x l)
    else .error (fault (.notStatement head) x l)
termination_by sizeOf x
decreasing_by all_goals simp_all <;> omega

/-- The statements that some forms stand for. -/
def statements (file : String) (xs : List Sexpr) : Except Fault (List Stmt) :=
  match xs with
  | [] => .ok []
  | x :: rest =>
    match statement file x with
    | .error e => .error e
    | .ok s => (statements file rest).map (s :: ·)
termination_by sizeOf xs

end

/-- The program that a form stands for. -/
def program (file : String) (x : Sexpr) : Except Fault Program :=
  match split file x with
  | .error e => .error e
  | .ok (head, items, l) =>
    if head = "model" then (statements file items).map fun ss => ⟨ss, l⟩
    else .error (fault .notModel x none)

end Form

/-- The program that a text writes. `base` is added to the marks of its constants. -/
def Program.parse (file : String) (base : Nat) (text : String) : Except Fault Program :=
  match Sexpr.parse base text with
  | .error e => .error (.model (.unreadable e) none)
  | .ok x => Form.program file x

end PlateModel
