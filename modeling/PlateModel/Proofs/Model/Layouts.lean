import PlateModel.Proofs.Model.Forms
import PlateModel.Proofs.Model.Parts
import PlateModel.Proofs.Sexpr.Reread

/-!
# The layouts of a program mean the same

A program is written on one line or broken into lines. Whether or not the text is read back as the
program, both texts are read alike: as trees that differ in the marks of their constants only, or
with the same fault. For the forms that are read differ in marks only, and reading commutes with
taking the marks off.

* `outcome`: the result of reading without the marks that the reader gives.
* `Form.program_unmarked`: reading commutes with taking the marks off.
* `Program.parse_layouts`: both layouts of a program have the same outcome.
-/

namespace PlateModel

open Sexpr

/-! ## Outcomes -/

/-- A fault without the marks in the form that it shows. -/
def Fault.unmarked : Fault → Fault
  | model (.malformedForm why found) l => model (.malformedForm why found.unmarked) l
  | e => e

/-- The marks of a form are not reported. -/
theorem Fault.diagnostic?_unmarked (e : Fault) : e.unmarked.diagnostic? = e.diagnostic? := by
  cases e with
  | model problem l =>
    cases problem with
    | malformedForm why found =>
      have hmessage : Problem.message (.malformedForm why found.unmarked) =
          Problem.message (.malformedForm why found) := by
        change "malformed model tree: " ++ why.message ++ ", found " ++ found.unmarked.write = _
        rw [write_unmarked]
        rfl
      exact congrArg (fun message => some (Diagnostic.mk message l _ _ _ none)) hmessage
    | _ => rfl
  | _ => rfl

section Outcome

variable {α β : Type} {φ : α → β}

/-- A result without marks, where `φ` takes them off a value. -/
def outcome (φ : α → β) : Except Fault α → Except Fault β
  | .ok a => .ok (φ a)
  | .error e => .error e.unmarked

theorem ite_outcome {c : Prop} [Decidable c] {a b : Except Fault β} {a' b' : Except Fault α}
    (h : a = outcome φ a') (h' : b = outcome φ b') :
    (if c then a else b) = outcome φ (if c then a' else b') := by
  rw [h, h', apply_ite (outcome φ)]

/-- Results that are the same without marks are both values or both faults. -/
theorem outcome_eq {r r' : Except Fault α} (h : outcome φ r = outcome φ r') :
    (∃ a a', r = .ok a ∧ r' = .ok a' ∧ φ a = φ a') ∨
      ∃ e e', r = .error e ∧ r' = .error e' ∧ e.unmarked = e'.unmarked := by
  rcases r with e | a <;> rcases r' with e' | a'
  · exact .inr ⟨e, e', rfl, rfl, Except.error.inj h⟩
  · cases h
  · cases h
  · exact .inl ⟨a, a', rfl, rfl, Except.ok.inj h⟩

end Outcome

namespace Form

variable {file head : String} {all items : List Sexpr} {l : Option Location}

/-! ## Forms without marks -/

theorem symbol?_unmarked (x : Sexpr) : x.unmarked.symbol? = x.symbol? := by
  cases x <;> rfl

theorem toInteger_unmarked (x : Sexpr) : toInteger x.unmarked = toInteger x := by
  cases x <;> rfl

theorem dimensions_unmarked (xs : List Sexpr) :
    dimensions (xs.map Sexpr.unmarked) = outcome id (dimensions xs) := by
  induction xs with
  | nil => rfl
  | cons x xs ih =>
    rw [List.map_cons, dimensions, dimensions, toInteger_unmarked, ih]
    rcases toInteger x with e | i
    · rfl
    · rcases dimensions xs with e | shape <;> rfl

theorem stripPlace_unmarked : ∀ (xs : List Sexpr) (line column : Option Int),
    stripPlace (xs.map Sexpr.unmarked) line column =
      (stripPlace xs line column).map fun r => (r.1.map Sexpr.unmarked, r.2)
  | [], line, column | [x], line, column => rfl
  | value :: key :: rest, line, column => by
    rw [List.map_cons, List.map_cons, stripPlace, stripPlace, symbol?_unmarked, toInteger_unmarked]
    split
    · cases toInteger value with
      | error e => rfl
      | ok i => exact stripPlace_unmarked rest (some i) column
    · split
      · cases toInteger value with
        | error e => rfl
        | ok i => exact stripPlace_unmarked rest line (some i)
      · rfl

theorem split_unmarked (file : String) (x : Sexpr) :
    split file x.unmarked =
      outcome (fun r => (r.1, r.2.1.map Sexpr.unmarked, r.2.2)) (split file x) := by
  cases x with
  | list all =>
    rw [unmarked, unmarkedAll_eq_map]
    cases all with
    | nil => rfl
    | cons x items =>
      cases x with
      | symbol head =>
        rw [List.map_cons, unmarked_symbol, split, split, ← List.map_reverse, stripPlace_unmarked]
        cases stripPlace items.reverse none none with
        | error e => rfl
        | ok r => simp [Except.map, outcome]
      | _ => simp [split, outcome, Fault.unmarked, fault, unmarked]
  | _ => simp [split, outcome, Fault.unmarked, fault, unmarked]

/-! ## Trees without marks -/

/-- A form that cannot be split stands for no expression. -/
theorem expression_of_split_error {e : Fault} (h : split file (.list all) = .error e) :
    expression file (.list all) = .error e := by
  rw [expression]
  · split
    · next he =>
      rw [h] at he
      cases he
      rfl
    · next he => simp [h] at he
  all_goals
    intros
    contradiction

mutual

/-- Reading an expression commutes with taking the marks off. -/
theorem expression_unmarked (file : String) (x : Sexpr) :
    expression file x.unmarked = outcome (Expr.plain id) (expression file x) := by
  match x with
  | .int _ | .real .. | .string _ => simp [unmarked, expression, outcome, Expr.plain]
  | .symbol s =>
    rw [unmarked_symbol, expression]
    split
    · rfl
    · split <;> rfl
  | .square _ | .quoted _ =>
    simp [unmarked, expression, split, outcome, Fault.unmarked, fault]
  | .list all =>
    have hlist : (Sexpr.list all).unmarked = .list (all.map Sexpr.unmarked) := by
      rw [unmarked, unmarkedAll_eq_map]
    cases hall : split file (.list all) with
    | error e =>
      have hsplit : split file (.list (all.map Sexpr.unmarked)) = .error e.unmarked := by
        rw [← hlist, split_unmarked, hall, outcome]
      rw [hlist, expression_of_split_error hsplit, expression_of_split_error hall, outcome]
    | ok parts =>
      obtain ⟨head, items, l⟩ := parts
      have hsize := sizeOf_of_split hall
      have hsplit : split file (.list (all.map Sexpr.unmarked)) =
          .ok (head, items.map Sexpr.unmarked, l) := by
        rw [← hlist, split_unmarked, hall, outcome]
      have hitems := expressions_unmarked file items
      have htail : sizeOf items.tail ≤ sizeOf items := by cases items <;> simp
      have helements := expressions_unmarked file items.tail
      rw [hlist, expression_of_split hsplit, expression_of_split hall, ← hlist]
      refine ite_outcome ?_ (ite_outcome ?_ (ite_outcome rfl (ite_outcome ?_
        (ite_outcome rfl ?_))))
      · rw [List.isEmpty_map]
        refine ite_outcome rfl ?_
        rw [hitems]
        rcases expressions file items with e | ⟨_ | ⟨base, is⟩⟩ <;> rfl
      · rw [List.length_map]
        refine ite_outcome ?_ rfl
        rw [hitems]
        rcases expressions file items with e | ⟨_ | ⟨a, _ | ⟨b, _ | ⟨s, _ | ⟨t, rest⟩⟩⟩⟩⟩ <;> rfl
      · cases items with
        | nil => rfl
        | cons x elements =>
          cases x with
          | list dims =>
            rw [List.map_cons, unmarked, unmarkedAll_eq_map]
            rw [List.tail_cons] at helements
            dsimp only
            rw [dimensions_unmarked, helements]
            rcases dimensions dims with e | shape
            · rfl
            · rcases expressions file elements with e | xs <;> rfl
          | _ => rfl
      · rw [hitems]
        rcases expressions file items with e | args <;> rfl
termination_by sizeOf x
decreasing_by all_goals omega

/-- The same for several expressions. -/
theorem expressions_unmarked (file : String) (xs : List Sexpr) :
    expressions file (xs.map Sexpr.unmarked) =
      outcome (Expr.plainAll id) (expressions file xs) := by
  match xs with
  | [] => simp [expressions, outcome, Expr.plainAll]
  | x :: rest =>
    rw [List.map_cons, expressions, expressions, expression_unmarked file x,
      expressions_unmarked file rest]
    rcases expression file x with e | e
    · rfl
    · rcases expressions file rest with e' | es <;> rfl
termination_by sizeOf xs

end

theorem sides_unmarked {make : Expr → Expr → Option Location → Stmt}
    (hmake : ∀ a b l, (make a b l).plain id = make (a.plain id) (b.plain id) l) (x : Sexpr) :
    sides file make x.unmarked head (items.map Sexpr.unmarked) l =
      outcome (Stmt.plain id) (sides file make x head items l) := by
  rcases items with _ | ⟨a, _ | ⟨b, _ | ⟨c, rest⟩⟩⟩
  · rfl
  · rfl
  · simp only [List.map_cons, List.map_nil, sides, expression_unmarked]
    rcases expression file a with e | lhs
    · rfl
    · rcases expression file b with e | rhs
      · rfl
      · exact congrArg Except.ok (hmake lhs rhs l).symm
  · rfl

theorem statement_of_split_error {x : Sexpr} {e : Fault} (h : split file x = .error e) :
    statement file x = .error e := by
  rw [statement]
  split
  · next he =>
    rw [h] at he
    cases he
    rfl
  · next he => simp [h] at he

mutual

/-- Reading a statement commutes with taking the marks off. -/
theorem statement_unmarked (file : String) (x : Sexpr) :
    statement file x.unmarked = outcome (Stmt.plain id) (statement file x) := by
  cases hx : split file x with
  | error e =>
    have hsplit : split file x.unmarked = .error e.unmarked := by
      rw [split_unmarked, hx, outcome]
    rw [statement_of_split_error hsplit, statement_of_split_error hx, outcome]
  | ok parts =>
    obtain ⟨head, items, l⟩ := parts
    have hsize := sizeOf_of_split hx
    have hsplit : split file x.unmarked = .ok (head, items.map Sexpr.unmarked, l) := by
      rw [split_unmarked, hx, outcome]
    rw [statement_of_split hsplit, statement_of_split hx]
    refine ite_outcome (sides_unmarked (fun _ _ _ => rfl) x)
      (ite_outcome (sides_unmarked (fun _ _ _ => rfl) x) (ite_outcome ?_ (ite_outcome ?_ rfl)))
    · rcases items with _ | ⟨counter, _ | ⟨lower, _ | ⟨upper, body⟩⟩⟩
      · rfl
      · cases counter <;> rfl
      · cases counter <;> rfl
      · have hsmaller : sizeOf body < sizeOf (counter :: lower :: upper :: body) := by
          simp only [List.cons.sizeOf_spec]
          omega
        have hbody := statements_unmarked file body
        cases counter with
        | symbol i =>
          simp only [List.map_cons, unmarked_symbol, hbody, expression_unmarked]
          rcases statements file body with e | ss
          · rfl
          · rcases expression file lower with e | a
            · rfl
            · rcases expression file upper with e | b <;> rfl
        | _ => rfl
    · cases items with
      | nil => rfl
      | cons condition body =>
        have hsmaller : sizeOf body < sizeOf (condition :: body) := by
          rw [List.cons.sizeOf_spec]
          omega
        simp only [List.map_cons, statements_unmarked file body, expression_unmarked]
        rcases statements file body with e | ss
        · rfl
        · rcases expression file condition with e | c <;> rfl
termination_by sizeOf x
decreasing_by all_goals omega

/-- The same for several statements. -/
theorem statements_unmarked (file : String) (xs : List Sexpr) :
    statements file (xs.map Sexpr.unmarked) =
      outcome (Stmt.plainAll id) (statements file xs) := by
  match xs with
  | [] => simp [statements, outcome, Stmt.plainAll]
  | x :: rest =>
    rw [List.map_cons, statements, statements, statement_unmarked file x,
      statements_unmarked file rest]
    rcases statement file x with e | s
    · rfl
    · rcases statements file rest with e | ss <;> rfl
termination_by sizeOf xs

end

/-- Reading a program commutes with taking the marks off. -/
theorem program_unmarked (file : String) (x : Sexpr) :
    program file x.unmarked = outcome (Program.plain id) (program file x) := by
  rw [program, program, split_unmarked]
  rcases split file x with e | ⟨head, items, l⟩
  · rfl
  · refine ite_outcome ?_ rfl
    rw [statements_unmarked]
    rcases statements file items with e | ss <;> rfl

/-! ## Forms hold no quotations -/

variable {located : Bool}

theorem unquoted_form (h : ∀ x ∈ items, x.Unquoted) :
    (form located head l items).Unquoted := by
  refine unquotedAll_iff.2 (List.forall_mem_append.2 ⟨List.forall_mem_cons.2 ⟨trivial, h⟩, ?_⟩)
  cases located with
  | false => exact List.forall_mem_nil _
  | true =>
    cases l with
    | none => exact List.forall_mem_nil _
    | some l => simp [placeItems, Unquoted]

theorem unquoted_ofNumber (v : Number) (mark : Nat) : (ofNumber v mark).Unquoted := by
  cases v <;> trivial

theorem unquoted_ofName (x : String) : (ofName x).Unquoted := by
  unfold ofName
  split <;> trivial

end Form

open Form

namespace Expr

mutual

theorem unquoted_toSexpr (located : Bool) : ∀ e : Expr, (e.toSexpr located).Unquoted
  | literal v mark => unquoted_ofNumber v mark
  | name x => unquoted_ofName x
  | index base is _ => unquoted_form (List.forall_mem_cons.2
      ⟨unquoted_toSexpr located base, unquoted_toSexprs located is⟩)
  | call _ args _ => unquoted_form (unquoted_toSexprs located args)
  | range a b _ => unquoted_form (by
      simp [unquoted_toSexpr located a, unquoted_toSexpr located b])
  | stepped a b s _ => unquoted_form (by
      simp [unquoted_toSexpr located a, unquoted_toSexpr located b, unquoted_toSexpr located s])
  | colon _ => unquoted_form (List.forall_mem_nil _)
  | array xs shape _ => unquoted_form (List.forall_mem_cons.2
      ⟨unquotedAll_iff.2 (List.forall_mem_map.2 fun _ _ => trivial), unquoted_toSexprs located xs⟩)

theorem unquoted_toSexprs (located : Bool) :
    ∀ es : List Expr, ∀ x ∈ toSexprs located es, x.Unquoted
  | [] => List.forall_mem_nil _
  | e :: es => List.forall_mem_cons.2
      ⟨unquoted_toSexpr located e, unquoted_toSexprs located es⟩

end

end Expr

namespace Stmt

mutual

theorem unquoted_toSexpr (located : Bool) : ∀ s : Stmt, (s.toSexpr located).Unquoted
  | assign a b _ | sample a b _ => unquoted_form (by
      simp [a.unquoted_toSexpr located, b.unquoted_toSexpr located])
  | loop _ a b body _ => unquoted_form (List.forall_mem_cons.2 ⟨trivial, List.forall_mem_cons.2
      ⟨a.unquoted_toSexpr located, List.forall_mem_cons.2
        ⟨b.unquoted_toSexpr located, unquoted_toSexprs located body⟩⟩⟩)
  | branch c body _ => unquoted_form (List.forall_mem_cons.2
      ⟨c.unquoted_toSexpr located, unquoted_toSexprs located body⟩)

theorem unquoted_toSexprs (located : Bool) :
    ∀ ss : List Stmt, ∀ x ∈ toSexprs located ss, x.Unquoted
  | [] => List.forall_mem_nil _
  | s :: ss => List.forall_mem_cons.2
      ⟨unquoted_toSexpr located s, unquoted_toSexprs located ss⟩

end

end Stmt

namespace Program

/-- Both layouts of a program have the same outcome, apart from marks. -/
theorem outcome_layouts (p : Program) (located : Bool) (file : String) (base base' : Nat) :
    outcome (plain id) (parse file base ((p.toSexpr located).text true)) =
      outcome (plain id) (parse file base' ((p.toSexpr located).text false)) := by
  have hform : (p.toSexpr located).Unquoted :=
    unquoted_form (Stmt.unquoted_toSexprs located p.statements)
  have hlayouts : ∃ y y', Sexpr.parse base ((p.toSexpr located).text true) = .ok y ∧
      Sexpr.parse base' ((p.toSexpr located).text false) = .ok y' ∧ y.unmarked = y'.unmarked :=
    Sexpr.exists_parse_texts hform base base'
  obtain ⟨y, y', hy, hy', hmarks⟩ := hlayouts
  simp only [parse, hy, hy']
  rw [← program_unmarked, hmarks, program_unmarked]

/-- The two layouts of a program are read alike: both as programs with the same places that differ
in the marks of their constants only, and so are the same unless a constant is not a number; or both
with the same fault. -/
theorem parse_layouts (p : Program) (located : Bool) (file : String) (base base' : Nat) :
    (∃ p₁ p₂, parse file base ((p.toSexpr located).text true) = .ok p₁ ∧
      parse file base' ((p.toSexpr located).text false) = .ok p₂ ∧
        p₁.plain id = p₂.plain id ∧ (Numeric p₂.parts → p₁.same p₂)) ∨
    ∃ e₁ e₂, parse file base ((p.toSexpr located).text true) = .error e₁ ∧
      parse file base' ((p.toSexpr located).text false) = .error e₂ ∧
        e₁.unmarked = e₂.unmarked ∧ e₁.diagnostic? = e₂.diagnostic? := by
  rcases outcome_eq (outcome_layouts p located file base base') with
    ⟨p₁, p₂, h₁, h₂, hplain⟩ | ⟨e₁, e₂, h₁, h₂, hfault⟩
  · exact .inl ⟨p₁, p₂, h₁, h₂, hplain, same_of_plain hplain⟩
  · refine .inr ⟨e₁, e₂, h₁, h₂, hfault, ?_⟩
    rw [← e₁.diagnostic?_unmarked, hfault, e₂.diagnostic?_unmarked]

/-- A constant that is not a number is not even equal to itself when it is read again. -/
theorem parse_layouts_notANumber : ∃ p p₁ p₂,
    parse "model.sexpr" 0 "(model (= x nan))" = .ok p ∧
      parse "model.sexpr" 20 ((p.toSexpr false).text true) = .ok p₁ ∧
      parse "model.sexpr" 40 ((p.toSexpr false).text false) = .ok p₂ ∧ p₁.same p₂ = false := by
  refine ⟨⟨[.assign (.name "x") (.literal (.real Binary64.nan) 12) none], none⟩,
    ⟨[.assign (.name "x") (.literal (.real Binary64.nan) 32) none], none⟩,
    ⟨[.assign (.name "x") (.literal (.real Binary64.nan) 52) none], none⟩, ?_, ?_, ?_, ?_⟩
  · with_unfolding_all rfl
  · with_unfolding_all rfl
  · with_unfolding_all rfl
  · decide +kernel

end Program

end PlateModel
