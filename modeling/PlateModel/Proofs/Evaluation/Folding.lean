import PlateModel.Evaluation.Fold
import PlateModel.Model.Names
import PlateModel.Proofs.Computation

/-!
# What folding keeps

Folding replaces calls whose arguments are constants, and constants mention no names. So an
expression mentions the same names before and after it is folded, and an expression that mentions
a name never comes to a constant.

* `names_of_constant?`: a constant mentions no names.
* `names_fold`: folding keeps the names of an expression, in their order.
* `fold_fold`: what has been folded is left as it is.
-/

namespace PlateModel.Expr

/-! ## Constants -/

/-- Literals mention no names. -/
theorem names_of_literals? : ∀ {xs : List Expr} {vs : List Number}, literals? xs = some vs →
    namesOfAll xs = []
  | [], _, _ => rfl
  | literal v m :: rest, vs, h => by
    obtain ⟨ws, hw, -⟩ := Option.map_eq_some_iff.1 h
    simp only [namesOfAll, names, names_of_literals? hw, List.append_nil]

/-- A constant mentions no names. -/
theorem names_of_constant? {e : Expr} {v : Value} (h : e.constant? = .ok (some v)) :
    e.names = [] := by
  cases e with
  | literal => rfl
  | array xs shape l =>
    simp only [constant?] at h
    split at h
    · cases h
    · next vs hvs => exact names_of_literals? hvs
  | _ => cases h

/-- Expressions that are all constants mention no names. -/
theorem names_of_constants? : ∀ {xs : List Expr} {vs : List Value},
    constants? xs = .ok (some vs) → namesOfAll xs = []
  | [], _, _ => rfl
  | x :: xs, vs, h => by
    simp only [constants?] at h
    split at h
    · cases h
    · next o hx =>
      cases hxs : constants? xs with
      | error e => rw [hxs] at h; cases h
      | ok os =>
        cases o <;> cases os <;> simp [hxs, Except.map] at h
        simp only [namesOfAll, names_of_constant? hx, names_of_constants? hxs, List.append_nil]

theorem namesOfAll_ofNumber (ns : List Number) : namesOfAll (ns.map ofNumber) = [] := by
  induction ns with
  | nil => rfl
  | cons n ns ih => simpa only [List.map_cons, namesOfAll, ofNumber, names, List.nil_append]

/-- A numerical value as an expression mentions no names. -/
theorem names_of_ofValue? {l : Option Location} {v : Value} {e : Expr} (h : ofValue? l v = some e) :
    e.names = [] := by
  simp only [ofValue?] at h
  split at h
  · cases h; rfl
  · obtain ⟨ns, -, rfl⟩ := Option.map_eq_some_iff.1 h
    exact namesOfAll_ofNumber ns
  · cases h

/-! ## Folding -/

/-- Whether a call is folded or not, the names of its arguments are left. -/
theorem names_foldCall {f : String} {args : List Expr} {l : Option Location} {r : Expr × Nat}
    (h : foldCall f args l = .ok r) : r.1.names = namesOfAll args := by
  simp only [foldCall] at h
  split at h
  · cases h
  · cases h; rfl
  · next vs hargs =>
    split at h
    · cases h; rfl
    · split at h
      · split at h
        · next e he => cases h; rw [names_of_ofValue? he, names_of_constants? hargs]
        · cases h; rfl
      · split at h <;> cases h
        rfl

mutual

/-- Folding keeps the names of an expression. -/
theorem names_fold : ∀ {e : Expr} {r : Expr × Nat}, e.fold = .ok r → r.1.names = e.names
  | literal .., _, h | name _, _, h | colon _, _, h => by cases h; rfl
  | index base is l, r, h => by
    simp only [fold, bind_eq_ok] at h
    obtain ⟨a, ha, b, hb, h⟩ := h
    cases h
    simp only [names, names_fold ha, namesOfAll_foldAll hb]
  | call f args l, r, h => by
    simp only [fold, bind_eq_ok] at h
    obtain ⟨a, ha, b, hb, h⟩ := h
    cases h
    simp only [names, names_foldCall hb, namesOfAll_foldAll ha]
  | range a b l, r, h => by
    simp only [fold, bind_eq_ok] at h
    obtain ⟨a, ha, b, hb, h⟩ := h
    cases h
    simp only [names, names_fold ha, names_fold hb]
  | stepped a b s l, r, h => by
    simp only [fold, bind_eq_ok] at h
    obtain ⟨a, ha, b, hb, c, hc, h⟩ := h
    cases h
    simp only [names, names_fold ha, names_fold hb, names_fold hc]
  | array xs shape l, r, h => by
    simp only [fold, bind_eq_ok] at h
    obtain ⟨a, ha, h⟩ := h
    cases h
    simp only [names, namesOfAll_foldAll ha]

/-- Folding keeps the names of some expressions. -/
theorem namesOfAll_foldAll : ∀ {xs : List Expr} {r : List Expr × Nat}, foldAll xs = .ok r →
    namesOfAll r.1 = namesOfAll xs
  | [], _, h => by cases h; rfl
  | x :: xs, r, h => by
    simp only [foldAll, bind_eq_ok] at h
    obtain ⟨a, ha, b, hb, h⟩ := h
    cases h
    simp only [namesOfAll, names_fold ha, namesOfAll_foldAll hb]

end

/-! ## Folding twice -/

theorem foldAll_ofNumber (ns : List Number) :
    foldAll (ns.map ofNumber) = .ok (ns.map ofNumber, 0) := by
  induction ns with
  | nil => rfl
  | cons n ns ih => simp only [List.map_cons, foldAll, ofNumber, fold, ih, ok_bind]; rfl

/-- A value as an expression has nothing to fold. -/
theorem fold_ofValue? {l : Option Location} {v : Value} {e : Expr} (h : ofValue? l v = some e) :
    e.fold = .ok (e, 0) := by
  simp only [ofValue?] at h
  split at h
  · cases h; rfl
  · obtain ⟨ns, -, rfl⟩ := Option.map_eq_some_iff.1 h
    simp only [fold, foldAll_ofNumber, ok_bind]
    rfl
  · cases h

/-- A call that stays as it is when it is folded does so again. -/
theorem fold_foldCall {f : String} {args : List Expr} {l : Option Location} {r : Expr × Nat}
    (hargs : foldAll args = .ok (args, 0)) (h : foldCall f args l = .ok r) :
    r.1.fold = .ok (r.1, 0) := by
  have stays (hr : foldCall f args l = .ok (call f args l, 0)) :
      (call f args l).fold = .ok (call f args l, 0) := by
    simp only [fold, hargs, hr, ok_bind]
    rfl
  have hcall := h
  simp only [foldCall] at h
  split at h
  · cases h
  · cases h; exact stays hcall
  · split at h
    · cases h; exact stays hcall
    · split at h
      · split at h
        · next e he => cases h; exact fold_ofValue? he
        · cases h; exact stays hcall
      · split at h
        · cases h; exact stays hcall
        · cases h

mutual

/-- What has been folded is left as it is. -/
theorem fold_fold : ∀ {e : Expr} {r : Expr × Nat}, e.fold = .ok r → r.1.fold = .ok (r.1, 0)
  | literal .., _, h | name _, _, h | colon _, _, h => by cases h; rfl
  | index base is l, r, h => by
    simp only [fold, bind_eq_ok] at h
    obtain ⟨a, ha, b, hb, h⟩ := h
    cases h
    simp only [fold, fold_fold ha, foldAll_foldAll hb, ok_bind]
    rfl
  | call f args l, r, h => by
    simp only [fold, bind_eq_ok] at h
    obtain ⟨a, ha, b, hb, h⟩ := h
    cases h
    exact fold_foldCall (r := b) (foldAll_foldAll ha) hb
  | range a b l, r, h => by
    simp only [fold, bind_eq_ok] at h
    obtain ⟨a, ha, b, hb, h⟩ := h
    cases h
    simp only [fold, fold_fold ha, fold_fold hb, ok_bind]
    rfl
  | stepped a b s l, r, h => by
    simp only [fold, bind_eq_ok] at h
    obtain ⟨a, ha, b, hb, c, hc, h⟩ := h
    cases h
    simp only [fold, fold_fold ha, fold_fold hb, fold_fold hc, ok_bind]
    rfl
  | array xs shape l, r, h => by
    simp only [fold, bind_eq_ok] at h
    obtain ⟨a, ha, h⟩ := h
    cases h
    simp only [fold, foldAll_foldAll ha, ok_bind]
    rfl

theorem foldAll_foldAll : ∀ {xs : List Expr} {r : List Expr × Nat}, foldAll xs = .ok r →
    foldAll r.1 = .ok (r.1, 0)
  | [], _, h => by cases h; rfl
  | x :: xs, r, h => by
    simp only [foldAll, bind_eq_ok] at h
    obtain ⟨a, ha, b, hb, h⟩ := h
    cases h
    simp only [foldAll, fold_fold ha, foldAll_foldAll hb, ok_bind]
    rfl

end

end PlateModel.Expr
