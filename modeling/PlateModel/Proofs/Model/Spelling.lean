import PlateModel.Proofs.Model.Forms
import PlateModel.Proofs.Model.Parts
import PlateModel.Proofs.Model.PlainNames
import PlateModel.Proofs.Sexpr.Atoms

/-!
# How the parts of trees are spelled

Reading takes every part of a tree from an atom of its form, so what holds of all atoms holds of all
parts. Writing goes the other way.

* `Part.Spelled`: a part that was taken from an atom with a given property.
* `Form.spelled_program`: the parts of a tree that was read.
* `Part.Written`: a part that is written as atoms with a given property.
* `Program.every_toSexpr`: the atoms of the form of a tree.
-/

namespace PlateModel

open Sexpr Decimal

/-- A part that was taken from an atom with a property, or from the place of a form. -/
def Part.Spelled (P : Sexpr → Prop) (file : String) : Part → Prop
  | constant (.int i) => P (.int i)
  | constant _ => True
  | name x => P (.symbol x) ∨ P (.string x)
  | head f => Form.reserved.contains f = false ∧ P (.symbol f)
  | counter i => P (.symbol i)
  | dimension i => IsShort i
  | place l => IsShort l.line ∧ IsShort l.column ∧ l = .point file l.line l.column

/-- The integer part of a float has few digits. -/
theorem isShort_of_truncate? {x : Float} {i : Int} (h : Binary64.truncate? x = some i) :
    IsShort i := by
  rw [IsShort]
  have hpow : ∀ n, n ≤ maxDigits → 2 ^ n ≤ 10 ^ maxDigits := fun n hn =>
    (Nat.pow_le_pow_left (by decide) n).trans (Nat.pow_le_pow_right (by decide) hn)
  rw [Binary64.truncate?] at h
  split at h
  · next negative m q hparts =>
    obtain ⟨hfinite, -⟩ := Binary64.eq_of_parts_finite hparts
    have hm := hfinite.lt
    have hq := hfinite.greatest
    have hk : (if 0 ≤ q then m * twoPow q.toNat else m / twoPow (-q).toNat) < 10 ^ maxDigits := by
      split
      · have hexponent : 53 + q.toNat ≤ maxDigits := by
          rw [maxDigits]
          omega
        calc m * 2 ^ q.toNat < 2 ^ 53 * 2 ^ q.toNat :=
              Nat.mul_lt_mul_of_pos_right hm (Nat.two_pow_pos _)
          _ = 2 ^ (53 + q.toNat) := (Nat.pow_add 2 53 q.toNat).symm
          _ ≤ 10 ^ maxDigits := hpow _ hexponent
      · exact (Nat.div_le_self _ _).trans_lt (hm.trans_le (hpow 53 (by decide)))
    cases h
    split
    · rwa [Int.natAbs_neg, Int.natAbs_natCast]
    · rwa [Int.natAbs_natCast]
  · cases h

namespace Form

section Reading

variable {P : Sexpr → Prop} {file : String}
  (hint : ∀ i, P (.int i) → IsShort i)

include hint

theorem isShort_of_toInteger {x : Sexpr} {i : Int} (hx : Every P x)
    (h : toInteger x = .ok i) : IsShort i := by
  unfold toInteger at h
  split at h
  · cases h
    exact hint _ hx
  · split at h
    · cases h
    · split at h
      · next htruncate =>
        cases h
        exact isShort_of_truncate? htruncate
      · cases h
  · split at h
    · next hread =>
      cases h
      exact isShort_of_integer? hread
    · cases h
  · split at h
    · next hread =>
      cases h
      exact isShort_of_integer? hread
    · cases h
  · cases h
  · cases h
  · cases h

theorem spelled_stripPlace {xs rest : List Sexpr} {line column line' column' : Option Int}
    (h : stripPlace xs line column = .ok (rest, line', column')) (hxs : ∀ x ∈ xs, Every P x)
    (hline : ∀ i ∈ line, IsShort i) (hcolumn : ∀ i ∈ column, IsShort i) :
    (∀ x ∈ rest, Every P x) ∧ (∀ i ∈ line', IsShort i) ∧ ∀ i ∈ column', IsShort i := by
  fun_induction stripPlace xs line column with
  | case1 => cases h
  | case2 line column value key tail _ i hi ih =>
    obtain ⟨hvalue, -, htail⟩ := by simpa only [List.forall_mem_cons] using hxs
    refine ih h htail ?_ hcolumn
    rintro j ⟨⟩
    exact isShort_of_toInteger hint hvalue hi
  | case3 => cases h
  | case4 line column value key tail _ _ i hi ih =>
    obtain ⟨hvalue, -, htail⟩ := by simpa only [List.forall_mem_cons] using hxs
    refine ih h htail hline ?_
    rintro j ⟨⟩
    exact isShort_of_toInteger hint hvalue hi
  | case5 =>
    cases h
    exact ⟨hxs, hline, hcolumn⟩
  | case6 =>
    cases h
    exact ⟨hxs, hline, hcolumn⟩

theorem spelled_split {x : Sexpr} {head : String} {items : List Sexpr} {l : Option Location}
    (h : split file x = .ok (head, items, l)) (hx : Every P x) :
    P (.symbol head) ∧ (∀ y ∈ items, Every P y) ∧ ∀ part ∈ placeParts l, part.Spelled P file := by
  unfold split at h
  split at h
  · next head' all =>
    split at h
    · cases h
    · next rest line column hstrip =>
      have hitems : ∀ y ∈ all.reverse, Every P y := fun y hy =>
        everyAll_iff.1 hx.2 y (List.mem_reverse.1 hy)
      obtain ⟨hrest, hline, hcolumn⟩ :=
        spelled_stripPlace hint hstrip hitems (by simp) (by simp)
      cases h
      refine ⟨hx.1, fun y hy => hrest y (List.mem_reverse.1 hy), ?_⟩
      intro part hpart
      cases line with
      | none => simp [placeParts] at hpart
      | some i =>
        simp only [placeParts, Option.map_some, Option.toList_some, List.map_cons, List.map_nil,
          List.mem_singleton] at hpart
        subst hpart
        refine ⟨hline i rfl, ?_, rfl⟩
        cases column with
        | none => exact isShort_zero
        | some j => exact hcolumn j rfl
  · cases h

theorem spelled_dimensions {xs : List Sexpr} {shape : List Int} (h : dimensions xs = .ok shape)
    (hxs : ∀ x ∈ xs, Every P x) : ∀ i ∈ shape, IsShort i := by
  induction xs generalizing shape with
  | nil =>
    cases h
    exact List.forall_mem_nil _
  | cons x xs ih =>
    rw [dimensions] at h
    split at h
    · cases h
    · next i hi =>
      obtain ⟨rest, hrest, rfl⟩ := map_eq_ok h
      obtain ⟨hx, hxs⟩ := List.forall_mem_cons.1 hxs
      exact List.forall_mem_cons.2 ⟨isShort_of_toInteger hint hx hi, ih hrest hxs⟩

end Reading

section Trees

variable {P : Sexpr → Prop} {file : String}

mutual

/-- The parts of an expression that was read. -/
theorem spelled_expression (hint : ∀ i, P (.int i) → IsShort i) (x : Sexpr)
    (hx : Every P x) {e : Expr} (h : expression file x = .ok e) :
    ∀ part ∈ e.parts, part.Spelled P file := by
  match x with
  | .int i =>
    rw [expression] at h
    cases h
    exact List.forall_mem_singleton.2 hx
  | .real v mark =>
    rw [expression] at h
    cases h
    exact List.forall_mem_singleton.2 trivial
  | .symbol s =>
    rw [expression] at h
    cases h
    split
    · exact List.forall_mem_singleton.2 trivial
    · split
      · exact List.forall_mem_singleton.2 trivial
      · exact List.forall_mem_singleton.2 (.inl hx)
  | .string s =>
    rw [expression] at h
    cases h
    exact List.forall_mem_singleton.2 (.inr hx)
  | .list all =>
    obtain ⟨head, items, l, hsplit, hstands⟩ := expression_ok h
    -- the place is taken off the items, so they are no tail of the form, but they are smaller
    have hsize := sizeOf_of_split hsplit
    obtain ⟨hhead, hitems, hplace⟩ := spelled_split hint hsplit hx
    cases hstands with
    | index _ _ his =>
      simp only [Expr.parts, List.forall_mem_append]
      exact ⟨hplace, List.forall_mem_append.1 (spelled_expressions hint items hitems his)⟩
    | range _ _ hab =>
      have hparts := spelled_expressions hint items hitems hab
      simp only [Expr.partsOfAll, List.append_nil] at hparts
      simp only [Expr.parts, List.forall_mem_append] at hparts ⊢
      exact ⟨hplace, hparts⟩
    | stepped _ _ habs =>
      have hparts := spelled_expressions hint items hitems habs
      simp only [Expr.partsOfAll, List.append_nil] at hparts
      simp only [Expr.parts, List.forall_mem_append] at hparts ⊢
      exact ⟨hplace, hparts⟩
    | colon => exact hplace
    | @array dims elements shape xs _ hdims hxs =>
      obtain ⟨hdimensions, helements⟩ := List.forall_mem_cons.1 hitems
      simp only [Expr.parts, List.forall_mem_append]
      have hsmaller : sizeOf elements < sizeOf (Sexpr.list dims :: elements) := by
        rw [List.cons.sizeOf_spec]
        omega
      refine ⟨hplace, ?_, spelled_expressions hint elements helements hxs⟩
      exact List.forall_mem_map.2 (spelled_dimensions hint hdims (everyAll_iff.1 hdimensions))
    | call _ _ hreserved hargs =>
      simp only [Expr.parts, List.forall_mem_cons, List.forall_mem_append]
      exact ⟨⟨hreserved, hhead⟩, hplace, spelled_expressions hint items hitems hargs⟩
  | .square items | .quoted item => simp [expression, split] at h
termination_by sizeOf x
decreasing_by all_goals omega

/-- The parts of expressions that were read. -/
theorem spelled_expressions (hint : ∀ i, P (.int i) → IsShort i) (xs : List Sexpr)
    (hxs : ∀ x ∈ xs, Every P x) {es : List Expr} (h : expressions file xs = .ok es) :
    ∀ part ∈ Expr.partsOfAll es, part.Spelled P file := by
  match xs with
  | [] =>
    rw [expressions] at h
    cases h
    exact List.forall_mem_nil _
  | x :: rest =>
    obtain ⟨e, es', he, hes, rfl⟩ := expressions_ok h
    obtain ⟨hx, hrest⟩ := List.forall_mem_cons.1 hxs
    exact List.forall_mem_append.2
      ⟨spelled_expression hint x hx he, spelled_expressions hint rest hrest hes⟩
termination_by sizeOf xs

end

mutual

/-- The parts of a statement that was read. -/
theorem spelled_statement (hint : ∀ i, P (.int i) → IsShort i) (x : Sexpr)
    (hx : Every P x) {s : Stmt} (h : statement file x = .ok s) :
    ∀ part ∈ s.parts, part.Spelled P file := by
  obtain ⟨head, items, l, hsplit, hstates⟩ := statement_ok h
  have hsize := sizeOf_of_split hsplit
  obtain ⟨-, hitems, hplace⟩ := spelled_split hint hsplit hx
  match hstates with
  | .assign _ ha hb | .sample _ ha hb =>
    simp only [List.forall_mem_cons] at hitems
    simp only [Stmt.parts, List.forall_mem_append]
    exact ⟨hplace, spelled_expression hint _ hitems.1 ha, spelled_expression hint _ hitems.2.1 hb⟩
  | @States.loop _ i lower upper body _ _ _ _ ha hb hbody =>
    have hsmaller : sizeOf body < sizeOf (Sexpr.symbol i :: lower :: upper :: body) := by
      simp only [List.cons.sizeOf_spec]
      omega
    simp only [List.forall_mem_cons] at hitems
    simp only [Stmt.parts, List.forall_mem_cons, List.forall_mem_append]
    exact ⟨hitems.1, hplace, spelled_expression hint _ hitems.2.1 ha,
      spelled_expression hint _ hitems.2.2.1 hb, spelled_statements hint body hitems.2.2.2 hbody⟩
  | @States.branch _ condition body _ _ _ hc hbody =>
    have hsmaller : sizeOf body < sizeOf (condition :: body) := by
      simp only [List.cons.sizeOf_spec]
      omega
    simp only [List.forall_mem_cons] at hitems
    simp only [Stmt.parts, List.forall_mem_append]
    exact ⟨hplace, spelled_expression hint _ hitems.1 hc,
      spelled_statements hint body hitems.2 hbody⟩
termination_by sizeOf x
decreasing_by all_goals omega

/-- The parts of statements that were read. -/
theorem spelled_statements (hint : ∀ i, P (.int i) → IsShort i) (xs : List Sexpr)
    (hxs : ∀ x ∈ xs, Every P x) {ss : List Stmt} (h : statements file xs = .ok ss) :
    ∀ part ∈ Stmt.partsOfAll ss, part.Spelled P file := by
  match xs with
  | [] =>
    rw [statements] at h
    cases h
    exact List.forall_mem_nil _
  | x :: rest =>
    obtain ⟨s, ss', hs, hss, rfl⟩ := statements_ok h
    obtain ⟨hx, hrest⟩ := List.forall_mem_cons.1 hxs
    exact List.forall_mem_append.2
      ⟨spelled_statement hint x hx hs, spelled_statements hint rest hrest hss⟩
termination_by sizeOf xs

end

/-- The parts of a program that was read. -/
theorem spelled_program (hint : ∀ i, P (.int i) → IsShort i) {x : Sexpr}
    (hx : Every P x) {p : Program} (h : program file x = .ok p) :
    ∀ part ∈ p.parts, part.Spelled P file := by
  obtain ⟨items, hsplit, hstatements⟩ := program_ok h
  obtain ⟨-, hitems, hplace⟩ := spelled_split hint hsplit hx
  exact List.forall_mem_append.2 ⟨hplace, spelled_statements hint items hitems hstatements⟩

end Trees

end Form

/-! ## Writing -/

/-- A part that is written as atoms with a property. -/
def Part.Written (Q : Sexpr → Prop) : Part → Prop
  | constant v => ∀ mark, Q (Form.ofNumber v mark)
  | name x => Q (Form.ofName x)
  | head f | counter f => Q (.symbol f)
  | dimension i => Q (.int i)
  | place l => Q (.int l.line) ∧ Q (.int l.column)

/-- The words that the writer brings itself. -/
def Form.fixedWords : List String := ":line" :: ":column" :: reserved

section Writing

variable {Q : Sexpr → Prop}

namespace Form

theorem every_ofNumber {v : Number} {mark : Nat} (h : Q (ofNumber v mark)) :
    Sexpr.Every Q (ofNumber v mark) := by
  cases v <;> exact h

theorem every_ofName {x : String} (h : Q (ofName x)) : Sexpr.Every Q (ofName x) := by
  unfold ofName at h ⊢
  split
  · rwa [if_pos ‹_›] at h
  · rwa [if_neg ‹_›] at h

variable {located : Bool} {head : String} {l : Option Location} {items : List Sexpr}

theorem every_form (hfixed : ∀ s ∈ fixedWords, Q (.symbol s)) (hhead : Q (.symbol head))
    (hplace : ∀ part ∈ placeParts l, part.Written Q) (hitems : Sexpr.EveryAll Q items) :
    Sexpr.Every Q (form located head l items) := by
  refine ⟨hhead, everyAll_iff.2 (List.forall_mem_append.2 ⟨everyAll_iff.1 hitems, ?_⟩)⟩
  cases located with
  | false => exact List.forall_mem_nil _
  | true =>
    cases l with
    | none => exact List.forall_mem_nil _
    | some l =>
      obtain ⟨hline, hcolumn⟩ := hplace (.place l) (by simp [placeParts])
      simp only [placeItems, List.forall_mem_cons]
      exact ⟨hfixed _ (by decide), hline, hfixed _ (by decide), hcolumn,
        List.forall_mem_nil _⟩

end Form

namespace Expr

open Form

mutual

/-- What holds of the atoms that the parts of an expression are written as holds of its form. -/
theorem every_toSexpr (hfixed : ∀ s ∈ fixedWords, Q (.symbol s)) (located : Bool) :
    ∀ e : Expr, (∀ part ∈ e.parts, part.Written Q) → Sexpr.Every Q (e.toSexpr located)
  | literal v mark, h => every_ofNumber (h _ (List.mem_singleton_self _) mark)
  | name x, h => every_ofName (h _ (List.mem_singleton_self _))
  | index base is l, h => by
    simp only [parts, List.forall_mem_append] at h
    exact every_form hfixed (hfixed _ (by decide)) h.1
      ⟨every_toSexpr hfixed located base h.2.1, every_toSexprs hfixed located is h.2.2⟩
  | call f args l, h => by
    simp only [parts, List.forall_mem_cons, List.forall_mem_append] at h
    exact every_form hfixed h.1 h.2.1 (every_toSexprs hfixed located args h.2.2)
  | range a b l, h => by
    simp only [parts, List.forall_mem_append] at h
    exact every_form hfixed (hfixed _ (by decide)) h.1
      ⟨every_toSexpr hfixed located a h.2.1, every_toSexpr hfixed located b h.2.2, trivial⟩
  | stepped a b s l, h => by
    simp only [parts, List.forall_mem_append] at h
    exact every_form hfixed (hfixed _ (by decide)) h.1
      ⟨every_toSexpr hfixed located a h.2.1, every_toSexpr hfixed located b h.2.2.1,
        every_toSexpr hfixed located s h.2.2.2, trivial⟩
  | colon l, h => every_form hfixed (hfixed _ (by decide)) h trivial
  | array xs shape l, h => by
    simp only [parts, List.forall_mem_append, List.forall_mem_map] at h
    refine every_form hfixed (hfixed _ (by decide)) h.1
      ⟨everyAll_iff.2 (List.forall_mem_map.2 fun i hi => ?_),
        every_toSexprs hfixed located xs h.2.2⟩
    exact h.2.1 i hi

theorem every_toSexprs (hfixed : ∀ s ∈ fixedWords, Q (.symbol s)) (located : Bool) :
    ∀ es : List Expr, (∀ part ∈ partsOfAll es, part.Written Q) →
      Sexpr.EveryAll Q (toSexprs located es)
  | [], _ => trivial
  | e :: es, h => by
    simp only [partsOfAll, List.forall_mem_append] at h
    exact ⟨every_toSexpr hfixed located e h.1, every_toSexprs hfixed located es h.2⟩

end

end Expr

namespace Stmt

open Form

mutual

theorem every_toSexpr (hfixed : ∀ s ∈ fixedWords, Q (.symbol s)) (located : Bool) :
    ∀ s : Stmt, (∀ part ∈ s.parts, part.Written Q) → Sexpr.Every Q (s.toSexpr located)
  | assign a b l, h | sample a b l, h => by
    simp only [parts, List.forall_mem_append] at h
    exact every_form hfixed (hfixed _ (by decide)) h.1
      ⟨a.every_toSexpr hfixed located h.2.1, b.every_toSexpr hfixed located h.2.2, trivial⟩
  | loop i a b body l, h => by
    simp only [parts, List.forall_mem_cons, List.forall_mem_append] at h
    exact every_form hfixed (hfixed _ (by decide)) h.2.1
      ⟨h.1, a.every_toSexpr hfixed located h.2.2.1, b.every_toSexpr hfixed located h.2.2.2.1,
        every_toSexprs hfixed located body h.2.2.2.2⟩
  | branch c body l, h => by
    simp only [parts, List.forall_mem_append] at h
    exact every_form hfixed (hfixed _ (by decide)) h.1
      ⟨c.every_toSexpr hfixed located h.2.1, every_toSexprs hfixed located body h.2.2⟩

theorem every_toSexprs (hfixed : ∀ s ∈ fixedWords, Q (.symbol s)) (located : Bool) :
    ∀ ss : List Stmt, (∀ part ∈ partsOfAll ss, part.Written Q) →
      Sexpr.EveryAll Q (toSexprs located ss)
  | [], _ => trivial
  | s :: ss, h => by
    simp only [partsOfAll, List.forall_mem_append] at h
    exact ⟨every_toSexpr hfixed located s h.1, every_toSexprs hfixed located ss h.2⟩

end

end Stmt

/-- What holds of the atoms that the parts of a program are written as holds of its form. -/
theorem Program.every_toSexpr (hfixed : ∀ s ∈ Form.fixedWords, Q (.symbol s)) (located : Bool)
    {p : Program} (h : ∀ part ∈ p.parts, part.Written Q) : Sexpr.Every Q (p.toSexpr located) := by
  obtain ⟨hplace, hstatements⟩ := List.forall_mem_append.1 h
  exact Form.every_form hfixed (hfixed _ (by decide)) hplace
    (Stmt.every_toSexprs hfixed located p.statements hstatements)

end Writing

end PlateModel
