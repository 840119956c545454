import PlateModel.Proofs.Model.Spelling

/-!
# Reading the forms of trees

The form of a tree, read again, is the tree. The form may differ in the marks of its floats, as it
does after it was written and read; then the constants of the tree do so too. The places are those
that were written.

* `rewritten`: the place that is read for the place of a form.
* `expression_toSexpr`, `statement_toSexpr`, `program_toSexpr`: the forms of trees are read back.
-/

namespace PlateModel

open Sexpr Decimal

namespace Form

variable {file : String} {located : Bool}

/-! ## Forms that differ in marks -/

theorem forall₂_append_left {α β : Type} {R : α → β → Prop} {xs xs' : List α} {ys : List β}
    (h : List.Forall₂ R (xs ++ xs') ys) :
    ∃ zs zs', List.Forall₂ R xs zs ∧ List.Forall₂ R xs' zs' ∧ ys = zs ++ zs' := by
  induction xs generalizing ys with
  | nil => exact ⟨[], ys, .nil, h, rfl⟩
  | cons x xs ih =>
    cases h with
    | cons hx hrest =>
      obtain ⟨zs, zs', hzs, hzs', rfl⟩ := ih hrest
      exact ⟨_ :: zs, zs', .cons hx hzs, hzs', rfl⟩

theorem alike_placeItems {l : Option Location} {ys : List Sexpr}
    (h : List.Forall₂ Alike (placeItems located l) ys) : ys = placeItems located l := by
  cases located with
  | false =>
    cases h
    rfl
  | true =>
    cases l with
    | none =>
      cases h
      rfl
    | some l =>
      obtain _ | ⟨⟨⟩, _ | ⟨⟨⟩, _ | ⟨⟨⟩, _ | ⟨⟨⟩, _ | _⟩⟩⟩⟩ := h
      rfl

/-- A form that differs from another in marks only has the same head and the same place. -/
theorem alike_form {head : String} {l : Option Location} {items : List Sexpr} {y : Sexpr}
    (h : Alike (form located head l items) y) : ∃ items', List.Forall₂ Alike items items' ∧
      y = .list (.symbol head :: (items' ++ placeItems located l)) := by
  obtain _ | _ | _ | _ | ⟨_ | ⟨⟨⟩, hrest⟩⟩ := h
  obtain ⟨items', place, hitems, hplace, rfl⟩ := forall₂_append_left hrest
  exact ⟨items', hitems, by rw [alike_placeItems hplace]⟩

theorem isPlaceKey_of_alike {x y : Sexpr} (h : Alike x y) : isPlaceKey y = isPlaceKey x := by
  cases h <;> rfl

/-- A form is split into items that differ in marks only, and the place that was written. -/
theorem split_alike (file : String) {head : String} {l : Option Location} {items : List Sexpr}
    {y : Sexpr} (h : Alike (form located head l items) y) (hkeys : Keyless items) :
    ∃ all items', y = .list all ∧ List.Forall₂ Alike items items' ∧
      split file (.list all) = .ok (head, items', rewritten located file l) := by
  obtain ⟨items', hitems, rfl⟩ := alike_form h
  refine ⟨_, items', rfl, hitems, split_form located l fun value key rest hreverse => ?_⟩
  have hboth := List.forall₂_reverse_iff.2 hitems
  rw [hreverse] at hboth
  cases hleft : items.reverse with
  | nil => simp [hleft] at hboth
  | cons value' more =>
    rw [hleft] at hboth
    obtain _ | ⟨-, hmore⟩ := hboth
    obtain _ | ⟨hkey, -⟩ := hmore
    rw [isPlaceKey_of_alike hkey, hkeys _ _ _ hleft]

theorem keyless_of_forall {items : List Sexpr} (h : ∀ x ∈ items, isPlaceKey x = false) :
    Keyless items := fun _ key _ hreverse =>
  h key (List.mem_reverse.1 (by simp [hreverse]))

/-- The last but one of at least three items is not the first one. -/
theorem keyless_cons {x a b : Sexpr} {rest : List Sexpr}
    (h : ∀ y ∈ a :: b :: rest, isPlaceKey y = false) : Keyless (x :: a :: b :: rest) := by
  intro value key more hreverse
  have hitems : x :: a :: b :: rest = more.reverse ++ [key, value] := by
    rw [← List.reverse_reverse (x :: a :: b :: rest), hreverse]
    simp
  cases hmore : more.reverse with
  | nil => simp [hmore] at hitems
  | cons y front =>
    rw [hmore, List.cons_append, List.cons.injEq] at hitems
    exact h key (hitems.2 ▸ by simp)

theorem dimensions_ints (shape : List Int) {ys : List Sexpr}
    (h : List.Forall₂ Alike (shape.map .int) ys) : dimensions ys = .ok shape := by
  induction shape generalizing ys with
  | nil =>
    cases h
    rfl
  | cons i shape ih =>
    obtain _ | ⟨⟨⟩, hrest⟩ := h
    rw [dimensions, toInteger, ih hrest]
    rfl

end Form

namespace Expr

open Form

variable {P : Sexpr → Prop} {origin file : String} {located : Bool}

/-- The form of an expression is no announcement of a place. -/
theorem isPlaceKey_toSexpr (e : Expr) : isPlaceKey (e.toSexpr located) = false := by
  cases e with
  | literal v mark =>
    cases v with
    | truth b => cases b <;> rfl
    | _ => rfl
  | name x =>
    simp only [toSexpr, ofName]
    split
    · next hplain =>
      have hkeys : isPlainName ":line" = false ∧ isPlainName ":column" = false := by decide
      have hline : x ≠ ":line" := by
        rintro rfl
        simp [hkeys] at hplain
      have hcolumn : x ≠ ":column" := by
        rintro rfl
        simp [hkeys] at hplain
      simp [isPlaceKey, symbol?, hline, hcolumn]
    · rfl
  | _ => rfl

theorem isPlaceKey_toSexprs : ∀ es : List Expr, ∀ x ∈ toSexprs located es,
    isPlaceKey x = false
  | [], _, h => nomatch h
  | e :: es, x, h => by
    rcases List.mem_cons.1 h with rfl | h
    · exact isPlaceKey_toSexpr e
    · exact isPlaceKey_toSexprs es x h

mutual

/-- The form of an expression is read back. -/
theorem expression_toSexpr : ∀ e : Expr, (∀ part ∈ e.parts, part.Spelled P origin) →
    ∀ y, Alike (e.toSexpr located) y →
      ∃ e', expression file y = .ok e' ∧ e'.plain id = e.plain (rewritten located file)
  | literal v mark, _, y, hy => by
    cases v with
    | int i =>
      cases hy
      exact ⟨_, by rw [expression], rfl⟩
    | real x =>
      cases hy
      exact ⟨_, by rw [expression], rfl⟩
    | truth b =>
      cases hy
      cases b <;> exact ⟨_, by rw [expression], rfl⟩
  | name x, _, y, hy => by
    rw [toSexpr, ofName] at hy
    split at hy
    · next hplain =>
      cases hy
      -- a name that is spelled like a truth value is written as a string
      have hreserved : isPlainName "true" = false ∧ isPlainName "false" = false := by decide
      refine ⟨.name x, ?_, rfl⟩
      rw [expression, if_neg, if_neg]
      · rintro rfl
        simp [hreserved] at hplain
      · rintro rfl
        simp [hreserved] at hplain
    · cases hy
      exact ⟨_, by rw [expression], rfl⟩
  | index base is l, h, y, hy => by
    simp only [parts, List.forall_mem_append] at h
    obtain ⟨all, items', rfl, hitems, hsplit⟩ := split_alike file hy
      (keyless_of_forall (isPlaceKey_toSexprs (base :: is)))
    obtain _ | ⟨hbase, his⟩ := hitems
    obtain ⟨base', hbase', hplain⟩ := expression_toSexpr base h.2.1 _ hbase
    obtain ⟨is', his', hplains⟩ := expressions_toSexprs is h.2.2 _ his
    exact ⟨_, expression_ref hsplit rfl (expressions_cons hbase' his'),
      by rw [plain, plain, hplain, hplains]; rfl⟩
  | call f args l, h, y, hy => by
    simp only [parts, List.forall_mem_cons, List.forall_mem_append] at h
    obtain ⟨all, items', rfl, hitems, hsplit⟩ := split_alike file hy
      (keyless_of_forall (isPlaceKey_toSexprs args))
    obtain ⟨args', hargs', hplains⟩ := expressions_toSexprs args h.2.2 _ hitems
    exact ⟨_, expression_call hsplit h.1.1 hargs', by rw [plain, plain, hplains]; rfl⟩
  | range a b l, h, y, hy => by
    simp only [parts, List.forall_mem_append] at h
    obtain ⟨all, items', rfl, hitems, hsplit⟩ := split_alike file hy
      (keyless_of_forall (Expr.isPlaceKey_toSexprs [a, b]))
    obtain _ | ⟨ha, _ | ⟨hb, _ | _⟩⟩ := hitems
    obtain ⟨a', ha', hplain⟩ := expression_toSexpr a h.2.1 _ ha
    obtain ⟨b', hb', hplain'⟩ := expression_toSexpr b h.2.2 _ hb
    exact ⟨_, expression_range hsplit rfl rfl
      (expressions_cons ha' (expressions_cons hb' (by rw [expressions]))),
      by rw [plain, plain, hplain, hplain']; rfl⟩
  | stepped a b s l, h, y, hy => by
    simp only [parts, List.forall_mem_append] at h
    obtain ⟨all, items', rfl, hitems, hsplit⟩ := split_alike file hy
      (keyless_of_forall (Expr.isPlaceKey_toSexprs [a, b, s]))
    obtain _ | ⟨ha, _ | ⟨hb, _ | ⟨hs, _ | _⟩⟩⟩ := hitems
    obtain ⟨a', ha', hplain⟩ := expression_toSexpr a h.2.1 _ ha
    obtain ⟨b', hb', hplain'⟩ := expression_toSexpr b h.2.2.1 _ hb
    obtain ⟨s', hs', hplain''⟩ := expression_toSexpr s h.2.2.2 _ hs
    exact ⟨_, expression_stepped hsplit rfl rfl
      (expressions_cons ha' (expressions_cons hb' (expressions_cons hs' (by rw [expressions])))),
      by rw [plain, plain, hplain, hplain', hplain'']; rfl⟩
  | colon l, _, y, hy => by
    obtain ⟨all, items', rfl, -, hsplit⟩ := split_alike file hy
      (keyless_of_forall (List.forall_mem_nil _))
    exact ⟨_, expression_colon hsplit rfl, by rw [plain, plain]; rfl⟩
  | array xs shape l, h, y, hy => by
    simp only [parts, List.forall_mem_append] at h
    obtain ⟨all, items', rfl, hitems, hsplit⟩ := split_alike file hy
      (keyless_of_forall (List.forall_mem_cons.2 ⟨rfl, isPlaceKey_toSexprs xs⟩))
    obtain _ | ⟨hdims, hxs⟩ := hitems
    cases hdims with | list hdims => ?_
    obtain ⟨xs', hxs', hplains⟩ := expressions_toSexprs xs h.2.2 _ hxs
    exact ⟨_, expression_array hsplit rfl rfl (dimensions_ints shape hdims) hxs',
      by rw [plain, plain, hplains]; rfl⟩

theorem expressions_toSexprs : ∀ es : List Expr,
    (∀ part ∈ partsOfAll es, part.Spelled P origin) →
    ∀ ys, List.Forall₂ Alike (toSexprs located es) ys →
      ∃ es', expressions file ys = .ok es' ∧
        plainAll id es' = plainAll (rewritten located file) es
  | [], _, ys, hys => by
    cases hys
    exact ⟨[], by rw [expressions], rfl⟩
  | e :: es, h, ys, hys => by
    simp only [partsOfAll, List.forall_mem_append] at h
    obtain _ | ⟨hy, hys⟩ := hys
    obtain ⟨e', he', hplain⟩ := expression_toSexpr e h.1 _ hy
    obtain ⟨es', hes', hplains⟩ := expressions_toSexprs es h.2 _ hys
    exact ⟨e' :: es', expressions_cons he' hes', by rw [plainAll, plainAll, hplain, hplains]⟩

end

end Expr

namespace Stmt

open Form

variable {P : Sexpr → Prop} {origin file : String} {located : Bool}

/-- The form of a statement is a list, and so no announcement of a place. -/
theorem isPlaceKey_toSexpr (s : Stmt) : isPlaceKey (s.toSexpr located) = false := by
  cases s <;> rfl

theorem isPlaceKey_toSexprs : ∀ ss : List Stmt, ∀ x ∈ toSexprs located ss, isPlaceKey x = false
  | [], _, h => nomatch h
  | s :: ss, x, h => by
    rcases List.mem_cons.1 h with rfl | h
    · exact isPlaceKey_toSexpr s
    · exact isPlaceKey_toSexprs ss x h

mutual

/-- The form of a statement is read back. -/
theorem statement_toSexpr : ∀ s : Stmt, (∀ part ∈ s.parts, part.Spelled P origin) →
    ∀ y, Alike (s.toSexpr located) y →
      ∃ s', statement file y = .ok s' ∧ s'.plain id = s.plain (rewritten located file)
  | assign a b l, h, y, hy => by
    simp only [parts, List.forall_mem_append] at h
    obtain ⟨all, items', rfl, hitems, hsplit⟩ := split_alike file hy
      (keyless_of_forall (Expr.isPlaceKey_toSexprs [a, b]))
    obtain _ | ⟨ha, _ | ⟨hb, _ | _⟩⟩ := hitems
    obtain ⟨a', ha', hplain⟩ := Expr.expression_toSexpr a h.2.1 _ ha
    obtain ⟨b', hb', hplain'⟩ := Expr.expression_toSexpr b h.2.2 _ hb
    exact ⟨_, statement_assign hsplit rfl rfl ha' hb', by rw [plain, plain, hplain, hplain']; rfl⟩
  | sample a b l, h, y, hy => by
    simp only [parts, List.forall_mem_append] at h
    obtain ⟨all, items', rfl, hitems, hsplit⟩ := split_alike file hy
      (keyless_of_forall (Expr.isPlaceKey_toSexprs [a, b]))
    obtain _ | ⟨ha, _ | ⟨hb, _ | _⟩⟩ := hitems
    obtain ⟨a', ha', hplain⟩ := Expr.expression_toSexpr a h.2.1 _ ha
    obtain ⟨b', hb', hplain'⟩ := Expr.expression_toSexpr b h.2.2 _ hb
    exact ⟨_, statement_sample hsplit rfl rfl ha' hb', by rw [plain, plain, hplain, hplain']; rfl⟩
  | loop i a b body l, h, y, hy => by
    simp only [parts, List.forall_mem_cons, List.forall_mem_append] at h
    have hkeys : ∀ y ∈ a.toSexpr located :: b.toSexpr located :: toSexprs located body,
        isPlaceKey y = false :=
      List.forall_mem_cons.2 ⟨a.isPlaceKey_toSexpr, List.forall_mem_cons.2
        ⟨b.isPlaceKey_toSexpr, isPlaceKey_toSexprs body⟩⟩
    -- the variable may be spelled like a key, but no key is expected in its place
    obtain ⟨all, items', rfl, hitems, hsplit⟩ := split_alike file hy (keyless_cons hkeys)
    obtain _ | ⟨⟨⟩, _ | ⟨ha, _ | ⟨hb, hbody⟩⟩⟩ := hitems
    obtain ⟨a', ha', hplain⟩ := Expr.expression_toSexpr a h.2.2.1 _ ha
    obtain ⟨b', hb', hplain'⟩ := Expr.expression_toSexpr b h.2.2.2.1 _ hb
    obtain ⟨body', hbody', hplains⟩ := statements_toSexprs body h.2.2.2.2 _ hbody
    exact ⟨_, statement_loop hsplit rfl rfl ha' hb' hbody',
      by rw [plain, plain, hplain, hplain', hplains]; rfl⟩
  | branch c body l, h, y, hy => by
    simp only [parts, List.forall_mem_append] at h
    obtain ⟨all, items', rfl, hitems, hsplit⟩ := split_alike file hy
      (keyless_of_forall (List.forall_mem_cons.2 ⟨c.isPlaceKey_toSexpr, isPlaceKey_toSexprs body⟩))
    obtain _ | ⟨hc, hbody⟩ := hitems
    obtain ⟨c', hc', hplain⟩ := Expr.expression_toSexpr c h.2.1 _ hc
    obtain ⟨body', hbody', hplains⟩ := statements_toSexprs body h.2.2 _ hbody
    exact ⟨_, statement_branch hsplit rfl rfl hc' hbody',
      by rw [plain, plain, hplain, hplains]; rfl⟩

theorem statements_toSexprs : ∀ ss : List Stmt,
    (∀ part ∈ partsOfAll ss, part.Spelled P origin) →
    ∀ ys, List.Forall₂ Alike (toSexprs located ss) ys →
      ∃ ss', statements file ys = .ok ss' ∧
        plainAll id ss' = plainAll (rewritten located file) ss
  | [], _, ys, hys => by
    cases hys
    exact ⟨[], by rw [statements], rfl⟩
  | s :: ss, h, ys, hys => by
    simp only [partsOfAll, List.forall_mem_append] at h
    obtain _ | ⟨hy, hys⟩ := hys
    obtain ⟨s', hs', hplain⟩ := statement_toSexpr s h.1 _ hy
    obtain ⟨ss', hss', hplains⟩ := statements_toSexprs ss h.2 _ hys
    exact ⟨s' :: ss', statements_cons hs' hss', by rw [plainAll, plainAll, hplain, hplains]⟩

end

end Stmt

/-- The form of a program is read back. -/
theorem Program.program_toSexpr (file : String) {P : Sexpr → Prop} {origin : String}
    {located : Bool} {p : Program} (h : ∀ part ∈ p.parts, part.Spelled P origin) {y : Sexpr}
    (hy : Alike (p.toSexpr located) y) :
    ∃ p', Form.program file y = .ok p' ∧ p'.plain id = p.plain (Form.rewritten located file) := by
  obtain ⟨-, hstatements⟩ := List.forall_mem_append.1 h
  obtain ⟨all, items', rfl, hitems, hsplit⟩ := Form.split_alike file hy
    (Form.keyless_of_forall (Stmt.isPlaceKey_toSexprs p.statements))
  have hread : ∃ ss, Form.statements file items' = .ok ss ∧
      Stmt.plainAll id ss = Stmt.plainAll (Form.rewritten located file) p.statements :=
    Stmt.statements_toSexprs p.statements hstatements _ hitems
  obtain ⟨ss, hss, hplains⟩ := hread
  refine ⟨⟨ss, Form.rewritten located file p.location⟩, ?_, ?_⟩
  · rw [Form.program, hsplit]
    dsimp only
    rw [if_pos rfl, hss]
    rfl
  · rw [plain, plain, hplains]
    rfl

end PlateModel
