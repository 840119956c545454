import PlateModel.Model.Form

/-!
# Forms and the trees that they stand for

What a form stands for is decided by its head. The lemmas here say it once for each head, in both
directions: which tree a form with this head yields, and which forms yield a tree at all.

* `split_form`: the head, the items and the place of a written form.
* `expression_ok`, `statement_ok`: the forms that stand for an expression or a statement.
-/

namespace PlateModel.Form

variable {file head : String} {all items : List Sexpr} {l : Option Location}

/-! ## Places -/

/-- Whether an item announces a line or a column. -/
def isPlaceKey (x : Sexpr) : Bool := x.symbol? == some ":line" || x.symbol? == some ":column"

/-- Nothing is taken off items the last but one of which announces no place. -/
theorem stripPlace_of_keyless {xs : List Sexpr} {line column : Option Int}
    (h : ∀ value key rest, xs = value :: key :: rest → isPlaceKey key = false) :
    stripPlace xs line column = .ok (xs, line, column) := by
  unfold stripPlace
  split
  · next value key rest =>
    have hkey := h value key rest rfl
    simp only [isPlaceKey, Bool.or_eq_false_iff, beq_eq_false_iff_ne] at hkey
    rw [if_neg hkey.1, if_neg hkey.2]
  · rfl

/-- A written place is taken off. -/
theorem stripPlace_placeItems {xs : List Sexpr} (located : Bool) (l : Option Location)
    (h : ∀ value key rest, xs = value :: key :: rest → isPlaceKey key = false) :
    stripPlace ((placeItems located l).reverse ++ xs) none none =
      .ok (xs, if located then l.map (·.line) else none,
        if located then l.map (·.column) else none) := by
  have hcolumn : (":column" : String) ≠ ":line" := by decide
  cases located with
  | false => exact stripPlace_of_keyless h
  | true =>
    cases l with
    | none => exact stripPlace_of_keyless h
    | some l =>
      simp only [placeItems, List.reverse_cons, List.reverse_nil, List.nil_append,
        List.cons_append, stripPlace, Sexpr.symbol?, Option.some.injEq, hcolumn, if_false, if_true,
        toInteger]
      exact stripPlace_of_keyless h

/-- The place that is read for a place in a written tree. -/
def rewritten (located : Bool) (file : String) (l : Option Location) : Option Location :=
  if located then l.map fun l => .point file l.line l.column else none

/-- The last but one of some items announces no place. -/
def Keyless (items : List Sexpr) : Prop :=
  ∀ value key rest, items.reverse = value :: key :: rest → isPlaceKey key = false

/-- A written form is split into what it was made of. -/
theorem split_form (located : Bool) (l : Option Location) (h : Keyless items) :
    split file (.list (.symbol head :: (items ++ placeItems located l))) =
      .ok (head, items, rewritten located file l) := by
  rw [split, List.reverse_append, stripPlace_placeItems located l h]
  cases located <;> cases l <;> simp [rewritten]

/-! ## Expressions -/

section Heads

variable (h : split file (.list all) = .ok (head, items, l))

include h

/-- What a form stands for is decided by its head. -/
theorem expression_of_split : expression file (.list all) =
    if head = "ref" then
      if items.isEmpty then .error (fault .noArrayName (.list all) l)
      else
        match expressions file items with
        | .error e => .error e
        | .ok (base :: is) => .ok (.index base is l)
        | .ok [] => .error (fault .noArrayName (.list all) l)
    else if head = "range" then
      if items.length = 2 ∨ items.length = 3 then
        match expressions file items with
        | .error e => .error e
        | .ok [a, b] => .ok (.range a b l)
        | .ok [a, b, s] => .ok (.stepped a b s l)
        | .ok _ => .error (fault .rangeBounds (.list all) l)
      else .error (fault .rangeBounds (.list all) l)
    else if head = "colon" then .ok (.colon l)
    else if head = "array-literal" then
      match items with
      | .list dims :: elements =>
        match dimensions dims with
        | .error e => .error e
        | .ok shape => (expressions file elements).map fun xs => .array xs shape l
      | _ => .error (fault .noDimensions (.list all) l)
    else if reserved.contains head then .error (fault (.notExpression head) (.list all) l)
    else (expressions file items).map fun args => .call head args l := by
  rw [expression]
  · split
    · next he => simp [h] at he
    · next he =>
      rw [h] at he
      cases he
      cases items with
      | nil => rfl
      | cons x rest => cases x <;> rfl
  all_goals
    intros
    contradiction

theorem expression_ref {base : Expr} {is : List Expr} (hhead : head = "ref")
    (hitems : expressions file items = .ok (base :: is)) :
    expression file (.list all) = .ok (.index base is l) := by
  have hne : items.isEmpty = false := by
    cases items with
    | nil => simp [expressions] at hitems
    | cons => rfl
  rw [expression_of_split h, if_pos hhead, hne, hitems]
  rfl

theorem expression_range {a b : Expr} (hhead : head = "range") (hlength : items.length = 2)
    (hitems : expressions file items = .ok [a, b]) :
    expression file (.list all) = .ok (.range a b l) := by
  subst hhead
  rw [expression_of_split h, if_neg (by decide), if_pos rfl, if_pos (.inl hlength), hitems]

theorem expression_stepped {a b s : Expr} (hhead : head = "range") (hlength : items.length = 3)
    (hitems : expressions file items = .ok [a, b, s]) :
    expression file (.list all) = .ok (.stepped a b s l) := by
  subst hhead
  rw [expression_of_split h, if_neg (by decide), if_pos rfl, if_pos (.inr hlength), hitems]

theorem expression_colon (hhead : head = "colon") :
    expression file (.list all) = .ok (.colon l) := by
  subst hhead
  rw [expression_of_split h, if_neg (by decide), if_neg (by decide), if_pos rfl]

theorem expression_array {dims elements : List Sexpr} {shape : List Int} {xs : List Expr}
    (hhead : head = "array-literal") (hitems : items = .list dims :: elements)
    (hdims : dimensions dims = .ok shape) (hxs : expressions file elements = .ok xs) :
    expression file (.list all) = .ok (.array xs shape l) := by
  subst hhead hitems
  rw [expression_of_split h, if_neg (by decide), if_neg (by decide), if_neg (by decide), if_pos rfl]
  simp only [hdims, hxs]
  rfl

theorem expression_call {args : List Expr} (hhead : reserved.contains head = false)
    (hitems : expressions file items = .ok args) :
    expression file (.list all) = .ok (.call head args l) := by
  have hne : ∀ r ∈ reserved, head ≠ r := by
    rintro r hr rfl
    rw [List.contains_iff_mem.2 hr] at hhead
    cases hhead
  rw [expression_of_split h, if_neg (hne _ (by decide)), if_neg (hne _ (by decide)),
    if_neg (hne _ (by decide)), if_neg (hne _ (by decide)), hhead, hitems]
  rfl

end Heads

/-- What the items of a form stand for, according to its head. -/
inductive Stands (file : String) : String → List Sexpr → Option Location → Expr → Prop
  | index {base : Expr} {is : List Expr} (items : List Sexpr) (l : Option Location)
      (h : expressions file items = .ok (base :: is)) :
      Stands file "ref" items l (.index base is l)
  | range {a b : Expr} (items : List Sexpr) (l : Option Location)
      (h : expressions file items = .ok [a, b]) : Stands file "range" items l (.range a b l)
  | stepped {a b s : Expr} (items : List Sexpr) (l : Option Location)
      (h : expressions file items = .ok [a, b, s]) : Stands file "range" items l (.stepped a b s l)
  | colon (items : List Sexpr) (l : Option Location) : Stands file "colon" items l (.colon l)
  | array {dims elements : List Sexpr} {shape : List Int} {xs : List Expr} (l : Option Location)
      (hdims : dimensions dims = .ok shape) (hxs : expressions file elements = .ok xs) :
      Stands file "array-literal" (.list dims :: elements) l (.array xs shape l)
  | call {head : String} {args : List Expr} (items : List Sexpr) (l : Option Location)
      (hhead : reserved.contains head = false) (hargs : expressions file items = .ok args) :
      Stands file head items l (.call head args l)

theorem map_eq_ok {α β ε : Type} {f : α → β} {x : Except ε α} {y : β} (h : x.map f = .ok y) :
    ∃ a, x = .ok a ∧ f a = y := by
  cases x with
  | error e => cases h
  | ok a => exact ⟨a, rfl, Except.ok.inj h⟩

/-- A form that stands for an expression. -/
theorem expression_ok {e : Expr} (h : expression file (.list all) = .ok e) :
    ∃ head items l, split file (.list all) = .ok (head, items, l) ∧
      Stands file head items l e := by
  cases hsplit : split file (.list all) with
  | error e =>
    rw [expression] at h
    · split at h
      · cases h
      · next he => simp [hsplit] at he
    all_goals
      intros
      contradiction
  | ok parts =>
    obtain ⟨head, items, l⟩ := parts
    refine ⟨head, items, l, rfl, ?_⟩
    rw [expression_of_split hsplit] at h
    split at h
    · next hhead =>
      subst hhead
      split at h
      · cases h
      · split at h
        · cases h
        · next base is his =>
          cases h
          exact .index _ _ his
        · cases h
    · split at h
      · next hhead =>
        subst hhead
        split at h
        · split at h
          · cases h
          · next a b hab =>
            cases h
            exact .range _ _ hab
          · next a b s habs =>
            cases h
            exact .stepped _ _ habs
          · cases h
        · cases h
      · split at h
        · next hhead =>
          subst hhead
          cases h
          exact .colon _ _
        · split at h
          · next hhead =>
            subst hhead
            split at h
            · next dims elements =>
              split at h
              · cases h
              · next shape hshape =>
                obtain ⟨xs, hxs, rfl⟩ := map_eq_ok h
                exact .array _ hshape hxs
            · cases h
          · split at h
            · cases h
            · next hhead =>
              obtain ⟨args, hargs, rfl⟩ := map_eq_ok h
              exact .call _ _ (by simpa using hhead) hargs

theorem expressions_ok {x : Sexpr} {rest : List Sexpr} {es : List Expr}
    (h : expressions file (x :: rest) = .ok es) : ∃ e es', expression file x = .ok e ∧
      expressions file rest = .ok es' ∧ es = e :: es' := by
  rw [expressions] at h
  split at h
  · cases h
  · next e he =>
    obtain ⟨es', hes, rfl⟩ := map_eq_ok h
    exact ⟨e, es', he, hes, rfl⟩

theorem expressions_cons {x : Sexpr} {rest : List Sexpr} {e : Expr} {es : List Expr}
    (he : expression file x = .ok e) (hes : expressions file rest = .ok es) :
    expressions file (x :: rest) = .ok (e :: es) := by
  rw [expressions, he]
  dsimp only
  rw [hes]
  rfl

/-! ## Statements -/

/-- What a form stands for as a statement is decided by its head. -/
theorem statement_of_split {x : Sexpr} :
    split file x = .ok (head, items, l) → statement file x =
    if head = "=" then sides file .assign x head items l
    else if head = "~" then sides file .sample x head items l
    else if head = "for" then
      match items with
      | .symbol i :: lower :: upper :: body =>
        match statements file body with
        | .error e => .error e
        | .ok body =>
          match expression file lower with
          | .error e => .error e
          | .ok lower => (expression file upper).map fun upper => .loop i lower upper body l
      | _ => .error (fault .loopHeader x l)
    else if head = "if" then
      match items with
      | condition :: body =>
        match statements file body with
        | .error e => .error e
        | .ok body => (expression file condition).map fun c => .branch c body l
      | [] => .error (fault .noCondition x l)
    else .error (fault (.notStatement head) x l) := by
  intro h
  rw [statement]
  split
  · next he => simp [h] at he
  · next he =>
    rw [h] at he
    cases he
    rcases items with _ | ⟨a, _ | ⟨b, _ | ⟨c, body⟩⟩⟩
    · rfl
    all_goals cases a <;> rfl

section Statements

variable {x : Sexpr} (h : split file x = .ok (head, items, l))

include h

theorem statement_assign {a b : Sexpr} {lhs rhs : Expr} (hhead : head = "=")
    (hitems : items = [a, b]) (ha : expression file a = .ok lhs)
    (hb : expression file b = .ok rhs) :
    statement file x = .ok (.assign lhs rhs l) := by
  subst hhead hitems
  rw [statement_of_split h, if_pos rfl]
  simp only [sides, ha, hb]
  rfl

theorem statement_sample {a b : Sexpr} {lhs rhs : Expr} (hhead : head = "~")
    (hitems : items = [a, b]) (ha : expression file a = .ok lhs)
    (hb : expression file b = .ok rhs) :
    statement file x = .ok (.sample lhs rhs l) := by
  subst hhead hitems
  rw [statement_of_split h, if_neg (by decide), if_pos rfl]
  simp only [sides, ha, hb]
  rfl

theorem statement_loop {i : String} {lower upper : Sexpr} {body : List Sexpr} {a b : Expr}
    {ss : List Stmt} (hhead : head = "for") (hitems : items = .symbol i :: lower :: upper :: body)
    (ha : expression file lower = .ok a) (hb : expression file upper = .ok b)
    (hbody : statements file body = .ok ss) : statement file x = .ok (.loop i a b ss l) := by
  subst hhead hitems
  rw [statement_of_split h, if_neg (by decide), if_neg (by decide), if_pos rfl]
  simp only [ha, hb, hbody]
  rfl

theorem statement_branch {condition : Sexpr} {body : List Sexpr} {c : Expr} {ss : List Stmt}
    (hhead : head = "if") (hitems : items = condition :: body)
    (hc : expression file condition = .ok c) (hbody : statements file body = .ok ss) :
    statement file x = .ok (.branch c ss l) := by
  subst hhead hitems
  rw [statement_of_split h, if_neg (by decide), if_neg (by decide), if_neg (by decide), if_pos rfl]
  simp only [hc, hbody]
  rfl

end Statements

/-- What the items of a form stand for as a statement. -/
inductive States (file : String) : List Sexpr → Option Location → Stmt → Prop
  | assign {a b : Sexpr} {lhs rhs : Expr} (l : Option Location) (ha : expression file a = .ok lhs)
      (hb : expression file b = .ok rhs) : States file [a, b] l (.assign lhs rhs l)
  | sample {a b : Sexpr} {lhs rhs : Expr} (l : Option Location) (ha : expression file a = .ok lhs)
      (hb : expression file b = .ok rhs) : States file [a, b] l (.sample lhs rhs l)
  | loop {i : String} {lower upper : Sexpr} {body : List Sexpr} {a b : Expr} {ss : List Stmt}
      (l : Option Location) (ha : expression file lower = .ok a)
      (hb : expression file upper = .ok b) (hbody : statements file body = .ok ss) :
      States file (.symbol i :: lower :: upper :: body) l (.loop i a b ss l)
  | branch {condition : Sexpr} {body : List Sexpr} {c : Expr} {ss : List Stmt}
      (l : Option Location) (hc : expression file condition = .ok c)
      (hbody : statements file body = .ok ss) :
      States file (condition :: body) l (.branch c ss l)

theorem sides_ok {make : Expr → Expr → Option Location → Stmt} {x : Sexpr} {s : Stmt}
    (h : sides file make x head items l = .ok s) : ∃ a b lhs rhs, items = [a, b] ∧
      expression file a = .ok lhs ∧ expression file b = .ok rhs ∧ s = make lhs rhs l := by
  unfold sides at h
  split at h
  · next a b =>
    split at h
    · cases h
    · next lhs hlhs =>
      obtain ⟨rhs, hrhs, rfl⟩ := map_eq_ok h
      exact ⟨a, b, lhs, rhs, rfl, hlhs, hrhs, rfl⟩
  · cases h

/-- A form that stands for a statement. -/
theorem statement_ok {x : Sexpr} {s : Stmt} (h : statement file x = .ok s) :
    ∃ head items l, split file x = .ok (head, items, l) ∧ States file items l s := by
  cases hsplit : split file x with
  | error e =>
    rw [statement] at h
    split at h
    · cases h
    · next he => simp [hsplit] at he
  | ok parts =>
    obtain ⟨head, items, l⟩ := parts
    refine ⟨head, items, l, rfl, ?_⟩
    rw [statement_of_split hsplit] at h
    split at h
    · obtain ⟨a, b, lhs, rhs, rfl, ha, hb, rfl⟩ := sides_ok h
      exact .assign l ha hb
    · split at h
      · obtain ⟨a, b, lhs, rhs, rfl, ha, hb, rfl⟩ := sides_ok h
        exact .sample l ha hb
      · split at h
        · split at h
          · split at h
            · cases h
            · next ss hbody =>
              split at h
              · cases h
              · next a ha =>
                obtain ⟨b, hb, rfl⟩ := map_eq_ok h
                exact .loop l ha hb hbody
          · cases h
        · split at h
          · split at h
            · split at h
              · cases h
              · next ss hbody =>
                obtain ⟨c, hc, rfl⟩ := map_eq_ok h
                exact .branch l hc hbody
            · cases h
          · cases h

theorem statements_ok {x : Sexpr} {rest : List Sexpr} {ss : List Stmt}
    (h : statements file (x :: rest) = .ok ss) : ∃ s ss', statement file x = .ok s ∧
      statements file rest = .ok ss' ∧ ss = s :: ss' := by
  rw [statements] at h
  split at h
  · cases h
  · next s hs =>
    obtain ⟨ss', hss, rfl⟩ := map_eq_ok h
    exact ⟨s, ss', hs, hss, rfl⟩

theorem statements_cons {x : Sexpr} {rest : List Sexpr} {s : Stmt} {ss : List Stmt}
    (hs : statement file x = .ok s) (hss : statements file rest = .ok ss) :
    statements file (x :: rest) = .ok (s :: ss) := by
  rw [statements, hs]
  dsimp only
  rw [hss]
  rfl

/-- A form that stands for a program. -/
theorem program_ok {x : Sexpr} {p : Program} (h : program file x = .ok p) :
    ∃ items, split file x = .ok ("model", items, p.location) ∧
      statements file items = .ok p.statements := by
  unfold program at h
  split at h
  · cases h
  · next head items l hsplit =>
    split at h
    · next hhead =>
      obtain ⟨ss, hss, rfl⟩ := map_eq_ok h
      exact ⟨items, hhead ▸ hsplit, hss⟩
    · cases h

end PlateModel.Form
