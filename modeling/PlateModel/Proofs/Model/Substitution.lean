import PlateModel.Model.Names
import PlateModel.Proofs.Model.References

/-!
# One substitution after another, and substitution in place

Unrolling puts the integers of all enclosing loops in the place of their variables at once, while
the meaning of a loop puts them there one loop at a time. Both come to the same, because literals
hold no names.

When names are replaced, a tree need not be built again where it does not change: a call stays the
call that it is if all its arguments stay what they are, and an array reference stays if its base
does and its indices come to equal ones. What an expression is replaced by then comes with whether
it is still that very expression. Nothing that changes is taken for what it was.

* `Stmt.substituteAll_append`: two substitutions of literals are one.
* `Stmt.substituteAll_turn`: the variable of the innermost loop can be replaced last.
* `Expr.replace`, `Stmt.replace`: names replaced, and what does not change kept.
* `Expr.eq_of_same_substitute`: what comes to an equal expression does not change.
* `Expr.replace_eq`, `Stmt.replace_eq`: the outcome is that of the substitution.
-/

namespace PlateModel

namespace Mapping

theorem lookup_append (m n : Mapping) (x : String) :
    (m ++ n).lookup x = (m.lookup x).or (n.lookup x) := List.lookup_append

theorem without_append (m n : Mapping) (x : String) :
    Mapping.without (m ++ n) x = m.without x ++ n.without x := List.filter_append ..

theorem literal_nil : Mapping.Literal [] := nofun

/-- The integer of a turn for the variable of a loop. -/
theorem Literal.cons {m : Mapping} (hm : m.Literal) (i : String) (v : Number) :
    Mapping.Literal ((i, .ofNumber v) :: m) := by
  intro x e h
  rw [List.lookup_cons] at h
  split at h
  · cases h
    exact ⟨v, 0, rfl⟩
  · exact hm h

end Mapping

/-! ## Expressions -/

namespace Expr

mutual

theorem substitute_nil : ∀ e : Expr, e.substitute [] = e
  | literal .. | name _ | colon _ => rfl
  | index base is l => by rw [substitute, substitute_nil base, substituteAll_nil is]
  | call f args l => by rw [substitute, substituteAll_nil args]
  | range a b l => by rw [substitute, substitute_nil a, substitute_nil b]
  | stepped a b s l => by rw [substitute, substitute_nil a, substitute_nil b, substitute_nil s]
  | array xs shape l => by rw [substitute, substituteAll_nil xs]

theorem substituteAll_nil : ∀ es : List Expr, substituteAll [] es = es
  | [] => rfl
  | e :: es => by rw [substituteAll, substitute_nil e, substituteAll_nil es]

end

mutual

/-- Two substitutions are one, if the first is of literals. -/
theorem substitute_append {m : Mapping} (hm : m.Literal) (n : Mapping) : ∀ e : Expr,
    (e.substitute m).substitute n = e.substitute (m ++ n)
  | literal .. | colon _ => rfl
  | name x => by
    simp only [substitute, Mapping.lookup_append]
    cases h : m.lookup x with
    | none => rfl
    | some e =>
      obtain ⟨v, k, rfl⟩ := hm h
      rfl
  | index base is l => by
    simp only [substitute, substitute_append hm n base, substituteAll_append hm n is]
  | call f args l => by simp only [substitute, substituteAll_append hm n args]
  | range a b l => by
    simp only [substitute, substitute_append hm n a, substitute_append hm n b]
  | stepped a b s l => by
    simp only [substitute, substitute_append hm n a, substitute_append hm n b,
      substitute_append hm n s]
  | array xs shape l => by simp only [substitute, substituteAll_append hm n xs]

theorem substituteAll_append {m : Mapping} (hm : m.Literal) (n : Mapping) : ∀ es : List Expr,
    substituteAll n (substituteAll m es) = substituteAll (m ++ n) es
  | [] => rfl
  | e :: es => by
    simp only [substituteAll, substitute_append hm n e, substituteAll_append hm n es]

end

mutual

/-- Two mappings that agree on the names of an expression replace them alike. -/
theorem substitute_congr {m m' : Mapping} : ∀ {e : Expr},
    (∀ x ∈ e.names, m.lookup x = m'.lookup x) → e.substitute m = e.substitute m'
  | literal .., _ | colon _, _ => rfl
  | name x, h => by
    have hx := h x (List.mem_singleton.2 rfl)
    simp only [substitute, hx]
  | index base is l, h => by
    simp only [substitute]
    rw [substitute_congr (e := base) fun x hx => h x (List.mem_append_left _ hx),
      @substituteAll_congr _ _ is fun x hx => h x (List.mem_append_right _ hx)]
  | call f args l, h => by
    simp only [substitute]
    rw [@substituteAll_congr _ _ args h]
  | range a b l, h => by
    simp only [substitute]
    rw [substitute_congr (e := a) fun x hx => h x (List.mem_append_left _ hx),
      substitute_congr (e := b) fun x hx => h x (List.mem_append_right _ hx)]
  | stepped a b s l, h => by
    simp only [substitute]
    rw [substitute_congr (e := a) fun x hx => h x (List.mem_append_left _ hx),
      substitute_congr (e := b) fun x hx =>
        h x (List.mem_append_right _ (List.mem_append_left _ hx)),
      substitute_congr (e := s) fun x hx =>
        h x (List.mem_append_right _ (List.mem_append_right _ hx))]
  | array xs shape l, h => by
    simp only [substitute]
    rw [@substituteAll_congr _ _ xs h]

theorem substituteAll_congr {m m' : Mapping} : ∀ {es : List Expr},
    (∀ x ∈ namesOfAll es, m.lookup x = m'.lookup x) → substituteAll m es = substituteAll m' es
  | [], _ => rfl
  | e :: es, h => by
    simp only [substituteAll]
    rw [substitute_congr (e := e) fun x hx => h x (List.mem_append_left _ hx),
      @substituteAll_congr _ _ es fun x hx => h x (List.mem_append_right _ hx)]

end

mutual

/-- The names of an expression with names replaced are those of the replacements, in order. -/
theorem names_substitute (m : Mapping) : ∀ e : Expr,
    (e.substitute m).names = e.names.flatMap fun x => ((m.lookup x).getD (name x)).names
  | literal .. | colon _ => rfl
  | name x => (List.append_nil _).symm
  | index base is l => by
    simp only [names, substitute, List.flatMap_append, names_substitute m base,
      namesOfAll_substituteAll m is]
  | call f args l => namesOfAll_substituteAll m args
  | range a b l => by
    simp only [names, substitute, List.flatMap_append, names_substitute m a, names_substitute m b]
  | stepped a b s l => by
    simp only [names, substitute, List.flatMap_append, names_substitute m a, names_substitute m b,
      names_substitute m s]
  | array xs shape l => namesOfAll_substituteAll m xs

theorem namesOfAll_substituteAll (m : Mapping) : ∀ es : List Expr,
    namesOfAll (substituteAll m es) =
      (namesOfAll es).flatMap fun x => ((m.lookup x).getD (name x)).names
  | [] => rfl
  | e :: es => by
    simp only [namesOfAll, substituteAll, List.flatMap_append, names_substitute m e,
      namesOfAll_substituteAll m es]

end

/-- A name without a replacement stays in the expression. -/
theorem mem_names_substitute {m : Mapping} {x : String} (hm : m.lookup x = none) {e : Expr}
    (h : x ∈ e.names) : x ∈ (e.substitute m).names := by
  rw [names_substitute, List.mem_flatMap]
  exact ⟨x, h, by rw [hm]; exact List.mem_singleton.2 rfl⟩

end Expr

/-! ## Statements -/

namespace Stmt

mutual

theorem substitute_nil : ∀ s : Stmt, s.substitute [] = s
  | assign .. | sample .. => by simp only [substitute, Expr.substitute_nil]
  | loop i lower upper body l => by
    have h : Mapping.without [] i = [] := rfl
    simp only [substitute, Expr.substitute_nil, h, substituteAll_nil body]
  | branch condition body l => by
    simp only [substitute, Expr.substitute_nil, substituteAll_nil body]

theorem substituteAll_nil : ∀ ss : List Stmt, substituteAll [] ss = ss
  | [] => rfl
  | s :: rest => by rw [substituteAll, substitute_nil s, substituteAll_nil rest]

end

mutual

theorem substitute_append {m : Mapping} (hm : m.Literal) (n : Mapping) : ∀ s : Stmt,
    (s.substitute m).substitute n = s.substitute (m ++ n)
  | assign .. | sample .. => by simp only [substitute, Expr.substitute_append hm]
  | loop i lower upper body l => by
    simp only [substitute, Expr.substitute_append hm, Mapping.without_append,
      substituteAll_append (hm.without i) (n.without i) body]
  | branch condition body l => by
    simp only [substitute, Expr.substitute_append hm, substituteAll_append hm n body]

/-- Two substitutions are one, if the first is of literals. -/
theorem substituteAll_append {m : Mapping} (hm : m.Literal) (n : Mapping) : ∀ ss : List Stmt,
    substituteAll n (substituteAll m ss) = substituteAll (m ++ n) ss
  | [] => rfl
  | s :: rest => by
    rw [substituteAll, substituteAll, substitute_append hm n s, substituteAll_append hm n rest,
      substituteAll]

end

mutual

theorem substitute_congr {m n : Mapping} (h : ∀ x, m.lookup x = n.lookup x) : ∀ s : Stmt,
    s.substitute m = s.substitute n
  | assign .. | sample .. => by
    simp only [substitute, Expr.substitute_congr fun x _ => h x]
  | loop i lower upper body l => by
    have h' : ∀ x, (m.without i).lookup x = (n.without i).lookup x := fun x => by
      rw [Mapping.lookup_without, Mapping.lookup_without, h x]
    simp only [substitute, Expr.substitute_congr fun x _ => h x, substituteAll_congr h' body]
  | branch condition body l => by
    simp only [substitute, Expr.substitute_congr fun x _ => h x, substituteAll_congr h body]

theorem substituteAll_congr {m n : Mapping} (h : ∀ x, m.lookup x = n.lookup x) :
    ∀ ss : List Stmt, substituteAll m ss = substituteAll n ss
  | [] => rfl
  | s :: rest => by
    rw [substituteAll, substituteAll, substitute_congr h s, substituteAll_congr h rest]

end

/-- In a turn of a loop, the variable of the loop can be replaced after those of the enclosing
loops. -/
theorem substituteAll_turn {env : Mapping} (henv : env.Literal) (i : String) (e : Expr)
    (body : List Stmt) :
    substituteAll [(i, e)] (substituteAll (env.without i) body) =
      substituteAll ((i, e) :: env) body := by
  rw [substituteAll_append (henv.without i)]
  refine substituteAll_congr (fun x => ?_) body
  rw [Mapping.lookup_append, Mapping.lookup_without, List.lookup_cons, List.lookup_cons]
  by_cases h : x = i
  · simp [h]
  · have : (x == i) = false := by simpa using h
    simp [h, this]

end Stmt

/-! ## What does not change is kept -/

/-- What an expression is replaced by, and whether it is still that very expression. -/
structure Expr.Replaced where
  expr : Expr
  itself : Bool

namespace Expr

mutual

/-- The expression with the names of the mapping replaced, kept where nothing in it changes. -/
def replace (m : Mapping) : Expr → Replaced
  | literal v k => ⟨literal v k, true⟩
  | name x =>
    match m.lookup x with
    | none => ⟨name x, true⟩
    | some e => ⟨e, false⟩
  | index base is l =>
    let base' := replace m base
    let is' := (replaceAll m is).map (·.expr)
    if base'.itself && sameAll is' is then ⟨index base is l, true⟩
    else ⟨index base'.expr is' l, false⟩
  | call f args l =>
    let args' := replaceAll m args
    if args'.all (·.itself) then ⟨call f args l, true⟩ else ⟨call f (args'.map (·.expr)) l, false⟩
  | range a b l => ⟨range (replace m a).expr (replace m b).expr l, false⟩
  | stepped a b s l => ⟨stepped (replace m a).expr (replace m b).expr (replace m s).expr l, false⟩
  | colon l => ⟨colon l, true⟩
  | array xs shape l => ⟨array ((replaceAll m xs).map (·.expr)) shape l, false⟩

/-- Names replaced in every expression of a list. -/
def replaceAll (m : Mapping) : List Expr → List Replaced
  | [] => []
  | x :: xs => replace m x :: replaceAll m xs

end

end Expr

namespace Stmt

mutual

/-- The statement with the free names of the mapping replaced. Only a loop over a name of the
mapping makes the mapping smaller for its body. -/
def replace (m : Mapping) : Stmt → Stmt
  | assign lhs rhs l => assign (lhs.replace m).expr (rhs.replace m).expr l
  | sample lhs rhs l => sample (lhs.replace m).expr (rhs.replace m).expr l
  | loop i lower upper body l =>
    let inner := if (m.lookup i).isSome then m.without i else m
    loop i (lower.replace m).expr (upper.replace m).expr (replaceAll inner body) l
  | branch condition body l => branch (condition.replace m).expr (replaceAll m body) l

/-- Names replaced in every statement of a list. -/
def replaceAll (m : Mapping) : List Stmt → List Stmt
  | [] => []
  | s :: rest => replace m s :: replaceAll m rest

end

end Stmt

/-! ## Nothing that changes is kept -/

namespace Expr

mutual

/-- What comes to an equal expression does not change, not even in its places. -/
theorem eq_of_same_substitute {m : Mapping} : ∀ {e : Expr}, (e.substitute m).same e →
    e.substitute m = e
  | literal .., _ | colon _, _ => rfl
  | name x, h => by
    rw [substitute] at h ⊢
    cases hx : m.lookup x with
    | none => rfl
    | some e =>
      rw [hx, Option.getD_some] at h
      cases e with
      | name y =>
        rw [same, beq_iff_eq] at h
        rw [h, Option.getD_some]
      | _ => cases h
  | index base is l, h => by
    simp only [substitute, same, Bool.and_eq_true] at h
    rw [substitute, eq_of_same_substitute h.1, eq_of_sameAll_substituteAll h.2]
  | call f args l, h => by
    simp only [substitute, same, Bool.and_eq_true] at h
    rw [substitute, eq_of_sameAll_substituteAll h.2]
  | range a b l, h => by
    simp only [substitute, same, Bool.and_eq_true] at h
    rw [substitute, eq_of_same_substitute h.1, eq_of_same_substitute h.2]
  | stepped a b s l, h => by
    simp only [substitute, same, Bool.and_eq_true] at h
    obtain ⟨⟨ha, hb⟩, hs⟩ := h
    rw [substitute, eq_of_same_substitute ha, eq_of_same_substitute hb, eq_of_same_substitute hs]
  | array xs shape l, h => by
    simp only [substitute, same, Bool.and_eq_true] at h
    rw [substitute, eq_of_sameAll_substituteAll h.1]

theorem eq_of_sameAll_substituteAll {m : Mapping} : ∀ {es : List Expr},
    sameAll (substituteAll m es) es → substituteAll m es = es
  | [], _ => rfl
  | e :: es, h => by
    simp only [substituteAll, sameAll, Bool.and_eq_true] at h
    rw [substituteAll, eq_of_same_substitute h.1, eq_of_sameAll_substituteAll h.2]

end

mutual

/-- Names are replaced as by the substitution, and what is kept is what the substitution leaves. -/
theorem replace_eq (m : Mapping) : ∀ e : Expr, (e.replace m).expr = e.substitute m ∧
    ((e.replace m).itself → e.substitute m = e)
  | literal .. | colon _ => ⟨rfl, fun _ => rfl⟩
  | name x => by
    rw [replace, substitute]
    cases m.lookup x with
    | none => exact ⟨rfl, fun _ => rfl⟩
    | some e => exact ⟨rfl, nofun⟩
  | index base is l => by
    obtain ⟨hbase, hkept⟩ := replace_eq m base
    obtain ⟨his, -⟩ := replaceAll_eq m is
    simp only [replace, substitute, hbase, his]
    split
    · next h =>
      obtain ⟨hitself, hsame⟩ := Bool.and_eq_true_iff.1 h
      rw [hkept hitself, eq_of_sameAll_substituteAll hsame]
      exact ⟨rfl, fun _ => rfl⟩
    · exact ⟨rfl, nofun⟩
  | call f args l => by
    obtain ⟨hargs, hkept⟩ := replaceAll_eq m args
    simp only [replace, substitute, hargs]
    split
    · next h =>
      rw [hkept h]
      exact ⟨rfl, fun _ => rfl⟩
    · exact ⟨rfl, nofun⟩
  | range a b l => by
    rw [replace, substitute, (replace_eq m a).1, (replace_eq m b).1]
    exact ⟨rfl, nofun⟩
  | stepped a b s l => by
    rw [replace, substitute, (replace_eq m a).1, (replace_eq m b).1, (replace_eq m s).1]
    exact ⟨rfl, nofun⟩
  | array xs shape l => by
    rw [replace, substitute, (replaceAll_eq m xs).1]
    exact ⟨rfl, nofun⟩

theorem replaceAll_eq (m : Mapping) : ∀ es : List Expr,
    (replaceAll m es).map (·.expr) = substituteAll m es ∧
      ((replaceAll m es).all (·.itself) → substituteAll m es = es)
  | [] => ⟨rfl, fun _ => rfl⟩
  | e :: es => by
    obtain ⟨he, hkept⟩ := replace_eq m e
    obtain ⟨hes, hkepts⟩ := replaceAll_eq m es
    rw [replaceAll, substituteAll, List.map_cons, he, hes]
    refine ⟨rfl, fun h => ?_⟩
    rw [List.all_cons, Bool.and_eq_true] at h
    rw [hkept h.1, hkepts h.2]

end

end Expr

/-- A mapping that does not have a name is the same without it. -/
theorem Mapping.without_of_lookup {m : Mapping} {x : String} (h : m.lookup x = none) :
    m.without x = m := by
  refine List.filter_eq_self.2 fun p hp => decide_eq_true fun hpx => ?_
  have := List.lookup_isSome_iff.2 ⟨p, hp, beq_iff_eq.2 hpx.symm⟩
  rw [h] at this
  cases this

namespace Stmt

mutual

theorem replace_eq (m : Mapping) : ∀ s : Stmt, s.replace m = s.substitute m
  | assign .. | sample .. => by simp only [replace, substitute, (Expr.replace_eq m _).1]
  | loop i lower upper body l => by
    have hinner : (if (m.lookup i).isSome then m.without i else m) = m.without i := by
      cases h : m.lookup i with
      | none => exact (Mapping.without_of_lookup h).symm
      | some e => rfl
    simp only [replace, substitute, (Expr.replace_eq m _).1, hinner,
      replaceAll_eq (m.without i) body]
  | branch condition body l => by
    simp only [replace, substitute, (Expr.replace_eq m _).1, replaceAll_eq m body]

theorem replaceAll_eq (m : Mapping) : ∀ ss : List Stmt, replaceAll m ss = substituteAll m ss
  | [] => rfl
  | s :: rest => by rw [replaceAll, substituteAll, replace_eq m s, replaceAll_eq m rest]

end

end Stmt

end PlateModel
