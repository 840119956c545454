import PlateModel.Proofs.Resolution.Depth

/-!
# Evaluation in plain values

Folding puts a constant in the place of every call, so the calls around it are applied to numbers
and to arrays made of lists of numbers, never to cells. The value of an expression in plain values
is computed in this way: the value of each call is made plain before it is used. It is what partial
evaluation comes to.

* `Value.plain?`: a numerical value as a plain one.
* `Expr.evalPlain`: the value of an expression in plain values.
* `Comes.evalPlain`: what an expression comes to is its value in plain values.
-/

namespace PlateModel

/-- A numerical value as a plain one: the number that it is or has as its only cell, or the array
that its numbers are made into. -/
def Value.plain? (v : Value) : Except Failure Value :=
  match v.unwrap with
  | number n => .ok (number n)
  | tensor t =>
    match Expr.numbers? t.cells with
    | some ns => (arrayOf (ns.map number) (t.shape.map Int.ofNat)).map tensor
    | none => .error .unsuitableKind
  | _ => .error .unsuitableKind

namespace Expr

mutual

/-- The value of an expression, every call giving a plain value. -/
def evalPlain (env : Environment) : Expr → Except Failure Value
  | literal v _ => .ok (.number v)
  | name x =>
    match env x with
    | some v => .ok v
    | none => .error .unboundName
  | call f args _ =>
    match evalAllPlain env args with
    | .error e => .error e
    | .ok values =>
      match Callee.of? f values.length with
      | some callee => do (← callee.apply values).plain?
      | none => .error .unsuitableKind
  | array xs shape _ =>
    match evalAllPlain env xs with
    | .error e => .error e
    | .ok values => (Value.arrayOf values shape).map .tensor
  | index .. | range .. | stepped .. | colon .. => .error .unsuitableKind

/-- The values of some expressions, every call giving a plain value. -/
def evalAllPlain (env : Environment) : List Expr → Except Failure (List Value)
  | [] => .ok []
  | x :: xs =>
    match evalPlain env x with
    | .error e => .error e
    | .ok v => (evalAllPlain env xs).map (v :: ·)

end

/-! ## The values of constants -/

/-- The value of a constant that a value is made into is the plain value. -/
theorem constant?_ofValue? {l : Option Location} {v : Value} {e : Expr}
    (h : ofValue? l v = some e) : e.constant? = v.plain?.map some := by
  cases hv : v.unwrap with
  | number n =>
    simp only [ofValue?, hv] at h
    cases h
    simp only [Value.plain?, hv]
    rfl
  | tensor t =>
    simp only [ofValue?, hv] at h
    obtain ⟨ns, hns, rfl⟩ := Option.map_eq_some_iff.1 h
    simp only [Value.plain?, hv, hns, constant?, literals?_ofNumber]
    cases Value.arrayOf (ns.map .number) _ <;> rfl
  | _ => simp [ofValue?, hv] at h

theorem constants?_of_literals? : ∀ {es : List Expr} {ns : List Number}, literals? es = some ns →
    constants? es = .ok (some (ns.map .number))
  | [], _, h => by cases h; rfl
  | literal v k :: es, ns, h => by
    obtain ⟨ws, hws, rfl⟩ := Option.map_eq_some_iff.1 h
    rw [constants?, constants?_of_literals? hws]
    rfl

theorem length_of_constants? : ∀ {es : List Expr} {vs : List Value},
    constants? es = .ok (some vs) → vs.length = es.length
  | [], _, h => by cases h; rfl
  | e :: es, vs, h => by
    simp only [constants?] at h
    split at h
    · cases h
    · next o _ =>
      cases hes : constants? es with
      | error f => rw [hes] at h; cases h
      | ok os =>
        cases o <;> cases os <;> simp [hes, Except.map] at h
        subst h
        rw [List.length_cons, List.length_cons, length_of_constants? hes]

/-- A call is folded to the plain value of what it calls. -/
theorem apply_of_foldCall {f : String} {args : List Expr} {l : Option Location} {r : Expr × Nat}
    {values : List Value} {v : Value} (h : foldCall f args l = .ok r)
    (hargs : constants? args = .ok (some values)) (hv : r.1.constant? = .ok (some v)) :
    ∃ callee u, Callee.of? f values.length = some callee ∧ callee.apply values = .ok u ∧
      u.plain? = .ok v := by
  simp only [foldCall, hargs] at h
  rw [length_of_constants? hargs]
  split at h
  · cases h
    cases hv
  · next callee hcallee =>
    obtain ⟨hcallee, -⟩ := Option.filter_eq_some_iff.1 hcallee
    split at h
    · next u hu =>
      split at h
      · next e he =>
        cases h
        rw [constant?_ofValue? he] at hv
        obtain ⟨w, hw, hwv⟩ := map_eq_ok.1 hv
        cases hwv
        exact ⟨callee, u, hcallee, hu, hw⟩
      · cases h
        cases hv
    · split at h
      · cases h
        cases hv
      · cases h

end Expr

/-! ## What expressions come to -/

variable {m : Mapping} {env : Environment}

/-- Names have the values of the constants that they come to. -/
def Environment.Holds (env : Environment) (m : Mapping) (names : List String) : Prop :=
  ∀ y ∈ names, ∀ c v, Comes m (.name y) c → c.constant? = .ok (some v) → env y = some v

mutual

/-- The constant that an expression comes to is its value in plain values. -/
theorem Comes.evalPlain {e c : Expr} : Comes m e c → env.Holds m e.names →
    ∃ v, c.constant? = .ok (some v) ∧ e.evalPlain env = .ok v
  | .literal v k, _ => ⟨.number v, rfl, rfl⟩
  | @Comes.name _ x _ c hx h, henv => by
    obtain ⟨v, hv⟩ := h.isConstant
    refine ⟨v, hv, ?_⟩
    simp only [Expr.evalPlain, henv x (List.mem_singleton.2 rfl) c v (.name hx h) hv]
  | .call hargs hc hv, henv => by
    obtain ⟨values, hvalues, heval⟩ := hargs.evalAllPlain henv
    obtain ⟨callee, u, hcallee, hu, hplain⟩ := Expr.apply_of_foldCall hc hvalues hv
    refine ⟨_, hv, ?_⟩
    simp only [Expr.evalPlain, heval, hcallee, hu, hplain, bind, Except.bind]
  | @Comes.array _ xs cs shape l v hxs hv, henv => by
    obtain ⟨values, hvalues, heval⟩ := hxs.evalAllPlain henv
    refine ⟨v, hv, ?_⟩
    simp only [Expr.constant?] at hv
    split at hv
    · cases hv
    · next ns hns =>
      cases hvalues.symm.trans (Expr.constants?_of_literals? hns)
      obtain ⟨t, ht, hv⟩ := map_eq_ok.1 hv
      cases hv
      simp only [Expr.evalPlain, heval, ht, Except.map]

theorem ComesAll.evalAllPlain {es cs : List Expr} : ComesAll m es cs →
    env.Holds m (Expr.namesOfAll es) →
    ∃ vs, Expr.constants? cs = .ok (some vs) ∧ Expr.evalAllPlain env es = .ok vs
  | .nil, _ => ⟨[], rfl, rfl⟩
  | .cons h hs, henv => by
    obtain ⟨v, hv, heval⟩ := h.evalPlain fun y hy => henv y (List.mem_append_left _ hy)
    obtain ⟨vs, hvs, hevals⟩ := hs.evalAllPlain fun y hy => henv y (List.mem_append_right _ hy)
    refine ⟨v :: vs, ?_, ?_⟩
    · simp only [Expr.constants?, hv, hvs, Except.map]
    · simp only [Expr.evalAllPlain, heval, hevals, Except.map]

end

end PlateModel
