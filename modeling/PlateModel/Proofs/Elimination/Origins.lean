import PlateModel.Proofs.Elimination.Steps

/-!
# Origins of factors

Beside its distribution a factor can carry the names of the vertices whose factors it was made of.
The names have no say in what happens: when they are forgotten, what is left is what happens without
them. So what is proved of the origins tells where the factors of a query come from.

* `FactorRules.traced`: rules under which the origins of factors are known.
* `Factor.plain`, `Factors.plain`: factors without their origins.
* `Factors.plain_eliminateAll`, `FactorGraph.plain_observe`: forgetting origins before or after.
-/

namespace PlateModel

variable {δ ν ρ : Type} {rules : FactorRules δ ν ρ}

/-- The rules for factors whose origins are known: a product has those of both factors, and the
factor of an observed vertex is that of this vertex. -/
def FactorRules.traced (rules : FactorRules δ ν ρ) : FactorRules (δ × List String) ν ρ where
  product scope d e := (rules.product scope d.1 e.1).map (·, d.2 ++ e.2)
  observed x value prior := (rules.observed x value prior.1).map (·.map (·, [x]))
  report d := rules.report d.1
  nothing := rules.nothing

namespace Factor

/-- The vertices whose factors a factor was made of. -/
def origins (f : Factor (δ × List String)) : List String := f.distribution.2

/-- A factor without its origins. -/
def plain (f : Factor (δ × List String)) : Factor δ := ⟨f.scope, f.distribution.1, f.parents⟩

/-- A factor with its origins. -/
def withOrigins (f : Factor δ) (names : List String) : Factor (δ × List String) :=
  ⟨f.scope, (f.distribution, names), f.parents⟩

variable {f g : Factor (δ × List String)} {x : String}

@[simp] theorem plain_scope : f.plain.scope = f.scope := rfl

theorem plain_without : (f.without x).plain = f.plain.without x := rfl

theorem plain_multiply :
    (f.multiply rules.traced g).map plain = f.plain.multiply rules g.plain := by
  simp only [multiply, FactorRules.traced, plain]
  cases rules.product (f.scope ++ g.scope).eraseDups f.distribution.1 g.distribution.1 <;> rfl

theorem plain_product : ∀ {fs : List (Factor (δ × List String))} {f : Factor (δ × List String)},
    (product rules.traced f fs).map plain = product rules f.plain (fs.map plain)
  | [], _ => rfl
  | g :: fs, f => by
    rw [product, List.foldlM_cons, List.map_cons, product, List.foldlM_cons, ← plain_multiply]
    cases f.multiply rules.traced g with
    | error e => rfl
    | ok p => exact plain_product

/-- A product has the origins of all of its factors. -/
theorem origins_product : ∀ {fs : List (Factor (δ × List String))}
    {f p : Factor (δ × List String)}, product rules.traced f fs = .ok p →
      p.origins = (f :: fs).flatMap origins
  | [], f, p, h => by
    cases h
    simp
  | g :: fs, f, p, h => by
    obtain ⟨q, hq, h⟩ := bind_eq_ok.1 h
    obtain ⟨d, hd, hq⟩ := bind_eq_ok.1 hq
    obtain ⟨d, -, rfl⟩ := map_eq_ok.1 hd
    cases hq
    rw [origins_product h]
    simp [origins]

end Factor

namespace Factors

/-- Factors without their origins. -/
def plain (fs : Factors (δ × List String)) : Factors δ := fs.map Factor.plain

variable {fs : Factors (δ × List String)} {x : String}

theorem plain_values : fs.plain.values = fs.values.map Factor.plain := Assoc.values_map

theorem plain_relevant :
    fs.plain.relevant x = (fs.relevant x).map fun e => (e.1, e.2.plain) := by
  rw [relevant, plain, Assoc.map, List.filter_map]
  rfl

/-- The factors that are left when those that mention a variable are erased by their names. -/
def left (fs : Factors δ) (x : String) : Factors δ :=
  (fs.relevant x).foldl (fun fs (k, _) => fs.erase k) fs

theorem plain_left : (fs.left x).plain = fs.plain.left x := by
  have hnames : (fs.plain.relevant x).map (·.1) = (fs.relevant x).map (·.1) := by
    rw [plain_relevant, List.map_map]
    rfl
  have hleft : (fs.left x).entries = _ := entries_erase _ fs
  have hplain : (fs.plain.left x).entries = _ := entries_erase _ fs.plain
  refine congrArg Assoc.mk (Eq.trans ?_ hplain.symm)
  rw [hleft, hnames, plain, Assoc.map, List.filter_map]
  rfl

theorem plain_eliminate :
    (fs.eliminate rules.traced x).map plain = fs.plain.eliminate rules x := by
  have hvalues :
      (fs.plain.relevant x).map (·.2) = ((fs.relevant x).map (·.2)).map Factor.plain := by
    rw [plain_relevant, List.map_map, List.map_map]
    rfl
  rw [eliminate, eliminate, ← relevant, ← relevant, ← left, ← left, hvalues, ← plain_left]
  cases (fs.relevant x).map (·.2) with
  | nil => rfl
  | cons f rest =>
    simp only [List.map_cons]
    rw [← Factor.plain_product]
    cases Factor.product rules.traced f rest with
    | error e => rfl
    | ok p =>
      simp only [bind, Except.bind, Except.map, pure, Except.pure, ← Factor.plain_without,
        Factor.plain_scope]
      cases (p.without x).scope with
      | nil => rfl
      | cons k vs => exact congrArg Except.ok (Assoc.map_put ..)

theorem plain_eliminateAll : ∀ {xs : List String} {fs : Factors (δ × List String)},
    (fs.eliminateAll rules.traced xs).map plain = fs.plain.eliminateAll rules xs
  | [], _ => rfl
  | x :: xs, fs => by
    rw [eliminateAll, eliminateAll, ← plain_eliminate]
    cases fs.eliminate rules.traced x with
    | error e => rfl
    | ok fs' => exact plain_eliminateAll

end Factors

namespace FactorGraph

/-- A graph in which the factor of every vertex comes from this vertex. -/
def traced (g : FactorGraph δ) : FactorGraph (δ × List String) :=
  g.map fun (x, f) => (x, f.map (·.withOrigins [x]))

variable {g : FactorGraph δ}

theorem find_traced (x : String) :
    g.traced.find x = (g.find x).map (·.map (·.withOrigins [x])) := by
  rw [find, find, traced]
  induction g with
  | nil => rfl
  | cons v g ih =>
    obtain ⟨y, f⟩ := v
    rw [List.map_cons, List.lookup_cons, List.lookup_cons]
    cases hxy : x == y with
    | true =>
      obtain rfl := eq_of_beq hxy
      rfl
    | false => exact ih

theorem plain_factors : g.traced.factors.plain = g.factors := by
  rw [factors, factors, Factors.plain, Assoc.map_ofList, traced, List.filterMap_map,
    List.map_filterMap]
  congr 2
  funext v
  obtain ⟨x, _ | f⟩ := v <;> rfl

theorem plain_observe {evidence : List (String × ν)} : ∀ {fs : Factors (δ × List String)},
    (g.traced.observe rules.traced fs evidence).map Factors.plain =
      g.observe rules fs.plain evidence := by
  induction evidence with
  | nil => exact fun {fs} => rfl
  | cons p evidence ih =>
    obtain ⟨x, value⟩ := p
    intro fs
    rw [observe, observe, find_traced]
    cases g.find x with
    | error e => rfl
    | ok f =>
      cases f with
      | none => rfl
      | some f =>
        simp only [Factors.observe, FactorRules.traced, Except.map, Option.map, Factor.withOrigins,
          bind, Except.bind]
        cases rules.observed x value f.distribution with
        | error e => rfl
        | ok d =>
          cases d with
          | none => exact ih
          | some d =>
            refine ih.trans ?_
            rw [Factors.plain, Assoc.map_put]
            rfl

end FactorGraph

end PlateModel
