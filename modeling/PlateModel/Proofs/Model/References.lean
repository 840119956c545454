import PlateModel.Model.Substitution

/-!
# The array references of a tree

A reference is to a single cell if no range and no whole axis stands among its indices. An index is
evaluated, so what it refers to must be single cells if it is not to depend on how large an array
is. Expressions that are put in the place of loop variables are literals; they neither bring
references nor take any away.

* `Expr.references`: every reference of an expression, also those in indices.
* `Expr.SingleCells`, `Expr.SingleIndices`: every reference, or every reference in an index, is to a
  single cell.
* `Stmt.Every`: what holds of the bounds and guards, and of the sides of definitions.
-/

namespace PlateModel

namespace Expr

/-! ## References of expressions -/

mutual

/-- What stands before the indices, and the indices, of every array reference. Only a name can
stand before indices, so no references are looked for there. -/
def references : Expr → List (Expr × List Expr)
  | literal _ _ | name _ | colon _ => []
  | index base is _ => (base, is) :: referencesOfAll is
  | call _ args _ => referencesOfAll args
  | range a b _ => references a ++ references b
  | stepped a b s _ => references a ++ (references b ++ references s)
  | array xs _ _ => referencesOfAll xs

/-- The array references of some expressions. -/
def referencesOfAll : List Expr → List (Expr × List Expr)
  | [] => []
  | x :: xs => references x ++ referencesOfAll xs

end

/-- Whether an index stands for one position along its axis. -/
def isPoint : Expr → Bool
  | colon _ | range .. | stepped .. => false
  | _ => true

/-- Every reference is to a single cell. -/
def SingleCells (e : Expr) : Prop := ∀ r ∈ e.references, ∀ i ∈ r.2, i.isPoint

/-- Every reference inside an index is to a single cell. -/
def SingleIndices (e : Expr) : Prop := ∀ r ∈ e.references, ∀ i ∈ r.2, i.SingleCells

instance : DecidablePred SingleCells := fun e =>
  inferInstanceAs (Decidable (∀ r ∈ e.references, ∀ i ∈ r.2, i.isPoint))

instance : DecidablePred SingleIndices := fun e =>
  inferInstanceAs (Decidable (∀ r ∈ e.references, ∀ i ∈ r.2, i.SingleCells))

theorem mem_referencesOfAll {r : Expr × List Expr} {es : List Expr} :
    r ∈ referencesOfAll es ↔ ∃ e ∈ es, r ∈ e.references := by
  induction es with
  | nil => simp [referencesOfAll]
  | cons e es ih =>
    simp only [referencesOfAll, List.mem_append, ih, List.mem_cons, exists_eq_or_imp]

mutual

/-- The references in an index of a reference are references as well. -/
theorem references_of_index {r r' : Expr × List Expr} {i : Expr} : ∀ {e : Expr},
    r ∈ e.references → i ∈ r.2 → r' ∈ i.references → r' ∈ e.references
  | literal .., h, _, _ | name _, h, _, _ | colon _, h, _, _ => nomatch h
  | index base is l, h, hi, hr => by
    simp only [references, List.mem_cons] at h ⊢
    rcases h with rfl | h
    · exact .inr (mem_referencesOfAll.2 ⟨i, hi, hr⟩)
    · exact .inr (referencesOfAll_of_index h hi hr)
  | call f args l, h, hi, hr => @referencesOfAll_of_index _ _ _ args h hi hr
  | range a b l, h, hi, hr => by
    simp only [references, List.mem_append] at h ⊢
    exact h.imp (references_of_index · hi hr) (references_of_index · hi hr)
  | stepped a b s l, h, hi, hr => by
    simp only [references, List.mem_append] at h ⊢
    exact h.imp (references_of_index · hi hr)
      (Or.imp (references_of_index · hi hr) (references_of_index · hi hr))
  | array xs shape l, h, hi, hr => @referencesOfAll_of_index _ _ _ xs h hi hr

theorem referencesOfAll_of_index {r r' : Expr × List Expr} {i : Expr} : ∀ {es : List Expr},
    r ∈ referencesOfAll es → i ∈ r.2 → r' ∈ i.references → r' ∈ referencesOfAll es
  | [], h, _, _ => nomatch h
  | e :: es, h, hi, hr => by
    simp only [referencesOfAll, List.mem_append] at h ⊢
    exact h.imp (references_of_index · hi hr) (referencesOfAll_of_index · hi hr)

end

theorem SingleCells.singleIndices {e : Expr} (h : e.SingleCells) : e.SingleIndices :=
  fun _ hr _ hi _ hr' => h _ (references_of_index hr hi hr')

end Expr

/-! ## Substitution of literals -/

/-- Every expression of a mapping is a literal. -/
def Mapping.Literal (m : Mapping) : Prop :=
  ∀ ⦃x e⦄, m.lookup x = some e → ∃ v k, e = .literal v k

namespace Expr

variable {m : Mapping}

theorem substituteAll_eq_map (m : Mapping) (es : List Expr) :
    substituteAll m es = es.map (substitute m) := by
  induction es with
  | nil => rfl
  | cons e es ih => rw [substituteAll, ih, List.map_cons]

theorem substitute_name (hm : m.Literal) (x : String) :
    (name x).substitute m = name x ∨ ∃ v k, (name x).substitute m = literal v k := by
  simp only [substitute]
  cases h : m.lookup x with
  | none => exact .inl rfl
  | some e =>
    obtain ⟨v, k, rfl⟩ := hm h
    exact .inr ⟨v, k, rfl⟩

theorem isPoint_substitute (hm : m.Literal) (e : Expr) : (e.substitute m).isPoint = e.isPoint := by
  cases e with
  | name x => rcases substitute_name hm x with h | ⟨v, k, h⟩ <;> rw [h] <;> rfl
  | _ => rfl

mutual

/-- Putting literals in the place of names goes into the references, and makes no others. -/
theorem references_substitute (hm : m.Literal) : ∀ e : Expr,
    (e.substitute m).references =
      e.references.map fun r => (r.1.substitute m, substituteAll m r.2)
  | literal .. | colon _ => rfl
  | name x => by rcases substitute_name hm x with h | ⟨v, k, h⟩ <;> rw [h] <;> rfl
  | index base is l => by
    simp only [substitute, references, referencesOfAll_substituteAll hm is, List.map_cons]
  | call f args l => referencesOfAll_substituteAll hm args
  | range a b l => by
    simp only [substitute, references, references_substitute hm a, references_substitute hm b,
      List.map_append]
  | stepped a b s l => by
    simp only [substitute, references, references_substitute hm a, references_substitute hm b,
      references_substitute hm s, List.map_append]
  | array xs shape l => referencesOfAll_substituteAll hm xs

theorem referencesOfAll_substituteAll (hm : m.Literal) : ∀ es : List Expr,
    referencesOfAll (substituteAll m es) =
      (referencesOfAll es).map fun r => (r.1.substitute m, substituteAll m r.2)
  | [] => rfl
  | e :: es => by
    simp only [substituteAll, referencesOfAll, references_substitute hm e,
      referencesOfAll_substituteAll hm es, List.map_append]

end

theorem SingleCells.substitute (hm : m.Literal) {e : Expr} (h : e.SingleCells) :
    (e.substitute m).SingleCells := by
  intro r hr i hi
  rw [references_substitute hm] at hr
  obtain ⟨r', hr', rfl⟩ := List.mem_map.1 hr
  rw [substituteAll_eq_map] at hi
  obtain ⟨i', hi', rfl⟩ := List.mem_map.1 hi
  rw [isPoint_substitute hm]
  exact h r' hr' i' hi'

theorem SingleIndices.substitute (hm : m.Literal) {e : Expr} (h : e.SingleIndices) :
    (e.substitute m).SingleIndices := by
  intro r hr i hi
  rw [references_substitute hm] at hr
  obtain ⟨r', hr', rfl⟩ := List.mem_map.1 hr
  rw [substituteAll_eq_map] at hi
  obtain ⟨i', hi', rfl⟩ := List.mem_map.1 hi
  exact (h r' hr' i' hi').substitute hm

end Expr

/-! ## Statements -/

namespace Stmt

mutual

/-- The bounds and guards in a statement have one property, the sides of its definitions another. -/
def Every (p q : Expr → Prop) : Stmt → Prop
  | assign lhs rhs _ | sample lhs rhs _ => q lhs ∧ q rhs
  | loop _ lower upper body _ => p lower ∧ p upper ∧ EveryOfAll p q body
  | branch condition body _ => p condition ∧ EveryOfAll p q body

/-- The properties hold in every statement of a list. -/
def EveryOfAll (p q : Expr → Prop) : List Stmt → Prop
  | [] => True
  | s :: rest => Every p q s ∧ EveryOfAll p q rest

end

mutual

instance decidableEvery {p q : Expr → Prop} [DecidablePred p] [DecidablePred q] :
    ∀ s : Stmt, Decidable (s.Every p q)
  | assign lhs rhs _ | sample lhs rhs _ => inferInstanceAs (Decidable (q lhs ∧ q rhs))
  | loop _ lower upper body _ =>
    have := decidableEveryOfAll (p := p) (q := q) body
    inferInstanceAs (Decidable (p lower ∧ p upper ∧ EveryOfAll p q body))
  | branch condition body _ =>
    have := decidableEveryOfAll (p := p) (q := q) body
    inferInstanceAs (Decidable (p condition ∧ EveryOfAll p q body))

instance decidableEveryOfAll {p q : Expr → Prop} [DecidablePred p] [DecidablePred q] :
    ∀ ss : List Stmt, Decidable (EveryOfAll p q ss)
  | [] => inferInstanceAs (Decidable True)
  | s :: rest =>
    have := decidableEvery (p := p) (q := q) s
    have := decidableEveryOfAll (p := p) (q := q) rest
    inferInstanceAs (Decidable (Every p q s ∧ EveryOfAll p q rest))

end

theorem everyOfAll_iff {p q : Expr → Prop} {ss : List Stmt} :
    EveryOfAll p q ss ↔ ∀ s ∈ ss, s.Every p q := by
  induction ss with
  | nil => simp [EveryOfAll]
  | cons s rest ih => simp only [EveryOfAll, ih, List.forall_mem_cons]

theorem everyOfAll_append {p q : Expr → Prop} {ss ts : List Stmt} :
    EveryOfAll p q (ss ++ ts) ↔ EveryOfAll p q ss ∧ EveryOfAll p q ts := by
  simp only [everyOfAll_iff, List.forall_mem_append]

theorem EveryOfAll.perm {p q : Expr → Prop} {ss ts : List Stmt} (h : EveryOfAll p q ss)
    (hp : ss.Perm ts) : EveryOfAll p q ts :=
  everyOfAll_iff.2 fun s hs => everyOfAll_iff.1 h s (hp.mem_iff.2 hs)

mutual

theorem Every.imp {p q p' q' : Expr → Prop} (hp : ∀ e, p e → p' e) (hq : ∀ e, q e → q' e) :
    ∀ {s : Stmt}, s.Every p q → s.Every p' q'
  | assign .., h | sample .., h => ⟨hq _ h.1, hq _ h.2⟩
  | loop .., h => ⟨hp _ h.1, hp _ h.2.1, EveryOfAll.imp hp hq h.2.2⟩
  | branch .., h => ⟨hp _ h.1, EveryOfAll.imp hp hq h.2⟩

theorem EveryOfAll.imp {p q p' q' : Expr → Prop} (hp : ∀ e, p e → p' e) (hq : ∀ e, q e → q' e) :
    ∀ {ss : List Stmt}, EveryOfAll p q ss → EveryOfAll p' q' ss
  | [], _ => trivial
  | _ :: _, h => ⟨Every.imp hp hq h.1, EveryOfAll.imp hp hq h.2⟩

end

theorem Every.singleIndices {p : Expr → Prop} {s : Stmt} (h : s.Every p Expr.SingleCells) :
    s.Every p Expr.SingleIndices := h.imp (fun _ h => h) fun _ h => h.singleIndices

theorem EveryOfAll.singleIndices {p : Expr → Prop} {ss : List Stmt}
    (h : EveryOfAll p Expr.SingleCells ss) : EveryOfAll p Expr.SingleIndices ss :=
  h.imp (fun _ h => h) fun _ h => h.singleIndices

mutual

theorem every_of_forall {p q : Expr → Prop} (hp : ∀ e, p e) (hq : ∀ e, q e) :
    ∀ s : Stmt, s.Every p q
  | assign .. | sample .. => ⟨hq _, hq _⟩
  | loop _ _ _ body _ => ⟨hp _, hp _, everyOfAll_of_forall hp hq body⟩
  | branch _ body _ => ⟨hp _, everyOfAll_of_forall hp hq body⟩

theorem everyOfAll_of_forall {p q : Expr → Prop} (hp : ∀ e, p e) (hq : ∀ e, q e) :
    ∀ ss : List Stmt, EveryOfAll p q ss
  | [] => trivial
  | s :: rest => ⟨every_of_forall hp hq s, everyOfAll_of_forall hp hq rest⟩

end

end Stmt

theorem Mapping.lookup_without (m : Mapping) (x y : String) :
    (m.without x).lookup y = if y = x then none else m.lookup y := by
  induction m with
  | nil => simp [Mapping.without]
  | cons p m ih =>
    obtain ⟨z, e⟩ := p
    simp only [Mapping.without] at ih ⊢
    by_cases hz : z = x
    · rw [List.filter_cons_of_neg (by simpa using hz), ih, List.lookup_cons]
      split
      · rfl
      · next hy =>
        have : (y == z) = false := by simpa [hz] using hy
        rw [this]
    · rw [List.filter_cons_of_pos (by simpa using hz), List.lookup_cons, List.lookup_cons, ih]
      by_cases hyz : y = z
      · subst hyz
        simp [hz]
      · have : (y == z) = false := by simpa using hyz
        rw [this]

theorem Mapping.Literal.without {m : Mapping} (hm : m.Literal) (x : String) :
    (m.without x).Literal := by
  intro y e h
  rw [Mapping.lookup_without] at h
  split at h
  · cases h
  · exact hm h

/-- A property of expressions that literals in the place of names do not change. -/
def Stable (p : Expr → Prop) : Prop :=
  ∀ ⦃m : Mapping⦄ ⦃e : Expr⦄, m.Literal → p e → p (e.substitute m)

theorem stable_singleCells : Stable Expr.SingleCells := fun _ _ hm h => h.substitute hm

theorem stable_singleIndices : Stable Expr.SingleIndices := fun _ _ hm h => h.substitute hm

namespace Stmt

variable {p q : Expr → Prop}

mutual

/-- Stable properties survive the substitution of literals in statements. -/
theorem Every.substitute (hp : Stable p) (hq : Stable q) {m : Mapping} (hm : m.Literal) :
    ∀ {s : Stmt}, s.Every p q → (s.substitute m).Every p q
  | assign .., h | sample .., h => ⟨hq hm h.1, hq hm h.2⟩
  | loop i _ _ _ _, h =>
    ⟨hp hm h.1, hp hm h.2.1, EveryOfAll.substituteAll hp hq (hm.without i) h.2.2⟩
  | branch .., h => ⟨hp hm h.1, EveryOfAll.substituteAll hp hq hm h.2⟩

theorem EveryOfAll.substituteAll (hp : Stable p) (hq : Stable q) {m : Mapping} (hm : m.Literal) :
    ∀ {ss : List Stmt}, EveryOfAll p q ss → EveryOfAll p q (Stmt.substituteAll m ss)
  | [], h => h
  | _ :: _, h => ⟨Every.substitute hp hq hm h.1, EveryOfAll.substituteAll hp hq hm h.2⟩

end

end Stmt

end PlateModel
