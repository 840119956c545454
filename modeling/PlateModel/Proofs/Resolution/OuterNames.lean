import PlateModel.Model.Names
import PlateModel.Proofs.Computation
import PlateModel.Proofs.Model.References
import PlateModel.Resolution.Lowering
import PlateModel.Text.Identifier

/-!
# Names outside of index positions

Lowering leaves the names that stand outside of index positions, and it brings the names of cells,
which are no identifiers. So an identifier is in a lowered expression if and only if it stands
outside of index positions in the original. There, a literal that is put in its place takes it away.

* `Expr.outerNames`: the names outside of index positions.
* `mem_names_of_lower`: they are the identifiers that lowering leaves.
* `mem_outerNames_substitute`: they are taken away by literals in their places.
-/

namespace PlateModel

namespace Text

theorem identifierStart_bracket : identifierStart.contains '['.toNat = false := by
  rw [Boundaries.contains, ← Array.foldl_toList]
  decide +kernel

theorem identifierContinue_bracket : identifierContinue.contains '['.toNat = false := by
  rw [Boundaries.contains, ← Array.foldl_toList]
  decide +kernel

/-- An identifier has no bracket, so it is the name of no cell. -/
theorem bracket_not_mem {x : String} (h : isIdentifier x) : '[' ∉ x.toList := by
  unfold isIdentifier at h
  intro hmem
  split at h
  · next hx =>
    rw [hx] at hmem
    cases hmem
  · next c rest hx =>
    rw [hx] at hmem
    rw [Bool.and_eq_true, List.all_eq_true] at h
    rcases List.mem_cons.1 hmem with rfl | hmem
    · rw [identifierStart_bracket] at h
      cases h.1
    · have := h.2 _ hmem
      rw [identifierContinue_bracket] at this
      cases this

theorem isIdentifier_counter : isIdentifier "i" := by
  simp only [isIdentifier, Boundaries.contains, ← Array.foldl_toList]
  decide +kernel

end Text

theorem Cell.bracket_mem (c : Cell) : '[' ∈ c.name.toList := by
  simp [Cell.name]

namespace Expr

mutual

/-- The names of an expression that stand outside of index positions. -/
def outerNames : Expr → List String
  | literal .. | index .. | colon _ => []
  | name x => [x]
  | call _ args _ => outerNamesOfAll args
  | range a b _ => outerNames a ++ outerNames b
  | stepped a b s _ => outerNames a ++ (outerNames b ++ outerNames s)
  | array xs _ _ => outerNamesOfAll xs

/-- The names of some expressions that stand outside of index positions. -/
def outerNamesOfAll : List Expr → List String
  | [] => []
  | x :: xs => outerNames x ++ outerNamesOfAll xs

end

mutual

theorem outerNames_of_same : ∀ {a b : Expr}, a.same b → a.outerNames = b.outerNames
  | literal .., literal .., _ | index .., index .., _ | colon _, colon _, _ => rfl
  | name x, name y, h => by rw [outerNames, outerNames, eq_of_beq h]
  | call f xs _, call g ys _, h => by
    simp only [same, Bool.and_eq_true] at h
    rw [outerNames, outerNames, outerNamesOfAll_of_same h.2]
  | range a b _, range c d _, h => by
    simp only [same, Bool.and_eq_true] at h
    rw [outerNames, outerNames, outerNames_of_same h.1, outerNames_of_same h.2]
  | stepped a b s _, stepped c d t _, h => by
    simp only [same, Bool.and_eq_true] at h
    rw [outerNames, outerNames, outerNames_of_same h.1.1, outerNames_of_same h.1.2,
      outerNames_of_same h.2]
  | array xs s _, array ys t _, h => by
    simp only [same, Bool.and_eq_true] at h
    rw [outerNames, outerNames, outerNamesOfAll_of_same h.1]

theorem outerNamesOfAll_of_same : ∀ {as bs : List Expr}, sameAll as bs →
    outerNamesOfAll as = outerNamesOfAll bs
  | [], [], _ => rfl
  | a :: as, b :: bs, h => by
    simp only [sameAll, Bool.and_eq_true] at h
    rw [outerNamesOfAll, outerNamesOfAll, outerNames_of_same h.1, outerNamesOfAll_of_same h.2]

end

section Substitution

variable {m : Mapping} {x : String}

mutual

/-- Literals take away the names that they are put in the place of, and bring no names. -/
theorem mem_outerNames_substitute (hm : m.Literal) : ∀ {e : Expr},
    x ∈ (e.substitute m).outerNames ↔ x ∈ e.outerNames ∧ m.lookup x = none
  | literal .. | index .. | colon _ => by simp [substitute, outerNames]
  | name y => by
    rw [substitute]
    cases h : m.lookup y with
    | none =>
      simp only [Option.getD_none, outerNames, List.mem_singleton]
      exact ⟨fun hx => ⟨hx, hx ▸ h⟩, And.left⟩
    | some e =>
      obtain ⟨v, k, rfl⟩ := hm h
      simp only [Option.getD_some, outerNames, List.mem_singleton, List.not_mem_nil, false_iff]
      rintro ⟨rfl, hx⟩
      cases h.symm.trans hx
  | call _ args _ => by
    simp only [substitute, outerNames, mem_outerNamesOfAll_substituteAll hm]
  | range a b _ => by
    simp only [substitute, outerNames, List.mem_append, mem_outerNames_substitute hm, or_and_right]
  | stepped a b s _ => by
    simp only [substitute, outerNames, List.mem_append, mem_outerNames_substitute hm, or_and_right]
  | array xs _ _ => by
    simp only [substitute, outerNames, mem_outerNamesOfAll_substituteAll hm]

theorem mem_outerNamesOfAll_substituteAll (hm : m.Literal) : ∀ {es : List Expr},
    x ∈ outerNamesOfAll (substituteAll m es) ↔ x ∈ outerNamesOfAll es ∧ m.lookup x = none
  | [] => by simp [substituteAll, outerNamesOfAll]
  | e :: es => by
    simp only [substituteAll, outerNamesOfAll, List.mem_append, mem_outerNames_substitute hm,
      mem_outerNamesOfAll_substituteAll hm, or_and_right]

end

end Substitution

section Lowering

open Definitions

variable {d : Definitions} {x : String}

theorem not_mem_names_toExpr (hx : '[' ∉ x.toList) (ref : Reference) (l : Option Location) :
    x ∉ (ref.toExpr l).names := by
  have hcell (c : Cell) : x ≠ c.name := fun h => hx (h ▸ c.bracket_mem)
  cases ref with
  | one c => simpa [Reference.toExpr, names] using hcell c
  | block shape cells =>
    have hcells : ∀ cs : List Cell, x ∉ namesOfAll (cs.map fun c => .name c.name) := by
      intro cs
      induction cs with
      | nil => exact List.not_mem_nil
      | cons c cs ih =>
        rw [List.map_cons, namesOfAll, names, List.singleton_append, List.mem_cons, not_or]
        exact ⟨hcell c, ih⟩
    exact hcells cells

mutual

/-- What is not the name of a cell is in a lowered expression if and only if it stands outside of
index positions in the original. -/
theorem mem_names_of_lower (hx : '[' ∉ x.toList) : ∀ {e e' : Expr} {r r' : Registry},
    d.lower e r = (.ok e', r') → (x ∈ e'.names ↔ x ∈ e.outerNames)
  | literal .., _, _, _, h | name _, _, _, _, h | colon _, _, _, _, h => by
    rw [lower] at h
    cases h
    rfl
  | index base is l, _, _, _, h => by
    rw [lower] at h
    obtain ⟨_, _, -, h⟩ := run_bind_eq_ok.1 h
    obtain ⟨_, _, -, h⟩ := run_bind_eq_ok.1 h
    obtain ⟨ref, _, -, h⟩ := run_bind_eq_ok.1 h
    obtain ⟨rfl, -⟩ := run_pure_eq_ok.1 h
    exact ⟨fun h => absurd h (not_mem_names_toExpr hx ref l), nofun⟩
  | call f args l, _, _, _, h => by
    rw [lower] at h
    obtain ⟨args', _, hargs, h⟩ := run_bind_eq_ok.1 h
    obtain ⟨rfl, -⟩ := run_pure_eq_ok.1 h
    exact mem_namesOfAll_of_lowerAll hx hargs
  | range a b l, _, _, _, h => by
    rw [lower] at h
    obtain ⟨a', _, ha, h⟩ := run_bind_eq_ok.1 h
    obtain ⟨b', _, hb, h⟩ := run_bind_eq_ok.1 h
    obtain ⟨rfl, -⟩ := run_pure_eq_ok.1 h
    simp only [names, outerNames, List.mem_append, mem_names_of_lower hx ha,
      mem_names_of_lower hx hb]
  | stepped a b s l, _, _, _, h => by
    rw [lower] at h
    obtain ⟨s', _, hs, h⟩ := run_bind_eq_ok.1 h
    obtain ⟨a', _, ha, h⟩ := run_bind_eq_ok.1 h
    obtain ⟨b', _, hb, h⟩ := run_bind_eq_ok.1 h
    obtain ⟨rfl, -⟩ := run_pure_eq_ok.1 h
    simp only [names, outerNames, List.mem_append, mem_names_of_lower hx ha,
      mem_names_of_lower hx hb, mem_names_of_lower hx hs]
  | array xs shape l, _, _, _, h => by
    rw [lower] at h
    obtain ⟨xs', _, hxs, h⟩ := run_bind_eq_ok.1 h
    obtain ⟨rfl, -⟩ := run_pure_eq_ok.1 h
    exact mem_namesOfAll_of_lowerAll hx hxs

theorem mem_namesOfAll_of_lowerAll (hx : '[' ∉ x.toList) : ∀ {es es' : List Expr}
    {r r' : Registry}, d.lowerAll es r = (.ok es', r') →
      (x ∈ namesOfAll es' ↔ x ∈ outerNamesOfAll es)
  | [], _, _, _, h => by
    rw [lowerAll] at h
    cases h
    rfl
  | e :: es, _, _, _, h => by
    rw [lowerAll] at h
    obtain ⟨e', _, he, h⟩ := run_bind_eq_ok.1 h
    obtain ⟨es', _, hes, h⟩ := run_bind_eq_ok.1 h
    obtain ⟨rfl, -⟩ := run_pure_eq_ok.1 h
    simp only [namesOfAll, outerNamesOfAll, List.mem_append, mem_names_of_lower hx he,
      mem_namesOfAll_of_lowerAll hx hes]

end

end Lowering

end Expr

end PlateModel
