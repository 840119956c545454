import PlateModel.Proofs.Model.Atoms
import PlateModel.Proofs.Model.Substitution
import PlateModel.Proofs.Table

/-!
# Literals in the place of names

Literals that are put in the place of names change nothing but the atoms that are names of the
mapping and are not bound, and each of these becomes its literal. It follows that they can be put
in one after the other, in any order, and that no name of the mapping is free afterwards.

* `Tree.substitute`, `Tree.replace`: names replaced, everything built again or what does not change
  kept; `Tree.replace_eq` says that both give the same tree.
* `Tree.outline_substitute`, `Tree.atoms_substitute`: what becomes of a tree.
* `Tree.foldl_substitute`: literals are put in one after the other.
* `Tree.replace_literals`: the laws of replacing names by literals.
-/

namespace PlateModel

/-! ## Atoms -/

/-- The mapping without some names. -/
def Mapping.outside (m : Mapping) (bound : List String) : Mapping := bound.foldl Mapping.without m

theorem Mapping.lookup_outside (m : Mapping) (bound : List String) (x : String) :
    (m.outside bound).lookup x = if x ∈ bound then none else m.lookup x := by
  induction bound generalizing m with
  | nil => rfl
  | cons i bound ih =>
    rw [Mapping.outside, List.foldl_cons, ← Mapping.outside, ih, Mapping.lookup_without]
    by_cases hxi : x = i <;> simp [hxi]

namespace Atom

/-- The atom with the literal of the mapping in its place, if it is a name that no loop binds. -/
def substitute (m : Mapping) : Atom → Atom
  | literal v k => literal v k
  | name x bound =>
    match (m.outside bound).lookup x with
    | some (.literal v k) => literal v k
    | _ => name x bound

/-- In the body of a loop, the mapping does not have the variable of the loop. -/
theorem substitute_under (m : Mapping) (i : String) (a : Atom) :
    (a.under i).substitute m = (a.substitute (m.without i)).under i := by
  cases a with
  | literal v k => rfl
  | name x bound =>
    have houtside : m.outside (i :: bound) = (m.without i).outside bound := rfl
    simp only [under, substitute, houtside]
    split <;> rfl

theorem substitute_of_free {m : Mapping} {x : String} {a : Atom} {v : Number} {k : Nat}
    (ha : a.Free x) (hx : m.lookup x = some (.literal v k)) : a.substitute m = literal v k := by
  obtain ⟨bound, rfl, hbound⟩ := ha
  rw [substitute, Mapping.lookup_outside, if_neg hbound, hx]

/-- Names that are bound or not in the mapping are left, and so are constants. -/
theorem substitute_eq_self {m : Mapping} {a : Atom} (h : ∀ x, a.Free x → m.lookup x = none) :
    a.substitute m = a := by
  cases a with
  | literal v k => rfl
  | name x bound =>
    rw [substitute, Mapping.lookup_outside]
    split
    · next hx =>
      split at hx
      · cases hx
      · next hbound =>
        rw [h x ⟨bound, rfl, hbound⟩] at hx
        cases hx
    · rfl

/-- What is free afterwards was free, and is not in a mapping of literals. -/
theorem not_free_substitute {m : Mapping} (hm : m.Literal) {x : String} {e : Expr}
    (hx : m.lookup x = some e) (a : Atom) : ¬ (a.substitute m).Free x := by
  obtain ⟨v, k, rfl⟩ := hm hx
  rintro ⟨bound, ha, hbound⟩
  cases a with
  | literal w j => cases ha
  | name y bound' =>
    rw [substitute, Mapping.lookup_outside] at ha
    split at ha
    · cases ha
    · next hne =>
      cases ha
      exact hne v k (by rw [if_neg hbound, hx])

end Atom

/-! ## Expressions and statements -/

namespace Expr

variable {m : Mapping}

mutual

/-- Literals in the place of names leave the outline. -/
theorem outline_substitute (hm : m.Literal) : ∀ e : Expr, (e.substitute m).outline = e.outline
  | literal .. | colon _ => rfl
  | name x => by
    rcases substitute_name hm x with h | ⟨v, k, h⟩
    · rw [h]
    · rw [h]
      rfl
  | index base is l => by
    simp only [substitute, outline, outline_substitute hm base, outlineAll_substituteAll hm is]
  | call f args l => by simp only [substitute, outline, outlineAll_substituteAll hm args]
  | range a b l => by
    simp only [substitute, outline, outline_substitute hm a, outline_substitute hm b]
  | stepped a b s l => by
    simp only [substitute, outline, outline_substitute hm a, outline_substitute hm b,
      outline_substitute hm s]
  | array xs shape l => by simp only [substitute, outline, outlineAll_substituteAll hm xs]

theorem outlineAll_substituteAll (hm : m.Literal) : ∀ es : List Expr,
    outlineAll (substituteAll m es) = outlineAll es
  | [] => rfl
  | e :: es => by
    simp only [substituteAll, outlineAll, outline_substitute hm e, outlineAll_substituteAll hm es]

end

mutual

/-- Literals are put in the place of the atoms one by one. -/
theorem atoms_substitute (hm : m.Literal) : ∀ e : Expr,
    (e.substitute m).atoms = e.atoms.map (.substitute m)
  | literal .. | colon _ => rfl
  | name x => by
    have houtside : m.outside [] = m := rfl
    simp only [substitute, atoms, List.map_singleton, Atom.substitute, houtside]
    cases h : m.lookup x with
    | none => rfl
    | some e =>
      obtain ⟨v, k, rfl⟩ := hm h
      rfl
  | index base is l => by
    simp only [substitute, atoms, List.map_append, atoms_substitute hm base,
      atomsOfAll_substituteAll hm is]
  | call f args l => by simp only [substitute, atoms, atomsOfAll_substituteAll hm args]
  | range a b l => by
    simp only [substitute, atoms, List.map_append, atoms_substitute hm a, atoms_substitute hm b]
  | stepped a b s l => by
    simp only [substitute, atoms, List.map_append, atoms_substitute hm a, atoms_substitute hm b,
      atoms_substitute hm s]
  | array xs shape l => by simp only [substitute, atoms, atomsOfAll_substituteAll hm xs]

theorem atomsOfAll_substituteAll (hm : m.Literal) : ∀ es : List Expr,
    atomsOfAll (substituteAll m es) = (atomsOfAll es).map (.substitute m)
  | [] => rfl
  | e :: es => by
    simp only [substituteAll, atomsOfAll, List.map_append, atoms_substitute hm e,
      atomsOfAll_substituteAll hm es]

end

end Expr

namespace Stmt

mutual

theorem outline_substitute {m : Mapping} (hm : m.Literal) : ∀ s : Stmt,
    (s.substitute m).outline = s.outline
  | assign .. | sample .. => by simp only [substitute, outline, Expr.outline_substitute hm]
  | loop i lower upper body l => by
    simp only [substitute, outline, Expr.outline_substitute hm,
      outlineAll_substituteAll (hm.without i) body]
  | branch condition body l => by
    simp only [substitute, outline, Expr.outline_substitute hm, outlineAll_substituteAll hm body]

theorem outlineAll_substituteAll {m : Mapping} (hm : m.Literal) : ∀ ss : List Stmt,
    outlineAll (substituteAll m ss) = outlineAll ss
  | [] => rfl
  | s :: rest => by
    simp only [substituteAll, outlineAll, outline_substitute hm s,
      outlineAll_substituteAll hm rest]

end

mutual

/-- Literals are put in the place of the atoms one by one, loops notwithstanding: that the mapping
is smaller in their bodies is what it means for an atom to be bound. -/
theorem atoms_substitute {m : Mapping} (hm : m.Literal) : ∀ s : Stmt,
    (s.substitute m).atoms = s.atoms.map (.substitute m)
  | assign .. | sample .. => by
    simp only [substitute, atoms, List.map_append, Expr.atoms_substitute hm]
  | loop i lower upper body l => by
    simp only [substitute, atoms, List.map_append, List.map_map, Function.comp_def,
      Expr.atoms_substitute hm, atomsOfAll_substituteAll (hm.without i) body,
      Atom.substitute_under]
  | branch condition body l => by
    simp only [substitute, atoms, List.map_append, Expr.atoms_substitute hm,
      atomsOfAll_substituteAll hm body]

theorem atomsOfAll_substituteAll {m : Mapping} (hm : m.Literal) : ∀ ss : List Stmt,
    atomsOfAll (substituteAll m ss) = (atomsOfAll ss).map (.substitute m)
  | [] => rfl
  | s :: rest => by
    simp only [substituteAll, atomsOfAll, List.map_append, atoms_substitute hm s,
      atomsOfAll_substituteAll hm rest]

end

end Stmt

/-! ## Trees -/

namespace Tree

/-- The tree with the free names of the mapping replaced. -/
def substitute (m : Mapping) : Tree → Tree
  | expr e => expr (e.substitute m)
  | stmt s => stmt (s.substitute m)
  | program p => program (p.substitute m)

/-- The tree with the free names of the mapping replaced, kept where nothing changes. -/
def replace (m : Mapping) (t : Tree) : Tree :=
  if m.isEmpty then t
  else match t with
    | expr e => expr (e.replace m).expr
    | stmt s => stmt (s.replace m)
    | program p => program { p with statements := Stmt.replaceAll m p.statements }

variable {t : Tree} {m m' : Mapping}

theorem substitute_nil (t : Tree) : t.substitute [] = t := by
  cases t <;>
    simp only [substitute, Program.substitute, Expr.substitute_nil, Stmt.substitute_nil,
      Stmt.substituteAll_nil]

/-- What changes is not kept. -/
theorem replace_eq (m : Mapping) (t : Tree) : t.replace m = t.substitute m := by
  unfold replace
  split
  · next h => rw [List.isEmpty_iff.1 h, substitute_nil]
  · cases t with
    | expr e => exact congrArg expr (Expr.replace_eq m e).1
    | stmt s => exact congrArg stmt (Stmt.replace_eq m s)
    | program p => simp only [substitute, Program.substitute, Stmt.replaceAll_eq]

theorem outline_substitute (hm : m.Literal) (t : Tree) :
    (t.substitute m).outline = t.outline := by
  cases t <;>
    simp only [substitute, Program.substitute, outline, Expr.outline_substitute hm,
      Stmt.outline_substitute hm, Stmt.outlineAll_substituteAll hm]

theorem atoms_substitute (hm : m.Literal) (t : Tree) :
    (t.substitute m).atoms = t.atoms.map (.substitute m) := by
  cases t with
  | expr e => exact Expr.atoms_substitute hm e
  | stmt s => exact Stmt.atoms_substitute hm s
  | program p => exact Stmt.atomsOfAll_substituteAll hm p.statements

/-- Of a mapping only matters which expressions its names have. -/
theorem substitute_congr (h : ∀ x, m.lookup x = m'.lookup x) (t : Tree) :
    t.substitute m = t.substitute m' := by
  cases t with
  | expr e => exact congrArg expr (Expr.substitute_congr fun x _ => h x)
  | stmt s => exact congrArg stmt (Stmt.substitute_congr h s)
  | program p =>
    simp only [substitute, Program.substitute, Stmt.substituteAll_congr h]

theorem substitute_append (hm : m.Literal) (m' : Mapping) (t : Tree) :
    (t.substitute m).substitute m' = t.substitute (m ++ m') := by
  cases t <;>
    simp only [substitute, Program.substitute, Expr.substitute_append hm,
      Stmt.substitute_append hm, Stmt.substituteAll_append hm]

/-- Literals can be put in one after the other. -/
theorem foldl_substitute {entries : Mapping} (h : ∀ p ∈ entries, ∃ v k, p.2 = .literal v k)
    (t : Tree) : entries.foldl (fun t p => t.substitute [p]) t = t.substitute entries := by
  induction entries generalizing t with
  | nil => exact (substitute_nil t).symm
  | cons p entries ih =>
    obtain ⟨⟨v, k, hp⟩, hentries⟩ := List.forall_mem_cons.1 h
    have hone : Mapping.Literal [p] := fun x e hx => by
      cases List.mem_singleton.1 (Assoc.mem_of_get? (t := ⟨[p]⟩) hx)
      exact ⟨v, k, hp⟩
    rw [List.foldl_cons, ih hentries, substitute_append hone, List.singleton_append]

end Tree

/-- The order of a mapping without double names does not matter. -/
theorem Mapping.lookup_of_perm {m m' : Mapping} (h : m'.Perm m) (hnames : (m.map (·.1)).Nodup)
    (x : String) : m'.lookup x = m.lookup x := by
  have hnames' : (m'.map (·.1)).Nodup := (h.map _).nodup_iff.2 hnames
  refine Option.ext fun e => ⟨fun hx => ?_, fun hx => ?_⟩
  · exact Assoc.get?_of_mem (t := ⟨m⟩) hnames (h.mem_iff.1 (Assoc.mem_of_get? (t := ⟨m'⟩) hx))
  · exact Assoc.get?_of_mem (t := ⟨m'⟩) hnames' (h.mem_iff.2 (Assoc.mem_of_get? (t := ⟨m⟩) hx))

namespace Tree

/-- Literals for different names. Replacing these in a tree, with what does not change kept, is the
same as building everything again, and as replacing them one after the other in any order. None of
them is free afterwards. The outcome is the outline of the tree with as many constants and names in
it: a free name of the mapping has become its literal, and every other one is as it was. -/
theorem replace_literals {m : Mapping} (hm : m.Literal) (hnames : (m.map (·.1)).Nodup) (t : Tree) :
    t.replace m = t.substitute m ∧
    (∀ entries : Mapping, entries.Perm m →
      entries.foldl (fun t p => t.replace [p]) t = t.replace m) ∧
    (∀ x ∈ m.map (·.1), ¬ (t.replace m).Free x) ∧
    t.replace m = t.outline.fill ((t.replace m).atoms.map (·.expr)) ∧
    (t.replace m).atoms.length = t.atoms.length ∧
    ∀ (k : Nat) (a : Atom), t.atoms[k]? = some a →
      (∀ x v j, a.Free x → m.lookup x = some (.literal v j) →
        (t.replace m).atoms[k]? = some (.literal v j)) ∧
      ((∀ x, a.Free x → x ∉ m.map (·.1)) → (t.replace m).atoms[k]? = some a) := by
  simp only [replace_eq]
  have hdomain {x : String} : x ∈ m.map (·.1) ↔ ∃ e, m.lookup x = some e :=
    Assoc.mem_keys_iff (t := ⟨m⟩)
  refine ⟨trivial, fun entries hentries => ?_, fun x hx => ?_, ?_, ?_, fun k a ha => ?_⟩
  · have hliteral : ∀ p ∈ entries, ∃ v k, p.2 = .literal v k := fun p hp =>
      hm (Assoc.get?_of_mem (t := ⟨m⟩) hnames (hentries.mem_iff.1 hp))
    rw [foldl_substitute hliteral, substitute_congr (Mapping.lookup_of_perm hentries hnames)]
  · obtain ⟨e, he⟩ := hdomain.1 hx
    rintro ⟨a, ha, hfree⟩
    rw [atoms_substitute hm] at ha
    obtain ⟨b, -, rfl⟩ := List.mem_map.1 ha
    exact Atom.not_free_substitute hm he b hfree
  · rw [← outline_substitute hm t, fill_outline]
  · rw [atoms_substitute hm, List.length_map]
  · have hbecomes : (t.substitute m).atoms[k]? = some (a.substitute m) := by
      rw [atoms_substitute hm, List.getElem?_map, ha, Option.map_some]
    rw [hbecomes]
    refine ⟨fun x v j hfree hx => ?_, fun h => ?_⟩
    · rw [Atom.substitute_of_free hfree hx]
    · rw [Atom.substitute_eq_self fun x hfree => ?_]
      exact Option.eq_none_iff_forall_ne_some.2 fun e he => h x hfree (hdomain.2 ⟨e, he⟩)

/-- A loop over `i` up to `i`, in it one over `j` from `i` to `n`, in it `x[i, j] = n`. -/
def nestedLoops : Tree :=
  .stmt (.loop "i" (.ofNumber (.int 1)) (.name "i")
    [.loop "j" (.name "i") (.name "n")
      [.assign (.index (.name "x") [.name "i", .name "j"] none) (.name "n") none] none] none)

/-- The loop with 5 for `i` and 3 for `n`: the bound is another one, and `i` stays in the body. -/
def nestedLoopsReplaced : Tree :=
  .stmt (.loop "i" (.ofNumber (.int 1)) (.ofNumber (.int 5))
    [.loop "j" (.name "i") (.ofNumber (.int 3))
      [.assign (.index (.name "x") [.name "i", .name "j"] none) (.ofNumber (.int 3)) none] none]
    none)

theorem replace_literals_nestedLoops :
    let m : Mapping := [("i", .ofNumber (.int 5)), ("n", .ofNumber (.int 3))]
    nestedLoops.replace m = nestedLoopsReplaced ∧
    (nestedLoops.replace [("n", .ofNumber (.int 3))]).replace [("i", .ofNumber (.int 5))] =
      nestedLoopsReplaced ∧
    ¬ nestedLoopsReplaced.Free "i" ∧
    nestedLoopsReplaced = nestedLoops.outline.fill (nestedLoopsReplaced.atoms.map (·.expr)) ∧
    nestedLoops.atoms[1]? = some (.name "i" []) ∧
    nestedLoopsReplaced.atoms[1]? = some (.literal (.int 5) 0) ∧
    nestedLoops.atoms[2]? = some (.name "i" ["i"]) ∧
    nestedLoopsReplaced.atoms[2]? = some (.name "i" ["i"]) := by
  intro m
  have hm : m.Literal := (Mapping.literal_nil.cons "n" (.int 3)).cons "i" (.int 5)
  obtain ⟨hsubstitute, horder, hfree, hfill, -, hatoms⟩ :=
    replace_literals hm (by decide) nestedLoops
  have hreplace : nestedLoops.replace m = nestedLoopsReplaced := hsubstitute.trans rfl
  rw [hreplace] at horder hfree hfill hatoms
  have hbound : ∀ x, (Atom.name "i" ["i"]).Free x → x ∉ m.map (·.1) := by
    rintro x ⟨bound, h, hx⟩
    cases h
    exact absurd (List.mem_singleton.2 rfl) hx
  exact ⟨hreplace, horder _ (.swap _ _ []), hfree "i" (by decide), hfill, rfl,
    (hatoms 1 _ rfl).1 "i" _ _ ⟨[], rfl, by decide⟩ rfl, rfl, (hatoms 2 _ rfl).2 hbound⟩

end Tree

end PlateModel
