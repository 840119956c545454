import PlateModel.Model.Tree

/-!
# Parts of trees

What a tree holds beside its shape: constants, names, what is called, loop variables, dimensions and
places. A condition on the parts is a condition on the tree that no proof has to carry through the
constructors again.

* `Expr.parts`, `Stmt.parts`, `Program.parts`: the parts of a tree.
* `Expr.same_refl`, `Stmt.same_refl`: every tree is the same as itself.
* `Program.words_of_same`: trees that are the same have the same words.
* `Expr.plain`, `Stmt.plain`: a tree with its places replaced and without the marks of its
  constants; trees of which these agree are the same, unless a constant is not a number.
-/

namespace PlateModel

/-- A part of a tree. -/
inductive Part
  | constant (v : Number)
  | name (x : String)
  /-- What a call calls. -/
  | head (f : String)
  /-- The variable of a loop. -/
  | counter (i : String)
  | dimension (i : Int)
  | place (l : Location)

/-- Whether a part is a word. -/
def Part.isWord : Part → Bool
  | name _ | head _ | counter _ => true
  | _ => false

/-- The place of a form, if it is known. -/
def placeParts (l : Option Location) : List Part := l.toList.map .place

namespace Expr

mutual

/-- The parts of an expression. -/
def parts : Expr → List Part
  | literal v _ => [.constant v]
  | name x => [.name x]
  | index base is l => placeParts l ++ (parts base ++ partsOfAll is)
  | call f args l => .head f :: (placeParts l ++ partsOfAll args)
  | range a b l => placeParts l ++ (parts a ++ parts b)
  | stepped a b s l => placeParts l ++ (parts a ++ (parts b ++ parts s))
  | colon l => placeParts l
  | array xs shape l => placeParts l ++ (shape.map .dimension ++ partsOfAll xs)

/-- The parts of some expressions. -/
def partsOfAll : List Expr → List Part
  | [] => []
  | x :: xs => parts x ++ partsOfAll xs

end

mutual

/-- An expression with its places replaced, without the marks of its constants. -/
def plain (place : Option Location → Option Location) : Expr → Expr
  | literal v _ => literal v 0
  | name x => name x
  | index base is l => index (plain place base) (plainAll place is) (place l)
  | call f args l => call f (plainAll place args) (place l)
  | range a b l => range (plain place a) (plain place b) (place l)
  | stepped a b s l => stepped (plain place a) (plain place b) (plain place s) (place l)
  | colon l => colon (place l)
  | array xs shape l => array (plainAll place xs) shape (place l)

/-- Several expressions without places and marks. -/
def plainAll (place : Option Location → Option Location) : List Expr → List Expr
  | [] => []
  | x :: xs => plain place x :: plainAll place xs

end

end Expr

namespace Stmt

mutual

/-- The parts of a statement. -/
def parts : Stmt → List Part
  | assign a b l | sample a b l => placeParts l ++ (a.parts ++ b.parts)
  | loop i a b body l => .counter i :: (placeParts l ++ (a.parts ++ (b.parts ++ partsOfAll body)))
  | branch c body l => placeParts l ++ (c.parts ++ partsOfAll body)

/-- The parts of some statements. -/
def partsOfAll : List Stmt → List Part
  | [] => []
  | s :: rest => parts s ++ partsOfAll rest

end

mutual

/-- A statement with its places replaced, without the marks of its constants. -/
def plain (place : Option Location → Option Location) : Stmt → Stmt
  | assign a b l => assign (a.plain place) (b.plain place) (place l)
  | sample a b l => sample (a.plain place) (b.plain place) (place l)
  | loop i a b body l =>
    loop i (a.plain place) (b.plain place) (plainAll place body) (place l)
  | branch c body l => branch (c.plain place) (plainAll place body) (place l)

/-- Several statements without places and marks. -/
def plainAll (place : Option Location → Option Location) : List Stmt → List Stmt
  | [] => []
  | s :: rest => plain place s :: plainAll place rest

end

end Stmt

namespace Program

def parts (p : Program) : List Part := placeParts p.location ++ Stmt.partsOfAll p.statements

/-- A program with its places replaced, without the marks of its constants. -/
def plain (place : Option Location → Option Location) (p : Program) : Program :=
  ⟨Stmt.plainAll place p.statements, place p.location⟩

end Program

/-! ## Words -/

section Words

theorem filter_placeParts (l : Option Location) : (placeParts l).filter Part.isWord = [] := by
  cases l <;> rfl

theorem filter_dimensions (shape : List Int) :
    (shape.map Part.dimension).filter Part.isWord = [] :=
  List.filter_eq_nil_iff.2 (by simp [Part.isWord])

namespace Expr

mutual

theorem words_of_same : ∀ {e e' : Expr}, e.same e' →
    e.parts.filter Part.isWord = e'.parts.filter Part.isWord
  | literal .., literal .., _ => rfl
  | name x, name y, h => by
    simp only [same, beq_iff_eq] at h
    rw [h]
  | index base is l, index base' is' l', h => by
    simp only [same, Bool.and_eq_true] at h
    simp only [parts, List.filter_append, filter_placeParts, words_of_same h.1,
      words_of_sameAll h.2]
  | call f args l, call g args' l', h => by
    simp only [same, Bool.and_eq_true, beq_iff_eq] at h
    simp only [parts, List.filter_append, List.filter_cons, filter_placeParts, h.1,
      words_of_sameAll h.2]
  | range a b l, range c d l', h => by
    simp only [same, Bool.and_eq_true] at h
    simp only [parts, List.filter_append, filter_placeParts, words_of_same h.1, words_of_same h.2]
  | stepped a b s l, stepped c d t l', h => by
    simp only [same, Bool.and_eq_true] at h
    simp only [parts, List.filter_append, filter_placeParts, words_of_same h.1.1,
      words_of_same h.1.2, words_of_same h.2]
  | colon l, colon l', _ => by simp only [parts, filter_placeParts]
  | array xs shape l, array ys shape' l', h => by
    simp only [same, Bool.and_eq_true] at h
    simp only [parts, List.filter_append, filter_placeParts, filter_dimensions,
      words_of_sameAll h.1]

theorem words_of_sameAll : ∀ {es es' : List Expr}, sameAll es es' →
    (partsOfAll es).filter Part.isWord = (partsOfAll es').filter Part.isWord
  | [], [], _ => rfl
  | e :: es, e' :: es', h => by
    simp only [sameAll, Bool.and_eq_true] at h
    simp only [partsOfAll, List.filter_append, words_of_same h.1, words_of_sameAll h.2]

end

end Expr

namespace Stmt

mutual

theorem words_of_same : ∀ {s s' : Stmt}, s.same s' →
    s.parts.filter Part.isWord = s'.parts.filter Part.isWord
  | assign a b l, assign c d l', h | sample a b l, sample c d l', h => by
    simp only [same, Bool.and_eq_true] at h
    simp only [parts, List.filter_append, filter_placeParts, Expr.words_of_same h.1,
      Expr.words_of_same h.2]
  | loop i a b body l, loop j c d body' l', h => by
    simp only [same, Bool.and_eq_true, beq_iff_eq] at h
    simp only [parts, List.filter_append, List.filter_cons, filter_placeParts, h.1.1.1,
      Expr.words_of_same h.1.1.2, Expr.words_of_same h.1.2, words_of_sameAll h.2]
  | branch c body l, branch d body' l', h => by
    simp only [same, Bool.and_eq_true] at h
    simp only [parts, List.filter_append, filter_placeParts, Expr.words_of_same h.1,
      words_of_sameAll h.2]

theorem words_of_sameAll : ∀ {ss ss' : List Stmt}, sameAll ss ss' →
    (partsOfAll ss).filter Part.isWord = (partsOfAll ss').filter Part.isWord
  | [], [], _ => rfl
  | s :: ss, s' :: ss', h => by
    simp only [sameAll, Bool.and_eq_true] at h
    simp only [partsOfAll, List.filter_append, words_of_same h.1, words_of_sameAll h.2]

end

end Stmt

/-- Programs that are the same have the same words. -/
theorem Program.words_of_same {p p' : Program} (h : p.same p') :
    p.parts.filter Part.isWord = p'.parts.filter Part.isWord := by
  simp only [parts, List.filter_append, filter_placeParts, Stmt.words_of_sameAll h]

end Words

/-! ## Sameness

Equality of trees compares constants by value. What is no number has no value, but it is the same as
itself if it was written at one place.
-/

theorem compare_unpacked_self (u : Float.Model.UnpackedFloat) :
    (u.compare u = some .eq) ∨ u.isNaN := by
  cases u with
  | notANumber => exact .inr rfl
  | infinity s => cases s <;> exact .inl rfl
  | zero s => exact .inl rfl
  | finite s m e hm =>
    left
    have heq : (compare e e).then (compare m m) = .eq := by
      have he : compare e e = .eq := Std.ReflCmp.compare_self
      have hm : compare m m = .eq := Std.ReflCmp.compare_self
      rw [he, hm]
      rfl
    cases s with
    | positive => exact congrArg some heq
    | negative => exact congrArg (fun o : Ordering => some o.swap) heq

/-- A float compares as equal to itself, unless it is no number. -/
theorem Binary64.compareFloat_self (x : Float) :
    Binary64.compareFloat x x = some .eq ∨ x.isNaN := by
  have hlt : (x < x) ↔ (x.toModel.unpack.compare x.toModel.unpack == some .lt) :=
    show decide (x.toModel < x.toModel) = true ↔ _ from decide_eq_true_iff
  have heq : (x == x) = (x.toModel.unpack.compare x.toModel.unpack == some .eq) := rfl
  rcases compare_unpacked_self x.toModel.unpack with h | h
  · left
    rw [h] at hlt heq
    have hirrefl : ¬ x < x := fun hx => nomatch hlt.1 hx
    have hbeq : (x == x) = true := heq
    rw [compareFloat, if_neg hirrefl, if_neg hirrefl, if_pos hbeq]
  · exact .inr h

theorem Number.same_refl (v : Number) (m : Nat) : v.same m v m := by
  cases v with
  | int i => simp [Number.same, Number.equal, Number.compare, Number.integer?,
      Std.ReflCmp.compare_self]
  | truth b => cases b <;> rfl
  | real x =>
    rcases Binary64.compareFloat_self x with h | h
    · simp [Number.same, Number.equal, Number.compare, h]
    · have hnan : (real x).isNaN = true := h
      simp only [Number.same, hnan, Bool.true_and, beq_self_eq_true, Bool.or_true]

namespace Expr

mutual

theorem same_refl : ∀ e : Expr, e.same e
  | literal v m => Number.same_refl v m
  | name x => by simp [same]
  | index base is l => by simp [same, same_refl base, sameAll_refl is]
  | call f args l => by simp [same, sameAll_refl args]
  | range a b l => by simp [same, same_refl a, same_refl b]
  | stepped a b s l => by simp [same, same_refl a, same_refl b, same_refl s]
  | colon l => rfl
  | array xs shape l => by simp [same, sameAll_refl xs]

theorem sameAll_refl : ∀ es : List Expr, sameAll es es
  | [] => rfl
  | e :: es => by simp [sameAll, same_refl e, sameAll_refl es]

end

end Expr

namespace Stmt

mutual

theorem same_refl : ∀ s : Stmt, s.same s
  | assign lhs rhs l | sample lhs rhs l => by simp [same, Expr.same_refl]
  | loop i lower upper body l => by simp [same, Expr.same_refl, sameAll_refl body]
  | branch condition body l => by simp [same, Expr.same_refl, sameAll_refl body]

theorem sameAll_refl : ∀ ss : List Stmt, sameAll ss ss
  | [] => rfl
  | s :: rest => by simp [sameAll, same_refl s, sameAll_refl rest]

end

end Stmt

/-- Whether a part is no constant that is not a number. -/
def Part.isNumeric : Part → Bool
  | constant v => !v.isNaN
  | _ => true

/-- The constants among some parts are numbers. -/
def Numeric (parts : List Part) : Prop := ∀ part ∈ parts, part.isNumeric

instance : DecidablePred Numeric := fun parts =>
  inferInstanceAs (Decidable (∀ part ∈ parts, part.isNumeric))

theorem numeric_append {xs ys : List Part} : Numeric (xs ++ ys) ↔ Numeric xs ∧ Numeric ys :=
  List.forall_mem_append

theorem Numeric.tail {x : Part} {xs : List Part} (h : Numeric (x :: xs)) : Numeric xs :=
  fun part hpart => h part (List.mem_cons_of_mem x hpart)

theorem Numeric.constant {v : Number} {parts : List Part} (h : Numeric parts)
    (hv : .constant v ∈ parts) : v.isNaN = false := by
  simpa [Part.isNumeric] using h _ hv

theorem Number.same_of_isNaN_eq_false {v : Number} (h : v.isNaN = false) (m n : Nat) :
    v.same m v n := by
  have hsame := Number.same_refl v m
  rw [Number.same, h, Bool.false_and, Bool.false_and, Bool.or_false] at hsame
  rw [Number.same, hsame, Bool.true_or]

section Plain

variable {f g : Option Location → Option Location}

namespace Expr

mutual

theorem same_of_plain : ∀ {e e' : Expr}, e'.plain g = e.plain f → Numeric e.parts → e'.same e
  | literal v m, e', h, hn => by
    cases e' with
    | literal w n =>
      cases h
      exact Number.same_of_isNaN_eq_false (hn.constant (List.mem_singleton_self _)) n m
    | _ => simp [plain] at h
  | name x, e', h, _ => by
    cases e' with
    | name y => simpa [plain, same] using h
    | _ => simp [plain] at h
  | index base is l, e', h, hn => by
    cases e' with
    | index base' is' l' =>
      simp only [plain, index.injEq] at h
      simp only [parts, numeric_append] at hn
      rw [same, same_of_plain h.1 hn.2.1, same_of_plainAll h.2.1 hn.2.2, Bool.and_self]
    | _ => simp [plain] at h
  | call c args l, e', h, hn => by
    cases e' with
    | call c' args' l' =>
      simp only [plain, call.injEq] at h
      rw [same, same_of_plainAll h.2.1 (numeric_append.1 hn.tail).2, h.1, beq_self_eq_true,
        Bool.and_self]
    | _ => simp [plain] at h
  | range a b l, e', h, hn => by
    cases e' with
    | range a' b' l' =>
      simp only [plain, range.injEq] at h
      simp only [parts, numeric_append] at hn
      rw [same, same_of_plain h.1 hn.2.1, same_of_plain h.2.1 hn.2.2, Bool.and_self]
    | _ => simp [plain] at h
  | stepped a b s l, e', h, hn => by
    cases e' with
    | stepped a' b' s' l' =>
      simp only [plain, stepped.injEq] at h
      simp only [parts, numeric_append] at hn
      rw [same, same_of_plain h.1 hn.2.1, same_of_plain h.2.1 hn.2.2.1,
        same_of_plain h.2.2.1 hn.2.2.2, Bool.and_self, Bool.and_self]
    | _ => simp [plain] at h
  | colon l, e', h, _ => by
    cases e' with
    | colon l' => rfl
    | _ => simp [plain] at h
  | array xs shape l, e', h, hn => by
    cases e' with
    | array xs' shape' l' =>
      simp only [plain, array.injEq] at h
      simp only [parts, numeric_append] at hn
      rw [same, same_of_plainAll h.1 hn.2.2, h.2.1, beq_self_eq_true, Bool.and_self]
    | _ => simp [plain] at h

theorem same_of_plainAll : ∀ {es es' : List Expr}, plainAll g es' = plainAll f es →
    Numeric (partsOfAll es) → sameAll es' es
  | [], [], _, _ => rfl
  | [], _ :: _, h, _ => by simp [plainAll] at h
  | _ :: _, [], h, _ => by simp [plainAll] at h
  | e :: es, e' :: es', h, hn => by
    simp only [plainAll, List.cons.injEq] at h
    simp only [partsOfAll, numeric_append] at hn
    rw [sameAll, same_of_plain h.1 hn.1, same_of_plainAll h.2 hn.2, Bool.and_self]

end

end Expr

namespace Stmt

mutual

theorem same_of_plain : ∀ {s s' : Stmt}, s'.plain g = s.plain f → Numeric s.parts → s'.same s
  | assign a b l, s', h, hn => by
    cases s' with
    | assign a' b' l' =>
      simp only [plain, assign.injEq] at h
      simp only [parts, numeric_append] at hn
      rw [same, Expr.same_of_plain h.1 hn.2.1, Expr.same_of_plain h.2.1 hn.2.2, Bool.and_self]
    | _ => simp [plain] at h
  | sample a b l, s', h, hn => by
    cases s' with
    | sample a' b' l' =>
      simp only [plain, sample.injEq] at h
      simp only [parts, numeric_append] at hn
      rw [same, Expr.same_of_plain h.1 hn.2.1, Expr.same_of_plain h.2.1 hn.2.2, Bool.and_self]
    | _ => simp [plain] at h
  | loop i a b body l, s', h, hn => by
    cases s' with
    | loop i' a' b' body' l' =>
      simp only [plain, loop.injEq] at h
      have hrest := (numeric_append.1 hn.tail).2
      simp only [numeric_append] at hrest
      rw [same, Expr.same_of_plain h.2.1 hrest.1, Expr.same_of_plain h.2.2.1 hrest.2.1,
        same_of_plainAll h.2.2.2.1 hrest.2.2, h.1, beq_self_eq_true]
      rfl
    | _ => simp [plain] at h
  | branch c body l, s', h, hn => by
    cases s' with
    | branch c' body' l' =>
      simp only [plain, branch.injEq] at h
      simp only [parts, numeric_append] at hn
      rw [same, Expr.same_of_plain h.1 hn.2.1, same_of_plainAll h.2.1 hn.2.2, Bool.and_self]
    | _ => simp [plain] at h

theorem same_of_plainAll : ∀ {ss ss' : List Stmt}, plainAll g ss' = plainAll f ss →
    Numeric (partsOfAll ss) → sameAll ss' ss
  | [], [], _, _ => rfl
  | [], _ :: _, h, _ => by simp [plainAll] at h
  | _ :: _, [], h, _ => by simp [plainAll] at h
  | s :: ss, s' :: ss', h, hn => by
    simp only [plainAll, List.cons.injEq] at h
    simp only [partsOfAll, numeric_append] at hn
    rw [sameAll, same_of_plain h.1 hn.1, same_of_plainAll h.2 hn.2, Bool.and_self]

end

end Stmt

/-- Programs that differ in places and marks only are the same. -/
theorem Program.same_of_plain {p p' : Program} (h : p'.plain g = p.plain f)
    (hn : Numeric p.parts) : p'.same p := by
  simp only [plain, mk.injEq] at h
  exact Stmt.same_of_plainAll h.1 (numeric_append.1 hn).2

/-! ## Places -/

/-- Two replacements agree on the places among some parts. -/
def Agree (f g : Option Location → Option Location) (parts : List Part) : Prop :=
  f none = g none ∧ ∀ l, Part.place l ∈ parts → f (some l) = g (some l)

theorem agree_append {xs ys : List Part} :
    Agree f g (xs ++ ys) ↔ Agree f g xs ∧ Agree f g ys := by
  simp only [Agree, List.mem_append, or_imp, forall_and]
  exact and_and_left

theorem Agree.tail {x : Part} {xs : List Part} (h : Agree f g (x :: xs)) : Agree f g xs :=
  ⟨h.1, fun l hl => h.2 l (List.mem_cons_of_mem x hl)⟩

theorem Agree.place {l : Option Location} (h : Agree f g (placeParts l)) : f l = g l := by
  cases l with
  | none => exact h.1
  | some l => exact h.2 l (by simp [placeParts])

namespace Expr

mutual

theorem plain_congr : ∀ e : Expr, Agree f g e.parts → e.plain f = e.plain g
  | literal .., _ | name _, _ => rfl
  | index base is l, h => by
    simp only [parts, agree_append] at h
    rw [plain, plain, plain_congr base h.2.1, plainAll_congr is h.2.2, h.1.place]
  | call c args l, h => by
    have hrest := agree_append.1 h.tail
    rw [plain, plain, plainAll_congr args hrest.2, hrest.1.place]
  | range a b l, h => by
    simp only [parts, agree_append] at h
    rw [plain, plain, plain_congr a h.2.1, plain_congr b h.2.2, h.1.place]
  | stepped a b s l, h => by
    simp only [parts, agree_append] at h
    rw [plain, plain, plain_congr a h.2.1, plain_congr b h.2.2.1, plain_congr s h.2.2.2, h.1.place]
  | colon l, h => by rw [plain, plain, Agree.place h]
  | array xs shape l, h => by
    simp only [parts, agree_append] at h
    rw [plain, plain, plainAll_congr xs h.2.2, h.1.place]

theorem plainAll_congr : ∀ es : List Expr, Agree f g (partsOfAll es) →
    plainAll f es = plainAll g es
  | [], _ => rfl
  | e :: es, h => by
    simp only [partsOfAll, agree_append] at h
    rw [plainAll, plainAll, plain_congr e h.1, plainAll_congr es h.2]

end

end Expr

namespace Stmt

mutual

theorem plain_congr : ∀ s : Stmt, Agree f g s.parts → s.plain f = s.plain g
  | assign a b l, h | sample a b l, h => by
    simp only [parts, agree_append] at h
    rw [plain, plain, a.plain_congr h.2.1, b.plain_congr h.2.2, h.1.place]
  | loop i a b body l, h => by
    have hrest := h.tail
    simp only [agree_append] at hrest
    rw [plain, plain, a.plain_congr hrest.2.1, b.plain_congr hrest.2.2.1,
      plainAll_congr body hrest.2.2.2, hrest.1.place]
  | branch c body l, h => by
    simp only [parts, agree_append] at h
    rw [plain, plain, c.plain_congr h.2.1, plainAll_congr body h.2.2, h.1.place]

theorem plainAll_congr : ∀ ss : List Stmt, Agree f g (partsOfAll ss) →
    plainAll f ss = plainAll g ss
  | [], _ => rfl
  | s :: ss, h => by
    simp only [partsOfAll, agree_append] at h
    rw [plainAll, plainAll, plain_congr s h.1, plainAll_congr ss h.2]

end

end Stmt

/-- A replacement that keeps the places of a program keeps the program. -/
theorem Program.plain_congr {p : Program} (h : Agree f g p.parts) : p.plain f = p.plain g := by
  obtain ⟨hplace, hstatements⟩ := agree_append.1 h
  rw [plain, plain, Stmt.plainAll_congr p.statements hstatements, hplace.place]

end Plain

end PlateModel
