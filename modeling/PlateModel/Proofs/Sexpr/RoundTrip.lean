import PlateModel.Proofs.Sexpr.Scan
import PlateModel.Sexpr.Reader

/-!
# Written S-expressions are read back

An expression is clean if its integers are not too long, its floats are numbers, and its symbols
hold no raw blank and are not read as numbers. However a clean expression is laid out, it is read
back, apart from the marks of its floats.

* `Alike`: equality of expressions up to the marks of floats.
* `parse_text`: a clean expression is read back from its text.
-/

namespace PlateModel.Sexpr

open Decimal

/-- Equality of expressions up to the marks of their floats. -/
inductive Alike : Sexpr → Sexpr → Prop
  | int (i : Int) : Alike (.int i) (.int i)
  | real (x : Float) (m n : Nat) : Alike (.real x m) (.real x n)
  | symbol (s : String) : Alike (.symbol s) (.symbol s)
  | string (s : String) : Alike (.string s) (.string s)
  | list {xs ys : List Sexpr} (h : List.Forall₂ Alike xs ys) : Alike (.list xs) (.list ys)
  | square {xs ys : List Sexpr} (h : List.Forall₂ Alike xs ys) : Alike (.square xs) (.square ys)
  | quoted {x y : Sexpr} (h : Alike x y) : Alike (.quoted x) (.quoted y)

/-- An atom that is read back from its text. -/
def IsClean : Sexpr → Prop
  | int i => IsShort i
  | real x _ => x.isNaN = false
  | symbol s => s.toList ≠ [] ∧ NoRaw s.toList ∧ integer? s.toList = none ∧ float? s.toList = none
  | _ => True

/-! ## Texts of clean expressions -/

theorem atomEnds_gap {gap : List Char} (h : IsGap gap) (rest : List Char) :
    AtomEnds (gap ++ rest) := by
  cases gap with
  | nil => exact absurd rfl h.ne_nil
  | cons c gap =>
    rintro d ⟨⟩
    simp [endsAtom, h.blank c (by simp)]

theorem atomEnds_closing (b : Bracket) (rest : List Char) : AtomEnds (b.closing :: rest) := by
  rintro d ⟨⟩
  cases b <;> decide

theorem writeAtom_int (i : Int) :
    writeAtom (.int i) = (ofInt i).toList.flatMap escapeSymbol :=
  (isNumeral_clean (isNumeral_ofInt i)).2.symm

theorem writeAtom_real (x : Float) (mark : Nat) :
    writeAtom (.real x mark) = (ofFloat x).toList.flatMap escapeSymbol :=
  (isNumeral_clean (isNumeral_ofFloat x)).2.symm

theorem ofInt_ne_nil (i : Int) : (ofInt i).toList ≠ [] := by
  rw [ofInt_toList]
  simp

theorem ofFloat_ne_nil {x : Float} (hx : x.isNaN = false) : (ofFloat x).toList ≠ [] := by
  intro h
  have hread := float?_ofFloat hx
  rw [h] at hread
  cases hread

section Clean

variable (base size : Nat)

/-- The items between two brackets become one item of the list around them. -/
theorem readTokens_bracketed (b : Bracket) {cs rest : List Char} {ys : List Sexpr} {top : Frame}
    {outer : List (Bracket × Frame)}
    (h : readTokens (tokensFrom base size (cs ++ b.closing :: rest)) Frame.empty
        ((b, top) :: outer) =
      readTokens (tokensFrom base size (b.closing :: rest)) ⟨ys.reverse, []⟩
        ((b, top) :: outer)) :
    readTokens (tokensFrom base size (b.opening :: cs ++ [b.closing] ++ rest)) top outer =
      readTokens (tokensFrom base size rest) (top.push (ofBracket b ys)) outer := by
  rw [List.append_assoc, List.cons_append, List.singleton_append, tokensFrom_opening, readTokens,
    h, tokensFrom_closing]
  simp [readTokens, Frame.close]

mutual

/-- The text of a clean expression adds the expression to the list that is being read. -/
theorem readTokens_lays {x : Sexpr} {cs : List Char} (h : Lays x cs) (hclean : Every IsClean x)
    {rest : List Char} (hrest : AtomEnds rest) (top : Frame) (outer : List (Bracket × Frame)) :
    ∃ y, Alike x y ∧ readTokens (tokensFrom base size (cs ++ rest)) top outer =
      readTokens (tokensFrom base size rest) (top.push y) outer := by
  match h with
  | .int i =>
    obtain ⟨mark, htokens⟩ := tokensFrom_atom base size (ofInt_ne_nil i)
      (isNumeral_clean (isNumeral_ofInt i)).1 hrest
    refine ⟨_, .int i, ?_⟩
    rw [writeAtom_int, htokens, ofAtom, integer?_ofInt hclean]
    rfl
  | .real x mark =>
    obtain ⟨mark', htokens⟩ := tokensFrom_atom base size (ofFloat_ne_nil hclean)
      (isNumeral_clean (isNumeral_ofFloat x)).1 hrest
    refine ⟨_, .real x mark mark', ?_⟩
    rw [writeAtom_real, htokens, ofAtom, integer?_ofFloat, float?_ofFloat hclean]
    rfl
  | .symbol s =>
    obtain ⟨hne, hraw, hint, hfloat⟩ := hclean
    obtain ⟨mark, htokens⟩ := tokensFrom_atom base size hne hraw hrest
    refine ⟨_, .symbol s, ?_⟩
    rw [writeAtom, htokens, ofAtom, hint, hfloat, String.ofList_toList]
    rfl
  | .string s =>
    refine ⟨_, .string s, ?_⟩
    rw [writeAtom, List.append_assoc, List.cons_append, List.singleton_append,
      tokensFrom_string, String.ofList_toList]
    rfl
  | .list hitems =>
    obtain ⟨ys, hys, hread⟩ := readTokens_laysAll hitems hclean (atomEnds_closing .round rest)
      [] ((.round, top) :: outer)
    rw [List.append_nil] at hread
    exact ⟨.list ys, .list hys, readTokens_bracketed base size .round hread⟩
  | .square hitems =>
    obtain ⟨ys, hys, hread⟩ := readTokens_laysAll hitems hclean (atomEnds_closing .square rest)
      [] ((.square, top) :: outer)
    rw [List.append_nil] at hread
    exact ⟨.square ys, .square hys, readTokens_bracketed base size .square hread⟩
  | .quoted hx =>
    obtain ⟨position, htokens⟩ := tokensFrom_apostrophe base size (_ ++ rest)
    obtain ⟨y, hy, hread⟩ := readTokens_lays hx hclean hrest
      { top with waiting := position :: top.waiting } outer
    refine ⟨.quoted y, .quoted hy, ?_⟩
    rw [List.cons_append, htokens, readTokens, hread]
    rfl

/-- The text of clean items adds them to the list that is being read. -/
theorem readTokens_laysAll {items : List Sexpr} {cs : List Char} (h : LaysAll items cs)
    (hclean : EveryAll IsClean items) {rest : List Char} (hrest : AtomEnds rest)
    (before : List Sexpr) (outer : List (Bracket × Frame)) :
    ∃ ys, List.Forall₂ Alike items ys ∧
      readTokens (tokensFrom base size (cs ++ rest)) ⟨before, []⟩ outer =
        readTokens (tokensFrom base size rest) ⟨ys.reverse ++ before, []⟩ outer := by
  match h with
  | .nil => exact ⟨[], .nil, rfl⟩
  | .single hx =>
    obtain ⟨y, hy, hread⟩ := readTokens_lays hx hclean.1 hrest ⟨before, []⟩ outer
    exact ⟨[y], .cons hy .nil, hread⟩
  | @LaysAll.cons _ _ _ _ gap ds hx hgap hitems =>
    obtain ⟨y, hy, hread⟩ := readTokens_lays hx hclean.1 (atomEnds_gap hgap (ds ++ rest))
      ⟨before, []⟩ outer
    obtain ⟨ys, hys, hreads⟩ := readTokens_laysAll hitems hclean.2 hrest (y :: before) outer
    refine ⟨y :: ys, .cons hy hys, ?_⟩
    rw [List.append_assoc, List.append_assoc, hread, tokensFrom_gap base size hgap.blank]
    refine hreads.trans ?_
    rw [List.reverse_cons, List.append_assoc, List.singleton_append]

end

end Clean

/-- A clean expression is read back from its text. -/
theorem parse_text {x : Sexpr} (h : Every IsClean x) (isPretty : Bool) (base : Nat) :
    ∃ y, Alike x y ∧ parse base (x.text isPretty) = .ok y := by
  have hends : AtomEnds [] := by simp [AtomEnds]
  obtain ⟨y, hy, hread⟩ := readTokens_lays base (x.text isPretty).toList.length
    (lays_text isPretty x) h hends Frame.empty []
  rw [List.append_nil] at hread
  refine ⟨y, hy, ?_⟩
  rw [parse, tokens, hread]
  simp [tokensFrom, readTokens, Frame.push, Frame.empty, Frame.close]

end PlateModel.Sexpr
