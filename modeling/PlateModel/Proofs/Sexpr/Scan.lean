import Mathlib.Data.List.Forall2
import PlateModel.Proofs.Decimal.RoundTrip
import PlateModel.Sexpr.Basic
import PlateModel.Sexpr.Token

/-!
# Layouts of expressions and their tokens

However an expression is broken into lines, its text is made of the texts of its atoms in order,
with brackets around lists and blanks between items. Reading depends on no more than that.

For the reading there is one lemma for each way in which a text goes on: what the first token is and
where the rest begins. A string is read back whatever it holds. An atom is read up to its first raw
blank, a blank that no backslash stands before; of all blanks only the space is written behind one.

* `Lays`, `LaysAll`: the texts of an expression and of a list of items.
* `lays_write`, `lays_pretty`: both ways of writing lay an expression out.
* `Every`: a property of all atoms of an expression.
* `scanString_escaped`, `scanAtom_escaped`: written strings and atoms are read back.
* `tokensFrom_atom`, `tokensFrom_string` and the like: the first token of a text.
-/

namespace PlateModel.Sexpr

/-! ## Layouts -/

/-- The blanks between two items. -/
structure IsGap (gap : List Char) : Prop where
  ne_nil : gap ≠ []
  blank : ∀ c ∈ gap, Text.isAsciiBlank c

theorem isGap_space : IsGap [' '] where
  ne_nil := by simp
  blank := List.forall_mem_singleton.2 (by decide)

theorem isGap_newline (n : Nat) : IsGap ('\n' :: List.replicate n ' ') where
  ne_nil := by simp
  blank c hc := by
    rcases List.mem_cons.1 hc with rfl | hc
    · decide
    · rw [List.eq_of_mem_replicate hc]
      decide

mutual

/-- The texts that an expression may be written as. -/
inductive Lays : Sexpr → List Char → Prop
  | int (i : Int) : Lays (.int i) (writeAtom (.int i))
  | real (x : Float) (mark : Nat) : Lays (.real x mark) (writeAtom (.real x mark))
  | symbol (s : String) : Lays (.symbol s) (writeAtom (.symbol s))
  | string (s : String) : Lays (.string s) (writeAtom (.string s))
  | list {items : List Sexpr} {cs : List Char} (h : LaysAll items cs) :
      Lays (.list items) ('(' :: cs ++ [')'])
  | square {items : List Sexpr} {cs : List Char} (h : LaysAll items cs) :
      Lays (.square items) ('[' :: cs ++ [']'])
  | quoted {x : Sexpr} {cs : List Char} (h : Lays x cs) : Lays (.quoted x) ('\'' :: cs)

/-- The texts of a list of items, with blanks between them. -/
inductive LaysAll : List Sexpr → List Char → Prop
  | nil : LaysAll [] []
  | single {x : Sexpr} {cs : List Char} (h : Lays x cs) : LaysAll [x] cs
  | cons {x y : Sexpr} {rest : List Sexpr} {cs gap ds : List Char} (h : Lays x cs)
      (hgap : IsGap gap) (hrest : LaysAll (y :: rest) ds) :
      LaysAll (x :: y :: rest) (cs ++ gap ++ ds)

end

theorem laysAll_joinWith {gap : List Char} (hgap : IsGap gap) {items : List Sexpr}
    {parts : List (List Char)} (h : List.Forall₂ Lays items parts) :
    LaysAll items (joinWith gap parts) := by
  induction h with
  | nil => exact .nil
  | cons hx hrest ih =>
    cases hrest with
    | nil => exact .single hx
    | cons hy hrest => exact .cons hx hgap ih

mutual

theorem lays_writeChars : ∀ x : Sexpr, Lays x (writeChars x)
  | .int i => .int i
  | .real x mark => .real x mark
  | .symbol s => .symbol s
  | .string s => .string s
  | .list items => .list (laysAll_joinWith isGap_space (forall₂_writeAll items))
  | .square items => .square (laysAll_joinWith isGap_space (forall₂_writeAll items))
  | .quoted x => .quoted (lays_writeChars x)

theorem forall₂_writeAll : ∀ items : List Sexpr, List.Forall₂ Lays items (writeAll items)
  | [] => .nil
  | x :: rest => .cons (lays_writeChars x) (forall₂_writeAll rest)

end

theorem lays_layoutList (depth : Nat) {items : List Sexpr} {parts : List (List Char)}
    (h : List.Forall₂ Lays items parts) : Lays (.list items) (layoutList depth parts) := by
  rw [layoutList]
  split
  · exact .list (laysAll_joinWith isGap_space h)
  · exact .list (laysAll_joinWith (isGap_newline _) h)

mutual

theorem lays_prettyChars (depth : Nat) : ∀ x : Sexpr, Lays x (prettyChars depth x)
  | .int i => .int i
  | .real x mark => .real x mark
  | .symbol s => .symbol s
  | .string s => .string s
  | .list [] => lays_writeChars (.list [])
  | .list (x :: rest) =>
    lays_layoutList depth (.cons (lays_prettyChars (depth + 1) x)
      (forall₂_prettyAll (depth + 1) rest))
  | .square items => lays_writeChars (.square items)
  | .quoted x => lays_writeChars (.quoted x)

theorem forall₂_prettyAll (depth : Nat) :
    ∀ items : List Sexpr, List.Forall₂ Lays items (prettyAll depth items)
  | [] => .nil
  | x :: rest => .cons (lays_prettyChars depth x) (forall₂_prettyAll depth rest)

end

/-- The text of an expression in one of the two layouts. -/
def text (isPretty : Bool) (x : Sexpr) : String := if isPretty then x.pretty else x.write

/-- Both ways of writing lay an expression out. -/
theorem lays_text (isPretty : Bool) (x : Sexpr) : Lays x (x.text isPretty).toList := by
  cases isPretty with
  | true => simpa [text, pretty] using lays_prettyChars 0 x
  | false => simpa [text, write] using lays_writeChars x

/-! ## Properties of atoms -/

mutual

/-- All atoms of an expression have a property. -/
def Every (P : Sexpr → Prop) : Sexpr → Prop
  | list items | square items => EveryAll P items
  | quoted item => Every P item
  | x => P x

/-- All atoms of some expressions have a property. -/
def EveryAll (P : Sexpr → Prop) : List Sexpr → Prop
  | [] => True
  | x :: rest => Every P x ∧ EveryAll P rest

end

section Every

variable {P : Sexpr → Prop}

theorem everyAll_iff {items : List Sexpr} : EveryAll P items ↔ ∀ x ∈ items, Every P x := by
  induction items with
  | nil => simp [EveryAll]
  | cons x rest ih => simp [EveryAll, ih]

end Every

open Text Decimal

/-! ## Strings -/

/-- A written string is read back. -/
theorem scanString_escaped (s rest : List Char) :
    scanString (s.flatMap escapeString ++ '"' :: rest) = .ok (s, rest) := by
  induction s with
  | nil => rfl
  | cons c s ih =>
    rw [List.flatMap_cons, List.append_assoc]
    generalize s.flatMap escapeString ++ '"' :: rest = more at ih ⊢
    unfold escapeString
    split
    -- a character that is written as it is; all other cases are of escapes
    case h_8 hslash hquote _ _ _ _ _ =>
      rw [List.singleton_append, scanString, ih]
      · rfl
      · exact hquote
      · exact fun h => absurd h hslash
      · exact fun _ _ h => absurd h hslash
    all_goals
      simp only [List.cons_append, List.nil_append, scanString, ih]
      rfl

/-! ## Atoms -/

/-- A blank that is not written behind a backslash. -/
def isRawBlank (c : Char) : Bool := isAsciiBlank c && c != ' '

/-- What may follow an atom: nothing, or a character that ends it. -/
def AtomEnds (rest : List Char) : Prop := ∀ c ∈ rest.head?, endsAtom c

/-- A character that is neither special nor a raw blank does not end an atom. -/
theorem endsAtom_of_plain {c : Char} (hspecial : isSpecial c = false)
    (hraw : isRawBlank c = false) : endsAtom c = false := by
  simp only [isSpecial, Bool.or_eq_false_iff, decide_eq_false_iff_not] at hspecial
  have hblank : isAsciiBlank c = false := by
    simpa [isRawBlank, hspecial] using hraw
  simp [endsAtom, hblank, hspecial]

theorem endsAtom_of_raw {c : Char} (h : isRawBlank c) : endsAtom c := by
  simp only [isRawBlank, Bool.and_eq_true] at h
  simp [endsAtom, h.1]

theorem escapeSymbol_of_raw {c : Char} (h : isRawBlank c) : escapeSymbol c = [c] := by
  have hspecial : isSpecial c = false := by
    have hall : ∀ d, isSpecial d → isRawBlank d = false := by
      intro d hd
      simp only [isSpecial, Bool.or_eq_true, decide_eq_true_eq] at hd
      rcases hd with (((((((((((rfl | rfl) | rfl) | rfl) | rfl) | rfl) | rfl) | rfl) | rfl) | rfl) |
        rfl) | rfl) | rfl <;> decide
    cases hs : isSpecial c with
    | true => simp [hall c hs] at h
    | false => rfl
  rw [escapeSymbol, hspecial]
  rfl

theorem scanAtom_of_ends {rest : List Char} (h : AtomEnds rest) :
    scanAtom rest = .ok ([], rest) := by
  cases rest with
  | nil => rfl
  | cons c rest =>
    have hc : endsAtom c := h c rfl
    have hslash : c ≠ '\\' := by
      rintro rfl
      revert hc
      decide
    rw [scanAtom, if_pos hc]
    · exact fun h => absurd h hslash
    · exact fun _ _ h => absurd h hslash

/-- The part of a symbol up to its first raw blank, and the rest. -/
def splitRaw (s : List Char) : List Char × List Char :=
  (s.takeWhile fun c => !isRawBlank c, s.dropWhile fun c => !isRawBlank c)

/-- A written symbol is read up to its first raw blank. -/
theorem scanAtom_escaped {rest : List Char} (h : AtomEnds rest) (s : List Char) :
    scanAtom (s.flatMap escapeSymbol ++ rest) =
      .ok ((splitRaw s).1, (splitRaw s).2.flatMap escapeSymbol ++ rest) := by
  induction s with
  | nil => exact scanAtom_of_ends h
  | cons c s ih =>
    rw [List.flatMap_cons, List.append_assoc]
    cases hraw : isRawBlank c with
    | true =>
      have hends : AtomEnds (escapeSymbol c ++ (s.flatMap escapeSymbol ++ rest)) := by
        rw [escapeSymbol_of_raw hraw]
        rintro d ⟨⟩
        exact endsAtom_of_raw hraw
      rw [scanAtom_of_ends hends]
      simp [splitRaw, hraw]
    | false =>
      have hsplit : splitRaw (c :: s) = (c :: (splitRaw s).1, (splitRaw s).2) := by
        simp [splitRaw, hraw]
      rw [hsplit]
      cases hspecial : isSpecial c with
      | true =>
        rw [escapeSymbol, hspecial, if_pos rfl, List.cons_append, List.cons_append,
          List.nil_append, scanAtom, ih, unescapeSymbol, hspecial]
        rfl
      | false =>
        have hslash : c ≠ '\\' := by
          rintro rfl
          revert hspecial
          decide
        rw [escapeSymbol, hspecial, if_neg Bool.false_ne_true, List.singleton_append, scanAtom,
          endsAtom_of_plain hspecial hraw, ih]
        · rfl
        · exact fun h => absurd h hslash
        · exact fun _ _ h => absurd h hslash

/-- A text with no raw blank. -/
def NoRaw (s : List Char) : Prop := ∀ c ∈ s, isRawBlank c = false

theorem splitRaw_of_noRaw {s : List Char} (h : NoRaw s) : splitRaw s = (s, []) := by
  have htake := List.takeWhile_append_dropWhile (p := fun c => !isRawBlank c) (l := s)
  have hdrop : s.dropWhile (fun c => !isRawBlank c) = [] :=
    List.dropWhile_eq_nil_iff.2 fun c hc => by simp [h c hc]
  rw [hdrop, List.append_nil] at htake
  rw [splitRaw, htake, hdrop]

theorem noRaw_splitRaw (s : List Char) : NoRaw (splitRaw s).1 := fun c hc => by
  simpa using List.mem_takeWhile_imp hc

/-- The text of a number holds nothing that has to be escaped. -/
theorem isNumeral_clean {cs : List Char} (h : IsNumeral cs) :
    NoRaw cs ∧ cs.flatMap escapeSymbol = cs := by
  have hall : ∀ c ∈ numeralChars, isRawBlank c = false ∧ escapeSymbol c = [c] :=
    forall_mem_of_all (by decide)
  refine ⟨fun c hc => (hall c (h c hc)).1, ?_⟩
  induction cs with
  | nil => rfl
  | cons c cs ih =>
    obtain ⟨hc, hcs⟩ := isNumeral_cons.1 h
    rw [List.flatMap_cons, (hall c hc).2, ih hcs, List.singleton_append]

/-! ## The first token of a text -/

section Tokens

variable (base size : Nat)

theorem tokensFrom_gap {gap : List Char} (h : ∀ c ∈ gap, isAsciiBlank c) (rest : List Char) :
    tokensFrom base size (gap ++ rest) = tokensFrom base size rest := by
  induction gap with
  | nil => rfl
  | cons c gap ih =>
    rw [List.cons_append, tokensFrom, if_pos (h c (by simp)),
      ih fun d hd => h d (List.mem_cons_of_mem c hd)]

theorem tokensFrom_opening (b : Bracket) (rest : List Char) :
    tokensFrom base size (b.opening :: rest) = .opening b :: tokensFrom base size rest := by
  have hchars : isAsciiBlank '(' = false ∧ isAsciiBlank '[' = false := by decide
  cases b <;> rw [Bracket.opening, tokensFrom] <;> simp [hchars]

theorem tokensFrom_closing (b : Bracket) (rest : List Char) :
    tokensFrom base size (b.closing :: rest) =
      .closing b (b.closing :: rest) :: tokensFrom base size rest := by
  have hchars : isAsciiBlank ')' = false ∧ isAsciiBlank ']' = false := by decide
  cases b <;> rw [Bracket.closing, tokensFrom] <;> simp [hchars]

theorem tokensFrom_apostrophe (rest : List Char) : ∃ position,
    tokensFrom base size ('\'' :: rest) =
      .apostrophe position :: tokensFrom base size rest := by
  have hchars : isAsciiBlank '\'' = false := by decide
  rw [tokensFrom]
  simp [hchars]

theorem tokensFrom_string (s rest : List Char) :
    tokensFrom base size ('"' :: (s.flatMap escapeString ++ '"' :: rest)) =
      .leaf (.string (String.ofList s)) :: tokensFrom base size rest := by
  have hchars : isAsciiBlank '"' = false := by decide
  have hscan := scanString_escaped s rest
  rw [tokensFrom, hchars]
  simp only [Bool.false_eq_true, if_false, if_true]
  split
  · next h => simp [hscan] at h
  · next h =>
    rw [hscan] at h
    cases h
    rfl

/-- A text that begins with a backslash or with a character that ends no atom begins with an atom,
unless that is an apostrophe. -/
theorem tokensFrom_of_scanAtom {c : Char} {cs s rest : List Char} (hends : endsAtom c = false)
    (hquote : c ≠ '\'') (h : scanAtom (c :: cs) = .ok (s, rest)) : ∃ mark,
    tokensFrom base size (c :: cs) = .leaf (ofAtom mark s) :: tokensFrom base size rest := by
  refine ⟨base + (size - cs.length - 1), ?_⟩
  have hends' := hends
  simp only [endsAtom, Bool.or_eq_false_iff, decide_eq_false_iff_not] at hends'
  obtain ⟨⟨⟨⟨⟨⟨hblank, hround⟩, hround'⟩, hsquare⟩, hsquare'⟩, hstring⟩, hcomment⟩ := hends'
  rw [tokensFrom, hblank]
  simp only [Bool.false_eq_true, if_false, hround, hround', hsquare, hsquare', hstring, hcomment,
    hquote]
  split
  · next h' => simp [h] at h'
  · next s' rest' h' =>
    rw [h] at h'
    cases h'
    rw [dif_pos hends]

/-- A symbol that does not begin with a raw blank begins with an atom without one. -/
theorem tokensFrom_symbol {c : Char} {s rest : List Char} (hc : isRawBlank c = false)
    (hrest : AtomEnds rest) : ∃ mark,
    tokensFrom base size ((c :: s).flatMap escapeSymbol ++ rest) =
      .leaf (ofAtom mark (splitRaw (c :: s)).1) ::
        tokensFrom base size ((splitRaw (c :: s)).2.flatMap escapeSymbol ++ rest) := by
  have hscan := scanAtom_escaped hrest (c :: s)
  cases hspecial : isSpecial c with
  | true =>
    have htext : (c :: s).flatMap escapeSymbol ++ rest =
        '\\' :: c :: (s.flatMap escapeSymbol ++ rest) := by
      rw [List.flatMap_cons, escapeSymbol, if_pos hspecial]
      rfl
    rw [htext] at hscan ⊢
    exact tokensFrom_of_scanAtom base size (by decide) (by decide) hscan
  | false =>
    have htext : (c :: s).flatMap escapeSymbol ++ rest = c :: (s.flatMap escapeSymbol ++ rest) := by
      rw [List.flatMap_cons, escapeSymbol, hspecial]
      rfl
    have hquote : c ≠ '\'' := by
      rintro rfl
      revert hspecial
      decide
    rw [htext] at hscan ⊢
    exact tokensFrom_of_scanAtom base size (endsAtom_of_plain hspecial hc) hquote hscan

/-- A written atom without raw blanks is one token. -/
theorem tokensFrom_atom {s rest : List Char} (hne : s ≠ []) (h : NoRaw s) (hrest : AtomEnds rest) :
    ∃ mark, tokensFrom base size (s.flatMap escapeSymbol ++ rest) =
      .leaf (ofAtom mark s) :: tokensFrom base size rest := by
  cases s with
  | nil => exact absurd rfl hne
  | cons c s =>
    have htokens := tokensFrom_symbol base size (s := s) (h c (by simp)) hrest
    rwa [splitRaw_of_noRaw h] at htokens

end Tokens

end PlateModel.Sexpr
