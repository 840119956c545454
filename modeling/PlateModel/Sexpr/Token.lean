import PlateModel.Sexpr.Basic
import PlateModel.Decimal.Reading

/-!
# Tokens of S-expressions

A text is cut into brackets, apostrophes and atoms; blanks and comments separate them. An atom is an
integer if it can be read as one, else a float if it can be read as one, else a symbol. A text that
ends inside a string or behind a backslash ends in a token that says so, so that a failure is met in
the order of the text.

* `scanString`, `scanAtom`: the characters of a string and of an atom, and what follows.
* `tokens`: all tokens of a text.
-/

namespace PlateModel.Sexpr

/-- Why an atom or string has no end. -/
inductive LexFailure
  | unclosedString
  | endsInEscape
  deriving Repr, DecidableEq

/-- A token. An apostrophe carries its position and a closing bracket the text from it on. -/
inductive Token
  | opening (b : Bracket)
  | closing (b : Bracket) (rest : List Char)
  | apostrophe (position : Nat)
  | leaf (x : Sexpr)
  | failure (e : LexFailure)

/-- The characters of a string up to its closing quote, and the text behind it. -/
def scanString : List Char → Except LexFailure (List Char × List Char)
  | [] => .error .unclosedString
  | '"' :: rest => .ok ([], rest)
  | ['\\'] => .error .endsInEscape
  | '\\' :: c :: rest => (scanString rest).map fun (s, r) => (unescapeString c ++ s, r)
  | c :: rest => (scanString rest).map fun (s, r) => (c :: s, r)

/-- Characters that end an atom: blanks, brackets, double quotes and semicolons. -/
def endsAtom (c : Char) : Bool :=
  Text.isAsciiBlank c || c = '(' || c = ')' || c = '[' || c = ']' || c = '"' || c = ';'

/-- The characters of an atom and the text behind it. -/
def scanAtom : List Char → Except LexFailure (List Char × List Char)
  | [] => .ok ([], [])
  | ['\\'] => .error .endsInEscape
  | '\\' :: c :: rest => (scanAtom rest).map fun (s, r) => (unescapeSymbol c ++ s, r)
  | c :: rest =>
    if endsAtom c then .ok ([], c :: rest)
    else (scanAtom rest).map fun (s, r) => (c :: s, r)

private theorem map_ok {α β ε : Type} {f : α → β} {x : Except ε α} {y : β}
    (h : x.map f = .ok y) : ∃ a, x = .ok a ∧ f a = y := by
  cases x with
  | error e => simp [Except.map] at h
  | ok a => exact ⟨a, rfl, by simpa [Except.map] using h⟩

/-- The text behind a string is no longer than the text from its first character on. -/
theorem length_of_scanString {cs s r : List Char} (h : scanString cs = .ok (s, r)) :
    r.length ≤ cs.length := by
  fun_induction scanString cs generalizing s r with
  | case1 => simp at h
  | case2 rest => simp at h; simp [h.2]
  | case3 => simp at h
  | case4 c rest ih =>
    obtain ⟨⟨s', r'⟩, hs, he⟩ := map_ok h
    have := ih hs
    simp at he
    simp [← he.2]; omega
  | case5 c rest _ _ _ ih =>
    obtain ⟨⟨s', r'⟩, hs, he⟩ := map_ok h
    have := ih hs
    simp at he
    simp [← he.2]; omega

/-- The text behind an atom is no longer than the text from its first character on. -/
theorem length_of_scanAtom {cs s r : List Char} (h : scanAtom cs = .ok (s, r)) :
    r.length ≤ cs.length := by
  fun_induction scanAtom cs generalizing s r with
  | case1 => simp at h; simp [h.2]
  | case2 => simp at h
  | case3 c rest ih =>
    obtain ⟨⟨s', r'⟩, hs, he⟩ := map_ok h
    have := ih hs
    simp at he
    simp [← he.2]; omega
  | case4 c rest _ _ hc => simp at h; simp [← h.2]
  | case5 c rest _ _ hc ih =>
    obtain ⟨⟨s', r'⟩, hs, he⟩ := map_ok h
    have := ih hs
    simp at he
    simp [← he.2]; omega

/-- An atom that does not begin with the end of one is not empty. -/
theorem length_lt_of_scanAtom {c : Char} {cs s r : List Char} (hc : endsAtom c = false)
    (h : scanAtom (c :: cs) = .ok (s, r)) : r.length ≤ cs.length := by
  unfold scanAtom at h
  split at h
  · contradiction
  · simp at h
  · rename_i c' rest heq
    obtain ⟨⟨s', r'⟩, hs, he⟩ := map_ok h
    have := length_of_scanAtom hs
    simp at he heq
    simp [← he.2, heq.2]; omega
  · rename_i c' rest _ _ heq
    simp at heq
    rw [← heq.1, hc] at h
    obtain ⟨⟨s', r'⟩, hs, he⟩ := map_ok h
    have := length_of_scanAtom hs
    simp at he
    simp [← he.2, heq.2]; omega

/-- An atom as an integer, a float or a symbol; `mark` is given to a float. -/
def ofAtom (mark : Nat) (cs : List Char) : Sexpr :=
  match Decimal.integer? cs with
  | some i => int i
  | none =>
    match Decimal.float? cs with
    | some x => real x mark
    | none => symbol (String.ofList cs)

/-- The tokens of a text. `size` is the length of the whole text, from which positions are counted,
and `base` is added to the marks of its floats. -/
def tokensFrom (base size : Nat) : List Char → List Token
  | [] => []
  | c :: cs =>
    if Text.isAsciiBlank c then tokensFrom base size cs
    else if c = '"' then
      match h : scanString cs with
      | .error e => [.failure e]
      | .ok (s, rest) =>
        have := length_of_scanString h
        .leaf (string (String.ofList s)) :: tokensFrom base size rest
    else if c = '(' then .opening .round :: tokensFrom base size cs
    else if c = '[' then .opening .square :: tokensFrom base size cs
    else if c = ')' then .closing .round (c :: cs) :: tokensFrom base size cs
    else if c = ']' then .closing .square (c :: cs) :: tokensFrom base size cs
    else if c = '\'' then .apostrophe (size - cs.length - 1) :: tokensFrom base size cs
    else if c = ';' then
      have := (List.dropWhile_sublist (· != '\n') (l := cs)).length_le
      tokensFrom base size (cs.dropWhile (· != '\n'))
    else
      match h : scanAtom (c :: cs) with
      | .error e => [.failure e]
      | .ok (s, rest) =>
        if hc : endsAtom c = false then
          have := length_lt_of_scanAtom hc h
          .leaf (ofAtom (base + (size - cs.length - 1)) s) :: tokensFrom base size rest
        else tokensFrom base size cs
termination_by cs => cs.length

/-- All tokens of a text. -/
def tokens (base : Nat) (text : String) : List Token :=
  let cs := text.toList
  tokensFrom base cs.length cs

end PlateModel.Sexpr
