import PlateModel.Proofs.Sexpr.RoundTrip

/-!
# Atoms of expressions that were read

What the atoms of an expression have in common is seen on the tokens of its text. Any text yields
strings and what characters are read as; a text that was written yields the strings that were
written, and no atom of it holds a raw blank.

* `every_of_parse`: the atoms of a text.
* `every_of_parse_text`: the atoms of a text that was written.
-/

namespace PlateModel.Sexpr

/-- All atoms of the expression that a token is, if it is one, have a property. -/
def Token.Holds (P : Sexpr → Prop) : Token → Prop
  | .leaf x => Every P x
  | _ => True

section Reading

variable {P : Sexpr → Prop}

theorem every_ofAtom {mark : Nat} {cs : List Char} (h : P (ofAtom mark cs)) :
    Every P (ofAtom mark cs) := by
  revert h
  unfold ofAtom
  split
  · exact id
  · split <;> exact id

theorem every_foldl_quoted (waiting : List Nat) {x : Sexpr} (h : Every P x) :
    Every P (waiting.foldl (fun y _ => quoted y) x) := by
  induction waiting generalizing x with
  | nil => exact h
  | cons _ _ ih => exact ih h

theorem every_ofBracket (b : Bracket) {items : List Sexpr} (h : ∀ x ∈ items, Every P x) :
    Every P (ofBracket b items) := by
  cases b <;> exact everyAll_iff.2 h

/-- The lists that are open hold the items whose tokens have been read. -/
theorem every_of_readTokens {ts : List Token} {top : Frame} {outer : List (Bracket × Frame)}
    {items : List Sexpr} (h : readTokens ts top outer = .ok items) (hts : ∀ t ∈ ts, t.Holds P)
    (htop : ∀ x ∈ top.items, Every P x)
    (houter : ∀ f ∈ outer, ∀ x ∈ f.2.items, Every P x) : ∀ x ∈ items, Every P x := by
  have hpush : ∀ {f : Frame} {y : Sexpr}, (∀ x ∈ f.items, Every P x) → Every P y →
      ∀ x ∈ (f.push y).items, Every P x := fun hf hy =>
    List.forall_mem_cons.2 ⟨every_foldl_quoted _ hy, hf⟩
  have hclose : ∀ {f : Frame} {ys : List Sexpr}, f.close = .ok ys → (∀ x ∈ f.items, Every P x) →
      ∀ x ∈ ys, Every P x := by
    intro f ys hf hitems x hx
    unfold Frame.close at hf
    split at hf
    · cases hf
    · cases hf
      exact hitems x (List.mem_reverse.1 hx)
  fun_induction readTokens ts top outer with
  | case1 => cases h
  | case2 top items' hitems =>
    cases h
    exact hclose hitems htop
  | case3 => cases h
  | case4 x rest top outer ih =>
    obtain ⟨hx, hrest⟩ := List.forall_mem_cons.1 hts
    exact ih h hrest (hpush htop hx) houter
  | case5 p rest top outer ih => exact ih h (List.forall_mem_cons.1 hts).2 htop houter
  | case6 b rest top outer ih =>
    exact ih h (List.forall_mem_cons.1 hts).2 (List.forall_mem_nil _)
      (List.forall_mem_cons.2 ⟨htop, houter⟩)
  | case7 => cases h
  | case8 => cases h
  | case9 text rest top items' opened below outer hitems ih =>
    obtain ⟨hbelow, houter⟩ := List.forall_mem_cons.1 houter
    exact ih h (List.forall_mem_cons.1 hts).2
      (hpush hbelow (every_ofBracket _ (hclose hitems htop))) houter
  | case10 => cases h
  | case11 => cases h

/-- What holds of all tokens of a text holds of the expression that it writes. -/
theorem every_of_parse_tokens {base : Nat} {text : String} {x : Sexpr}
    (h : parse base text = .ok x) (hts : ∀ t ∈ tokens base text, t.Holds P) : Every P x := by
  rw [parse] at h
  split at h
  · cases h
  · next y hread =>
    cases h
    exact every_of_readTokens hread hts (List.forall_mem_nil _) (List.forall_mem_nil _) _ (by simp)
  · cases h

theorem ne_nil_of_scanAtom {c : Char} {cs s rest : List Char} (hends : endsAtom c = false)
    (h : scanAtom (c :: cs) = .ok (s, rest)) : s ≠ [] := by
  unfold scanAtom at h
  split at h
  · next heq => cases heq
  · cases h
  · next d more heq =>
    cases hmore : scanAtom more with
    | error e => simp [hmore, Except.map] at h
    | ok r =>
      have hne : unescapeSymbol d ≠ [] := by
        rw [unescapeSymbol]
        split <;> simp
      simp only [hmore, Except.map, Except.ok.injEq, Prod.mk.injEq] at h
      rw [← h.1]
      exact fun hnil => hne (List.append_eq_nil_iff.1 hnil).1
  · next d more _ _ heq =>
    cases heq
    rw [hends] at h
    cases hmore : scanAtom cs with
    | error e => simp [hmore, Except.map] at h
    | ok r =>
      simp only [hmore, Except.map, Bool.false_eq_true, if_false, Except.ok.injEq,
        Prod.mk.injEq] at h
      rw [← h.1]
      exact List.cons_ne_nil _ _

/-- The atoms of a text are strings, and what some characters are read as. -/
theorem holds_tokensFrom (hatom : ∀ mark s, s ≠ [] → P (ofAtom mark s))
    (hstring : ∀ s, P (.string s)) (base size : Nat) (cs : List Char) :
    ∀ t ∈ tokensFrom base size cs, t.Holds P := by
  fun_induction tokensFrom base size cs with
  | case1 => exact List.forall_mem_nil _
  | case2 c cs hblank ih => exact ih
  | case3 => exact List.forall_mem_cons.2 ⟨trivial, List.forall_mem_nil _⟩
  | case4 c cs s rest hscan hlength ih => exact List.forall_mem_cons.2 ⟨hstring _, ih⟩
  | case5 | case6 | case7 | case8 | case9 =>
    rename_i ih
    exact List.forall_mem_cons.2 ⟨trivial, ih⟩
  | case10 =>
    rename_i ih
    exact ih
  | case11 => exact List.forall_mem_cons.2 ⟨trivial, List.forall_mem_nil _⟩
  | case12 c cs _ _ _ _ _ _ _ _ s rest hscan hends _ ih =>
    exact List.forall_mem_cons.2 ⟨every_ofAtom (hatom _ _ (ne_nil_of_scanAtom hends hscan)), ih⟩
  | case13 c cs _ _ _ _ _ _ _ _ s rest _ _ ih => exact ih

/-- The atoms of an expression that was read are strings, and what some characters are read as. -/
theorem every_of_parse (hatom : ∀ mark s, s ≠ [] → P (ofAtom mark s))
    (hstring : ∀ s, P (.string s)) {base : Nat} {text : String} {x : Sexpr}
    (h : parse base text = .ok x) : Every P x :=
  every_of_parse_tokens h (holds_tokensFrom hatom hstring base _ _)

/-! ## What was written -/

section Written

variable (base size : Nat)

/-- A written symbol is cut at its raw blanks. -/
theorem holds_symbol (hatom : ∀ mark s, s ≠ [] → NoRaw s → P (ofAtom mark s)) {rest : List Char}
    (hends : AtomEnds rest) (hrest : ∀ t ∈ tokensFrom base size rest, t.Holds P) (s : List Char) :
    ∀ t ∈ tokensFrom base size (s.flatMap escapeSymbol ++ rest), t.Holds P := by
  -- one token takes all characters up to the next raw blank, so the induction is on the length
  induction hlength : s.length using Nat.strong_induction_on generalizing s with
  | h n ih =>
    cases s with
    | nil => exact hrest
    | cons c s =>
      rw [List.length_cons] at hlength
      cases hraw : isRawBlank c with
      | true =>
        have hblank : Text.isAsciiBlank c := (Bool.and_eq_true_iff.1 hraw).1
        have hgap := tokensFrom_gap base size (List.forall_mem_singleton.2 hblank)
          (s.flatMap escapeSymbol ++ rest)
        rw [List.flatMap_cons, List.append_assoc, escapeSymbol_of_raw hraw, hgap]
        exact ih s.length (by omega) s rfl
      | false =>
        obtain ⟨mark, htokens⟩ := tokensFrom_symbol base size (s := s) hraw hends
        have hsplit : splitRaw (c :: s) = (c :: (splitRaw s).1, (splitRaw s).2) := by
          simp [splitRaw, hraw]
        have hshorter : (splitRaw s).2.length ≤ s.length :=
          (List.dropWhile_sublist _).length_le
        have hne : (splitRaw (c :: s)).1 ≠ [] := by simp [hsplit]
        rw [htokens]
        refine List.forall_mem_cons.2 ⟨every_ofAtom (hatom _ _ hne (noRaw_splitRaw _)),
          ih (splitRaw s).2.length (by omega) _ ?_⟩
        rw [hsplit]

mutual

/-- The text of an expression has the tokens of its strings, and else atoms without raw blanks. -/
theorem holds_lays (hatom : ∀ mark s, s ≠ [] → NoRaw s → P (ofAtom mark s)) {x : Sexpr}
    {cs : List Char} (h : Lays x cs)
    (hstrings : Every (fun y => ∀ s, y = .string s → P y) x) {rest : List Char}
    (hends : AtomEnds rest) (hrest : ∀ t ∈ tokensFrom base size rest, t.Holds P) :
    ∀ t ∈ tokensFrom base size (cs ++ rest), t.Holds P := by
  match h with
  | .int i =>
    rw [writeAtom_int]
    exact holds_symbol base size hatom hends hrest _
  | .real x mark =>
    rw [writeAtom_real]
    exact holds_symbol base size hatom hends hrest _
  | .symbol s => exact holds_symbol base size hatom hends hrest _
  | .string s =>
    rw [writeAtom, List.append_assoc, List.cons_append, List.singleton_append, tokensFrom_string,
      String.ofList_toList]
    exact List.forall_mem_cons.2 ⟨hstrings s rfl, hrest⟩
  | .list hitems => exact holds_bracketed hatom .round hitems hstrings hrest
  | .square hitems => exact holds_bracketed hatom .square hitems hstrings hrest
  | .quoted hx =>
    obtain ⟨position, htokens⟩ := tokensFrom_apostrophe base size (_ ++ rest)
    rw [List.cons_append, htokens]
    exact List.forall_mem_cons.2 ⟨trivial, holds_lays hatom hx hstrings hends hrest⟩
termination_by (sizeOf x, 0)

theorem holds_bracketed (hatom : ∀ mark s, s ≠ [] → NoRaw s → P (ofAtom mark s)) (b : Bracket)
    {items : List Sexpr} {cs : List Char} (h : LaysAll items cs)
    (hstrings : EveryAll (fun y => ∀ s, y = .string s → P y) items) {rest : List Char}
    (hrest : ∀ t ∈ tokensFrom base size rest, t.Holds P) :
    ∀ t ∈ tokensFrom base size (b.opening :: cs ++ [b.closing] ++ rest), t.Holds P := by
  have hclosing : ∀ t ∈ tokensFrom base size (b.closing :: rest), t.Holds P := by
    rw [tokensFrom_closing]
    exact List.forall_mem_cons.2 ⟨trivial, hrest⟩
  rw [List.append_assoc, List.cons_append, List.singleton_append, tokensFrom_opening]
  exact List.forall_mem_cons.2
    ⟨trivial, holds_laysAll hatom h hstrings (atomEnds_closing b rest) hclosing⟩
termination_by (sizeOf items, 1)

theorem holds_laysAll (hatom : ∀ mark s, s ≠ [] → NoRaw s → P (ofAtom mark s))
    {items : List Sexpr} {cs : List Char} (h : LaysAll items cs)
    (hstrings : EveryAll (fun y => ∀ s, y = .string s → P y) items) {rest : List Char}
    (hends : AtomEnds rest) (hrest : ∀ t ∈ tokensFrom base size rest, t.Holds P) :
    ∀ t ∈ tokensFrom base size (cs ++ rest), t.Holds P := by
  match h with
  | .nil => exact hrest
  | .single hx => exact holds_lays hatom hx hstrings.1 hends hrest
  | @LaysAll.cons _ _ _ _ gap ds hx hgap hitems =>
    rw [List.append_assoc, List.append_assoc]
    refine holds_lays hatom hx hstrings.1 (atomEnds_gap hgap (ds ++ rest)) ?_
    rw [tokensFrom_gap base size hgap.blank]
    exact holds_laysAll hatom hitems hstrings.2 hends hrest
termination_by (sizeOf items, 0)

end

omit base size in
/-- The atoms of an expression that was read from a written text are strings that were written, and
what some characters without a raw blank are read as. -/
theorem every_of_parse_text (hatom : ∀ mark s, s ≠ [] → NoRaw s → P (ofAtom mark s)) {x y : Sexpr}
    (hstrings : Every (fun y => ∀ s, y = .string s → P y) x) {isPretty : Bool} {base : Nat}
    (h : parse base (x.text isPretty) = .ok y) : Every P y := by
  have hends : AtomEnds [] := by simp [AtomEnds]
  refine every_of_parse_tokens h ?_
  have hall := holds_lays base (x.text isPretty).toList.length hatom (lays_text isPretty x)
    hstrings hends (by simp [tokensFrom])
  rwa [List.append_nil] at hall

end Written

end Reading

end PlateModel.Sexpr
