import PlateModel.Proofs.Sexpr.RoundTrip

/-!
# What a written expression is read as

A written atom is cut at its raw blanks, and each piece is read for itself; so it need not be read
back as what it was. But what it is read as does not depend on where it stands, and no more does an
expression that is laid out in one way or another.

* `unmarked`: an expression without the marks of its floats.
* `Rereads`: what an expression is read as in all of its layouts.
* `exists_parse_texts`: both layouts of a list are read as the same list.
-/

namespace PlateModel.Sexpr

/-! ## Marks -/

mutual

/-- An expression without the marks of its floats. -/
def unmarked : Sexpr → Sexpr
  | real x _ => real x 0
  | list items => list (unmarkedAll items)
  | square items => square (unmarkedAll items)
  | quoted item => quoted (unmarked item)
  | x => x

/-- Several expressions without the marks of their floats. -/
def unmarkedAll : List Sexpr → List Sexpr
  | [] => []
  | x :: rest => unmarked x :: unmarkedAll rest

end

theorem unmarked_symbol (s : String) : (symbol s).unmarked = symbol s := rfl

@[simp] theorem unmarkedAll_eq_map (xs : List Sexpr) : unmarkedAll xs = xs.map unmarked := by
  induction xs with
  | nil => rfl
  | cons x xs ih => rw [unmarkedAll, ih, List.map_cons]

mutual

theorem writeChars_unmarked : ∀ x : Sexpr, writeChars x.unmarked = writeChars x
  | .int _ | .real .. | .symbol _ | .string _ => rfl
  | .list items | .square items => by
    rw [unmarked, writeChars, writeChars, writeAll_unmarked items]
  | .quoted x => by rw [unmarked, writeChars, writeChars, writeChars_unmarked x]

theorem writeAll_unmarked : ∀ xs : List Sexpr, writeAll (unmarkedAll xs) = writeAll xs
  | [] => rfl
  | x :: xs => by
    rw [unmarkedAll, writeAll, writeAll, writeChars_unmarked x, writeAll_unmarked xs]

end

/-- Marks are not written. -/
theorem write_unmarked (x : Sexpr) : x.unmarked.write = x.write := by
  rw [write, write, writeChars_unmarked]

theorem unmarked_ofAtom (mark : Nat) (cs : List Char) :
    (ofAtom mark cs).unmarked = (ofAtom 0 cs).unmarked := by
  unfold ofAtom
  split
  · rfl
  · split <;> rfl

/-! ## Quotations -/

mutual

/-- An expression holds no quotation. -/
def Unquoted : Sexpr → Prop
  | list items | square items => UnquotedAll items
  | quoted _ => False
  | _ => True

/-- Several expressions hold no quotation. -/
def UnquotedAll : List Sexpr → Prop
  | [] => True
  | x :: rest => Unquoted x ∧ UnquotedAll rest

end

theorem unquotedAll_iff {items : List Sexpr} : UnquotedAll items ↔ ∀ x ∈ items, Unquoted x := by
  induction items with
  | nil => simp [UnquotedAll]
  | cons x rest ih => simp [UnquotedAll, ih]

/-! ## Reading layouts -/

/-- Wherever it stands in a list, a text adds the same items to it, apart from their marks. -/
def Adds (cs : List Char) (zs : List Sexpr) : Prop :=
  ∀ base size rest, AtomEnds rest → ∀ before outer, ∃ ys : List Sexpr, ys.map unmarked = zs ∧
    readTokens (tokensFrom base size (cs ++ rest)) ⟨before, []⟩ outer =
      readTokens (tokensFrom base size rest) ⟨ys.reverse ++ before, []⟩ outer

theorem Adds.nil : Adds [] [] := fun _ _ _ _ _ _ => ⟨[], rfl, rfl⟩

theorem Adds.append {cs gap ds : List Char} {zs ws : List Sexpr} (h : Adds cs zs) (hgap : IsGap gap)
    (h' : Adds ds ws) : Adds (cs ++ gap ++ ds) (zs ++ ws) := by
  intro base size rest hrest before outer
  obtain ⟨ys, hys, hread⟩ := h base size (gap ++ (ds ++ rest)) (atomEnds_gap hgap _) before outer
  obtain ⟨ys', hys', hread'⟩ := h' base size rest hrest (ys.reverse ++ before) outer
  refine ⟨ys ++ ys', by rw [List.map_append, hys, hys'], ?_⟩
  rw [List.append_assoc, List.append_assoc, hread, tokensFrom_gap base size hgap.blank, hread',
    List.reverse_append, List.append_assoc]

/-- The items between two brackets become one item of the list around them. -/
theorem Adds.bracketed {cs : List Char} {zs : List Sexpr} (h : Adds cs zs) (b : Bracket) :
    Adds (b.opening :: cs ++ [b.closing]) [ofBracket b zs] := by
  intro base size rest hrest before outer
  obtain ⟨ys, hys, hread⟩ := h base size (b.closing :: rest) (atomEnds_closing b rest) []
    ((b, ⟨before, []⟩) :: outer)
  rw [List.append_nil] at hread
  refine ⟨[ofBracket b ys], ?_, readTokens_bracketed base size b hread⟩
  rw [List.map_singleton, ← hys]
  cases b <;> simp [ofBracket, unmarked]

/-- A written string is one item. -/
theorem adds_string (s : String) : Adds (writeAtom (.string s)) [.string s] := by
  intro base size rest hrest before outer
  refine ⟨[.string s], rfl, ?_⟩
  rw [writeAtom, List.append_assoc, List.cons_append, List.singleton_append, tokensFrom_string,
    String.ofList_toList]
  rfl

/-- A written symbol is cut at its raw blanks. -/
theorem exists_adds_symbol (s : List Char) : ∃ zs, Adds (s.flatMap escapeSymbol) zs := by
  -- one token takes all characters up to the next raw blank, so the induction is on the length
  induction hlength : s.length using Nat.strong_induction_on generalizing s with
  | h n ih =>
    cases s with
    | nil => exact ⟨[], .nil⟩
    | cons c s =>
      rw [List.length_cons] at hlength
      cases hraw : isRawBlank c with
      | true =>
        obtain ⟨zs, hzs⟩ := ih s.length (by omega) s rfl
        refine ⟨zs, fun base size rest hrest before outer => ?_⟩
        have hblank : Text.isAsciiBlank c := (Bool.and_eq_true_iff.1 hraw).1
        have hgap := tokensFrom_gap base size (List.forall_mem_singleton.2 hblank)
          (s.flatMap escapeSymbol ++ rest)
        rw [List.flatMap_cons, List.append_assoc, escapeSymbol_of_raw hraw, hgap]
        exact hzs base size rest hrest before outer
      | false =>
        have hsplit : splitRaw (c :: s) = (c :: (splitRaw s).1, (splitRaw s).2) := by
          simp [splitRaw, hraw]
        have hshorter : (splitRaw s).2.length ≤ s.length := (List.dropWhile_sublist _).length_le
        obtain ⟨zs, hzs⟩ := ih (splitRaw s).2.length (by omega) (splitRaw s).2 rfl
        refine ⟨(ofAtom 0 (splitRaw (c :: s)).1).unmarked :: zs,
          fun base size rest hrest before outer => ?_⟩
        obtain ⟨mark, htokens⟩ := tokensFrom_symbol base size (s := s) hraw hrest
        obtain ⟨ys, hys, hread⟩ := hzs base size rest hrest
          (ofAtom mark (splitRaw (c :: s)).1 :: before) outer
        refine ⟨ofAtom mark (splitRaw (c :: s)).1 :: ys, ?_, ?_⟩
        · rw [List.map_cons, hys, unmarked_ofAtom]
        · rw [htokens, hsplit, List.reverse_cons, List.append_assoc, List.singleton_append]
          rw [hsplit] at hread
          exact hread

/-- All layouts of an expression add the same items. -/
def Rereads (x : Sexpr) (zs : List Sexpr) : Prop := ∀ cs, Lays x cs → Adds cs zs

theorem rereads_list {items zs : List Sexpr} (h : ∀ cs, LaysAll items cs → Adds cs zs) :
    Rereads (.list items) [.list zs] := by
  intro cs hcs
  cases hcs with
  | list hitems => exact (h _ hitems).bracketed .round

mutual

/-- What an expression without quotations is read as does not depend on its layout. -/
theorem exists_rereads : ∀ x : Sexpr, x.Unquoted → ∃ zs, Rereads x zs
  | .int i, _ => by
    obtain ⟨zs, hzs⟩ := exists_adds_symbol (Decimal.ofInt i).toList
    refine ⟨zs, fun cs h => ?_⟩
    cases h
    rwa [writeAtom_int]
  | .real x mark, _ => by
    obtain ⟨zs, hzs⟩ := exists_adds_symbol (Decimal.ofFloat x).toList
    refine ⟨zs, fun cs h => ?_⟩
    cases h
    rwa [writeAtom_real]
  | .symbol s, _ => by
    obtain ⟨zs, hzs⟩ := exists_adds_symbol s.toList
    refine ⟨zs, fun cs h => ?_⟩
    cases h
    exact hzs
  | .string s, _ => by
    refine ⟨[.string s], fun cs h => ?_⟩
    cases h
    exact adds_string s
  | .list items, hx => by
    obtain ⟨zs, hzs⟩ := exists_rereadsAll items hx
    exact ⟨_, rereads_list hzs⟩
  | .square items, hx => by
    obtain ⟨zs, hzs⟩ := exists_rereadsAll items hx
    refine ⟨[.square zs], fun cs h => ?_⟩
    cases h with
    | square hitems => exact (hzs _ hitems).bracketed .square
  | .quoted x, hx => hx.elim

/-- The same for the items of a list. -/
theorem exists_rereadsAll : ∀ items : List Sexpr, UnquotedAll items →
    ∃ zs, ∀ cs, LaysAll items cs → Adds cs zs
  | [], _ => by
    refine ⟨[], fun cs h => ?_⟩
    cases h
    exact .nil
  | [x], hx => by
    obtain ⟨zs, hzs⟩ := exists_rereads x hx.1
    refine ⟨zs, fun cs h => ?_⟩
    cases h with
    | single h => exact hzs _ h
  | x :: y :: items, hx => by
    obtain ⟨zs, hzs⟩ := exists_rereads x hx.1
    obtain ⟨ws, hws⟩ := exists_rereadsAll (y :: items) hx.2
    refine ⟨zs ++ ws, fun cs h => ?_⟩
    cases h with
    | cons h hgap hrest => exact (hzs _ h).append hgap (hws _ hrest)

end

/-- A text that adds one item to every list is read as that item, apart from its marks. -/
theorem parse_of_adds {text : String} {z : Sexpr} (h : Adds text.toList [z]) (base : Nat) :
    ∃ y, parse base text = .ok y ∧ y.unmarked = z := by
  have hends : AtomEnds [] := by simp [AtomEnds]
  obtain ⟨ys, hys, hread⟩ := h base text.toList.length [] hends [] []
  obtain ⟨y, rfl, hy⟩ := List.map_eq_singleton_iff.1 hys
  rw [List.append_nil] at hread
  refine ⟨y, ?_, hy⟩
  rw [parse, tokens, Frame.empty, hread]
  simp [tokensFrom, readTokens, Frame.close]

/-- Both layouts of a list are read, and as the same list apart from the marks of its floats. -/
theorem exists_parse_texts {items : List Sexpr} (hx : (list items).Unquoted) (base base' : Nat) :
    ∃ y y', parse base ((list items).text true) = .ok y ∧
      parse base' ((list items).text false) = .ok y' ∧ y.unmarked = y'.unmarked := by
  obtain ⟨zs, hzs⟩ := exists_rereadsAll items hx
  have hadds : ∀ isPretty, Adds ((list items).text isPretty).toList [list zs] := fun isPretty =>
    rereads_list hzs _ (lays_text isPretty _)
  obtain ⟨y, hparse, hy⟩ := parse_of_adds (hadds true) base
  obtain ⟨y', hparse', hy'⟩ := parse_of_adds (hadds false) base'
  exact ⟨y, y', hparse, hparse', hy.trans hy'.symm⟩

end PlateModel.Sexpr
