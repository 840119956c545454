import PlateModel.Proofs.Source.Words

/-!
# How printed formulas are read

The text of a formula is read by the precedences of its operators. A place demands a precedence:
what is read there is an operand, and then as many binary operators with their right operands as
bind at least so tightly. Binary operators stand between blanks and unary ones in front of their
operand, which may be a power. Where more than a unary operator is demanded, a minus can only be the
sign of a number.

* `Leaf`: what the words of a formula stand for.
* `Reads`, `Climbs`: the expression that is read at a place, and the text behind it.
* `Reads.unique`: there is only one.
-/

namespace PlateModel

open Text

/-! ## Operators -/

namespace UnaryOp

/-- The character that a unary operator is written as. -/
def char : UnaryOp → Char
  | neg => '-'
  | pos => '+'
  | not => '!'

theorem symbol_toList (op : UnaryOp) : op.symbol.toList = [op.char] := by
  cases op <;> rfl

theorem char_injective {op op' : UnaryOp} (h : op.char = op'.char) : op = op' := by
  cases op <;> cases op' <;> first | rfl | exact absurd h (by decide)

/-- The application of a unary operator. -/
def call (op : UnaryOp) (a : Expr) : Expr := .call op.symbol [a] none

end UnaryOp

/-- The part of a text in front of the first character that is out of place is determined. -/
theorem append_inj_of_head {P : Char → Prop} {cs ds xs ys : List Char} (hcs : ∀ c ∈ cs, P c)
    (hds : ∀ c ∈ ds, P c) (hxs : ∀ c ∈ xs.head?, ¬P c) (hys : ∀ c ∈ ys.head?, ¬P c)
    (h : cs ++ xs = ds ++ ys) : cs = ds ∧ xs = ys := by
  induction cs generalizing ds with
  | nil =>
    cases ds with
    | nil => exact ⟨rfl, h⟩
    | cons d ds =>
      rw [List.nil_append] at h
      exact absurd (hds d List.mem_cons_self) (hxs d (by rw [h]; rfl))
  | cons c cs ih =>
    cases ds with
    | nil =>
      rw [List.nil_append] at h
      exact absurd (hcs c List.mem_cons_self) (hys c (by rw [← h]; rfl))
    | cons d ds =>
      obtain ⟨rfl, hrest⟩ := List.cons.inj h
      obtain ⟨rfl, rfl⟩ :=
        ih (List.forall_mem_cons.1 hcs).2 (List.forall_mem_cons.1 hds).2 hrest
      exact ⟨rfl, rfl⟩

namespace BinaryOp

/-- The text of a binary operator between its operands. -/
def infixText (op : BinaryOp) : List Char := ' ' :: op.symbol.toList ++ [' ']

/-- The application of a binary operator. -/
def call (op : BinaryOp) (a b : Expr) : Expr := .call op.symbol [a, b] none

theorem symbol_injective {op op' : BinaryOp} (h : op.symbol = op'.symbol) : op = op' := by
  cases op <;> cases op' <;> first | rfl | exact absurd h (by decide)

/-- The operator in front of a text, and the text behind it, are determined. -/
theorem infixText_inj {op op' : BinaryOp} {cs cs' : List Char}
    (h : op.infixText ++ cs = op'.infixText ++ cs') : op = op' ∧ cs = cs' := by
  have hsymbols : ∀ op : BinaryOp, ∀ c ∈ op.symbol.toList, c ≠ ' ' := by
    rintro op c hc rfl
    revert hc
    cases op <;> decide
  have hblank : ∀ cs : List Char, ∀ c ∈ (' ' :: cs).head?, ¬c ≠ ' ' := by
    rintro cs c ⟨⟩
    exact fun hc => hc rfl
  simp only [infixText, List.cons_append, List.append_assoc, List.nil_append,
    List.cons.injEq, true_and] at h
  obtain ⟨hsymbol, hrest⟩ :=
    append_inj_of_head (hsymbols op) (hsymbols op') (hblank cs) (hblank cs') h
  exact ⟨symbol_injective (String.toList_inj.1 hsymbol), (List.cons.inj hrest).2⟩

end BinaryOp

/-! ## Words -/

/-- What a word stands for: a number without a sign, or a name. -/
inductive Leaf : List Char → Expr → Prop
  | number {v : Number} (hv : v.IsFinite) (hunsigned : v.isSigned = false) :
      Leaf v.source.toList (.literal v 0)
  | name {x : String} (hx : IsNameWord x.toList) : Leaf x.toList (.name x)

/-- No further character of a word stands in front of a text. -/
def WordEnds (rest : List Char) : Prop := ∀ c ∈ rest.head?, c = ' ' ∨ c = ')'

namespace Leaf

variable {cs : List Char} {e e' : Expr}

theorem isWord (h : Leaf cs e) : IsWord cs := by
  cases h with
  | number hv hunsigned => exact Number.isWord_source hv hunsigned
  | name hx => exact hx.toIsWord

/-- A word stands for one expression. -/
theorem unique (h : Leaf cs e) (h' : Leaf cs e') : e = e' := by
  cases h with
  | @number v hv hunsigned =>
    generalize hcs : v.source.toList = cs at h'
    cases h' with
    | number hw hunsigned' => rw [Number.eq_of_source_eq hv hw hunsigned hunsigned' hcs]
    | name hx =>
      obtain ⟨c, hc, hdigit⟩ := Number.source_first hv hunsigned
      exact absurd hdigit (hx.noDigit c (hcs ▸ hc))
  | @name x hx =>
    generalize hcs : x.toList = cs at h'
    cases h' with
    | number hw hunsigned =>
      obtain ⟨c, hc, hdigit⟩ := Number.source_first hw hunsigned
      exact absurd hdigit (hx.noDigit c (hcs ▸ hc))
    | name hy => rw [String.toList_inj.1 hcs]

end Leaf

theorem WordEnds.head {rest : List Char} (h : WordEnds rest) :
    ∀ c ∈ rest.head?, ¬(c ≠ ' ' ∧ c ≠ ')') := fun c hc hword =>
  (h c hc).elim hword.1 hword.2

/-- A word in front of a text stands for one expression. -/
theorem Leaf.unique_append {cs cs' rest rest' : List Char} {e e' : Expr} (h : Leaf cs e)
    (h' : Leaf cs' e') (hrest : WordEnds rest) (hrest' : WordEnds rest')
    (heq : cs ++ rest = cs' ++ rest') : e = e' ∧ rest = rest' := by
  obtain ⟨rfl, rfl⟩ :=
    append_inj_of_head h.isWord.inside h'.isWord.inside hrest.head hrest'.head heq
  exact ⟨h.unique h', rfl⟩

/-! ## Formulas -/

/-- No operator that binds so tightly stands in front of a text. -/
def Stops (p : Nat) (rest : List Char) : Prop :=
  ∀ (op : BinaryOp) (cs : List Char), rest = op.infixText ++ cs → op.precedence < p

mutual

/-- `Reads p cs e rest`: where the precedence `p` is demanded, `e` is read from `cs`, and `rest` is
left. -/
inductive Reads : Nat → List Char → Expr → List Char → Prop
  | leaf {p : Nat} {cs word rest rest' : List Char} {e e' : Expr} (hcs : cs = word ++ rest)
      (hword : Leaf word e) (hends : WordEnds rest) (h : Climbs p e rest e' rest') :
      Reads p cs e' rest'
  | unary {p : Nat} {cs cs' rest rest' : List Char} {a e' : Expr} (op : UnaryOp)
      (hcs : cs = op.char :: cs') (hp : p ≤ UnaryOp.precedence)
      (ha : Reads UnaryOp.precedence cs' a rest) (h : Climbs p (op.call a) rest e' rest') :
      Reads p cs e' rest'
  /-- The sign of a number where no unary operator may stand. -/
  | sign {p : Nat} {cs word rest rest' : List Char} {e e' : Expr} (hcs : cs = '-' :: (word ++ rest))
      (hp : UnaryOp.precedence < p) (hword : Leaf word e) (hends : WordEnds rest)
      (h : Climbs p (UnaryOp.neg.call e) rest e' rest') : Reads p cs e' rest'
  | group {p : Nat} {cs cs' rest rest' : List Char} {a e' : Expr} (hcs : cs = '(' :: cs')
      (ha : Reads 0 cs' a (')' :: rest)) (h : Climbs p a rest e' rest') : Reads p cs e' rest'

/-- `Climbs p a cs e rest`: behind the operand `a`, binary operators that bind at least as tightly
as `p` and their right operands are read from `cs`; together they are `e`. -/
inductive Climbs : Nat → Expr → List Char → Expr → List Char → Prop
  | stop {p : Nat} {a : Expr} {rest : List Char} (h : Stops p rest) : Climbs p a rest a rest
  | step {p : Nat} {cs cs' rest rest' : List Char} {a b e' : Expr} (op : BinaryOp)
      (hcs : cs = op.infixText ++ cs') (hp : p ≤ op.precedence)
      (hb : Reads (op.precedence + 1) cs' b rest) (h : Climbs p (op.call a b) rest e' rest') :
      Climbs p a cs e' rest'

end

/-- A word begins like no operand of another kind. -/
theorem Leaf.ne_cons {word rest cs : List Char} {e : Expr} (h : Leaf word e) {c : Char}
    (hc : c ∈ "(-+!".toList) : word ++ rest ≠ c :: cs := by
  obtain ⟨d, hd, hother⟩ := h.isWord.first
  cases word with
  | nil => cases hd
  | cons d' word =>
    cases hd
    exact fun heq => hother ((List.cons.inj heq).1 ▸ hc)

theorem UnaryOp.char_mem (op : UnaryOp) : op.char ∈ "(-+!".toList := by
  cases op <;> decide

theorem UnaryOp.char_ne (op : UnaryOp) : op.char ≠ '(' := by
  cases op <;> decide

mutual

/-- What is read is determined. -/
theorem Reads.unique {p : Nat} {cs rest rest' : List Char} {e e' : Expr} (h : Reads p cs e rest)
    (h' : Reads p cs e' rest') : e = e' ∧ rest = rest' := by
  have hgroup : '(' ∈ "(-+!".toList := by decide
  have hminus : '-' ∈ "(-+!".toList := by decide
  match h with
  | .leaf hcs hword hends hmore =>
    cases h' with
    | leaf hcs' hword' hends' hmore' =>
      obtain ⟨rfl, rfl⟩ := hword.unique_append hword' hends hends' (hcs.symm.trans hcs')
      exact hmore.unique hmore'
    | unary op hcs' => exact absurd (hcs.symm.trans hcs') (hword.ne_cons op.char_mem)
    | sign hcs' => exact absurd (hcs.symm.trans hcs') (hword.ne_cons hminus)
    | group hcs' => exact absurd (hcs.symm.trans hcs') (hword.ne_cons hgroup)
  | .unary op hcs hp ha hmore =>
    cases h' with
    | leaf hcs' hword' => exact absurd (hcs'.symm.trans hcs) (hword'.ne_cons op.char_mem)
    | unary op' hcs' _ ha' hmore' =>
      obtain ⟨hchar, rfl⟩ := List.cons.inj (hcs.symm.trans hcs')
      obtain rfl := UnaryOp.char_injective hchar
      obtain ⟨rfl, rfl⟩ := ha.unique ha'
      exact hmore.unique hmore'
    | sign _ hp' => exact absurd hp (Nat.not_le.2 hp')
    | group hcs' => exact absurd (List.cons.inj (hcs.symm.trans hcs')).1 op.char_ne
  | .sign hcs hp hword hends hmore =>
    cases h' with
    | leaf hcs' hword' => exact absurd (hcs'.symm.trans hcs) (hword'.ne_cons hminus)
    | unary _ _ hp' => exact absurd hp' (Nat.not_le.2 hp)
    | sign hcs' _ hword' hends' hmore' =>
      obtain ⟨rfl, rfl⟩ := hword.unique_append hword' hends hends'
        (List.cons.inj (hcs.symm.trans hcs')).2
      exact hmore.unique hmore'
    | group hcs' => exact absurd (List.cons.inj (hcs.symm.trans hcs')).1 (by decide)
  | .group hcs ha hmore =>
    cases h' with
    | leaf hcs' hword' => exact absurd (hcs'.symm.trans hcs) (hword'.ne_cons hgroup)
    | unary op hcs' => exact absurd (List.cons.inj (hcs'.symm.trans hcs)).1 op.char_ne
    | sign hcs' => exact absurd (List.cons.inj (hcs'.symm.trans hcs)).1 (by decide)
    | group hcs' ha' hmore' =>
      obtain ⟨-, rfl⟩ := List.cons.inj (hcs.symm.trans hcs')
      obtain ⟨rfl, hrest⟩ := ha.unique ha'
      obtain ⟨-, rfl⟩ := List.cons.inj hrest
      exact hmore.unique hmore'

theorem Climbs.unique {p : Nat} {a : Expr} {cs rest rest' : List Char} {e e' : Expr}
    (h : Climbs p a cs e rest) (h' : Climbs p a cs e' rest') : e = e' ∧ rest = rest' := by
  match h with
  | .stop hstops =>
    cases h' with
    | stop _ => exact ⟨rfl, rfl⟩
    | step op hcs hp _ _ => exact absurd (hstops op _ hcs) (Nat.not_lt.2 hp)
  | .step op hcs hp hb hmore =>
    cases h' with
    | stop hstops => exact absurd (hstops op _ hcs) (Nat.not_lt.2 hp)
    | step op' hcs' _ hb' hmore' =>
      obtain ⟨rfl, rfl⟩ := BinaryOp.infixText_inj (hcs.symm.trans hcs')
      obtain ⟨rfl, rfl⟩ := hb.unique hb'
      exact hmore.unique hmore'

end

end PlateModel
