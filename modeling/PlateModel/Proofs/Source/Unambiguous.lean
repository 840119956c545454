import PlateModel.Evaluation.Eval
import PlateModel.Proofs.Evaluation.Formula
import PlateModel.Proofs.Source.Grammar

/-!
# Printed formulas are unambiguous

A formula of finite numbers, names and operators is printed with no more brackets than its operators
need, and its text is read as its reading: the formula without places and marks, in which a number
with a sign is the negation of one without. But the printer puts no brackets around such a number
where it is the base of a power, and the power is read first. So formulas with the same text have
the same reading, and they have the same value if no base of a power begins with the sign of a
number.

* `IsPlainFormula`: the formulas that the theorems are about.
* `reading`: what the text of a formula is read as; `isSigned`, `bare`: its sign and the rest of it.
* `ReadsBare`: the text of a formula is read as its reading wherever it needs no brackets.
* `eval_eq_of_source_eq`: formulas with the same text.
-/

namespace PlateModel

open Text Decimal

/-- A formula of finite numbers and names. -/
inductive Expr.IsPlainFormula : Expr → Prop
  | literal {v : Number} (mark : Nat) (hv : v.IsFinite) : IsPlainFormula (.literal v mark)
  | name {x : String} (hx : IsNameWord x.toList) : IsPlainFormula (.name x)
  | unary (op : UnaryOp) {a : Expr} (l : Option Location) (ha : IsPlainFormula a) :
    IsPlainFormula (.call op.symbol [a] l)
  | binary (op : BinaryOp) {a b : Expr} (l : Option Location) (ha : IsPlainFormula a)
    (hb : IsPlainFormula b) : IsPlainFormula (.call op.symbol [a, b] l)

/-! ## Texts of operators -/

theorem BinaryOp.precedence_le (op : BinaryOp) : op.precedence ≤ 8 := by
  cases op <;> decide

theorem BinaryOp.precedence_ne (op : BinaryOp) : op.precedence ≠ UnaryOp.precedence := by
  cases op <;> decide

theorem BinaryOp.precedence_of_ne_pow {op : BinaryOp} (h : op ≠ .pow) :
    op.precedence < UnaryOp.precedence := by
  cases op with
  | pow => exact absurd rfl h
  | _ => decide

section Stops

variable {p p' : Nat} {rest : List Char}

theorem Stops.mono (h : Stops p rest) (hp : p ≤ p') : Stops p' rest := fun op cs hcs =>
  (h op cs hcs).trans_le hp

theorem stops_of_lt (hp : 8 < p) : Stops p rest := fun op _ _ => op.precedence_le.trans_lt hp

theorem stops_infixText {op : BinaryOp} (h : op.precedence < p) (cs : List Char) :
    Stops p (op.infixText ++ cs) := by
  intro op' cs' hcs
  obtain ⟨rfl, -⟩ := BinaryOp.infixText_inj hcs
  exact h

theorem stops_nil : Stops p [] := fun _ _ h => nomatch h

theorem stops_closing : Stops p (')' :: rest) := fun _ _ h =>
  absurd (List.cons.inj h).1 (by decide)

/-- No binary operator binds like the unary ones. -/
theorem Stops.unary (h : Stops (UnaryOp.precedence + 1) rest) : Stops UnaryOp.precedence rest :=
  fun op cs hcs => lt_of_le_of_ne (Nat.le_of_lt_succ (h op cs hcs)) op.precedence_ne

end Stops

theorem wordEnds_infixText (op : BinaryOp) (cs : List Char) : WordEnds (op.infixText ++ cs) := by
  rintro c ⟨⟩
  exact .inl rfl

theorem wordEnds_closing (rest : List Char) : WordEnds (')' :: rest) := by
  rintro c ⟨⟩
  exact .inr rfl

namespace Expr

/-- How tightly the text of an expression holds together: like its operator, if it has one. -/
def binding (e : Expr) : Nat := (e.operator?.map Operator.precedence).getD 9

@[simp] theorem operator?_unary (op : UnaryOp) (a : Expr) (l : Option Location) :
    (Expr.call op.symbol [a] l).operator? = some (.unary op) := by
  cases op <;> rfl

@[simp] theorem operator?_binary (op : BinaryOp) (a b : Expr) (l : Option Location) :
    (Expr.call op.symbol [a, b] l).operator? = some (.binary op) := by
  cases op <;> rfl

theorem binding_unary (op : UnaryOp) (a : Expr) (l : Option Location) :
    (Expr.call op.symbol [a] l).binding = UnaryOp.precedence := by
  simp [binding, Operator.precedence]

theorem binding_binary (op : BinaryOp) (a b : Expr) (l : Option Location) :
    (Expr.call op.symbol [a, b] l).binding = op.precedence := by
  simp [binding, Operator.precedence]

/-- The text of an operand at a place. -/
def placeText (least : Nat) (e : Expr) : List Char := (operandText least e e.source).toList

theorem placeText_of_lt {least : Nat} {e : Expr} (h : e.binding < least) (hleast : least ≤ 9) :
    placeText least e = '(' :: (e.source.toList ++ [')']) := by
  rw [placeText, operandText]
  cases hop : e.operator? with
  | none =>
    rw [binding, hop] at h
    exact absurd h (Nat.not_lt.2 hleast)
  | some op =>
    rw [binding, hop] at h
    change op.precedence < least at h
    dsimp only
    rw [if_pos h]
    simp

theorem placeText_of_le {least : Nat} {e : Expr} (h : least ≤ e.binding) :
    placeText least e = e.source.toList := by
  rw [placeText, operandText]
  cases hop : e.operator? with
  | none => rfl
  | some op =>
    rw [binding, hop] at h
    change least ≤ op.precedence at h
    dsimp only
    rw [if_neg (Nat.not_lt.2 h)]

theorem source_unary (op : UnaryOp) (a : Expr) (l : Option Location) :
    (Expr.call op.symbol [a] l).source.toList = op.char :: placeText UnaryOp.precedence a := by
  have hsource : (Expr.call op.symbol [a] l).source =
      op.symbol ++ operandText UnaryOp.precedence a a.source := by
    cases op <;> rfl
  rw [hsource, String.toList_append, UnaryOp.symbol_toList]
  rfl

theorem source_binary (op : BinaryOp) (a b : Expr) (l : Option Location) :
    (Expr.call op.symbol [a, b] l).source.toList =
      placeText op.precedence a ++ (op.infixText ++ placeText (op.precedence + 1) b) := by
  have hsource : (Expr.call op.symbol [a, b] l).source =
      operandText op.precedence a a.source ++ " " ++ op.symbol ++ " " ++
        operandText (op.precedence + 1) b b.source := by
    cases op <;> rfl
  rw [hsource]
  simp [placeText, BinaryOp.infixText]

/-! ## Readings -/

/-- Whether a formula is a number with a sign or a power that begins with one. The sign is read as
that of the whole power. -/
def isSigned : Expr → Bool
  | literal v _ => v.isSigned
  | call f [a, _] _ => f = BinaryOp.pow.symbol && isSigned a
  | _ => false

/-- An expression, behind a minus if there is a sign. -/
def signed (sign : Bool) (e : Expr) : Expr := if sign then UnaryOp.neg.call e else e

/-- What the text of a formula is read as behind its sign. -/
def bare : Expr → Expr
  | literal v _ => literal (if v.isSigned then v.neg else v) 0
  | call f [a] _ => call f [signed a.isSigned (bare a)] none
  | call f [a, b] _ =>
    call f [if f = BinaryOp.pow.symbol then bare a else signed a.isSigned (bare a),
      signed b.isSigned (bare b)] none
  | e => e

/-- What the text of a formula is read as. -/
def reading (e : Expr) : Expr := signed e.isSigned e.bare

theorem isSigned_unary (op : UnaryOp) (a : Expr) (l : Option Location) :
    (Expr.call op.symbol [a] l).isSigned = false := rfl

theorem bare_unary (op : UnaryOp) (a : Expr) (l : Option Location) :
    (Expr.call op.symbol [a] l).bare = op.call a.reading := rfl

theorem isSigned_pow (a b : Expr) (l : Option Location) :
    (Expr.call BinaryOp.pow.symbol [a, b] l).isSigned = a.isSigned := by
  rw [isSigned, decide_eq_true rfl, Bool.true_and]

theorem bare_pow (a b : Expr) (l : Option Location) :
    (Expr.call BinaryOp.pow.symbol [a, b] l).bare = BinaryOp.pow.call a.bare b.reading := by
  rw [bare, if_pos rfl]
  rfl

section NotPow

variable {op : BinaryOp} (h : op ≠ .pow) (a b : Expr) (l : Option Location)

include h

theorem isSigned_binary : (Expr.call op.symbol [a, b] l).isSigned = false := by
  rw [isSigned, decide_eq_false fun heq => h (BinaryOp.symbol_injective heq), Bool.false_and]

theorem bare_binary :
    (Expr.call op.symbol [a, b] l).bare = op.call a.reading b.reading := by
  rw [bare, if_neg fun heq => h (BinaryOp.symbol_injective heq)]
  rfl

end NotPow

/-! ## Reading printed formulas -/

/-- `cs` is the text of a formula behind its sign, and it is read as such wherever the formula needs
no brackets. -/
structure ReadsBare (e : Expr) (cs : List Char) : Prop where
  source : e.source.toList = signChars e.isSigned ++ cs
  tight : e.isSigned → UnaryOp.precedence < e.binding
  word : e.isSigned → 9 ≤ e.binding → Leaf cs e.bare
  reads : ∀ {p rest e' rest'}, p ≤ e.binding → WordEnds rest → Stops (e.binding + 1) rest →
    Climbs p e.bare rest e' rest' → Reads p (cs ++ rest) e' rest'

namespace ReadsBare

variable {e e' : Expr} {p least : Nat} {cs rest rest' : List Char} (h : ReadsBare e cs)

include h

/-- The text of a formula is read where it needs no brackets, if what follows is no power that would
take its sign. -/
theorem reads_source (hp : p ≤ UnaryOp.precedence) (hbinding : p ≤ e.binding)
    (hends : WordEnds rest) (hstops : Stops (e.binding + 1) rest)
    (hsign : e.isSigned → Stops UnaryOp.precedence rest)
    (hclimbs : Climbs p e.reading rest e' rest') :
    Reads p (e.source.toList ++ rest) e' rest' := by
  rw [h.source]
  rw [reading] at hclimbs
  cases hsigned : e.isSigned with
  | false =>
    rw [hsigned] at hclimbs
    exact h.reads hbinding hends hstops hclimbs
  | true =>
    rw [hsigned] at hclimbs
    have hbare : Reads UnaryOp.precedence (cs ++ rest) e.bare rest :=
      h.reads (h.tight hsigned).le hends hstops (.stop (hsign hsigned))
    exact .unary .neg rfl hp hbare hclimbs

/-- A text in brackets is read anywhere. -/
theorem reads_group (hclimbs : Climbs p e.reading rest e' rest') :
    Reads p ('(' :: (e.source.toList ++ [')']) ++ rest) e' rest' := by
  have hread : Reads 0 (e.source.toList ++ ')' :: rest) e.reading (')' :: rest) :=
    h.reads_source (Nat.zero_le _) (Nat.zero_le _) (wordEnds_closing rest) stops_closing
      (fun _ => stops_closing) (.stop stops_closing)
  refine .group ?_ hread hclimbs
  rw [List.cons_append, List.append_assoc, List.singleton_append]

/-- The text of an operand is read at a place that demands no more than a unary operator does. -/
theorem reads_place (hleast : least ≤ UnaryOp.precedence) (hp : p ≤ least)
    (hends : WordEnds rest) (hstops : Stops (least + 1) rest)
    (hsign : e.isSigned → Stops UnaryOp.precedence rest)
    (hclimbs : Climbs p e.reading rest e' rest') :
    Reads p (placeText least e ++ rest) e' rest' := by
  rcases Nat.lt_or_ge e.binding least with hlt | hge
  · rw [placeText_of_lt hlt (hleast.trans (by decide))]
    exact h.reads_group hclimbs
  · rw [placeText_of_le hge]
    exact h.reads_source (hp.trans hleast) (hp.trans hge) hends
      (hstops.mono (Nat.succ_le_succ hge)) hsign hclimbs

/-- The text of an exponent is read. -/
theorem reads_exponent (hends : WordEnds rest) (hclimbs : Climbs 9 e.reading rest e' rest') :
    Reads 9 (placeText 9 e ++ rest) e' rest' := by
  rcases Nat.lt_or_ge e.binding 9 with hlt | hge
  · rw [placeText_of_lt hlt le_rfl]
    exact h.reads_group hclimbs
  · rw [placeText_of_le hge, h.source]
    rw [reading] at hclimbs
    cases hsigned : e.isSigned with
    | false =>
      rw [hsigned] at hclimbs
      exact h.reads hge hends (stops_of_lt (by omega)) hclimbs
    | true =>
      rw [hsigned] at hclimbs
      exact .sign rfl (by decide) (h.word hsigned hge) hends hclimbs

end ReadsBare

/-- A word is read wherever it stands. -/
theorem readsBare_leaf {e : Expr} {cs : List Char} (hleaf : Leaf cs e.bare)
    (hbinding : e.binding = 9) (hsource : e.source.toList = signChars e.isSigned ++ cs) :
    ReadsBare e cs where
  source := hsource
  tight _ := by rw [hbinding]; decide
  word _ _ := hleaf
  reads _ hends _ hclimbs := .leaf rfl hleaf hends hclimbs

theorem readsBare_literal {v : Number} (mark : Nat) (hv : v.IsFinite) :
    ReadsBare (.literal v mark) (if v.isSigned then v.neg else v).source.toList := by
  by_cases hsigned : v.isSigned
  · rw [if_pos hsigned]
    refine readsBare_leaf ?_ rfl ?_
    · rw [bare, if_pos hsigned]
      exact .number (Number.isFinite_neg hv) (Number.isSigned_neg hv hsigned)
    · rw [source, isSigned, Number.source_isSigned hv hsigned, hsigned]
      rfl
  · rw [if_neg hsigned]
    refine readsBare_leaf ?_ rfl ?_
    · rw [bare, if_neg hsigned]
      exact .number hv (Bool.eq_false_iff.2 hsigned)
    · rw [source, isSigned, Bool.eq_false_iff.2 hsigned]
      rfl

theorem readsBare_unary (op : UnaryOp) {a : Expr} (l : Option Location) {cs : List Char}
    (ha : ReadsBare a cs) : ReadsBare (.call op.symbol [a] l)
      (op.char :: placeText UnaryOp.precedence a) where
  source := by rw [source_unary, isSigned_unary]; rfl
  tight h := by rw [isSigned_unary] at h; cases h
  word h := by rw [isSigned_unary] at h; cases h
  reads {p rest e' rest'} hp hends hstops hclimbs := by
    rw [binding_unary] at hp hstops
    rw [bare_unary] at hclimbs
    have hoperand : Reads UnaryOp.precedence (placeText UnaryOp.precedence a ++ rest) a.reading
        rest :=
      ha.reads_place le_rfl le_rfl hends hstops (fun _ => hstops.unary) (.stop hstops.unary)
    exact .unary op rfl hp hoperand hclimbs

/-- The text of an operator and its right operand is read. -/
theorem climbs_step (op : BinaryOp) {a b e' : Expr} {p : Nat} {cs rest rest' : List Char}
    (hb : ReadsBare b cs) (hp : p ≤ op.precedence) (hends : WordEnds rest)
    (hstops : Stops (op.precedence + 1) rest)
    (hclimbs : Climbs p (op.call a b.reading) rest e' rest') :
    Climbs p a (op.infixText ++ (placeText (op.precedence + 1) b ++ rest)) e' rest' := by
  refine .step op rfl hp ?_ hclimbs
  by_cases hop : op = .pow
  · subst hop
    exact hb.reads_exponent hends (.stop hstops)
  · have hlow := BinaryOp.precedence_of_ne_pow hop
    exact hb.reads_place hlow le_rfl hends (hstops.mono (Nat.le_succ _))
      (fun _ => hstops.mono hlow) (.stop hstops)

theorem readsBare_binary {op : BinaryOp} (hop : op ≠ .pow) {a b : Expr} (l : Option Location)
    {cs ds : List Char} (ha : ReadsBare a cs) (hb : ReadsBare b ds) :
    ReadsBare (.call op.symbol [a, b] l)
      (placeText op.precedence a ++ (op.infixText ++ placeText (op.precedence + 1) b)) where
  source := by rw [source_binary, isSigned_binary hop]; rfl
  tight h := by rw [isSigned_binary hop] at h; cases h
  word h := by rw [isSigned_binary hop] at h; cases h
  reads {p rest e' rest'} hp hends hstops hclimbs := by
    rw [binding_binary] at hp hstops
    rw [bare_binary hop] at hclimbs
    have hlow := BinaryOp.precedence_of_ne_pow hop
    rw [List.append_assoc, List.append_assoc]
    exact ha.reads_place hlow.le hp (wordEnds_infixText op _)
      (stops_infixText (Nat.lt_succ_self _) _) (fun _ => stops_infixText hlow _)
      (climbs_step op hb hp hends hstops hclimbs)

theorem readsBare_pow {a b : Expr} (l : Option Location) {cs ds : List Char}
    (ha : ReadsBare a cs) (hb : ReadsBare b ds) :
    ∃ es, ReadsBare (.call BinaryOp.pow.symbol [a, b] l) es := by
  have hbinding : (Expr.call BinaryOp.pow.symbol [a, b] l).binding = 8 := binding_binary ..
  have hunary : UnaryOp.precedence = 7 := rfl
  have tight : UnaryOp.precedence < (Expr.call BinaryOp.pow.symbol [a, b] l).binding := by omega
  have word : ¬9 ≤ (Expr.call BinaryOp.pow.symbol [a, b] l).binding := by omega
  rcases Nat.lt_or_ge a.binding 8 with hlt | hge
  · -- a base in brackets begins with no sign
    have hunsigned : a.isSigned = false := by
      refine Bool.eq_false_iff.2 fun hsigned => ?_
      have htight := ha.tight hsigned
      omega
    refine ⟨placeText 8 a ++ (BinaryOp.pow.infixText ++ placeText 9 b), ?_, fun _ => tight,
      fun _ h => absurd h word, ?_⟩
    · rw [source_binary, isSigned_pow, hunsigned]
      rfl
    · intro p rest e' rest' hp hends hstops hclimbs
      rw [hbinding] at hp hstops
      rw [bare_pow] at hclimbs
      rw [placeText_of_lt hlt (by decide), List.append_assoc, List.append_assoc]
      refine ha.reads_group ?_
      rw [reading, hunsigned]
      exact climbs_step .pow hb hp hends hstops hclimbs
  · refine ⟨cs ++ (BinaryOp.pow.infixText ++ placeText 9 b), ?_, fun _ => tight,
      fun _ h => absurd h word, ?_⟩
    · have hplace : placeText BinaryOp.pow.precedence a = a.source.toList := placeText_of_le hge
      rw [source_binary, isSigned_pow, hplace, ha.source, List.append_assoc]
      rfl
    · intro p rest e' rest' hp hends hstops hclimbs
      rw [hbinding] at hp hstops
      rw [bare_pow] at hclimbs
      rw [List.append_assoc, List.append_assoc]
      exact ha.reads (hp.trans hge) (wordEnds_infixText .pow _)
        (stops_infixText (Nat.lt_succ_of_le hge) _) (climbs_step .pow hb hp hends hstops hclimbs)

/-- The text of a formula is read behind its sign. -/
theorem IsPlainFormula.exists_readsBare {e : Expr} (he : e.IsPlainFormula) :
    ∃ cs, ReadsBare e cs := by
  induction he with
  | literal mark hv => exact ⟨_, readsBare_literal mark hv⟩
  | name hx => exact ⟨_, readsBare_leaf (.name hx) rfl rfl⟩
  | unary op l _ iha =>
    obtain ⟨cs, ha⟩ := iha
    exact ⟨_, readsBare_unary op l ha⟩
  | binary op l _ _ iha ihb =>
    obtain ⟨cs, ha⟩ := iha
    obtain ⟨ds, hb⟩ := ihb
    by_cases hop : op = .pow
    · subst hop
      exact readsBare_pow l ha hb
    · exact ⟨_, readsBare_binary hop l ha hb⟩

/-- The text of a formula is read as its reading. -/
theorem IsPlainFormula.reads_source {e : Expr} (he : e.IsPlainFormula) :
    Reads 0 e.source.toList e.reading [] := by
  obtain ⟨cs, h⟩ := he.exists_readsBare
  have hends : WordEnds [] := fun _ hc => nomatch hc
  have hread := h.reads_source (Nat.zero_le _) (Nat.zero_le _) hends stops_nil
    (fun _ => stops_nil) (.stop stops_nil)
  rwa [List.append_nil] at hread

/-! ## Values -/

/-- No power has a base that begins with the sign of a number. -/
def BasesUnsigned : Expr → Prop
  | call _ [a] _ => BasesUnsigned a
  | call f [a, b] _ =>
    (f = BinaryOp.pow.symbol → a.isSigned = false) ∧ BasesUnsigned a ∧ BasesUnsigned b
  | _ => True

theorem eval_unary_congr {op : UnaryOp} {a a' : Expr} {l l' : Option Location} {env : Environment}
    (h : a.eval env = a'.eval env) :
    (Expr.call op.symbol [a] l).eval env = (Expr.call op.symbol [a'] l').eval env := by
  simp only [eval, evalAll, h]

theorem eval_binary_congr {op : BinaryOp} {a a' b b' : Expr} {l l' : Option Location}
    {env : Environment} (ha : a.eval env = a'.eval env) (hb : b.eval env = b'.eval env) :
    (Expr.call op.symbol [a, b] l).eval env = (Expr.call op.symbol [a', b'] l').eval env := by
  simp only [eval, evalAll, ha, hb]

/-- The negation of the negation of a number is the number. -/
theorem eval_neg_literal {v : Number} (h : v.IsFinite) (env : Environment) :
    (UnaryOp.neg.call (literal v.neg 0)).eval env = .ok (.number v) := by
  simp only [UnaryOp.call, eval, evalAll, List.length_cons, List.length_nil, Nat.zero_add,
    Callee.of?_unary, Except.map]
  change Except.ok (Value.number v.neg.neg) = _
  rw [Number.neg_neg_of_isFinite h]

/-- Where the sign of a number stands in front of no power, a formula has the value of its
reading. -/
theorem IsPlainFormula.eval_reading {e : Expr} (he : e.IsPlainFormula) (h : e.BasesUnsigned)
    (env : Environment) : e.reading.eval env = e.eval env := by
  induction he with
  | @literal v mark hv =>
    rw [reading, isSigned, bare]
    by_cases hsigned : v.isSigned
    · rw [hsigned, if_pos rfl]
      exact eval_neg_literal hv env
    · rw [Bool.eq_false_iff.2 hsigned]
      rfl
  | name hx => rfl
  | unary op l _ iha =>
    rw [reading, isSigned_unary, bare_unary]
    exact eval_unary_congr (iha h)
  | @binary op a b l _ _ iha ihb =>
    obtain ⟨hbase, ha, hb⟩ := h
    by_cases hop : op = .pow
    · subst hop
      have hunsigned := hbase rfl
      rw [reading, isSigned_pow, bare_pow, hunsigned]
      refine eval_binary_congr ?_ (ihb hb)
      rw [← iha ha, reading, hunsigned]
      rfl
    · rw [reading, isSigned_binary hop, bare_binary hop]
      exact eval_binary_congr (iha ha) (ihb hb)

/-- Formulas with the same text are read alike; and they have the same value under every
environment, if none of their powers has a base that begins with the sign of a number. -/
theorem eval_eq_of_source_eq {e e' : Expr} (he : e.IsPlainFormula) (he' : e'.IsPlainFormula)
    (h : e.source = e'.source) : e.reading = e'.reading ∧
      (e.BasesUnsigned → e'.BasesUnsigned → ∀ env, e.eval env = e'.eval env) := by
  have hreading : e.reading = e'.reading := (he.reads_source.unique (h ▸ he'.reads_source)).1
  refine ⟨hreading, fun hbases hbases' env => ?_⟩
  rw [← he.eval_reading hbases, hreading, he'.eval_reading hbases']

/-- The sign in front of a product may belong to its first number or be an operator. -/
theorem eval_eq_of_source_eq_product :
    (BinaryOp.mul.call (.literal (.real (-0.5)) 7) (.name "x")).source = "-0.5 * x" ∧
      ∀ env, (BinaryOp.mul.call (.literal (.real (-0.5)) 7) (.name "x")).eval env =
        (BinaryOp.mul.call (UnaryOp.neg.call (.literal (.real 0.5) 8)) (.name "x")).eval env := by
  have hhalf : (Number.real 0.5).IsFinite := ⟨false, 4503599627370496, -53, by decide +kernel⟩
  have hx : IsNameWord "x".toList :=
    isNameWord_of_nameText ⟨forall_mem_of_all (by decide), 'x', [], rfl, by decide⟩
  have hplain : ∀ a : Expr, a.IsPlainFormula →
      (BinaryOp.mul.call a (.name "x")).IsPlainFormula := fun a ha =>
    .binary .mul none ha (.name hx)
  have hbases : ∀ a : Expr, a.BasesUnsigned →
      (BinaryOp.mul.call a (.name "x")).BasesUnsigned := fun a ha =>
    ⟨fun h => absurd h (by decide), ha, trivial⟩
  have hsource : (BinaryOp.mul.call (.literal (.real (-0.5)) 7) (.name "x")).source =
      "-0.5 * x" := by
    decide +kernel
  have hsource' : (BinaryOp.mul.call (UnaryOp.neg.call (.literal (.real 0.5) 8))
      (.name "x")).source = "-0.5 * x" := by
    decide +kernel
  exact ⟨hsource, (eval_eq_of_source_eq (hplain _ (.literal 7 (Number.isFinite_neg hhalf)))
    (hplain _ (.unary .neg none (.literal 8 hhalf))) (hsource.trans hsource'.symm)).2
      (hbases _ trivial) (hbases _ trivial)⟩

/-- The square of the number minus two has the text of the negation of the square of two. -/
theorem eval_ne_of_negative_base : ∃ e e' : Expr, e.IsPlainFormula ∧ e'.IsPlainFormula ∧
    e.source = e'.source ∧ ∃ env, e.eval env ≠ e'.eval env := by
  refine ⟨BinaryOp.pow.call (.literal (.int (-2)) 0) (.literal (.int 2) 0),
    UnaryOp.neg.call (BinaryOp.pow.call (.literal (.int 2) 0) (.literal (.int 2) 0)),
    .binary .pow none (.literal 0 trivial) (.literal 0 trivial),
    .unary .neg none (.binary .pow none (.literal 0 trivial) (.literal 0 trivial)),
    by decide +kernel, fun _ => none, ?_⟩
  have hsquare : (BinaryOp.pow.call (.literal (.int (-2)) 0) (.literal (.int 2) 0)).eval
      (fun _ => none) = .ok (.number (.int 4)) := rfl
  have hnegation : (UnaryOp.neg.call (BinaryOp.pow.call (.literal (.int 2) 0)
      (.literal (.int 2) 0))).eval (fun _ => none) = .ok (.number (.int (-4))) := rfl
  rw [hsquare, hnegation]
  simp

end Expr

end PlateModel
