import PlateModel.Proofs.Resolution.Order

/-!
# Whatever comes to a constant never fails on the way

An expression comes to a constant if every name in it has a definition that does, and every call can
be folded once its arguments have. Then no part of it fails to fold, however many of the definitions
are known: with fewer of them less is replaced, and what is left is a residue of the expression, but
no fault.

* `Comes`: an expression comes to a constant under a mapping.
* `comes_of_settle`: so it does if the rounds of replacing and folding end with the constant.
* `Comes.substitute`, `Comes.fold`: replacing fewer names and folding change nothing in this.
* `outcome_of_within`: the outcome under fewer definitions is none of the failures.
-/

namespace PlateModel

/-! ## Coming to a constant -/

mutual

/-- Under a mapping an expression comes to a constant. -/
inductive Comes (m : Mapping) : Expr → Expr → Prop
  | literal (v : Number) (k : Nat) : Comes m (.literal v k) (.literal v k)
  | name {x : String} {rhs c : Expr} (hx : m.lookup x = some rhs) (h : Comes m rhs c) :
    Comes m (.name x) c
  | call {f : String} {args cs : List Expr} {l : Option Location} {c : Expr} {n : Nat} {v : Value}
    (h : ComesAll m args cs) (hc : Expr.foldCall f cs l = .ok (c, n))
    (hv : c.constant? = .ok (some v)) : Comes m (.call f args l) c
  | array {xs cs : List Expr} {shape : List Int} {l : Option Location} {v : Value}
    (h : ComesAll m xs cs) (hv : (Expr.array cs shape l).constant? = .ok (some v)) :
    Comes m (.array xs shape l) (.array cs shape l)

/-- The expressions of a list come to constants. -/
inductive ComesAll (m : Mapping) : List Expr → List Expr → Prop
  | nil : ComesAll m [] []
  | cons {e c : Expr} {es cs : List Expr} (h : Comes m e c) (hs : ComesAll m es cs) :
    ComesAll m (e :: es) (c :: cs)

end

variable {m m' : Mapping}

/-- What an expression comes to is a constant. -/
theorem Comes.isConstant {e c : Expr} : Comes m e c → ∃ v, c.constant? = .ok (some v)
  | .literal v k => ⟨.number v, rfl⟩
  | .name _ h => h.isConstant
  | .call _ _ hv => ⟨_, hv⟩
  | .array _ hv => ⟨_, hv⟩

/-! ## Constants -/

namespace Expr

/-- A constant is a literal or an array of literals. -/
theorem constant?_cases {e : Expr} {v : Value} (h : e.constant? = .ok (some v)) :
    (∃ w k, e = literal w k) ∨ ∃ xs shape l ws, e = array xs shape l ∧ literals? xs = some ws := by
  cases e with
  | literal w k => exact .inl ⟨w, k, rfl⟩
  | array xs shape l =>
    simp only [constant?] at h
    split at h
    · cases h
    · next ws hws => exact .inr ⟨xs, shape, l, ws, rfl, hws⟩
  | _ => cases h

/-- Literals come to themselves. -/
theorem comesAll_literals : ∀ {xs : List Expr} {ws : List Number}, literals? xs = some ws →
    ComesAll m xs xs
  | [], _, _ => .nil
  | literal v k :: rest, ws, h => by
    obtain ⟨ws', hws', -⟩ := Option.map_eq_some_iff.1 h
    exact .cons (.literal v k) (comesAll_literals hws')

/-- A constant comes to itself. -/
theorem comes_self {e : Expr} {v : Value} (h : e.constant? = .ok (some v)) : Comes m e e := by
  rcases constant?_cases h with ⟨w, k, rfl⟩ | ⟨xs, shape, l, ws, rfl, hws⟩
  · exact .literal w k
  · exact .array (comesAll_literals hws) h

theorem comesAll_self : ∀ {es : List Expr} {vs : List Value}, constants? es = .ok (some vs) →
    ComesAll m es es
  | [], _, _ => .nil
  | e :: es, vs, h => by
    simp only [constants?] at h
    split at h
    · cases h
    · next o he =>
      cases hes : constants? es with
      | error f => rw [hes] at h; cases h
      | ok os =>
        cases o <;> cases os <;> simp [hes, Except.map] at h
        exact .cons (comes_self he) (comesAll_self hes)

end Expr

mutual

/-- What comes to a constant can be asked for its value, and is the constant if it has one. -/
theorem Comes.constant? {e c : Expr} : Comes m e c →
    ∃ o, e.constant? = .ok o ∧ (o.isSome → e = c)
  | .literal v k => ⟨_, rfl, fun _ => rfl⟩
  | .name _ _ => ⟨none, rfl, nofun⟩
  | .call _ _ _ => ⟨none, rfl, nofun⟩
  | @Comes.array _ xs cs shape l _ h hv => by
    cases hxs : Expr.literals? xs with
    | none => exact ⟨none, by simp only [Expr.constant?, hxs], nofun⟩
    | some ws =>
      obtain rfl := h.eq_of_literals? hxs
      exact ⟨_, hv, fun _ => rfl⟩

/-- Literals are what they come to. -/
theorem ComesAll.eq_of_literals? {es cs : List Expr} : ComesAll m es cs →
    ∀ {ws : List Number}, Expr.literals? es = some ws → es = cs
  | .nil, _, _ => rfl
  | @ComesAll.cons _ e _ _ _ h hs, ws, hes => by
    cases e with
    | literal v k =>
      obtain ⟨ws', hws', -⟩ := Option.map_eq_some_iff.1 hes
      cases h
      rw [hs.eq_of_literals? hws']
    | _ => cases hes

end

/-- Whatever comes to constants can be asked for values, and is the constants if it has them. -/
theorem ComesAll.constants? {es cs : List Expr} (h : ComesAll m es cs) :
    ∃ o, Expr.constants? es = .ok o ∧ (o.isSome → es = cs) := by
  induction es generalizing cs with
  | nil =>
    cases h
    exact ⟨some [], rfl, fun _ => rfl⟩
  | cons e es ih =>
    cases h with
    | cons h hs =>
      obtain ⟨o, ho, heq⟩ := h.constant?
      obtain ⟨os, hos, heqs⟩ := ih hs
      simp only [Expr.constants?, ho, hos, Except.map]
      refine ⟨_, rfl, ?_⟩
      intro hsome
      cases o with
      | none => cases os <;> cases hsome
      | some v =>
        cases os with
        | none => cases hsome
        | some vs => rw [heq rfl, heqs rfl]

/-! ## Replacing -/

mutual

/-- An expression comes to a constant if it does so with names replaced by what they are mapped
to. -/
theorem comes_of_substitute : ∀ {e c : Expr}, Comes m (e.substitute m) c → Comes m e c
  | .literal .., _, h => h
  | .name x, c, h => by
    cases hx : m.lookup x with
    | none => simpa only [Expr.substitute, hx, Option.getD_none] using h
    | some rhs => exact .name hx (by simpa only [Expr.substitute, hx, Option.getD_some] using h)
  | .call .., _, h => by
    cases h with
    | call h hc hv => exact .call (comesAll_of_substituteAll h) hc hv
  | .array .., _, h => by
    cases h with
    | array h hv => exact .array (comesAll_of_substituteAll h) hv
  | .index .., _, h | .range .., _, h | .stepped .., _, h | .colon _, _, h => nomatch h

theorem comesAll_of_substituteAll : ∀ {es cs : List Expr},
    ComesAll m (Expr.substituteAll m es) cs → ComesAll m es cs
  | [], _, h => h
  | e :: es, _, h => by
    cases h with
    | cons h hs => exact .cons (comes_of_substitute h) (comesAll_of_substituteAll hs)

end

mutual

/-- Replacing some of the names changes nothing. -/
theorem Comes.substitute (hm : ∀ {x e}, m'.lookup x = some e → m.lookup x = some e) :
    ∀ {e c : Expr}, Comes m e c → Comes m (e.substitute m') c
  | _, _, .literal v k => .literal v k
  | _, _, @Comes.name _ x _ _ hx h => by
    cases hx' : m'.lookup x with
    | none => simpa only [Expr.substitute, hx', Option.getD_none] using Comes.name hx h
    | some rhs =>
      have heq := hm hx'
      rw [hx] at heq
      cases heq
      simpa only [Expr.substitute, hx', Option.getD_some] using h
  | _, _, .call h hc hv => .call (h.substitute hm) hc hv
  | _, _, .array h hv => .array (h.substitute hm) hv

theorem ComesAll.substitute (hm : ∀ {x e}, m'.lookup x = some e → m.lookup x = some e) :
    ∀ {es cs : List Expr}, ComesAll m es cs → ComesAll m (Expr.substituteAll m' es) cs
  | _, _, .nil => .nil
  | _, _, .cons h hs => .cons (h.substitute hm) (hs.substitute hm)

end

/-! ## Folding -/

theorem literals?_ofNumber (ns : List Number) :
    Expr.literals? (ns.map Expr.ofNumber) = some ns := by
  induction ns with
  | nil => rfl
  | cons n ns ih => simp only [List.map_cons, Expr.ofNumber, Expr.literals?, ih, Option.map_some]

/-- A value as an expression is what it comes to. -/
theorem Comes.eq_of_ofValue? {l : Option Location} {v : Value} {e c : Expr}
    (he : Expr.ofValue? l v = some e) (h : Comes m e c) : e = c := by
  simp only [Expr.ofValue?] at he
  split at he
  · cases he
    cases h
    rfl
  · obtain ⟨ns, -, rfl⟩ := Option.map_eq_some_iff.1 he
    cases h with
    | array h _ => rw [h.eq_of_literals? (literals?_ofNumber ns)]
  · cases he

/-- A call stays as it is, or its arguments are constants and it is folded to what that comes to. -/
theorem foldCall_cases {f : String} {args : List Expr} {l : Option Location} {r : Expr × Nat}
    (h : Expr.foldCall f args l = .ok r) : r.1 = .call f args l ∨
      (∃ vs, Expr.constants? args = .ok (some vs)) ∧ ∀ {c}, Comes m r.1 c → r.1 = c := by
  simp only [Expr.foldCall] at h
  split at h
  · cases h
  · cases h; exact .inl rfl
  · next vs hvs =>
    split at h
    · cases h; exact .inl rfl
    · split at h
      · split at h
        · next e he =>
          cases h
          exact .inr ⟨⟨vs, hvs⟩, fun hc => hc.eq_of_ofValue? he⟩
        · cases h; exact .inl rfl
      · split at h
        · cases h; exact .inl rfl
        · cases h

mutual

/-- An expression comes to a constant if it does so when it is folded. -/
theorem comes_of_fold : ∀ {e c : Expr} {r : Expr × Nat}, e.fold = .ok r → Comes m r.1 c →
    Comes m e c
  | .literal .., _, _, h, hc | .name _, _, _, h, hc | .colon _, _, _, h, hc => by
    cases h
    exact hc
  | .call f args l, c, r, h, hc => by
    simp only [Expr.fold, bind_eq_ok] at h
    obtain ⟨a, ha, b, hb, h⟩ := h
    cases h
    rcases foldCall_cases (m := m) hb with hcall | ⟨⟨vs, hvs⟩, heq⟩
    · dsimp only at hc
      rw [hcall] at hc
      cases hc with
      | call hargs hfold hv => exact .call (comesAll_of_foldAll ha hargs) hfold hv
    · -- the arguments are constants, so they come to themselves
      obtain ⟨v, hv⟩ := hc.isConstant
      obtain rfl := heq hc
      exact .call (comesAll_of_foldAll ha (Expr.comesAll_self hvs)) hb hv
  | .array xs shape l, c, r, h, hc => by
    simp only [Expr.fold, bind_eq_ok] at h
    obtain ⟨a, ha, h⟩ := h
    cases h
    cases hc with
    | array hxs hv => exact .array (comesAll_of_foldAll ha hxs) hv
  | .index .., _, _, h, hc => by
    simp only [Expr.fold, bind_eq_ok] at h
    obtain ⟨a, ha, b, hb, h⟩ := h
    cases h
    cases hc
  | .range .., _, _, h, hc => by
    simp only [Expr.fold, bind_eq_ok] at h
    obtain ⟨a, ha, b, hb, h⟩ := h
    cases h
    cases hc
  | .stepped .., _, _, h, hc => by
    simp only [Expr.fold, bind_eq_ok] at h
    obtain ⟨a, ha, b, hb, d, hd, h⟩ := h
    cases h
    cases hc

theorem comesAll_of_foldAll : ∀ {es cs : List Expr} {r : List Expr × Nat},
    Expr.foldAll es = .ok r → ComesAll m r.1 cs → ComesAll m es cs
  | [], _, _, h, hc => by
    cases h
    exact hc
  | e :: es, _, _, h, hc => by
    simp only [Expr.foldAll, bind_eq_ok] at h
    obtain ⟨a, ha, b, hb, h⟩ := h
    cases h
    cases hc with
    | cons hc hcs => exact .cons (comes_of_fold ha hc) (comesAll_of_foldAll hb hcs)

end

mutual

/-- What comes to a constant can be folded, and then still comes to it. -/
theorem Comes.fold {e c : Expr} : Comes m e c → ∃ r, e.fold = .ok r ∧ Comes m r.1 c
  | .literal v k => ⟨_, rfl, .literal v k⟩
  | .name hx h => ⟨_, rfl, .name hx h⟩
  | @Comes.call _ f args cs l c n v h hc hv => by
    obtain ⟨a, ha, hargs⟩ := h.fold
    obtain ⟨o, ho, heq⟩ := hargs.constants?
    cases o with
    | none =>
      refine ⟨(.call f a.1 l, a.2 + 0), ?_, .call hargs hc hv⟩
      simp only [Expr.fold, ha, Expr.foldCall, ho, bind, Except.bind]
      rfl
    | some vs =>
      obtain rfl := heq rfl
      refine ⟨(_, a.2 + n), ?_, Expr.comes_self hv⟩
      simp only [Expr.fold, ha, hc, bind, Except.bind]
      rfl
  | @Comes.array _ xs cs shape l _ h hv => by
    obtain ⟨a, ha, hxs⟩ := h.fold
    refine ⟨(.array a.1 shape l, a.2), ?_, .array hxs hv⟩
    simp only [Expr.fold, ha, bind, Except.bind]
    rfl

theorem ComesAll.fold {es cs : List Expr} : ComesAll m es cs →
    ∃ r, Expr.foldAll es = .ok r ∧ ComesAll m r.1 cs
  | .nil => ⟨_, rfl, .nil⟩
  | .cons h hs => by
    obtain ⟨a, ha, hc⟩ := h.fold
    obtain ⟨b, hb, hcs⟩ := hs.fold
    refine ⟨(a.1 :: b.1, a.2 + b.2), ?_, .cons hc hcs⟩
    simp only [Expr.foldAll, ha, hb, bind, Except.bind]
    rfl

end

/-! ## Rounds and outcomes -/

namespace Definitions

variable {d D : Definitions}

/-- Whatever the rounds end with, an expression comes to the same constants as that. -/
theorem comes_of_settle {c : Expr} : ∀ {n : Nat} {seen : List Expr} {e r : Expr},
    settle m n seen e = .ok r → Comes m r c → Comes m e c
  | 0, _, _, _, h, hc => by cases h; exact hc
  | n + 1, seen, e, r, h, hc => by
    rcases settle_succ h with ⟨rfl, -⟩ | ⟨-, next, hnext, h⟩
    · exact hc
    · split at h
      · rwa [← h]
      · obtain ⟨a, ha, rfl⟩ := map_eq_ok.1 hnext
        exact comes_of_substitute (comes_of_fold ha (comes_of_settle h hc))

/-- The rounds do not fail under a part of the mapping either. -/
theorem settle_of_comes {c : Expr}
    (hm : ∀ {x e}, m'.lookup x = some e → m.lookup x = some e) :
    ∀ (n : Nat) (seen : List Expr) {e : Expr}, Comes m e c →
      ∃ r, settle m' n seen e = .ok r ∧ Comes m r c
  | 0, _, e, h => ⟨e, rfl, h⟩
  | n + 1, seen, e, h => by
    obtain ⟨o, ho, -⟩ := h.constant?
    obtain ⟨a, ha, hnext⟩ := (h.substitute hm).fold
    have hreplaced : replaced m' e = .ok a.1 := by rw [replaced, ha]; rfl
    simp only [settle, ho, hreplaced, bind, Except.bind]
    split
    · exact ⟨e, rfl, h⟩
    · split
      · exact ⟨e, rfl, h⟩
      · exact settle_of_comes hm n _ hnext

/-- Where the extended definitions decide an expression, the others do not fail. -/
theorem outcome_of_within (h : d.Within D) {e : Expr} {v : Value}
    (he : D.outcome e = .ok (.constant v)) : ∃ o, d.outcome e = .ok o := by
  obtain ⟨a, r, ha, hr, hv⟩ := outcome_eq_constant.1 he
  obtain ⟨r', hr', hcomes⟩ : ∃ r', settle d.mapping d.rounds [a.1] a.1 = .ok r' ∧
      Comes D.mapping r' r :=
    settle_of_comes h.lookup_mapping d.rounds [a.1] (comes_of_settle hr (Expr.comes_self hv))
  obtain ⟨o, ho, -⟩ := hcomes.constant?
  simp only [outcome, ha, hr', ho, bind, Except.bind]
  split
  · exact ⟨_, rfl⟩
  · split <;> exact ⟨_, rfl⟩

end Definitions

end PlateModel
