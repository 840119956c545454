import PlateModel.Proofs.Decimal.Numeral

/-!
# Floats are read back from their text

The text of a float is laid out in one of five ways, according to the place of its first digit: a
whole number, a number with its point inside, a number below one, and one or several digits with an
exponent. Each of them stands for the same decimal, and that decimal was chosen to round to the
float.

* `Writes`: a text is a numeral for a decimal; `writes_layout` goes through the ways.
* `float?_ofFloat`, `integer?_ofFloat`: the text of a float is read as it, and not as an integer.
-/

namespace PlateModel.Decimal

open Text Binary64

/-- A text that is no integer, and that is read as the float nearest to a decimal. -/
structure Writes (text : List Char) (d : Decimal) : Prop where
  isNumeral : IsNumeral text
  marked : '.' ∈ text ∨ 'e' ∈ text
  read : ∀ negative, ∃ r : Decimal, r.value = d.value ∧
    float? (signChars negative ++ text) = some (scale negative r.digits r.exponent)

section Layout

variable {whole fraction tail : List Char} {e : Int} {d : Decimal} (hwhole : IsDigits whole)
  (hne : whole ≠ []) (hfraction : IsDigits fraction) (htail : exponent? tail = some e)
  (hnumeral : IsNumeral tail)

include hwhole hne hfraction htail hnumeral in
theorem writes_pointed
    (hvalue : (⟨natOfDigits (whole ++ fraction), e - fraction.length⟩ : Decimal).value = d.value) :
    Writes (whole ++ '.' :: (fraction ++ tail)) d where
  isNumeral := isNumeral_append.2 ⟨hwhole.isNumeral, isNumeral_cons.2
    ⟨by decide, isNumeral_append.2 ⟨hfraction.isNumeral, hnumeral⟩⟩⟩
  marked := .inl (by simp)
  read negative := ⟨_, hvalue, float?_pointed negative hwhole hne hfraction htail hnumeral⟩

include hwhole hne htail hnumeral in
theorem writes_whole (hmarked : 'e' ∈ tail)
    (hvalue : (⟨natOfDigits whole, e⟩ : Decimal).value = d.value) : Writes (whole ++ tail) d where
  isNumeral := isNumeral_append.2 ⟨hwhole.isNumeral, hnumeral⟩
  marked := .inr (List.mem_append_right _ hmarked)
  read negative := ⟨_, hvalue, float?_whole negative hwhole hne htail hnumeral⟩

end Layout

theorem mem_exponentText (x : Int) : 'e' ∈ (exponentText x).toList := by
  obtain ⟨ds, -, -, -, -, htext⟩ := exponentText_toList x
  simp [htext]

theorem zeros_toList (n : Nat) : (zeros n).toList = List.replicate n '0' := String.toList_ofList

/-- A whole number. -/
theorem writes_integral (d : Decimal) (h : 0 ≤ d.exponent) :
    Writes (Nat.toDigits 10 d.digits ++ List.replicate d.exponent.toNat '0' ++ ".0".toList) d := by
  have hwhole : IsDigits (Nat.toDigits 10 d.digits ++ List.replicate d.exponent.toNat '0') :=
    isDigits_append.2 ⟨isDigits_toDigits _, isDigits_replicate _⟩
  have hne : Nat.toDigits 10 d.digits ++ List.replicate d.exponent.toNat '0' ≠ [] := by simp
  refine writes_pointed hwhole hne (isDigits_replicate 1) exponent?_nil
    (List.forall_mem_nil _) ?_
  rw [natOfDigits_append, natOfDigits_append, natOfDigits_toDigits, natOfDigits_replicate,
    natOfDigits_replicate]
  simp only [value, List.length_replicate, Nat.add_zero, Nat.cast_mul, Nat.cast_pow,
    Nat.cast_ofNat, pow_one, Nat.cast_one]
  rw [← zpow_natCast, Int.toNat_of_nonneg h, zpow_sub₀ (by norm_num), zpow_zero, zpow_one]
  ring

/-- A number with its point between its digits, the first `n` of which stand in front. -/
theorem writes_inside (d : Decimal) {n : Nat} (hn : 0 < n)
    (h : d.exponent = n - (Nat.toDigits 10 d.digits).length)
    (hle : n ≤ (Nat.toDigits 10 d.digits).length) :
    Writes ((Nat.toDigits 10 d.digits).take n ++ '.' :: (Nat.toDigits 10 d.digits).drop n) d := by
  have hdigits := isDigits_toDigits d.digits
  have hne : (Nat.toDigits 10 d.digits).take n ≠ [] := by
    simp [List.take_eq_nil_iff, hn.ne']
  have hexponent : (0 : Int) - ((Nat.toDigits 10 d.digits).drop n).length = d.exponent := by
    rw [List.length_drop]
    omega
  have hwrites := writes_pointed (d := d) (fun c hc => hdigits c (List.mem_of_mem_take hc)) hne
    (fun c hc => hdigits c (List.mem_of_mem_drop hc)) exponent?_nil (List.forall_mem_nil _)
    (by rw [List.take_append_drop, natOfDigits_toDigits, hexponent])
  rwa [List.append_nil] at hwrites

/-- A number below one, with `n` zeros behind its point. -/
theorem writes_fraction (d : Decimal) {n : Nat}
    (h : d.exponent = -(n + (Nat.toDigits 10 d.digits).length : Nat)) :
    Writes ("0.".toList ++ List.replicate n '0' ++ Nat.toDigits 10 d.digits) d := by
  have hfraction : IsDigits (List.replicate n '0' ++ Nat.toDigits 10 d.digits) :=
    isDigits_append.2 ⟨isDigits_replicate _, isDigits_toDigits _⟩
  have hexponent : (0 : Int) - (List.replicate n '0' ++ Nat.toDigits 10 d.digits).length =
      d.exponent := by
    rw [List.length_append, List.length_replicate, h, Int.zero_sub]
  have hwrites := writes_pointed (d := d) (isDigits_replicate 1) (by simp) hfraction
    exponent?_nil (List.forall_mem_nil _) (by
      rw [natOfDigits_append, natOfDigits_append, natOfDigits_replicate, natOfDigits_replicate,
        Nat.zero_mul, Nat.zero_mul, Nat.zero_add, Nat.zero_add, natOfDigits_toDigits, hexponent])
  rwa [List.append_nil] at hwrites

/-- One or several digits with an exponent. -/
theorem writes_scientific (d : Decimal) {c : Char} {rest : List Char}
    (hdigits : Nat.toDigits 10 d.digits = c :: rest)
    (hx : (d.exponent + rest.length).natAbs < 10 ^ 12) :
    Writes ((match rest with | [] => [c] | _ => c :: '.' :: rest) ++
      (exponentText (d.exponent + rest.length)).toList) d := by
  have hall : IsDigits (c :: rest) := hdigits ▸ isDigits_toDigits d.digits
  have hwhole : IsDigits [c] := fun a ha => hall a (by simp_all)
  have hrest : IsDigits rest := fun a ha => hall a (List.mem_cons_of_mem c ha)
  have hvalue : natOfDigits (c :: rest) = d.digits := by rw [← hdigits, natOfDigits_toDigits]
  cases rest with
  | nil =>
    refine writes_whole hwhole (by simp) (exponent?_exponentText hx)
      (isNumeral_exponentText _) (mem_exponentText _) ?_
    rw [hvalue, List.length_nil, Nat.cast_zero, Int.add_zero]
  | cons b more =>
    refine writes_pointed hwhole (by simp) hrest (exponent?_exponentText hx)
      (isNumeral_exponentText _) ?_
    rw [List.singleton_append, hvalue, Int.add_sub_cancel]

/-- The layout of a positive decimal that is neither too large nor too small. -/
theorem writes_layout {d : Decimal} (hd : d.digits ≠ 0)
    (hleast : -400 ≤ (Nat.repr d.digits).length + d.exponent)
    (hgreatest : (Nat.repr d.digits).length + d.exponent ≤ 400) :
    Writes (layout sourceStyle d).toList d := by
  rw [← String.length_toList, Nat.toList_repr] at hleast hgreatest
  have hlength := Nat.length_toDigits_pos (b := 10) (n := d.digits)
  rw [layout]
  simp only [Nat.toList_repr, hd, if_false, sourceStyle]
  split
  · split
    · next h =>
      simp only [String.toList_append, Nat.toList_repr, zeros_toList]
      exact writes_integral d h
    · split
      · next hneg h =>
        simp only [String.toList_append, String.toList_ofList]
        have hwrites := writes_inside d
          (n := (d.exponent + (Nat.toDigits 10 d.digits).length - 1).toNat + 1)
          (by omega) (by omega) (by omega)
        simpa using hwrites
      · next h =>
        simp only [String.toList_append, Nat.toList_repr, zeros_toList]
        exact writes_fraction d (by omega)
  · cases hdigits : Nat.toDigits 10 d.digits with
    | nil => exact absurd hdigits Nat.toDigits_ne_nil
    | cons c rest =>
      have hx : d.exponent + ((c :: rest).length : Nat) - 1 = d.exponent + rest.length := by
        rw [List.length_cons]
        omega
      have hwrites := writes_scientific d hdigits (by
        rw [hdigits, List.length_cons] at hleast hgreatest
        omega)
      rw [hx]
      cases rest <;> simpa [String.toList_append] using hwrites

/-! ## Integers -/

theorem digits_of_separatedDigits? {cs ds : List Char} (h : separatedDigits? cs = some ds) :
    ∀ c ∈ cs, isDigit c ∨ c = '_' := by
  fun_induction separatedDigits? cs generalizing ds with
  | case1 | case3 | case5 | case7 => simp at h
  | case2 c hc => simpa using .inl hc
  | case4 c rest hc ih =>
    obtain ⟨es, hes, -⟩ := Option.map_eq_some_iff.1 h
    intro a ha
    rcases List.mem_cons.1 ha with rfl | ha
    · exact .inl hc
    · rcases List.mem_cons.1 ha with rfl | ha
      · exact .inr rfl
      · exact ih hes a ha
  | case6 c rest _ _ hc ih =>
    obtain ⟨es, hes, -⟩ := Option.map_eq_some_iff.1 h
    intro a ha
    rcases List.mem_cons.1 ha with rfl | ha
    · exact .inl hc
    · exact ih hes a ha

/-- A numeral with a character that is neither a digit nor a sign is not an integer. -/
theorem integer?_eq_none {cs : List Char} (h : IsNumeral cs) {c : Char} (hc : c ∈ cs)
    (hdigit : isDigit c = false) (hsign : c ≠ '-' ∧ c ≠ '+') : integer? cs = none := by
  have hbody : c ∈ (splitSign cs).2 := by
    unfold splitSign
    split
    · exact (List.mem_cons.1 hc).resolve_left hsign.1
    · exact (List.mem_cons.1 hc).resolve_left hsign.2
    · exact hc
  rw [integer?, normalizeDigits_of_isNumeral h, trimBlanks_of_isNumeral h]
  cases hdigits : separatedDigits? (splitSign cs).2 with
  | none => simp only [hdigits]
  | some ds =>
    rcases digits_of_separatedDigits? hdigits c hbody with hc' | rfl
    · simp [hdigit] at hc'
    · exact absurd rfl (numeralChar_clean _ (h '_' hc)).2.2

theorem Writes.integer? {text : List Char} {d : Decimal} (h : Writes text d) (negative : Bool) :
    Decimal.integer? (signChars negative ++ text) = none := by
  have hnumeral : IsNumeral (signChars negative ++ text) :=
    isNumeral_append.2 ⟨isNumeral_signChars negative, h.isNumeral⟩
  rcases h.marked with hmem | hmem
  · exact integer?_eq_none hnumeral (List.mem_append_right _ hmem) (by decide) (by decide)
  · exact integer?_eq_none hnumeral (List.mem_append_right _ hmem) (by decide) (by decide)

/-! ## Floats -/

/-- A zero is read as the zero of its sign. -/
theorem scale_of_value_zero {r : Decimal} (h : r.value = 0) (negative : Bool) :
    scale negative r.digits r.exponent = ofSignBits negative 0 := by
  have hdigits : r.digits = 0 := by
    have hten : (10 : ℚ) ^ r.exponent ≠ 0 := zpow_ne_zero _ (by norm_num)
    exact Nat.cast_eq_zero.1 ((mul_eq_zero.1 h).resolve_right hten)
  rw [scale, hdigits]
  rfl

/-- The decimal that is laid out for a finite float is read as the float. -/
theorem layout_finite (negative : Bool) {m : Nat} {q : Int} (hfinite : IsFinite m q) :
    ∃ d, Writes (layout sourceStyle (if m = 0 then ⟨0, 0⟩ else trim (shortest m q))).toList d ∧
      ∀ r : Decimal, r.value = d.value →
        scale negative r.digits r.exponent = ofSignBits negative (magnitude m q) := by
  by_cases hm : m = 0
  · -- a zero is written without regard to its exponent, and has only one
    have hq : q = -1074 := by
      by_contra hne
      have hleast := hfinite.least
      have hleading := hfinite.leading (by omega)
      omega
    refine ⟨⟨0, 0⟩, ?_, fun r hr => ?_⟩
    · rw [if_pos hm]
      exact writes_integral ⟨0, 0⟩ le_rfl
    · rw [scale_of_value_zero (by rw [hr, value, Nat.cast_zero, zero_mul]), hm, hq]
      rfl
  · have hpos : 0 < m := Nat.pos_of_ne_zero hm
    have hsurrounds : Surrounds m q (trim (shortest m q)).value := by
      rw [value_trim]
      exact surrounds_shortest hfinite hpos
    have hdigits := digits_ne_zero hpos hsurrounds
    obtain ⟨hleast, hgreatest⟩ := top_bounds hfinite hpos hsurrounds hdigits
    refine ⟨trim (shortest m q), ?_, fun r hr => ?_⟩
    · rw [if_neg hm]
      exact writes_layout hdigits hleast hgreatest
    · exact scale_of_surrounds hfinite hpos (hr ▸ hsurrounds) negative

/-- The text of a finite float is a sign and a numeral that is read as the float. -/
theorem ofFloat_finite {x : Float} {negative : Bool} {m : Nat} {q : Int}
    (h : parts x = .finite negative m q) : ∃ text d, Writes text d ∧
      (ofFloat x).toList = signChars negative ++ text ∧
      float? (signChars negative ++ text) = some x := by
  obtain ⟨hfinite, hx⟩ := eq_of_parts_finite h
  obtain ⟨d, hwrites, hscale⟩ := layout_finite negative hfinite
  obtain ⟨r, hr, hread⟩ := hwrites.read negative
  refine ⟨_, d, hwrites, ?_, ?_⟩
  · have hsign : (if negative then "-" else "").toList = signChars negative := by
      cases negative <;> rfl
    rw [ofFloat, textOf, h]
    dsimp only
    rw [String.toList_append, hsign]
  · rw [hread, hscale r hr, hx]

theorem ofFloat_infinite {x : Float} {negative : Bool} (h : parts x = .infinite negative) :
    (ofFloat x).toList = signChars negative ++ "inf".toList := by
  rw [ofFloat, textOf, h]
  cases negative <;> rfl

theorem ofFloat_notANumber {x : Float} (h : parts x = .notANumber) :
    (ofFloat x).toList = "nan".toList := by
  rw [ofFloat, textOf, h]

theorem isNumeral_ofFloat (x : Float) : IsNumeral (ofFloat x).toList := by
  cases h : parts x with
  | notANumber =>
    have hword : ∀ c ∈ "nan".toList, c ∈ numeralChars := forall_mem_of_all (by decide)
    rw [ofFloat_notANumber h]
    exact hword
  | infinite negative =>
    have hword : ∀ c ∈ "inf".toList, c ∈ numeralChars := forall_mem_of_all (by decide)
    rw [ofFloat_infinite h]
    exact isNumeral_append.2 ⟨isNumeral_signChars negative, hword⟩
  | finite negative m q =>
    obtain ⟨text, d, hwrites, htext, -⟩ := ofFloat_finite h
    rw [htext]
    exact isNumeral_append.2 ⟨isNumeral_signChars negative, hwrites.isNumeral⟩

/-- The text of a float is not an integer. -/
theorem integer?_ofFloat (x : Float) : integer? (ofFloat x).toList = none := by
  have hnumeral := isNumeral_ofFloat x
  cases h : parts x with
  | notANumber =>
    rw [ofFloat_notANumber h] at hnumeral ⊢
    exact integer?_eq_none hnumeral (c := 'n') (by decide) (by decide) (by decide)
  | infinite negative =>
    rw [ofFloat_infinite h] at hnumeral ⊢
    exact integer?_eq_none hnumeral (c := 'n') (List.mem_append_right _ (by decide)) (by decide)
      (by decide)
  | finite negative m q =>
    obtain ⟨text, d, hwrites, htext, -⟩ := ofFloat_finite h
    rw [htext]
    exact hwrites.integer? negative

/-- The text of a float is read as the float. -/
theorem float?_ofFloat {x : Float} (hx : x.isNaN = false) :
    float? (ofFloat x).toList = some x := by
  cases h : parts x with
  | notANumber => exact absurd (isNaN_of_parts h) (Bool.eq_false_iff.1 hx)
  | infinite negative =>
    have hword : float? (signChars negative ++ "inf".toList) =
        some (if negative then negInfinity else infinity) := by
      cases negative <;> rfl
    rw [ofFloat_infinite h, hword, ← eq_of_parts_infinite h]
  | finite negative m q =>
    obtain ⟨text, d, -, htext, hread⟩ := ofFloat_finite h
    rw [htext, hread]

end PlateModel.Decimal
