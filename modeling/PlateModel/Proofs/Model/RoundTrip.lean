import PlateModel.Proofs.Model.Rereading

/-!
# Written model trees are read back

A program that was read is written, on one line or broken into lines, with or without its places. It
is read back exactly if no plain name is a word for a float or ends in a line feed, and no head of a
call and no loop variable holds a blank other than a space: the writer puts these down bare, and the
reader takes them for a float or for something shorter.

* `Program.Writable`: the condition, on the words of a program.
* `Program.readsBack`: a writable program is read back, with its places if they were written.
* `Program.readsBack_iff`: and no other program is.
-/

namespace PlateModel

open Sexpr Decimal

/-- A word that is read back if it is written. -/
def Part.Writable : Part → Prop
  | name x => Form.isPlainName x → Form.isNumberWord x = false ∧ '\n' ∉ x.toList
  | head f | counter f => ∀ c ∈ f.toList, Text.isAsciiBlank c → c = ' '
  | _ => True

instance : DecidablePred Part.Writable := fun part =>
  match part with
  | .name x => inferInstanceAs
    (Decidable (Form.isPlainName x → Form.isNumberWord x = false ∧ '\n' ∉ x.toList))
  | .head f | .counter f => List.decidableBAll _ f.toList
  | .constant _ | .dimension _ | .place _ => .isTrue trivial

/-- All words of a program are read back. -/
def Program.Writable (p : Program) : Prop := ∀ part ∈ p.parts, part.Writable

instance : DecidablePred Program.Writable := fun p =>
  inferInstanceAs (Decidable (∀ part ∈ p.parts, part.Writable))

theorem noRaw_iff (cs : List Char) :
    NoRaw cs ↔ ∀ c ∈ cs, Text.isAsciiBlank c → c = ' ' := by
  simp only [NoRaw, isRawBlank, Bool.and_eq_false_imp, bne_eq_false_iff_eq]

/-! ## What was read is read back -/

/-- An atom that a text yields. -/
def IsRead : Sexpr → Prop
  | .int i => IsShort i
  | .symbol s => s.toList ≠ [] ∧ integer? s.toList = none ∧ float? s.toList = none
  | _ => True

theorem isShort_of_isRead (i : Int) (h : IsRead (.int i)) : IsShort i := h

theorem isRead_ofAtom (mark : Nat) {s : List Char} (hne : s ≠ []) : IsRead (ofAtom mark s) := by
  unfold ofAtom
  split
  · next hint => exact isShort_of_integer? hint
  · next hint =>
    split
    · trivial
    · next hfloat => exact ⟨by simpa using hne, by simpa using hint, by simpa using hfloat⟩

theorem isClean_fixed : ∀ s ∈ Form.fixedWords, IsClean (.symbol s) := by
  have hall : ∀ s ∈ Form.fixedWords, s.toList ≠ [] ∧
      (s.toList.all fun c => isRawBlank c = false) ∧ integer? s.toList = none ∧
        float? s.toList = none := forall_mem_of_all (by decide +kernel)
  intro s hs
  obtain ⟨hne, hraw, hread⟩ := hall s hs
  exact ⟨hne, forall_mem_of_all hraw, hread⟩

/-- A plain name is read back unless it is a word for a float or ends in a line feed. -/
theorem isClean_plainName {x : String} (h : Form.isPlainName x)
    (hword : Form.isNumberWord x = false) (hfeed : '\n' ∉ x.toList) : IsClean (.symbol x) := by
  have hname := Form.nameText_of_isPlainName h hfeed
  obtain ⟨c, rest, htext, -⟩ := hname.first
  refine ⟨by simp [htext], ?_, Form.integer?_plainName hname,
    (Form.float?_plainName hname).2 hword⟩
  intro d hd
  simp [isRawBlank, (Form.nameChar_clean (hname.chars d hd)).2]

/-- The writable parts of what was read are read back. -/
theorem Part.written_of_spelled {part : Part} {file : String} (h : part.Spelled IsRead file)
    (hwritable : part.Writable) (hnumber : ∀ v, part = .constant v → v.isNaN = false) :
    part.Written IsClean := by
  cases part with
  | constant v =>
    intro mark
    cases v with
    | int i => exact h
    | real x => exact hnumber _ rfl
    | truth b => cases b <;> exact isClean_fixed _ (by decide)
  | name x =>
    rw [Written, Form.ofName]
    split
    · next hplain =>
      obtain ⟨hword, hfeed⟩ := hwritable hplain
      exact isClean_plainName hplain hword hfeed
    · trivial
  | head f => exact ⟨h.2.1, (noRaw_iff _).2 hwritable, h.2.2⟩
  | counter i => exact ⟨h.1, (noRaw_iff _).2 hwritable, h.2⟩
  | dimension i => exact h
  | place l => exact ⟨h.1, h.2.1⟩

/-- The parts of a program that was read from a text. -/
theorem Program.spelled_of_parse {file : String} {base : Nat} {text : String} {p : Program}
    (h : Program.parse file base text = .ok p) : ∀ part ∈ p.parts, part.Spelled IsRead file := by
  unfold Program.parse at h
  split at h
  · cases h
  · next x hx =>
    exact Form.spelled_program isShort_of_isRead
      (every_of_parse (fun mark s => isRead_ofAtom mark) (fun _ => trivial) hx) h

section ReadsBack

variable {file : String} {base : Nat} {text : String} {p : Program}
  (hparse : Program.parse file base text = .ok p) (hnumbers : Numeric p.parts)

include hparse hnumbers in
/-- A writable program is read back from its text, with the places that were written. -/
theorem Program.readsBack (hwritable : p.Writable) (isPretty located : Bool) (file' : String)
    (base' : Nat) : ∃ p', Program.parse file' base' ((p.toSexpr located).text isPretty) = .ok p' ∧
      p'.plain id = p.plain (Form.rewritten located file') := by
  have hspelled := Program.spelled_of_parse hparse
  have hwritten : ∀ part ∈ p.parts, part.Written IsClean := fun part hpart =>
    Part.written_of_spelled (hspelled part hpart) (hwritable part hpart)
      fun v hv => hnumbers.constant (hv ▸ hpart)
  obtain ⟨y, hy, hread⟩ :=
    parse_text (Program.every_toSexpr isClean_fixed located hwritten) isPretty base'
  obtain ⟨p', hp', hplain⟩ := Program.program_toSexpr file' hspelled hy
  refine ⟨p', ?_, hplain⟩
  rw [Program.parse, hread]
  exact hp'

end ReadsBack

/-! ## What is read back is writable -/

/-- An atom that a written text yields. -/
def IsReread : Sexpr → Prop
  | .int i => IsShort i
  | .symbol s => NoRaw s.toList ∧ float? s.toList = none
  | .string s => Form.isPlainName s = false
  | _ => True

theorem isShort_of_isReread (i : Int) (h : IsReread (.int i)) : IsShort i := h

theorem isReread_ofAtom (mark : Nat) {s : List Char} (hraw : NoRaw s) :
    IsReread (ofAtom mark s) := by
  unfold ofAtom
  split
  · next hint => exact isShort_of_integer? hint
  · split
    · trivial
    · next hfloat => exact ⟨by simpa using hraw, by simpa using hfloat⟩

/-- The strings of a written form are the names that are not plain. -/
theorem Part.written_strings (part : Part) :
    part.Written fun y => ∀ s, y = .string s → IsReread y := by
  cases part with
  | constant v =>
    intro mark s h
    cases v <;> cases h
  | name x =>
    rw [Written, Form.ofName]
    split
    · exact nofun
    · next hplain =>
      rintro s ⟨⟩
      exact Bool.eq_false_iff.2 hplain
  | head f | counter f | dimension i => exact nofun
  | place l => exact ⟨nofun, nofun⟩

/-- A word that a written text yields is writable. -/
theorem Part.writable_of_spelled {part : Part} {file : String} (h : part.Spelled IsReread file) :
    part.Writable := by
  cases part with
  | name x =>
    intro hplain
    rcases h with ⟨hraw, hfloat⟩ | hstring
    · -- a line feed is a raw blank, at which the reader would have cut the name
      have hfeed : '\n' ∉ x.toList := fun hmem => by
        have hblank := hraw _ hmem
        revert hblank
        decide
      exact ⟨(Form.float?_plainName (Form.nameText_of_isPlainName hplain hfeed)).1 hfloat, hfeed⟩
    · exact absurd hplain (Bool.eq_false_iff.1 hstring)
  | head f => exact (noRaw_iff _).1 h.2.1
  | counter i => exact (noRaw_iff _).1 h.1
  | constant | dimension | place => trivial

/-- Whatever a written text is read as is writable. -/
theorem Program.writable_of_parse_text {p p' : Program} {located isPretty : Bool} {file : String}
    {base : Nat} (h : Program.parse file base ((p.toSexpr located).text isPretty) = .ok p') :
    p'.Writable := by
  unfold Program.parse at h
  split at h
  · cases h
  · next y hy =>
    have hstrings := Program.every_toSexpr (by exact nofun) located
      fun part (_ : part ∈ p.parts) => part.written_strings
    have hatoms := every_of_parse_text (P := IsReread) (fun mark s _ => isReread_ofAtom mark)
      hstrings hy
    exact fun part hpart =>
      Part.writable_of_spelled (Form.spelled_program isShort_of_isReread hatoms h part hpart)

/-- Programs that are the same are writable at the same time. -/
theorem Program.writable_of_same {p p' : Program} (h : p'.same p) (hwritable : p'.Writable) :
    p.Writable := by
  intro part hpart
  cases hword : part.isWord with
  | false =>
    cases part with
    | name | head | counter => cases hword
    | constant | dimension | place => trivial
  | true =>
    have hmem : part ∈ p'.parts.filter Part.isWord := by
      rw [Program.words_of_same h]
      exact List.mem_filter.2 ⟨hpart, hword⟩
    exact hwritable part (List.mem_filter.1 hmem).1

/-! ## The condition -/

/-- A program that was read, and whose constants are numbers, is read back from its text exactly if
it is writable. It is then the same program; if its places were written and the file is the same,
it differs in the marks of its constants only. -/
theorem Program.readsBack_iff {file file' : String} {base base' : Nat} {text : String} {p : Program}
    (hparse : Program.parse file base text = .ok p) (hnumbers : Numeric p.parts)
    (isPretty located : Bool) :
    (∃ p', Program.parse file' base' ((p.toSexpr located).text isPretty) = .ok p' ∧ p'.same p ∧
      (located → file' = file → p'.plain id = p.plain id)) ↔ p.Writable := by
  constructor
  · rintro ⟨p', hp', hsame, -⟩
    exact Program.writable_of_same hsame (Program.writable_of_parse_text hp')
  · intro hwritable
    obtain ⟨p', hp', hplain⟩ :=
      Program.readsBack hparse hnumbers hwritable isPretty located file' base'
    refine ⟨p', hp', Program.same_of_plain hplain hnumbers, ?_⟩
    rintro hlocated rfl
    rw [hplain]
    refine Program.plain_congr ⟨by simp [Form.rewritten], fun l hl => ?_⟩
    have hplace := (Program.spelled_of_parse hparse _ hl).2.2
    simp only [Form.rewritten, hlocated, if_true, Option.map_some, id]
    rw [← hplace]

/-- A program with a loop, a name that is no plain symbol, a float and a place. -/
def loopProgram : Program :=
  ⟨[.loop "i" (.literal (.int 1) 0) (.name "N")
    [.sample (.index (.name "y") [.name "i"] none)
      (.call "dnorm" [.name "mu[1]", .literal (.real 0.5) 46] none)
      (some (.point "model.sexpr" 2 4))] none], none⟩

theorem Program.readsBack_loopProgram : ∃ p', Program.parse "model.sexpr" 0
      ((loopProgram.toSexpr true).text true) = .ok p' ∧ p'.same loopProgram ∧
    (true → "model.sexpr" = "model.sexpr" → p'.plain id = loopProgram.plain id) :=
  have hparse : Program.parse "model.sexpr" 0
      "(model (for i 1 N (~ (ref y i) (dnorm \"mu[1]\" 0.5) :line 2 :column 4)))" =
        .ok loopProgram := by
    with_unfolding_all rfl
  (Program.readsBack_iff hparse (by decide +kernel) true true).2 (by decide +kernel)

/-- A variable named like the infinite float is written as a bare symbol and read as the float. -/
theorem Program.not_readsBack_infinity : ∃ p,
    Program.parse "model.sexpr" 0 "(model (= \"inf\" 1))" = .ok p ∧ Numeric p.parts ∧
      ¬∃ p', Program.parse "model.sexpr" 0 ((p.toSexpr false).text true) = .ok p' ∧ p'.same p := by
  refine ⟨⟨[.assign (.name "inf") (.literal (.int 1) 0) none], none⟩, ?_, by decide +kernel, ?_⟩
  · with_unfolding_all rfl
  · rintro ⟨p', hp', hsame⟩
    have hwritable := Program.writable_of_same hsame (Program.writable_of_parse_text hp')
    revert hwritable
    decide +kernel

end PlateModel
