import Mathlib.Logic.Function.Basic
import PlateModel.Proofs.Registry.CellNames
import PlateModel.Proofs.State.Growth

/-!
# Data and rules of cells

Data and rules are kept by name, and a cell is determined by its name. So what a state has for a
cell is what was said of this cell, and whatever is said of other cells, of the same array or not,
makes no difference to it: tables by name do for cells what a function of cells does.

* `State.entries`: what a state has for every cell.
* `CellAct`: what can be said of a cell; `CellAct.on` is what it does to the entry of the cell, and
  `CellAct.perform` what it does to a state.
* `entries_perform`: saying something of a cell changes the entry of this cell.
* `entries_bindArray`: an array of data is bound cell by cell.
* `cells_by_name`: cells with the same name are the same, and share nothing otherwise.
-/

namespace PlateModel

/-- What data and rules there are for a cell. -/
structure Entry where
  datum : Option Number
  logical : Option Expr
  stochastic : Option Generator

/-- The data and rules of every cell. -/
def State.entries (s : State) (c : Cell) : Entry :=
  ⟨s.data.get? c.name, s.logical.get? c.name, s.stochastic.get? c.name⟩

/-- What can be said of a cell. -/
inductive CellAct
  /-- Data bind it to a number, or leave it out. -/
  | bind (value : Option Number)
  | define (rhs : Expr) (location : Option Location)
  | sample (rule : Generator) (location : Option Location)

namespace CellAct

/-- Whether it is new or why it is refused, from what there is for the cell. -/
def answer (c : Cell) : CellAct → Entry → Except Fault Bool
  | bind _, _ => .ok true
  | define rhs l, e =>
    if e.stochastic.isSome then .error (.model (.twoKinds c.name) l)
    else match e.datum with
      | some v =>
        if State.confirms v rhs then .ok false else .error (.model (.boundByData c.name) l)
      | none =>
        match e.logical with
        | some f => if f.same rhs then .ok false else .error (.model (.redefined c.name f) l)
        | none => .ok true
  | sample rule l, e =>
    if e.logical.isSome then .error (.model (.twoKinds c.name) l)
    else match e.stochastic with
      | some f =>
        if f.expression.same rule.expression then .ok false
        else .error (.model (.resampled c.name f.expression) l)
      | none => .ok true

/-- The entry of the cell with what is said of it. -/
def enter : CellAct → Entry → Entry
  | bind value, e => { e with datum := value.or e.datum }
  | define rhs _, e => { e with logical := some rhs }
  | sample rule _, e => { e with stochastic := some rule }

/-- The entry of the cell after it. Only what is new is entered. -/
def on (c : Cell) (act : CellAct) (e : Entry) : Entry :=
  match act.answer c e with
  | .ok true => act.enter e
  | _ => e

/-- The outcome of adding a rule: whether the rule is new or why it is refused, and the state. -/
def added (s : State) : Except Fault (Option State) → Except Fault Bool × State
  | .ok (some t) => (.ok true, t)
  | .ok none => (.ok false, s)
  | .error e => (.error e, s)

/-- What comes of it for a state. -/
def perform (s : State) (c : Cell) : CellAct → Except Fault Bool × State
  | bind value => (.ok true, { s with data := State.bindCells s.data [(c, value)] })
  | define rhs l => added s (s.addLogical (.cell c) rhs l)
  | sample rule l => added s (s.addStochastic (.cell c) rule l)

end CellAct

namespace State

variable {s t : State} {c d : Cell}

/-- The state with what is said of a cell under the name of the cell. -/
def enter (s : State) (c : Cell) : CellAct → State
  | .bind value => { s with data := bindCells s.data [(c, value)] }
  | .define rhs _ => { s with logical := s.logical.put c.name rhs }
  | .sample rule _ => { s with stochastic := s.stochastic.put c.name rule }

/-- The state after something has been said of cells, refusals included. -/
def afterCells (s : State) (acts : List (Cell × CellAct)) : State :=
  acts.foldl (fun s (c, act) => (act.perform s c).2) s

/-! ## One cell -/

/-- What is put under the name of a cell is found under the name of this cell only. -/
theorem get?_put_name {α : Type} (t : Assoc α) (c d : Cell) (v : α) :
    (t.put c.name v).get? d.name = if d = c then some v else t.get? d.name := by
  simp only [Assoc.get?_put, Cell.name_injective.eq_iff]

theorem get?_bindCells_single (data : Assoc Number) (c d : Cell) (value : Option Number) :
    (bindCells data [(c, value)]).get? d.name =
      if d = c then value.or (data.get? d.name) else data.get? d.name := by
  cases value with
  | none => exact (ite_self _).symm
  | some v => exact get?_put_name data c d v

/-- What is entered for a cell is entered for this cell only. -/
theorem entries_enter (s : State) (c : Cell) (act : CellAct) :
    (s.enter c act).entries = Function.update s.entries c (act.enter (s.entries c)) := by
  funext d
  by_cases hd : d = c
  · subst hd
    rw [Function.update_self]
    cases act <;> simp [entries, enter, CellAct.enter, get?_bindCells_single]
  · rw [Function.update_of_ne hd]
    cases act <;> simp [entries, enter, get?_put_name, get?_bindCells_single, hd]

/-- What is said of a cell is answered from the entry of the cell, and entered if it is new. -/
theorem perform_eq (s : State) (c : Cell) (act : CellAct) :
    act.perform s c = (act.answer c (s.entries c),
      match act.answer c (s.entries c) with
      | .ok true => s.enter c act
      | _ => s) := by
  have hname : (Symbol.cell c).name = c.name := rfl
  cases act with
  | bind value => rfl
  | define rhs l =>
    rw [CellAct.perform, addLogical_eq, hname, CellAct.answer, entries]
    -- opened in the instances as well, so that the look-ups can be replaced by what they find
    delta Assoc.contains
    dsimp only
    cases s.stochastic.get? c.name with
    | some f => rfl
    | none =>
      cases s.data.get? c.name with
      | some v =>
        dsimp only
        cases confirms v rhs <;> rfl
      | none =>
        cases s.logical.get? c.name with
        | some f =>
          dsimp only
          cases f.same rhs <;> rfl
        | none => rfl
  | sample rule l =>
    rw [CellAct.perform, addStochastic_eq, hname, CellAct.answer, entries]
    delta Assoc.contains
    dsimp only
    cases s.logical.get? c.name with
    | some f => rfl
    | none =>
      cases s.stochastic.get? c.name with
      | some f =>
        dsimp only
        cases f.expression.same rule.expression <;> rfl
      | none => rfl

/-- What is said of a cell is answered from the entry of the cell, and changes this entry only. -/
theorem entries_perform (s : State) (c : Cell) (act : CellAct) :
    (act.perform s c).1 = act.answer c (s.entries c) ∧
      (act.perform s c).2.entries = Function.update s.entries c (act.on c (s.entries c)) := by
  rw [perform_eq]
  refine ⟨rfl, ?_⟩
  rw [CellAct.on]
  dsimp only
  split
  · exact entries_enter s c act
  · exact (Function.update_eq_self c _).symm

/-! ## Many cells -/

/-- What there is for a cell after something has been said of cells is what there is after what has
been said of this cell. -/
theorem entries_afterCells (acts : List (Cell × CellAct)) (d : Cell) : ∀ {s t : State},
    s.entries d = t.entries d →
      (s.afterCells acts).entries d =
        (t.afterCells (acts.filter fun p => p.1 = d)).entries d := by
  induction acts with
  | nil => exact id
  | cons p acts ih =>
    obtain ⟨c, act⟩ := p
    intro s t h
    have hs := congrFun (entries_perform s c act).2 d
    by_cases hc : c = d
    · subst hc
      have ht := congrFun (entries_perform t c act).2 c
      rw [Function.update_self] at hs ht
      rw [List.filter_cons_of_pos (by simp)]
      exact ih (hs.trans ((congrArg (act.on c) h).trans ht.symm))
    · rw [Function.update_of_ne (Ne.symm hc)] at hs
      rw [List.filter_cons_of_neg (by simpa using hc)]
      exact ih (hs.trans h)

/-- Cells are bound one after the other. -/
theorem bindCells_eq (l : List (Cell × Option Number)) (s : State) :
    { s with data := bindCells s.data l } =
      s.afterCells (l.map fun (c, value) => (c, .bind value)) := by
  induction l generalizing s with
  | nil => rfl
  | cons p l ih =>
    obtain ⟨c, value⟩ := p
    rw [List.map_cons, afterCells, List.foldl_cons, ← afterCells, ← ih]
    cases value <;> rfl

/-- An array of data is bound cell by cell. -/
theorem entries_bindArray {x : String} {data : Datum} (h : s.bindArray x data = .ok t) :
    ∃ values, t.entries = (s.afterCells (((cellsOf x data.rectangle.1).zip values).map
      fun (c, value) => (c, .bind value))).entries := by
  obtain ⟨values, -, h⟩ := bind_eq_ok.1 h
  obtain ⟨registry, -, h⟩ := bind_eq_ok.1 h
  cases h
  refine ⟨values, ?_⟩
  rw [← bindCells_eq]
  rfl

end State

/-- Two cells have the same name if and only if they are the same cell of the same array, whatever
characters the name of the array has and whatever the indices are. So data and rules, which are kept
by name, are kept by cell: what is said of a cell is answered from what there is for this cell, and
what there is for a cell after something has been said of any cells is what was said of this one. -/
theorem cells_by_name :
    (∀ b b' is is', (Symbol.cell ⟨b, is⟩).name = (Symbol.cell ⟨b', is'⟩).name ↔
      b = b' ∧ is = is') ∧
    (∀ (s : State) (c : Cell) (act : CellAct),
      (act.perform s c).1 = act.answer c (s.entries c) ∧
        (act.perform s c).2.entries = Function.update s.entries c (act.on c (s.entries c))) ∧
    (∀ (s t : State) (x : String) (d : Datum), s.bindArray x d = .ok t →
      ∃ values, t.entries = (s.afterCells
        (((cellsOf x d.rectangle.1).zip values).map fun (c, value) => (c, .bind value))).entries) ∧
    ∀ (s : State) (acts : List (Cell × CellAct)) (d : Cell),
      (s.afterCells acts).entries d =
        (s.afterCells (acts.filter fun p => p.1 = d)).entries d := by
  refine ⟨fun b b' is is' => ?_, State.entries_perform, fun s t x d => State.entries_bindArray,
    fun s acts d => State.entries_afterCells acts d rfl⟩
  refine ⟨fun h => Cell.mk.inj (Cell.name_injective h), ?_⟩
  rintro ⟨rfl, rfl⟩
  rfl

/-- One number and a missing one. -/
def partialRow : Datum := .list [.number (.int 1), .missing]

/-- An array with a bracket in its name has no cells in common with any other. -/
theorem cells_by_name_brackets :
    (Symbol.cell ⟨"x[1]", [2]⟩).name ≠ (Symbol.cell ⟨"x", [1, 2]⟩).name ∧
    (∃ t values, State.empty.bindArray "x" partialRow = .ok t ∧
      t.entries = (State.empty.afterCells
        (((cellsOf "x" partialRow.rectangle.1).zip values).map
          fun (c, value) => (c, .bind value))).entries) ∧
    (State.empty.afterCells [(⟨"x[1]", [2]⟩, .bind (some (.int 3)))]).entries ⟨"x", [1, 2]⟩ =
      State.empty.entries ⟨"x", [1, 2]⟩ := by
  obtain ⟨hnames, -, harray, hcells⟩ := cells_by_name
  refine ⟨fun h => ?_, ?_, hcells _ _ _⟩
  · exact absurd ((hnames _ _ _ _).1 h).2 (by decide)
  · obtain ⟨t, ht⟩ : ∃ t, State.empty.bindArray "x" partialRow = .ok t := ⟨_, rfl⟩
    obtain ⟨values, hvalues⟩ := harray _ t "x" partialRow ht
    exact ⟨t, values, ht, hvalues⟩

end PlateModel
