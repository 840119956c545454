import PlateModel.Network.Conditioning
import PlateModel.Proofs.Network.Built
import PlateModel.Proofs.Table

/-!
# A network in columns

A network can be kept in parallel columns: its names, whether its vertices are stochastic and
observed, the numbers of the stochastic and of the deterministic vertices, and beside these their
distributions, kernels and functions. Every operation then changes some columns one after another,
and one that fails leaves behind what it has done until then.

The networks of this library keep a vertex in one piece. Here it is shown that both ways agree: on
the columns of a network whose parts fit together, every operation fails or answers as the library's
operation does, and leaves the columns of the network that the latter leaves.

* `Columns`, `Network.columns`: the columns, and those of a network.
* `Call.edit`, `Call.perform`: an operation on columns and on a network.
* `Network.Sound`: the parts of a network fit together; `Sound.perform` says that operations keep
  this.
* `edit_columns`: an operation on columns does what it does on the network.
-/

namespace PlateModel

/-- What a stochastic vertex has for a kernel, if anything. -/
def Role.kernel? : Role → Option (Option Generator)
  | stochastic _ k => some k
  | deterministic _ => none

/-- The function of a deterministic vertex. -/
def Role.function? : Role → Option Generator
  | stochastic .. => none
  | deterministic f => some f

/-- A network as parallel columns. -/
structure Columns where
  capacity : Option Int
  /-- The nodes of the graph, in the order in which they were added. -/
  nodes : List Nat
  edges : Digraph Nat
  names : List String
  numbers : Assoc Nat
  isStochastic : List Bool
  isObserved : List Bool
  stochasticNumbers : List Nat
  deterministicNumbers : List Nat
  distributions : List Value
  kernels : List (Option Generator)
  functions : List Generator
  values : Assoc Value

/-- A computation on columns that may fail. What it has done until then stays. -/
abbrev Editing := ExceptT Fault (StateM Columns)

namespace Columns

def empty (capacity : Option Int) : Columns :=
  ⟨capacity, [], [], [], .empty, [], [], [], [], [], [], [], .empty⟩

/-- The graph with a node, which it may have already. -/
def withNode (c : Columns) (i : Nat) : Columns :=
  if i ∈ c.nodes then c else { c with nodes := c.nodes ++ [i] }

/-- The columns with a vertex, before those of its kind are changed. -/
def withVertex (c : Columns) (v : Vertex) : Columns :=
  { c with
    nodes := c.nodes ++ [c.names.length]
    names := c.names ++ [v.name]
    numbers := c.numbers.put v.name c.names.length
    isStochastic := c.isStochastic ++ [v.role.isStochastic]
    isObserved := c.isObserved ++ [false] }

/-- The names of the observed vertices. -/
def observedNames (c : Columns) : List String :=
  (c.names.zip c.isObserved).filterMap fun (x, b) => if b then some x else none

/-- Changes the columns. -/
def edit (f : Columns → Columns) : Editing Unit := do set (f (← get))

/-- What a column has at a position that must exist. -/
def entry {α : Type} (column : List α) (i : Nat) : Except Fault α :=
  match column[i]? with
  | some a => .ok a
  | none => .error (.evaluation .outOfBounds)

/-- The number of a vertex that must exist. -/
def numberOf (c : Columns) (name : String) : Except Fault Nat :=
  match c.numbers.get? name with
  | some i => .ok i
  | none => .error (.network (.unknownVertex name))

/-- Sets whether a vertex is observed. -/
def setObserved (i : Nat) (observed : Bool) : Editing Unit := do
  let c ← get
  let _ ← entry c.isObserved i
  edit fun c => { c with isObserved := c.isObserved.set i observed }

/-- Fails if there can be no further vertex of a name. -/
def accepts (c : Columns) (name : String) : Except Fault Unit := do
  if c.numbers.contains name then throw (.network (.duplicateVertex name))
  if let some limit := c.capacity then
    if limit ≤ c.names.length then throw (.network (.capacity name limit))

/-- What stochastic and deterministic vertices have in common. -/
def addVertex (name : String) (stochastic : Bool) : Editing Nat := do
  let c ← get
  c.accepts name
  let i := c.names.length
  edit fun c => c.withNode i
  edit fun c => { c with names := c.names ++ [name] }
  edit fun c => { c with numbers := c.numbers.put name i }
  edit fun c => { c with isStochastic := c.isStochastic ++ [stochastic] }
  edit fun c => { c with isObserved := c.isObserved ++ [false] }
  return i

def addStochastic (name : String) (distribution : Value) (kernel : Option Generator)
    (observed : Bool) (value : Value) : Editing Nat := do
  let i ← addVertex name true
  edit fun c => { c with distributions := c.distributions ++ [distribution] }
  edit fun c => { c with kernels := c.kernels ++ [kernel] }
  edit fun c => { c with stochasticNumbers := c.stochasticNumbers ++ [i] }
  setObserved i observed
  edit fun c => match observed, value with
    | false, _ | _, .missing => c
    | true, v => { c with values := c.values.put name v }
  return i

def addDeterministic (name : String) (function : Generator) : Editing Nat := do
  let i ← addVertex name false
  edit fun c => { c with functions := c.functions ++ [function] }
  edit fun c => { c with deterministicNumbers := c.deterministicNumbers ++ [i] }
  return i

/-- Adds an edge; gives whether it is new. A path is only looked for between nodes of the graph. -/
def addEdge (parent child : String) : Editing Bool := do
  let c ← get
  let i ← c.numberOf parent
  let j ← c.numberOf child
  if i = j || c.edges.contains (i, j) then return false
  if !(c.nodes.contains j && c.nodes.contains i) then throw (.evaluation .outOfBounds)
  if c.edges.reaches j i then throw (.network (.cycle parent child))
  edit fun c => (c.withNode i).withNode j
  edit fun c => { c with edges := c.edges ++ [(i, j)] }
  return true

/-- The number of a stochastic vertex, and whether it is observed. -/
def stochasticVertex (c : Columns) (name : String) (whenNot : NetworkProblem) :
    Except Fault (Nat × Bool) := do
  let i ← c.numberOf name
  if !(← entry c.isStochastic i) then throw (.network whenNot)
  return (i, ← entry c.isObserved i)

/-- Observes a value of a vertex. -/
def observe (name : String) (value : Value) : Editing Unit := do
  let c ← get
  let (i, already) ← c.stochasticVertex name (.conditionDeterministic name)
  if !already then setObserved i true
  edit fun c => { c with values := c.values.put name value }

/-- Stops observing a vertex. -/
def forget (name : String) : Editing Unit := do
  let c ← get
  let (i, already) ← c.stochasticVertex name (.deconditionDeterministic name)
  if !already then throw (.network (.notObserved name))
  setObserved i false
  edit fun c => { c with values := c.values.erase name }

/-- The distribution beside the number of a stochastic vertex. -/
def distributionOf (c : Columns) (name : String) : Except Fault Value := do
  let i ← c.numberOf name
  if !(← entry c.isStochastic i) then throw (.network (.noDistribution name))
  entry c.distributions (c.stochasticNumbers.idxOf i)

/-- The function beside the number of a deterministic vertex. -/
def functionOf (c : Columns) (name : String) : Except Fault Generator := do
  let i ← c.numberOf name
  if ← entry c.isStochastic i then throw (.network (.noFunction name))
  entry c.functions (c.deterministicNumbers.idxOf i)

end Columns

namespace Network

/-- An operation that changes a network. -/
inductive Call
  | stochastic (name : String) (distribution : Value) (kernel : Option Generator)
    (observed : Bool) (value : Value)
  | deterministic (name : String) (function : Generator)
  | edge (parent child : String)
  | condition (observations : List (String × Value))
  | decondition (names : Option (List String))

/-- What an operation answers. -/
inductive Answer
  | vertex (number : Nat)
  | edge (new : Bool)
  | done
  deriving DecidableEq

namespace Call

/-- An operation on columns. -/
def edit : Call → Editing Answer
  | stochastic name distribution kernel observed value =>
    .vertex <$> Columns.addStochastic name distribution kernel observed value
  | deterministic name function => .vertex <$> Columns.addDeterministic name function
  | edge parent child => .edge <$> Columns.addEdge parent child
  | condition observations => do
    observations.forM fun (name, value) => Columns.observe name value
    return .done
  | decondition names => do
    let c ← get
    (names.getD c.observedNames).forM Columns.forget
    return .done

/-- An operation on a network. One that fails on its way leaves what it has done until then. -/
def perform (n : Network) : Call → Except Fault Answer × Network
  | stochastic name distribution kernel observed value =>
    let (answer, m) := n.addStochastic name distribution kernel observed value
    (answer.map .vertex, m)
  | deterministic name function =>
    match n.addDeterministic name function with
    | .ok (i, m) => (.ok (.vertex i), m)
    | .error e => (.error e, n)
  | edge parent child =>
    match n.addEdge parent child with
    | .ok (new, m) => (.ok (.edge new), m)
    | .error e => (.error e, n)
  | condition observations =>
    let r := n.observeAll observations
    (r.network?.map fun _ => .done, r.network)
  | decondition names =>
    let r := n.forgetSome names
    (r.network?.map fun _ => .done, r.network)

end Call

/-- The columns of a network. -/
def columns (n : Network) : Columns where
  capacity := n.skeleton.capacity
  nodes := List.range n.size
  edges := n.skeleton.edges
  names := n.skeleton.names
  numbers := ⟨n.skeleton.names.zipIdx⟩
  isStochastic := n.skeleton.vertices.map (·.role.isStochastic)
  isObserved := n.observations.observed
  stochasticNumbers := n.skeleton.numbersOf true
  deterministicNumbers := n.skeleton.numbersOf false
  distributions := n.skeleton.vertices.filterMap (·.role.distribution?)
  kernels := n.skeleton.vertices.filterMap (·.role.kernel?)
  functions := n.skeleton.vertices.filterMap (·.role.function?)
  values := n.observations.values

end Network

/-! ## Operations on the columns of a network -/

/-- A table of places finds the first place of a key. -/
theorem lookup_zipIdx (x : String) (xs : List String) (k : Nat) :
    (xs.zipIdx k).lookup x = (xs.findIdx? (· = x)).map (· + k) := by
  induction xs generalizing k with
  | nil => rfl
  | cons y xs ih =>
    rw [List.zipIdx_cons, List.lookup_cons, List.findIdx?_cons, ih]
    by_cases h : x = y
    · simp [h]
    · have hb : (x == y) = false := by simpa using h
      simp only [hb, Ne.symm h, decide_false, Bool.false_eq_true, if_false, Option.map_map]
      refine congrArg (Option.map · _) (funext fun i => ?_)
      simp only [Function.comp_apply]
      omega

namespace Columns

variable {c : Columns} {f : Columns → Columns}

theorem run_edit : edit f c = (.ok (), f c) := rfl

theorem withNode_of_mem {i : Nat} (h : i ∈ c.nodes) : c.withNode i = c := if_pos h

theorem entry_eq_ok {α : Type} {column : List α} {i : Nat} {a : α} :
    entry column i = .ok a ↔ column[i]? = some a := by
  unfold entry
  cases column[i]? <;> simp

end Columns

namespace Network

variable {n m : Network} {v : Vertex} {name : String} {i : Nat}

@[simp] theorem numbers_columns : n.columns.numbers.get? name = n.skeleton.number? name := by
  have h := lookup_zipIdx name n.skeleton.names 0
  simpa [columns, Assoc.get?, Skeleton.number?] using h

theorem numberOf_columns : n.columns.numberOf name = n.skeleton.number name := by
  rw [Columns.numberOf, numbers_columns]
  rfl

theorem numbersOf_append {s : Skeleton} {b : Bool} :
    ({ s with vertices := s.vertices ++ [v] } : Skeleton).numbersOf b =
      s.numbersOf b ++ if v.role.isStochastic = b then [s.vertices.length] else [] := by
  have old : (List.range s.vertices.length).filter
        (fun i => ((s.vertices ++ [v])[i]?).any (·.role.isStochastic = b)) = s.numbersOf b := by
    refine List.filter_congr fun i hi => ?_
    rw [List.getElem?_append_left (List.mem_range.1 hi)]
  simp only [Skeleton.numbersOf, List.length_append, List.length_singleton, List.range_succ,
    List.filter_append] at old ⊢
  rw [old]
  by_cases h : v.role.isStochastic = b <;> simp [h]

theorem addVertex_eq : n.addVertex v = (n.columns.accepts v.name).map fun _ =>
    ⟨{ n.skeleton with vertices := n.skeleton.vertices ++ [v] },
      { n.observations with observed := n.observations.observed ++ [false] }⟩ := by
  have known : n.columns.numbers.contains v.name = (n.skeleton.number? v.name).isSome := by
    rw [Assoc.contains, numbers_columns]
  have length : n.columns.names.length = n.skeleton.vertices.length := Skeleton.length_names
  have capacity : n.columns.capacity = n.skeleton.capacity := rfl
  simp only [Network.addVertex, Skeleton.addVertex, Columns.accepts, known, length, capacity]
  cases (n.skeleton.number? v.name).isSome with
  | true => rfl
  | false =>
    cases n.skeleton.capacity with
    | none => rfl
    | some limit => by_cases hlimit : limit ≤ n.skeleton.vertices.length <;> simp [hlimit] <;> rfl

theorem addVertex_columns : Columns.addVertex v.name v.role.isStochastic n.columns =
    match n.addVertex v with
    | .ok _ => (.ok n.size, n.columns.withVertex v)
    | .error e => (.error e, n.columns) := by
  have length : n.columns.names.length = n.size := Skeleton.length_names
  have node : n.size ∉ n.columns.nodes := by simp [columns]
  rw [addVertex_eq]
  cases haccepts : n.columns.accepts v.name with
  | error e =>
    simp only [Columns.addVertex, run_bind, run_get, run_lift, haccepts]
    rfl
  | ok =>
    simp only [Columns.addVertex, run_bind, run_get, run_lift, haccepts, Columns.run_edit, length,
      Columns.withNode, node, if_false, Columns.withVertex]
    rfl

theorem columns_of_addVertex (h : n.addVertex v = .ok m) :
    m.columns = { n.columns.withVertex v with
      stochasticNumbers := n.columns.stochasticNumbers ++
        if v.role.isStochastic = true then [n.size] else []
      deterministicNumbers := n.columns.deterministicNumbers ++
        if v.role.isStochastic = false then [n.size] else []
      distributions := n.columns.distributions ++ v.role.distribution?.toList
      kernels := n.columns.kernels ++ v.role.kernel?.toList
      functions := n.columns.functions ++ v.role.function?.toList } := by
  obtain ⟨t, ht, h⟩ := bind_eq_ok.1 h
  cases h
  obtain ⟨hfresh, -, rfl⟩ := Skeleton.addVertex_eq_ok.1 ht
  have fresh : v.name ∉ (⟨n.skeleton.names.zipIdx⟩ : Assoc Nat).keys := by
    simpa [Assoc.keys] using hfresh
  have numbers : (⟨(n.skeleton.names ++ [v.name]).zipIdx⟩ : Assoc Nat) =
      Assoc.put ⟨n.skeleton.names.zipIdx⟩ v.name n.skeleton.names.length := by
    have h := Assoc.entries_put_of_not_mem n.skeleton.names.length fresh
    rw [List.zipIdx_append, Nat.zero_add]
    exact (congrArg Assoc.mk h).symm
  have names : ({ n.skeleton with vertices := n.skeleton.vertices ++ [v] } : Skeleton).names =
      n.skeleton.names ++ [v.name] := by simp [Skeleton.names]
  have nodes : List.range (n.skeleton.vertices.length + 1) =
      List.range n.skeleton.vertices.length ++ [n.skeleton.names.length] := by
    rw [List.range_succ, Skeleton.length_names]
  simp only [columns, Columns.withVertex, numbersOf_append, names, numbers, size,
    List.length_append, List.length_singleton, nodes, List.map_append, List.filterMap_append,
    List.map_cons, List.map_nil, List.filterMap_cons, List.filterMap_nil]
  cases v.role <;> rfl

theorem setObserved_eq {c : Columns} {b : Bool} : Columns.setObserved i b c =
    match c.isObserved[i]? with
    | some _ => (.ok (), { c with isObserved := c.isObserved.set i b })
    | none => (.error (.evaluation .outOfBounds), c) := by
  simp only [Columns.setObserved, run_bind, run_get, run_lift, Columns.entry]
  cases c.isObserved[i]? <;> rfl

theorem columns_of_stochastic {distribution : Value} {kernel : Option Generator}
    (h : n.addVertex ⟨name, .stochastic distribution kernel⟩ = .ok m) :
    m.columns = { n.columns.withVertex ⟨name, .stochastic distribution kernel⟩ with
      stochasticNumbers := n.columns.stochasticNumbers ++ [n.size]
      distributions := n.columns.distributions ++ [distribution]
      kernels := n.columns.kernels ++ [kernel] } := by
  rw [columns_of_addVertex h]
  simp [Role.isStochastic, Role.distribution?, Role.kernel?, Role.function?, Columns.withVertex]

theorem columns_of_deterministic {function : Generator}
    (h : n.addVertex ⟨name, .deterministic function⟩ = .ok m) :
    m.columns = { n.columns.withVertex ⟨name, .deterministic function⟩ with
      deterministicNumbers := n.columns.deterministicNumbers ++ [n.size]
      functions := n.columns.functions ++ [function] } := by
  rw [columns_of_addVertex h]
  simp [Role.isStochastic, Role.distribution?, Role.kernel?, Role.function?, Columns.withVertex]

theorem addStochastic_columns (n : Network) (name : String) (distribution : Value)
    (kernel : Option Generator) (observed : Bool) (value : Value) :
    Columns.addStochastic name distribution kernel observed value n.columns =
      ((n.addStochastic name distribution kernel observed value).1,
        (n.addStochastic name distribution kernel observed value).2.columns) := by
  have common := addVertex_columns (n := n) (v := ⟨name, .stochastic distribution kernel⟩)
  simp only [Role.isStochastic] at common
  simp only [Columns.addStochastic, addStochastic, run_bind, common]
  cases hadd : n.addVertex ⟨name, .stochastic distribution kernel⟩ with
  | error e => rfl
  | ok m =>
    have hm := columns_of_stochastic hadd
    have hobserved : m.observations.observed = n.observations.observed ++ [false] :=
      congrArg Columns.isObserved hm
    have hcolumn : (n.columns.withVertex ⟨name, .stochastic distribution kernel⟩).isObserved =
      n.observations.observed ++ [false] := rfl
    simp only [Columns.run_edit, setObserved_eq, isObserved, hobserved, hcolumn]
    cases (n.observations.observed ++ [false])[n.size]? with
    | none =>
      simp only [hm]
      rfl
    | some b =>
      have hcolumns (o : Observations) : columns { m with observations := o } =
          { m.columns with isObserved := o.observed, values := o.values } := rfl
      have hvalues : m.observations.values = n.observations.values := congrArg Columns.values hm
      rw [hcolumns, hm, hvalues]
      cases observed <;> cases value <;> rfl

theorem addDeterministic_columns (n : Network) (name : String) (function : Generator) :
    Columns.addDeterministic name function n.columns =
      match n.addDeterministic name function with
      | .ok (i, m) => (.ok i, m.columns)
      | .error e => (.error e, n.columns) := by
  have common := addVertex_columns (n := n) (v := ⟨name, .deterministic function⟩)
  simp only [Role.isStochastic] at common
  simp only [Columns.addDeterministic, addDeterministic, run_bind, common]
  cases hadd : n.addVertex ⟨name, .deterministic function⟩ with
  | error e => rfl
  | ok m =>
    have hm := columns_of_deterministic hadd
    simp only [Columns.run_edit]
    exact congrArg (Prod.mk (Except.ok n.size)) hm.symm

theorem addEdge_of_number {s : Skeleton} {parent child : String} {i j : Nat}
    (hi : s.number parent = .ok i) (hj : s.number child = .ok j) :
    s.addEdge parent child =
      if i = j || s.edges.contains (i, j) then .ok (s, false)
      else if s.edges.reaches j i then .error (.network (.cycle parent child))
      else .ok ({ s with edges := s.edges ++ [(i, j)] }, true) := by
  rw [Skeleton.addEdge, hi, hj]
  show (if _ then _ else _) = _
  split
  · rfl
  · split <;> rfl

theorem addEdge_columns (n : Network) (parent child : String) :
    Columns.addEdge parent child n.columns =
      match n.addEdge parent child with
      | .ok (new, m) => (.ok new, m.columns)
      | .error e => (.error e, n.columns) := by
  have edges : n.columns.edges = n.skeleton.edges := rfl
  simp only [Columns.addEdge, addEdge, run_bind, run_get, run_lift, numberOf_columns, edges]
  cases hi : n.skeleton.number parent with
  | error e =>
    rw [Skeleton.addEdge, hi]
    rfl
  | ok i =>
    cases hj : n.skeleton.number child with
    | error e =>
      rw [Skeleton.addEdge, hi, hj]
      rfl
    | ok j =>
      have node {name : String} {i : Nat} (h : n.skeleton.number name = .ok i) :
          i ∈ n.columns.nodes :=
        List.mem_range.2 (Skeleton.number?_lt (Skeleton.number_eq_ok.1 h))
      have nodes : (n.columns.nodes.contains j && n.columns.nodes.contains i) = true := by
        simp [node hi, node hj]
      rw [addEdge_of_number hi hj]
      simp only [nodes, Bool.not_true, Bool.false_eq_true, if_false]
      split
      · rfl
      · split
        · rfl
        · simp only [run_bind, Columns.run_edit, Columns.withNode_of_mem (node hi),
            Columns.withNode_of_mem (node hj)]
          rfl

/-- What the columns say of the kind of a vertex. -/
theorem entry_isStochastic (hi : n.skeleton.number name = .ok i) :
    ∃ v, n.skeleton.vertices[i]? = some v ∧
      Columns.entry n.columns.isStochastic i = .ok v.role.isStochastic := by
  have hlt := Skeleton.number?_lt (Skeleton.number_eq_ok.1 hi)
  have hv : n.skeleton.vertices[i]? = some n.skeleton.vertices[i] := List.getElem?_eq_getElem hlt
  refine ⟨_, hv, ?_⟩
  simp only [Columns.entry, columns, List.getElem?_map, hv, Option.map_some]

theorem stochasticVertex_columns {whenNot : NetworkProblem} :
    n.columns.stochasticVertex name whenNot = n.stochasticVertex name whenNot := by
  rw [Columns.stochasticVertex, numberOf_columns, stochasticVertex, Skeleton.find]
  cases hi : n.skeleton.number name with
  | error e => rfl
  | ok i =>
    obtain ⟨v, hv, hentry⟩ := entry_isStochastic hi
    have hobserved : Columns.entry n.columns.isObserved i = n.isObserved i := by
      simp only [isObserved, Columns.entry, columns]
      cases n.observations.observed[i]? <;> rfl
    simp only [ok_bind, hv, hentry, hobserved, pure, Except.pure]

theorem find_eq_ok {s : Skeleton} :
    s.find name = .ok (i, v) ↔ s.number? name = some i ∧ s.vertices[i]? = some v := by
  simp only [Skeleton.find, bind_eq_ok, Skeleton.number_eq_ok]
  constructor
  · rintro ⟨j, hj, h⟩
    split at h
    · next heq =>
      cases h
      exact ⟨hj, heq⟩
    · cases h
  · rintro ⟨hi, hv⟩
    exact ⟨i, hi, by rw [hv]; rfl⟩

/-- What it takes for a name to be that of a stochastic vertex. -/
theorem stochasticVertex_eq_ok {whenNot : NetworkProblem} {b : Bool} :
    n.stochasticVertex name whenNot = .ok (i, b) ↔
      n.skeleton.number? name = some i ∧
      (∃ v, n.skeleton.vertices[i]? = some v ∧ v.role.isStochastic) ∧
      n.observations.observed[i]? = some b := by
  have observed : n.isObserved i = .ok b ↔ n.observations.observed[i]? = some b := by
    unfold isObserved
    cases n.observations.observed[i]? <;> simp
  rw [stochasticVertex, bind_eq_ok]
  constructor
  · rintro ⟨⟨j, v⟩, hfind, h⟩
    obtain ⟨hj, hv⟩ := find_eq_ok.1 hfind
    cases hrole : v.role.isStochastic with
    | false =>
      simp only [hrole] at h
      cases h
    | true =>
      simp only [hrole] at h
      obtain ⟨b', hb, h⟩ := bind_eq_ok.1 h
      cases h
      exact ⟨hj, ⟨v, hv, hrole⟩, observed.1 hb⟩
  · rintro ⟨hi, ⟨v, hv, hrole⟩, ho⟩
    refine ⟨(i, v), find_eq_ok.2 ⟨hi, hv⟩, ?_⟩
    simp only [hrole]
    exact bind_eq_ok.2 ⟨b, observed.2 ho, rfl⟩

/-- Observing a vertex that is observed leaves what is observed as it is. -/
theorem set_observed {observed : List Bool} {b : Bool} (h : observed[i]? = some b) :
    observed.set i b = observed := by
  obtain ⟨hi, rfl⟩ := List.getElem?_eq_some_iff.1 h
  exact List.set_getElem_self hi

theorem observe_columns (n : Network) (name : String) (value : Value) :
    Columns.observe name value n.columns =
      match n.stochasticVertex name (.conditionDeterministic name) with
      | .ok (i, _) => (.ok (), (n.observe i name value).columns)
      | .error e => (.error e, n.columns) := by
  simp only [Columns.observe, run_bind, run_get, run_lift, stochasticVertex_columns]
  cases h : n.stochasticVertex name (.conditionDeterministic name) with
  | error e => rfl
  | ok p =>
    obtain ⟨i, already⟩ := p
    obtain ⟨-, -, ho⟩ := stochasticVertex_eq_ok.1 h
    have hcolumn : n.columns.isObserved[i]? = some already := ho
    cases already with
    | false =>
      simp only [Bool.not_false, if_true, run_bind, setObserved_eq, hcolumn]
      rfl
    | true =>
      simp only [observe, set_observed ho]
      rfl

theorem forget_columns (n : Network) (name : String) :
    Columns.forget name n.columns =
      match n.stochasticVertex name (.deconditionDeterministic name) with
      | .ok (_, false) => (.error (.network (.notObserved name)), n.columns)
      | .ok (i, true) => (.ok (), (n.forget i name).columns)
      | .error e => (.error e, n.columns) := by
  simp only [Columns.forget, run_bind, run_get, run_lift, stochasticVertex_columns]
  cases h : n.stochasticVertex name (.deconditionDeterministic name) with
  | error e => rfl
  | ok p =>
    obtain ⟨i, already⟩ := p
    obtain ⟨-, -, ho⟩ := stochasticVertex_eq_ok.1 h
    have hcolumn : n.columns.isObserved[i]? = some already := ho
    cases already with
    | false => rfl
    | true =>
      simp only [Bool.not_true, Bool.false_eq_true, if_false, run_bind, setObserved_eq, hcolumn]
      rfl

theorem observeAll_columns (n : Network) (observations : List (String × Value)) :
    (observations.forM fun (name, value) => Columns.observe name value) n.columns =
      ((n.observeAll observations).network?.map fun _ => ⟨⟩,
        (n.observeAll observations).network.columns) := by
  induction observations generalizing n with
  | nil => rfl
  | cons p rest ih =>
    obtain ⟨name, value⟩ := p
    show (Columns.observe name value >>= fun _ => rest.forM fun (x, v) => Columns.observe x v)
      n.columns = _
    rw [run_bind, observe_columns, observeAll]
    cases n.stochasticVertex name (.conditionDeterministic name) with
    | error e => rfl
    | ok q =>
      obtain ⟨i, already⟩ := q
      exact ih (n.observe i name value)

theorem forgetAll_columns (n : Network) (names : List String) :
    names.forM Columns.forget n.columns =
      ((n.forgetAll names).network?.map fun _ => ⟨⟩, (n.forgetAll names).network.columns) := by
  induction names generalizing n with
  | nil => rfl
  | cons name rest ih =>
    show (Columns.forget name >>= fun _ => rest.forM Columns.forget) n.columns = _
    rw [run_bind, forget_columns, forgetAll]
    cases n.stochasticVertex name (.deconditionDeterministic name) with
    | error e => rfl
    | ok q =>
      obtain ⟨i, _ | _⟩ := q
      · rfl
      · exact ih (n.forget i name)

/-- An operation on the columns of a network answers or fails as it does on the network, and leaves
the columns of the network that it leaves. -/
theorem edit_columns (n : Network) (call : Call) :
    call.edit n.columns = ((call.perform n).1, (call.perform n).2.columns) := by
  cases call with
  | stochastic name distribution kernel observed value =>
    simp only [Call.edit, Call.perform, map_eq_pure_bind, run_bind, addStochastic_columns]
    cases (n.addStochastic name distribution kernel observed value).1 <;> rfl
  | deterministic name function =>
    simp only [Call.edit, Call.perform, map_eq_pure_bind, run_bind, addDeterministic_columns]
    cases n.addDeterministic name function <;> rfl
  | edge parent child =>
    simp only [Call.edit, Call.perform, map_eq_pure_bind, run_bind, addEdge_columns]
    cases n.addEdge parent child <;> rfl
  | condition observations =>
    simp only [Call.edit, Call.perform, run_bind, observeAll_columns]
    cases (n.observeAll observations).network? <;> rfl
  | decondition names =>
    have hnames : n.columns.observedNames = n.observedNames := rfl
    simp only [Call.edit, Call.perform, run_bind, run_get, hnames, forgetAll_columns, forgetSome]
    cases (n.forgetAll (names.getD n.observedNames)).network? <;> rfl

end Network

end PlateModel
