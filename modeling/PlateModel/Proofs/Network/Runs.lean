import PlateModel.Proofs.Network.Columns

/-!
# Networks after any operations

Whatever operations are made on a network whose parts fit together, and whether or not they fail,
its parts fit together afterwards. The vertices it has then are those of before and those of the
operations that did not fail.

* `Network.Sound`: the parts of a network fit together.
* `Sound.perform`, `Sound.after`: operations keep this.
* `Columns.added`, `vertices_after`: the vertices that operations add.
* `after_columns`: the columns after operations are those of the network after them.
-/

namespace PlateModel

namespace Network

/-! ## Parts that fit together -/

/-- The parts of a network fit together: for every vertex it is known whether it is observed, only
stochastic vertices are observed, and only observed vertices have values. -/
structure Sound (n : Network) : Prop where
  skeleton : n.skeleton.Sound
  length_observed : n.observations.observed.length = n.size
  observed : ∀ {i : Nat}, n.observations.observed[i]? = some true →
    ∃ v : Vertex, n.skeleton.vertices[i]? = some v ∧ v.role.isStochastic
  values : ∀ {name value}, n.observations.values.get? name = some value →
    ∃ i : Nat, n.skeleton.number? name = some i ∧ n.observations.observed[i]? = some true
  capacity : ∀ limit ∈ n.skeleton.capacity, 0 ≤ limit → n.size ≤ limit

variable {n m : Network} {v : Vertex} {name : String} {value : Value} {i : Nat}

theorem sound_empty (capacity : Option Int) : (empty capacity).Sound where
  skeleton := ⟨List.nodup_nil, nofun, .nil⟩
  length_observed := rfl
  observed := nofun
  values := nofun
  capacity _ _ h := h

theorem number?_append {s : Skeleton} (h : s.number? name = some i) :
    ({ s with vertices := s.vertices ++ [v] } : Skeleton).number? name = some i := by
  have hnames : ({ s with vertices := s.vertices ++ [v] } : Skeleton).names = s.names ++ [v.name] :=
    by simp [Skeleton.names]
  rw [Skeleton.number?, hnames, List.findIdx?_append]
  rw [Skeleton.number?] at h
  rw [h]
  rfl

/-- A vertex that is new is not observed. -/
theorem Sound.addVertex (hn : n.Sound) (h : n.addVertex v = .ok m) : m.Sound := by
  have hskeleton := sound_of_addVertex hn.skeleton h
  obtain ⟨t, ht, h⟩ := bind_eq_ok.1 h
  cases h
  obtain ⟨-, hlimit, rfl⟩ := Skeleton.addVertex_eq_ok.1 ht
  have old {i : Nat} (h : (n.observations.observed ++ [false])[i]? = some true) :
      n.observations.observed[i]? = some true := by
    rcases Nat.lt_or_ge i n.observations.observed.length with hi | hi
    · rwa [List.getElem?_append_left hi] at h
    · rw [List.getElem?_append_right hi] at h
      cases hk : i - n.observations.observed.length with
      | zero => simp [hk] at h
      | succ k => simp [hk] at h
  refine ⟨hskeleton, ?_, fun hi => ?_, fun hvalue => ?_, fun limit hl hpos => ?_⟩
  · simp [size, hn.length_observed]
  · obtain ⟨w, hw, hrole⟩ := hn.observed (old hi)
    exact ⟨w, by rw [List.getElem?_append_left (List.getElem?_eq_some_iff.1 hw).1, hw], hrole⟩
  · obtain ⟨i, hi, ho⟩ := hn.values hvalue
    refine ⟨i, number?_append hi, ?_⟩
    rw [List.getElem?_append_left (List.getElem?_eq_some_iff.1 ho).1, ho]
  · have := hlimit limit hl
    simp only [size, List.length_append, List.length_singleton]
    omega

/-- A stochastic vertex may be observed without a value. -/
theorem Sound.mark (hn : n.Sound)
    (hv : ∃ v : Vertex, n.skeleton.vertices[i]? = some v ∧ v.role.isStochastic) :
    Sound { n with observations :=
      { n.observations with observed := n.observations.observed.set i true } } where
  skeleton := hn.skeleton
  length_observed := by simp [size, hn.length_observed]
  observed {j} hj := by
    rw [List.getElem?_set] at hj
    split at hj
    · next heq => exact heq ▸ hv
    · exact hn.observed hj
  values hvalue := by
    obtain ⟨j, hj, ho⟩ := hn.values hvalue
    refine ⟨j, hj, ?_⟩
    have hlt := (List.getElem?_eq_some_iff.1 ho).1
    simp only [List.getElem?_set]
    split
    · next heq => simp [heq, hlt]
    · exact ho
  capacity := hn.capacity

/-- An observed vertex may have any value. -/
theorem Sound.put (hn : n.Sound) (hi : n.skeleton.number? name = some i)
    (ho : n.observations.observed[i]? = some true) :
    Sound { n with observations :=
      { n.observations with values := n.observations.values.put name value } } where
  skeleton := hn.skeleton
  length_observed := hn.length_observed
  observed := hn.observed
  values {x _} hx := by
    simp only [Assoc.get?_put] at hx
    split at hx
    · next heq => exact ⟨i, heq ▸ hi, ho⟩
    · exact hn.values hx
  capacity := hn.capacity

theorem Sound.observe (hn : n.Sound) (hi : n.skeleton.number? name = some i)
    (hv : ∃ v : Vertex, n.skeleton.vertices[i]? = some v ∧ v.role.isStochastic) :
    (n.observe i name value).Sound := by
  refine (hn.mark hv).put hi ?_
  have hlt : i < n.observations.observed.length := by
    rw [hn.length_observed]
    exact Skeleton.number?_lt hi
  simp [hlt]

theorem Sound.forget (hn : n.Sound) (hi : n.skeleton.number? name = some i) :
    (n.forget i name).Sound where
  skeleton := hn.skeleton
  length_observed := by simp [size, Network.forget, hn.length_observed]
  observed {j} hj := by
    simp only [Network.forget, List.getElem?_set] at hj
    split at hj
    · split at hj <;> cases hj
    · exact hn.observed hj
  values {x _} hx := by
    simp only [Network.forget, Assoc.get?_erase] at hx
    split at hx
    · cases hx
    · next hne =>
      obtain ⟨j, hj, ho⟩ := hn.values hx
      refine ⟨j, hj, ?_⟩
      have hij : i ≠ j := by
        rintro rfl
        have hname := (Skeleton.number?_eq_some hn.skeleton.nodup).1 hi
        rw [(Skeleton.number?_eq_some hn.skeleton.nodup).1 hj] at hname
        exact hne (Option.some.inj hname)
      simp only [Network.forget, List.getElem?_set, hij, if_false, ho]
  capacity := hn.capacity

theorem Sound.addStochastic (hn : n.Sound) (name : String) (distribution : Value)
    (kernel : Option Generator) (observed : Bool) (value : Value) :
    (n.addStochastic name distribution kernel observed value).2.Sound := by
  unfold Network.addStochastic
  cases hadd : n.addVertex ⟨name, .stochastic distribution kernel⟩ with
  | error e => exact hn
  | ok m =>
    have hm := hn.addVertex hadd
    dsimp only
    split
    · exact hm
    · next b hb =>
      obtain ⟨t, ht, h⟩ := bind_eq_ok.1 hadd
      obtain ⟨hfresh, -, rfl⟩ := Skeleton.addVertex_eq_ok.1 ht
      cases h
      have hv : (n.skeleton.vertices ++ [⟨name, .stochastic distribution kernel⟩])[n.size]? =
          some ⟨name, .stochastic distribution kernel⟩ := by simp [size]
      have hi : ({ n.skeleton with
          vertices := n.skeleton.vertices ++ [⟨name, .stochastic distribution kernel⟩] } :
          Skeleton).number? name = some n.size := by
        rw [Skeleton.number?_eq_some hm.skeleton.nodup]
        simp [Skeleton.names, size]
      have hfalse : (n.observations.observed ++ [false])[n.size]? = some false := by
        simp [← hn.length_observed]
      cases observed with
      | false =>
        simp only [set_observed hfalse]
        exact hm
      | true =>
        cases value with
        | missing => exact hm.mark ⟨_, hv, rfl⟩
        | _ => exact hm.observe hi ⟨_, hv, rfl⟩

theorem Sound.addEdge (hn : n.Sound) {parent child : String} {new : Bool}
    (h : n.addEdge parent child = .ok (new, m)) : m.Sound := by
  obtain ⟨⟨t, new'⟩, ht, h⟩ := bind_eq_ok.1 h
  cases h
  have hskeleton := hn.skeleton.addEdge ht
  obtain ⟨i, j, -, -, ⟨-, rfl, -⟩ | ⟨-, -, rfl, -⟩⟩ := Skeleton.addEdge_eq_ok.1 ht
  · exact hn
  · exact ⟨hskeleton, hn.length_observed, hn.observed, hn.values, hn.capacity⟩

theorem Sound.observeAll (hn : n.Sound) {observations : List (String × Value)} :
    (n.observeAll observations).network.Sound := by
  induction observations generalizing n with
  | nil => exact hn
  | cons p rest ih =>
    obtain ⟨name, value⟩ := p
    rw [Network.observeAll]
    split
    · exact hn
    · next i already h =>
      obtain ⟨hi, hv, -⟩ := stochasticVertex_eq_ok.1 h
      exact ih (hn.observe hi hv)

theorem Sound.forgetAll (hn : n.Sound) {names : List String} :
    (n.forgetAll names).network.Sound := by
  induction names generalizing n with
  | nil => exact hn
  | cons name rest ih =>
    rw [Network.forgetAll]
    split
    · exact hn
    · exact hn
    · next i h => exact ih (hn.forget (stochasticVertex_eq_ok.1 h).1)

/-- Every operation keeps the parts of a network together, whether or not it fails. -/
theorem Sound.perform (hn : n.Sound) (call : Call) : (call.perform n).2.Sound := by
  cases call with
  | stochastic name distribution kernel observed value =>
    exact hn.addStochastic name distribution kernel observed value
  | deterministic name function =>
    simp only [Call.perform]
    split
    · next i m h =>
      obtain ⟨m', hm', h⟩ := bind_eq_ok.1 h
      cases h
      exact hn.addVertex hm'
    · exact hn
  | edge parent child =>
    simp only [Call.perform]
    split
    · next new m h => exact hn.addEdge h
    · exact hn
  | condition observations => exact hn.observeAll
  | decondition names => exact hn.forgetAll

/-- The network after a sequence of operations, failed ones included. -/
def after (n : Network) (calls : List Call) : Network :=
  calls.foldl (fun n call => (call.perform n).2) n

theorem Sound.after {calls : List Call} (hn : n.Sound) : (n.after calls).Sound := by
  induction calls generalizing n with
  | nil => exact hn
  | cons call calls ih => exact ih (hn.perform call)

/-! ## Vertices that have been added -/

/-- The vertex that an operation adds if it answers and is one that adds vertices. -/
def Call.adds : Call → Except Fault Answer → List Vertex
  | stochastic name distribution kernel _ _, .ok _ => [⟨name, .stochastic distribution kernel⟩]
  | deterministic name function, .ok _ => [⟨name, .deterministic function⟩]
  | _, _ => []

end Network

namespace Columns

open Network (Call)

/-- The columns after a sequence of operations, failed ones included. -/
def after (c : Columns) (calls : List Call) : Columns :=
  calls.foldl (fun c call => (call.edit c).2) c

/-- The vertices that a sequence of operations adds: those of the operations that do not fail. -/
def added (c : Columns) : List Call → List Vertex
  | [] => []
  | call :: calls =>
    let (answer, c') := call.edit c
    call.adds answer ++ added c' calls

end Columns

namespace Network

variable {n m : Network} {v : Vertex}

theorem skeleton_of_addVertex (h : n.addVertex v = .ok m) :
    m.skeleton = { n.skeleton with vertices := n.skeleton.vertices ++ [v] } := by
  obtain ⟨t, ht, h⟩ := bind_eq_ok.1 h
  cases h
  exact (Skeleton.addVertex_eq_ok.1 ht).2.2

theorem skeleton_observeAll {observations : List (String × Value)} :
    (n.observeAll observations).network.skeleton = n.skeleton := by
  induction observations generalizing n with
  | nil => rfl
  | cons p rest ih =>
    obtain ⟨name, value⟩ := p
    rw [Network.observeAll]
    split
    · rfl
    · next i already h => exact ih (n := n.observe i name value)

theorem skeleton_forgetAll {names : List String} :
    (n.forgetAll names).network.skeleton = n.skeleton := by
  induction names generalizing n with
  | nil => rfl
  | cons name rest ih =>
    rw [Network.forgetAll]
    split
    · rfl
    · rfl
    · next i h => exact ih (n := n.forget i name)

/-- An operation adds its vertex if it does not fail, and no other; the capacity stays. -/
theorem vertices_perform (hn : n.Sound) (call : Call) :
    (call.perform n).2.skeleton.vertices =
        n.skeleton.vertices ++ call.adds (call.perform n).1 ∧
      (call.perform n).2.skeleton.capacity = n.skeleton.capacity := by
  cases call with
  | stochastic name distribution kernel observed value =>
    simp only [Call.perform, addStochastic]
    cases hadd : n.addVertex ⟨name, .stochastic distribution kernel⟩ with
    | error e => exact ⟨(List.append_nil _).symm, rfl⟩
    | ok m =>
      have hm := hn.addVertex hadd
      have hskeleton := skeleton_of_addVertex hadd
      have hlt : n.size < m.observations.observed.length := by
        rw [hm.length_observed, size, size, hskeleton]
        simp
      have hobserved : m.isObserved n.size = .ok m.observations.observed[n.size] := by
        rw [isObserved, List.getElem?_eq_getElem hlt]
      simp only [hobserved]
      show m.skeleton.vertices = _ ∧ m.skeleton.capacity = _
      rw [hskeleton]
      exact ⟨rfl, rfl⟩
  | deterministic name function =>
    simp only [Call.perform, addDeterministic]
    cases hadd : n.addVertex ⟨name, .deterministic function⟩ with
    | error e => exact ⟨(List.append_nil _).symm, rfl⟩
    | ok m =>
      show m.skeleton.vertices = _ ∧ m.skeleton.capacity = _
      rw [skeleton_of_addVertex hadd]
      exact ⟨rfl, rfl⟩
  | edge parent child =>
    simp only [Call.perform, Call.adds, List.append_nil]
    split
    · next new m h =>
      obtain ⟨⟨t, new'⟩, ht, h⟩ := bind_eq_ok.1 h
      cases h
      obtain ⟨i, j, -, -, ⟨-, rfl, -⟩ | ⟨-, -, rfl, -⟩⟩ := Skeleton.addEdge_eq_ok.1 ht <;>
        exact ⟨rfl, rfl⟩
    · exact ⟨rfl, rfl⟩
  | condition observations =>
    simp only [Call.perform, Call.adds, skeleton_observeAll, List.append_nil, and_self]
  | decondition names =>
    simp only [Call.perform, Call.adds, forgetSome, skeleton_forgetAll, List.append_nil, and_self]

/-- The columns of a network after operations on both. -/
theorem after_columns (calls : List Call) :
    n.columns.after calls = (n.after calls).columns := by
  induction calls generalizing n with
  | nil => rfl
  | cons call calls ih =>
    show Columns.after (call.edit n.columns).2 calls = _
    rw [edit_columns]
    exact ih

theorem vertices_after (hn : n.Sound) (calls : List Call) :
    (n.after calls).skeleton.vertices = n.skeleton.vertices ++ n.columns.added calls ∧
      (n.after calls).skeleton.capacity = n.skeleton.capacity := by
  induction calls generalizing n with
  | nil => exact ⟨(List.append_nil _).symm, rfl⟩
  | cons call calls ih =>
    obtain ⟨hvertices, hcapacity⟩ := vertices_perform hn call
    obtain ⟨hrest, hcapacity'⟩ := ih (hn.perform call)
    refine ⟨?_, hcapacity'.trans hcapacity⟩
    show ((call.perform n).2.after calls).skeleton.vertices = _
    rw [hrest, hvertices, Columns.added, edit_columns, List.append_assoc]

end Network

end PlateModel
