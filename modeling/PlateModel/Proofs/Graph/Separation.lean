import Mathlib.Data.List.Chain
import PlateModel.Network.Independence
import PlateModel.Proofs.Graph.Reach

/-!
# Separation by blocked paths

In a directed graph without cycles, a set of vertices separates two others if it blocks every simple
path between them in the underlying undirected graph. A path is blocked at an inner vertex: at a
collider, where both edges of the path come in, unless the vertex or a descendant of it is in the
set; at any other vertex if it is in the set.

* `Digraph.IsPath`, `Digraph.Blocked`: simple paths, and which of them are blocked.
* `Digraph.Trail`: walks that are not blocked, with the direction of their last edge. A walk along
  the moral graph becomes such a trail (`Trail.of_moral`), and a trail can be shortened to a simple
  path (`Trail.exists_path`).
* `leads_moral_of_path`: a path that is not blocked becomes a walk along the moral graph.
* `separates_iff`: the search in the moral graph decides separation.
-/

namespace PlateModel.Digraph

variable {α : Type}

/-- Two vertices are joined by an edge, whatever its direction. -/
def Adjacent (g : Digraph α) (a b : α) : Prop := g.Edge a b ∨ g.Edge b a

/-- The edges of a path through three vertices both point to the one in the middle. -/
def Collider (g : Digraph α) (a b c : α) : Prop := g.Edge a b ∧ g.Edge c b

/-- A path without repetition in the underlying undirected graph. -/
structure IsPath (g : Digraph α) (x y : α) (path : List α) : Prop where
  head : path.head? = some x
  last : path.getLast? = some y
  chain : path.IsChain g.Adjacent
  nodup : path.Nodup

/-- Some vertices block a path: it contains a non-collider that is one of them, or a collider such
that neither it nor any of its descendants is one of them. -/
def Blocked (g : Digraph α) (given path : List α) : Prop :=
  ∃ a b c, [a, b, c] <:+: path ∧
    (¬ g.Collider a b c ∧ b ∈ given ∨ g.Collider a b c ∧ ∀ d, g.Leads b d → d ∉ given)

variable {g : Digraph α} {given path rest : List α} {a b c d v w x y : α}

theorem Adjacent.symm (h : g.Adjacent a b) : g.Adjacent b a := Or.symm h

/-! ## Paths that are not blocked -/

/-- A vertex is given, or has a descendant that is. -/
def Above (g : Digraph α) (given : List α) (a : α) : Prop := ∃ d ∈ given, g.Leads a d

/-- Three consecutive vertices let a path pass: a collider if it or a descendant of it is given, any
other vertex if it is not. -/
def Passes (g : Digraph α) (given : List α) (a b c : α) : Prop :=
  (g.Collider a b c → g.Above given b) ∧ (¬ g.Collider a b c → b ∉ given)

/-- A path passes at every three consecutive vertices. -/
def Open (g : Digraph α) (given path : List α) : Prop :=
  ∀ a b c, [a, b, c] <:+: path → g.Passes given a b c

theorem not_blocked_iff : ¬ g.Blocked given path ↔ g.Open given path := by
  constructor
  · intro h a b c habc
    refine ⟨fun hcol => ?_, fun hcol hb => h ⟨a, b, c, habc, .inl ⟨hcol, hb⟩⟩⟩
    by_cases habove : g.Above given b
    · exact habove
    · exact absurd ⟨a, b, c, habc, .inr ⟨hcol, fun d hbd hd => habove ⟨d, hd, hbd⟩⟩⟩ h
  · rintro h ⟨a, b, c, habc, ⟨hcol, hb⟩ | ⟨hcol, hd⟩⟩
    · exact (h a b c habc).2 hcol hb
    · obtain ⟨d, hmem, hbd⟩ := (h a b c habc).1 hcol
      exact hd d hbd hmem

theorem Open.of_suffix (h : g.Open given path) (hs : rest <:+ path) : g.Open given rest :=
  fun a b c habc => h a b c (habc.trans hs.isInfix)

theorem open_single : g.Open given [a] := fun _ _ _ habc => by
  have := habc.length_le
  simp at this

theorem open_pair : g.Open given [a, b] := fun _ _ _ habc => by
  have := habc.length_le
  simp at this

theorem Open.cons (h : g.Open given (b :: c :: rest)) (habc : g.Passes given a b c) :
    g.Open given (a :: b :: c :: rest) := by
  intro a' b' c' hwithin
  rcases List.infix_cons_iff.1 hwithin with hfront | hwithin
  · obtain ⟨_, heq⟩ := hfront
    cases heq
    exact habc
  · exact h a' b' c' hwithin

theorem Open.passes (h : g.Open given (a :: b :: c :: rest)) : g.Passes given a b c :=
  h a b c ⟨[], rest, rfl⟩

theorem Open.tail (h : g.Open given (a :: path)) : g.Open given path :=
  h.of_suffix (List.suffix_cons ..)

theorem IsPath.tail (h : g.IsPath a y (a :: b :: rest)) : g.IsPath b y (b :: rest) :=
  ⟨rfl, by simpa using h.last, (List.isChain_cons_cons.1 h.chain).2, h.nodup.tail⟩

/-- What is left of a path when its beginning is cut off. -/
theorem IsPath.of_suffix (h : g.IsPath x y path) (hs : w :: rest <:+ path) :
    g.IsPath w y (w :: rest) := by
  obtain ⟨front, rfl⟩ := hs
  exact ⟨rfl, by simpa using h.last, h.chain.suffix (List.suffix_append ..),
    h.nodup.sublist (List.sublist_append_right ..)⟩

theorem IsPath.single : g.IsPath x x [x] := ⟨rfl, rfl, .singleton x, by simp⟩

/-! ## Walks with the direction of their last edge -/

theorem Above.of_edge (h : g.Above given b) (hab : g.Edge a b) : g.Above given a :=
  h.imp fun _ ⟨hd, hbd⟩ => ⟨hd, .head hab hbd⟩

theorem Above.of_leads (h : g.Above given b) (hab : g.Leads a b) : g.Above given a :=
  h.imp fun _ ⟨hd, hbd⟩ => ⟨hd, hab.trans hbd⟩

/-- A walk from a vertex that is blocked nowhere between its ends. The flag says whether its last
edge points forward, to the vertex where the walk has arrived. -/
inductive Trail (g : Digraph α) (given : List α) (x : α) : α → Bool → Prop
  | start : Trail g given x x false
  | forward {v w : α} {arrives : Bool} :
    Trail g given x v arrives → v ∉ given → g.Edge v w → Trail g given x w true
  | backward {v w : α} :
    Trail g given x v false → v ∉ given → g.Edge w v → Trail g given x w false
  | collide {v w : α} :
    Trail g given x v true → g.Above given v → g.Edge w v → Trail g given x w false

namespace Trail

/-- A trail follows a path down from a vertex below which nothing is given. -/
theorem down {arrives : Bool} (h : g.Trail given x v arrives) (hv : ¬ g.Above given v)
    (hvw : g.Leads v w) : ∃ arrives, g.Trail given x w arrives := by
  induction hvw with
  | refl => exact ⟨arrives, h⟩
  | @tail b c hvb hbc ih =>
    obtain ⟨_, ih⟩ := ih
    exact ⟨true, ih.forward (fun hb => hv ⟨b, hb, hvb⟩) hbc⟩

/-- A trail begins by going up a path below whose end nothing is given. -/
theorem up (hv : ¬ g.Above given v) (hvx : g.Leads v x) : g.Trail given x v false := by
  induction hvx using Relation.ReflTransGen.head_induction_on with
  | refl => exact .start
  | @head b c hbc hcx ih =>
    have hc : ¬ g.Above given c := fun h => hv (h.of_edge hbc)
    exact (ih hc).backward (fun hmem => hc ⟨c, hmem, .refl⟩) hbc

/-- A trail that has come to a vertex along its last edge goes on against another edge of the
vertex. If nothing below the vertex is given, it leads down to an end of the trail: then the trail
begins there instead, or goes to the other end. -/
theorem turn (h : g.Trail given x v true) (hv : g.Above (x :: y :: given) v) (hwv : g.Edge w v) :
    g.Trail given x w false ∨ ∃ arrives, g.Trail given x y arrives := by
  by_cases habove : g.Above given v
  · exact .inl (h.collide habove hwv)
  · obtain ⟨d, hd, hvd⟩ := hv
    simp only [List.mem_cons] at hd
    rcases hd with rfl | rfl | hd
    · exact .inl ((up habove hvd).backward (fun hmem => habove ⟨v, hmem, .refl⟩) hwv)
    · exact .inr (h.down habove hvd)
    · exact absurd ⟨d, hd, hvd⟩ habove

end Trail

/-- Two vertices are joined by an edge, or they have an edge to one vertex. All three have one of
some vertices below them. -/
def Moral (g : Digraph α) (below : List α) (a b : α) : Prop :=
  g.Above below a ∧ g.Above below b ∧
    (g.Adjacent a b ∨ a ≠ b ∧ ∃ c, g.Above below c ∧ g.Edge a c ∧ g.Edge b c)

/-- A step along the moral graph that meets no given vertex. -/
def MoralStep (g : Digraph α) (given : List α) (x y a b : α) : Prop :=
  g.Moral (x :: y :: given) a b ∧ a ∉ given ∧ b ∉ given

/-- A step may be taken backwards, and the ends of the walk exchanged. -/
theorem MoralStep.turn (h : g.MoralStep given x y a b) : g.MoralStep given y x b a := by
  have habove : ∀ {v}, g.Above (x :: y :: given) v → g.Above (y :: x :: given) v :=
    fun ⟨d, hd, hvd⟩ => ⟨d, (List.Perm.swap y x given).mem_iff.1 hd, hvd⟩
  obtain ⟨⟨ha, hb, hadj⟩, hagiven, hbgiven⟩ := h
  refine ⟨⟨habove hb, habove ha, hadj.imp .symm fun ⟨hne, c, hc, hac, hbc⟩ => ?_⟩, hbgiven, hagiven⟩
  exact ⟨hne.symm, c, habove hc, hbc, hac⟩

namespace Trail

/-- A step along the moral graph continues a trail, unless there is one to the other end anyway. -/
theorem moralStep {arrives : Bool} (h : g.Trail given x v arrives)
    (hvw : g.MoralStep given x y v w) :
    (∃ arrives, g.Trail given x w arrives) ∨ ∃ arrives, g.Trail given x y arrives := by
  obtain ⟨⟨hv, -, hvw⟩, hgiven, -⟩ := hvw
  rcases hvw with (hvw | hwv) | ⟨-, c, hc, hvc, hwc⟩
  · exact .inl ⟨true, h.forward hgiven hvw⟩
  · cases arrives with
    | false => exact .inl ⟨false, h.backward hgiven hwv⟩
    | true => exact (h.turn hv hwv).imp_left fun h => ⟨false, h⟩
  · exact ((h.forward hgiven hvc).turn hc hwc).imp_left fun h => ⟨false, h⟩

/-- A walk along the moral graph that meets no given vertex becomes a trail. -/
theorem of_moral (h : Relation.ReflTransGen (g.MoralStep given x y) x y) :
    ∃ arrives, g.Trail given x y arrives := by
  have step : ∀ {v}, Relation.ReflTransGen (g.MoralStep given x y) x v →
      (∃ arrives, g.Trail given x v arrives) ∨ ∃ arrives, g.Trail given x y arrives := by
    intro v h
    induction h with
    | refl => exact .inl ⟨false, .start⟩
    | tail _ hvw ih =>
      rcases ih with ⟨_, ih⟩ | ih
      · exact ih.moralStep hvw
      · exact .inr ih
  exact (step h).elim id id

end Trail

/-! ## Shortening a trail -/

/-- The first edge of a path points to its first vertex. -/
def Enters (g : Digraph α) : List α → Prop
  | v :: u :: _ => g.Edge u v
  | _ => False

/-- Along an open path, an edge from a later vertex to the one before it begins a descent: to a
given vertex, or to the first vertex of the path, which the path then enters. -/
theorem above_or_leads_head (hchain : (v :: path).IsChain g.Adjacent)
    (hopen : g.Open given (v :: path)) (hwithin : [a, w] <:+: v :: path) (hwa : g.Edge w a) :
    g.Above given w ∨ g.Enters (v :: path) ∧ g.Leads w v := by
  induction path generalizing v with
  | nil =>
    have := hwithin.length_le
    simp at this
  | cons u path ih =>
    rcases List.infix_cons_iff.1 hwithin with hfront | hwithin
    · obtain ⟨_, heq⟩ := hfront
      cases heq
      exact .inr ⟨hwa, .single hwa⟩
    · rcases ih hchain.tail hopen.tail hwithin with h | ⟨henters, hwu⟩
      · exact .inl h
      · cases path with
        | nil => exact henters.elim
        | cons t path =>
          rcases (List.isChain_cons_cons.1 hchain).1 with hvu | huv
          · exact .inl (.of_leads (hopen.passes.1 ⟨hvu, henters⟩) hwu)
          · exact .inr ⟨huv, hwu.tail huv⟩

/-- Along an open path, an edge from a vertex to the next begins a descent: to a given vertex, or to
the last vertex of the path. -/
theorem above_or_leads_last (h : g.IsPath w y (w :: a :: path))
    (hopen : g.Open given (w :: a :: path)) (hwa : g.Edge w a) :
    g.Above given w ∨ g.Leads w y := by
  induction path generalizing w a with
  | nil =>
    have hy : a = y := by simpa using h.last
    exact .inr (hy ▸ .single hwa)
  | cons b path ih =>
    rcases (List.isChain_cons_cons.1 h.tail.chain).1 with hab | hba
    · exact (ih h.tail hopen.tail hab).imp (·.of_edge hwa) (.head hwa)
    · exact .inl (Above.of_edge (hopen.passes.1 ⟨hwa, hba⟩) hwa)

/-- A path does what a trail does at its end: it enters a vertex if the trail does, unless the
vertex passes either way. -/
def Follows (g : Digraph α) (given : List α) (v : α) (arrives : Bool) (path : List α) : Prop :=
  (g.Enters path → arrives = true ∨ g.Above given v) ∧
    (¬ g.Enters path → arrives = false ∨ v ∉ given)

/-- A vertex on an open path, behind the first one. -/
theorem exists_before (h : w ∈ path) : ∃ a rest, a :: w :: rest <:+ v :: path := by
  induction path generalizing v with
  | nil => cases h
  | cons u path ih =>
    rcases List.mem_cons.1 h with rfl | h
    · exact ⟨v, path, List.suffix_refl _⟩
    · obtain ⟨a, rest, hsuffix⟩ := ih h (v := u)
      exact ⟨a, rest, hsuffix.trans (List.suffix_cons ..)⟩

/-- A path to which a vertex is added in front stays open. -/
theorem Open.extend {arrives : Bool} (hopen : g.Open given (v :: path))
    (hfollows : g.Follows given v arrives (v :: path))
    (hadj : g.Adjacent w v) (hfree : g.Edge v w ∨ arrives = false → v ∉ given)
    (hcol : g.Edge w v → arrives = true → g.Above given v) :
    g.Open given (w :: v :: path) := by
  cases path with
  | nil => exact open_pair
  | cons u path =>
    refine hopen.cons ⟨fun ⟨hwv, huv⟩ => ?_, fun hcollider => ?_⟩
    · exact (hfollows.1 huv).elim (hcol hwv) id
    · by_cases huv : g.Edge u v
      · have hvw : g.Edge v w := hadj.resolve_left fun hwv => hcollider ⟨hwv, huv⟩
        exact hfree (.inl hvw)
      · exact (hfollows.2 huv).elim (fun h => hfree (.inr h)) id

/-- What an open path to a vertex behind its first one does there. -/
theorem follows_of_mem {arrives : Bool} (hpath : g.IsPath v x (v :: path))
    (hopen : g.Open given (v :: path)) (hx : x ∉ given)
    (hsuffix : a :: w :: rest <:+ v :: path)
    (habove : g.Edge w a → g.Enters (v :: path) → g.Above given w ∨ arrives = true) :
    g.Follows given w arrives (w :: rest) := by
  have hopen' := hopen.of_suffix hsuffix
  have hpath' := hpath.of_suffix hsuffix
  cases rest with
  | nil =>
    have hw : w = x := by simpa using hpath'.last
    exact ⟨fun h => h.elim, fun _ => .inr (hw ▸ hx)⟩
  | cons u rest =>
    refine ⟨fun huw => ?_, fun huw => .inr (hopen'.passes.2 fun h => huw h.2)⟩
    rcases (List.isChain_cons_cons.1 hpath'.chain).1 with haw | hwa
    · exact .inr (hopen'.passes.1 ⟨haw, huw⟩)
    · have hwithin : [a, w] <:+: v :: path :=
        (show [a, w] <:+: a :: w :: u :: rest from ⟨[], u :: rest, rfl⟩).trans hsuffix.isInfix
      rcases above_or_leads_head hpath.chain hopen hwithin hwa with h | ⟨henters, -⟩
      · exact .inr h
      · exact (habove hwa henters).symm

/-- There is an open path without repetition that ends a trail as the trail does. -/
def Shortened (g : Digraph α) (given : List α) (x v : α) (arrives : Bool) : Prop :=
  ∃ path, g.IsPath v x (v :: path) ∧ g.Open given (v :: path) ∧
    g.Follows given v arrives (v :: path)

/-- Where the path meets the next vertex of the trail already, it is cut off there. -/
theorem Shortened.step {arrives arrives' : Bool} (hacyclic : g.Acyclic) (hx : x ∉ given)
    (h : g.Shortened given x v arrives) (hadj : g.Adjacent w v)
    (hfree : g.Edge v w ∨ arrives = false → v ∉ given)
    (hcol : g.Edge w v → arrives = true → g.Above given v)
    (hdir : arrives' = true ↔ g.Edge v w) : g.Shortened given x w arrives' := by
  obtain ⟨path, hpath, hopen, hfollows⟩ := h
  have hne : w ≠ v := hadj.elim hacyclic.ne fun h => (hacyclic.ne h).symm
  by_cases hmem : w ∈ path
  · obtain ⟨a, rest, hsuffix⟩ := exists_before hmem (v := v)
    have hsuffix' := (List.suffix_cons a (w :: rest)).trans hsuffix
    refine ⟨rest, hpath.of_suffix hsuffix', hopen.of_suffix hsuffix',
      follows_of_mem hpath hopen hx hsuffix fun _ henters => ?_⟩
    rcases hadj with hwv | hvw
    · exact .inl (((hfollows.1 henters).elim (hcol hwv) id).of_edge hwv)
    · exact .inr (hdir.2 hvw)
  · refine ⟨v :: path, ⟨rfl, hpath.last, .cons_cons hadj hpath.chain,
      List.nodup_cons.2 ⟨by simp [hne, hmem], hpath.nodup⟩⟩,
      hopen.extend hfollows hadj hfree hcol, fun hvw => .inl (hdir.2 hvw), fun hvw => .inl ?_⟩
    exact Bool.eq_false_iff.2 fun h => hvw (hdir.1 h)

/-- A trail can be shortened to an open path without repetition, from its end to its beginning. -/
theorem Trail.shortened {arrives : Bool} (hacyclic : g.Acyclic) (hx : x ∉ given)
    (h : g.Trail given x v arrives) : g.Shortened given x v arrives := by
  induction h with
  | start => exact ⟨[], .single, open_single, fun h => h.elim, fun _ => .inl rfl⟩
  | forward _ hv hvw ih =>
    exact ih.step hacyclic hx (.inr hvw) (fun _ => hv)
      (fun hwv => absurd hwv (hacyclic.asymm hvw)) (by simpa using hvw)
  | backward _ hv hwv ih =>
    exact ih.step hacyclic hx (.inl hwv) (fun _ => hv) nofun (by simpa using hacyclic.asymm hwv)
  | collide _ hv hwv ih =>
    exact ih.step hacyclic hx (.inl hwv) (fun h => absurd (h.resolve_right nofun)
      (hacyclic.asymm hwv)) (fun _ _ => hv) (by simpa using hacyclic.asymm hwv)

/-- Where a walk along the moral graph leads, there is a path that is not blocked. -/
theorem exists_path_of_moral (hacyclic : g.Acyclic) (hx : x ∉ given)
    (h : Relation.ReflTransGen (g.MoralStep given x y) x y) :
    ∃ path, g.IsPath y x path ∧ ¬ g.Blocked given path := by
  obtain ⟨_, htrail⟩ := Trail.of_moral h
  obtain ⟨path, hpath, hopen, -⟩ := htrail.shortened hacyclic hx
  exact ⟨y :: path, hpath, not_blocked_iff.2 hopen⟩

/-! ## From a path to the moral graph -/

/-- Every vertex of an open path is above one of its ends or above a given vertex. -/
theorem above_of_mem (hpath : g.IsPath x y path) (hopen : g.Open given path) (hw : w ∈ path) :
    g.Above (x :: y :: given) w := by
  have widen : ∀ {w}, g.Above given w → g.Above (x :: y :: given) w :=
    fun ⟨d, hd, hwd⟩ => ⟨d, .tail _ (.tail _ hd), hwd⟩
  have hx : ∀ {w}, g.Leads w x → g.Above (x :: y :: given) w := fun h => ⟨x, by simp, h⟩
  have hy : ∀ {w}, g.Leads w y → g.Above (x :: y :: given) w := fun h => ⟨y, by simp, h⟩
  cases path with
  | nil => cases hw
  | cons v path =>
    obtain rfl : v = x := by simpa using hpath.head
    rcases List.mem_cons.1 hw with rfl | hw
    · exact hx .refl
    obtain ⟨a, rest, hsuffix⟩ := exists_before hw (v := v)
    have hopen' := hopen.of_suffix hsuffix
    have hpath' := hpath.of_suffix hsuffix
    rcases (List.isChain_cons_cons.1 hpath'.chain).1 with haw | hwa
    · cases rest with
      | nil =>
        obtain rfl : w = y := by simpa using hpath'.last
        exact hy .refl
      | cons u rest =>
        rcases (List.isChain_cons_cons.1 hpath'.tail.chain).1 with hwu | huw
        · exact (above_or_leads_last hpath'.tail hopen'.tail hwu).elim widen hy
        · exact widen (hopen'.passes.1 ⟨haw, huw⟩)
    · have hwithin : [a, w] <:+: v :: path :=
        (show [a, w] <:+: a :: w :: rest from ⟨[], rest, rfl⟩).trans hsuffix.isInfix
      exact (above_or_leads_head hpath.chain hopen hwithin hwa).elim widen fun h => hx h.2

/-- From a vertex that is not given, an open path leads along the moral graph to its end. Where the
path enters its first vertex, it leads there from the second one, which is not given. -/
theorem moral_of_suffix (hacyclic : g.Acyclic) (hy : y ∉ given) (hpath : g.IsPath w y (w :: path))
    (hopen : g.Open given (w :: path))
    (habove : ∀ v ∈ w :: path, g.Above (x :: y :: given) v) :
    (w ∉ given → Relation.ReflTransGen (g.MoralStep given x y) w y) ∧
      (∀ {v rest}, path = v :: rest → g.Edge v w →
        v ∉ given ∧ Relation.ReflTransGen (g.MoralStep given x y) v y) := by
  induction path generalizing w with
  | nil =>
    obtain rfl : w = y := by simpa using hpath.last
    exact ⟨fun _ => .refl, nofun⟩
  | cons v path ih =>
    obtain ⟨ihFrom, ihSecond⟩ := ih hpath.tail hopen.tail fun u hu => habove u (.tail _ hu)
    have hw := habove w (by simp)
    have hv := habove v (by simp)
    have hadj := (List.isChain_cons_cons.1 hpath.chain).1
    -- a vertex that the path does not enter on both sides is not given
    have free : ¬ (g.Edge w v ∧ g.Enters (v :: path)) → v ∉ given := by
      intro hne
      cases path with
      | nil =>
        obtain rfl : v = y := by simpa using hpath.last
        exact hy
      | cons u path => exact hopen.passes.2 fun ⟨hwv, huv⟩ => hne ⟨hwv, huv⟩
    have hsecond : g.Edge v w →
        v ∉ given ∧ Relation.ReflTransGen (g.MoralStep given x y) v y := fun hvw =>
      have hfree := free fun h => hacyclic.asymm hvw h.1
      ⟨hfree, ihFrom hfree⟩
    refine ⟨fun hwfree => ?_, fun heq hvw => by cases heq; exact hsecond hvw⟩
    by_cases hcol : g.Edge w v ∧ g.Enters (v :: path)
    · cases path with
      | nil => exact hcol.2.elim
      | cons u path =>
        obtain ⟨hufree, hu⟩ := ihSecond rfl hcol.2
        have hne : w ≠ u := fun h => by
          have := hpath.nodup
          simp [h] at this
        exact .head ⟨⟨hw, habove u (by simp), .inr ⟨hne, v, hv, hcol.1, hcol.2⟩⟩, hwfree, hufree⟩ hu
    · have hfree := free hcol
      exact .head ⟨⟨hw, hv, .inl hadj⟩, hwfree, hfree⟩ (ihFrom hfree)

/-- Where a path that is not blocked leads, there leads a walk along the moral graph. -/
theorem moral_of_path (hacyclic : g.Acyclic) (hx : x ∉ given) (hy : y ∉ given)
    (hpath : g.IsPath x y path) (hblocked : ¬ g.Blocked given path) :
    Relation.ReflTransGen (g.MoralStep given x y) x y := by
  have hopen := not_blocked_iff.1 hblocked
  cases path with
  | nil => cases hpath.head
  | cons v path =>
    obtain rfl : v = x := by simpa using hpath.head
    exact (moral_of_suffix hacyclic hy hpath hopen fun w hw => above_of_mem hpath hopen hw).1 hx

/-! ## The search in the moral graph -/

section Search

variable [DecidableEq α]

theorem edge_moral : g.moral.Edge a b ↔
    g.Adjacent a b ∨ a ≠ b ∧ ∃ c, g.Edge a c ∧ g.Edge b c := by
  simp only [moral, Edge, List.mem_append]
  refine or_congr (or_congr .rfl edge_reversed) ?_
  simp only [List.mem_flatMap, List.mem_filterMap, mem_predecessors, Prod.exists]
  constructor
  · rintro ⟨x, c, hxc, y, hyc, heq⟩
    split at heq
    · cases heq
    · cases heq
      exact ⟨‹_›, c, hxc, hyc⟩
  · rintro ⟨hne, c, hac, hbc⟩
    exact ⟨a, c, hac, b, hbc, if_neg hne⟩

/-- The search decides whether all paths between two vertices are blocked. -/
theorem separates_iff (hacyclic : g.Acyclic) (hx : x ∉ given) (hy : y ∉ given) :
    g.separates x y given = true ↔ ∀ path, g.IsPath x y path → g.Blocked given path := by
  have hancestral : ∀ v, (g.reversed.reachable (x :: y :: given).eraseDups).contains v = true ↔
      g.Above (x :: y :: given) v := by
    intro v
    simp only [List.contains_iff_mem, mem_reachable, List.mem_eraseDups, leads_reversed, Above]
  have hsteps : ((g.restrict (g.reversed.reachable (x :: y :: given).eraseDups).contains).moral
      |>.restrict fun v => !given.contains v).Edge = g.MoralStep given x y := by
    funext a b
    simp only [edge_restrict, edge_moral, Adjacent, hancestral, MoralStep, Moral, eq_iff_iff,
      Bool.not_eq_true', ← Bool.not_eq_true, List.contains_iff_mem]
    grind
  have hreaches : g.separates x y given = true ↔
      ¬ Relation.ReflTransGen (g.MoralStep given x y) x y := by
    simp only [separates, Bool.not_eq_true', ← Bool.not_eq_true, reaches_iff, Leads, hsteps]
  rw [hreaches]
  constructor
  · intro hmoral path hpath
    by_cases hblocked : g.Blocked given path
    · exact hblocked
    · exact absurd (moral_of_path hacyclic hx hy hpath hblocked) hmoral
  · intro hall hmoral
    have hback : Relation.ReflTransGen (g.MoralStep given y x) y x :=
      Relation.ReflTransGen.mono (fun _ _ h => MoralStep.turn h) _ _ hmoral.swap
    obtain ⟨path, hpath, hblocked⟩ := exists_path_of_moral hacyclic hy hback
    exact hblocked (hall path hpath)

end Search

end PlateModel.Digraph
