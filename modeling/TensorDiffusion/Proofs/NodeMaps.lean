import Mathlib.Data.List.ProdSigma
import TensorDiffusion.Proofs.Factors

/-!
# Maps of nodes

Nodes are moved one after the other, in place.  A node that is moved leaves the others where they
are (`Space.point_place_of_ne`), and no node is visited twice, so each is handed its own coordinates
as they were at first: the nodes become what the calls on their coordinates return
(`Space.transformNodes_calls`).  Nothing else of a space changes, and spaces whose nodes are the same
points are the same (`Space.nodes_ext`).  So maps of points compose, and what a map has done can be
undone where the map can (`Space.transformNodes_faithful`).
-/

namespace TensorDiffusion

variable {α : Type}

/-! ### Entries written one by one -/

section

variable [Zero α] {k : Nat} {pos : Fin k → Nat} {v : Fin k → α} {nodes : Array α}

theorem getD_foldl_setIfInBounds_of_ne {p : Nat} (h : ∀ i, pos i ≠ p) :
    (Fin.foldl k (fun nodes i => nodes.setIfInBounds (pos i) (v i)) nodes).getD p 0 =
      nodes.getD p 0 := by
  induction k with
  | zero => rw [Fin.foldl_zero]
  | succ k ih =>
    rw [Fin.foldl_succ_last, Array.getD_eq_getD_getElem?, Array.getElem?_setIfInBounds_ne (h _),
      ← Array.getD_eq_getD_getElem?]
    exact ih fun i => h i.castSucc

/-- Entries that are written at different places stand where they were written. -/
theorem getD_foldl_setIfInBounds (hpos : Function.Injective pos) (i : Fin k)
    (hi : pos i < nodes.size) :
    (Fin.foldl k (fun nodes i => nodes.setIfInBounds (pos i) (v i)) nodes).getD (pos i) 0 = v i := by
  induction k with
  | zero => exact i.elim0
  | succ k ih =>
    have hsize := Space.size_foldl_setIfInBounds (fun i : Fin k => pos i.castSucc)
      (fun i => v i.castSucc) nodes
    rw [Fin.foldl_succ_last, Array.getD_eq_getD_getElem?]
    refine Fin.lastCases ?_ (fun i hi => ?_) i hi
    · intro hi
      rw [Array.getElem?_setIfInBounds_self_of_lt (hsize ▸ hi), Option.getD_some]
    · have hne : pos (Fin.last k) ≠ pos i.castSucc := fun h => (Fin.castSucc_lt_last i).ne' (hpos h)
      rw [Array.getElem?_setIfInBounds_ne hne, ← Array.getD_eq_getD_getElem?]
      exact ih (hpos.comp (Fin.castSucc_injective k)) i hi

end

namespace Space

/-! ### Places of nodes -/

variable {space : Space α} {e n i e' n' i' : Nat}

theorem position_eq (space : Space α) (e n i : Nat) :
    space.position e n i = n + space.nodesPerElement * (i + space.sdim * e) := by
  rw [position]
  ring

theorem position_lt (he : e < space.numElements) (hn : n < space.nodesPerElement)
    (hi : i < space.sdim) : space.position e n i < space.nodes.size := by
  rw [position_eq, space.nodes_size, Nat.mul_comm space.numElements]
  exact nodal_lt he hi hn

/-- Different coordinates stand at different places. -/
theorem position_inj (hn : n < space.nodesPerElement) (hn' : n' < space.nodesPerElement)
    (hi : i < space.sdim) (hi' : i' < space.sdim)
    (h : space.position e n i = space.position e' n' i') : e = e' ∧ n = n' ∧ i = i' := by
  rw [position_eq, position_eq] at h
  obtain ⟨hnode, hcoordinate, helement⟩ := triple_positions e hn hi
  obtain ⟨hnode', hcoordinate', helement'⟩ := triple_positions e' hn' hi'
  rw [h] at hnode hcoordinate helement
  exact ⟨helement.symm.trans helement', hnode.symm.trans hnode', hcoordinate.symm.trans hcoordinate'⟩

variable [Zero α] {nodes : Array α}

/-- The coordinates of a point are nodal values. -/
theorem getElem_point (space : Space α) (nodes : Array α) (e n : Nat) (hi : i < space.sdim) :
    (space.point nodes e n)[i] = nodal space.nodesPerElement space.sdim nodes e i n := by
  rw [point, Vector.getElem_ofFn, position_eq]
  rfl

/-- A node that is moved is found where it was put. -/
theorem point_place (hsize : nodes.size = space.nodes.size) (he : e < space.numElements)
    (hn : n < space.nodesPerElement) (x : Vector α space.sdim) :
    space.point (space.place nodes e n x) e n = x := by
  refine Vector.ext fun i hi => ?_
  have hpos : Function.Injective fun i : Fin space.sdim => space.position e n i :=
    fun i i' h => Fin.ext (position_inj hn hn i.isLt i'.isLt h).2.2
  rw [point, Vector.getElem_ofFn]
  exact getD_foldl_setIfInBounds hpos ⟨i, hi⟩ (hsize ▸ position_lt he hn hi)

/-- **A node that is moved leaves the others** where they are. -/
theorem point_place_of_ne (hn : n < space.nodesPerElement) (hn' : n' < space.nodesPerElement)
    (hne : (e', n') ≠ (e, n)) (x : Vector α space.sdim) :
    space.point (space.place nodes e n x) e' n' = space.point nodes e' n' := by
  refine Vector.ext fun i hi => ?_
  rw [point, point, Vector.getElem_ofFn, Vector.getElem_ofFn]
  refine getD_foldl_setIfInBounds_of_ne fun i' h => hne ?_
  obtain ⟨he, hn, -⟩ := position_inj hn hn' i'.isLt hi h
  rw [he, hn]

/-! ### Visits -/

/-- The space with its nodes elsewhere. -/
def withNodes (space : Space α) (nodes : Array α) (h : nodes.size = space.nodes.size) : Space α :=
  { space with nodes, nodes_size := h.trans space.nodes_size }

variable {σ : Type} (f : σ → Vector α space.sdim → σ × Vector α space.sdim)

/-- A node is handed to `f`, with the state that the node before left, and put where `f` says. -/
def visit (space : Space α) (f : σ → Vector α space.sdim → σ × Vector α space.sdim)
    (acc : σ × { nodes : Array α // nodes.size = space.nodes.size }) (node : Nat × Nat) :
    σ × { nodes : Array α // nodes.size = space.nodes.size } :=
  let (state, x) := f acc.1 (space.point acc.2.1 node.1 node.2)
  (state, ⟨space.place acc.2.1 node.1 node.2 x, by rw [size_place, acc.2.2]⟩)

/-- All nodes, element by element. -/
def allNodes (space : Space α) : List (Nat × Nat) :=
  List.range space.numElements ×ˢ List.range space.nodesPerElement

omit [Zero α] in
/-- Nodes are visited in this order. -/
theorem foldl_allNodes {β : Type} (step : β → Nat × Nat → β) (init : β) :
    space.allNodes.foldl step init = (List.range space.numElements).foldl (fun acc e =>
      (List.range space.nodesPerElement).foldl (fun acc n => step acc (e, n)) acc) init := by
  show ((List.range _).flatMap fun e => (List.range _).map (Prod.mk e)).foldl step init = _
  simp only [List.foldl_flatMap, List.foldl_map]

theorem transformNodes_eq (state : σ) :
    space.transformNodes f state =
      let last := space.allNodes.foldl (space.visit f) (state, ⟨space.nodes, rfl⟩)
      (last.1, space.withNodes last.2.1 last.2.2) := by
  simp only [foldl_allNodes]
  rfl

omit [Zero α] in
theorem nodup_allNodes : space.allNodes.Nodup :=
  List.nodup_range.product List.nodup_range

omit [Zero α] in
theorem mem_allNodes : (e, n) ∈ space.allNodes ↔
    e < space.numElements ∧ n < space.nodesPerElement :=
  List.pair_mem_product.trans (and_congr List.mem_range List.mem_range)

/-- The coordinates of some nodes. -/
def pointsAt (space : Space α) (nodes : Array α) (visits : List (Nat × Nat)) :
    List (Vector α space.sdim) :=
  visits.map fun node => space.point nodes node.1 node.2

/-- The coordinates of all nodes, element by element. -/
def points (space : Space α) (nodes : Array α) : List (Vector α space.sdim) :=
  space.pointsAt nodes space.allNodes

/-- Spaces of one kind with the same points have the same nodes: every coordinate belongs to one. -/
theorem nodes_ext {nodes' : Array α} (hsize : nodes.size = space.nodes.size)
    (hsize' : nodes'.size = space.nodes.size) (h : space.points nodes = space.points nodes') :
    nodes = nodes' := by
  have hcount : space.nodes.size = space.nodesPerElement * space.sdim * space.numElements :=
    space.nodes_size.trans (Nat.mul_comm _ _)
  refine nodal_ext (hsize.trans hcount) (hsize'.trans hcount) fun e i n he hi hn => ?_
  rw [← getElem_point space nodes e n hi, ← getElem_point space nodes' e n hi]
  exact congrArg (·[i]) (List.map_inj_left.1 h (e, n) (mem_allNodes.2 ⟨he, hn⟩))

end Space

/-! ### Calls -/

section

variable {σ β : Type}

/-- Calls `f` on the entries of a list, one after the other.  Each call is handed the state that the
one before left. -/
def callAll (f : σ → β → σ × β) : σ → List β → σ × List β
  | state, []      => (state, [])
  | state, x :: xs =>
    let (state, y) := f state x
    let (state, ys) := callAll f state xs
    (state, y :: ys)

/-- Calls whose results do not depend on the state. -/
theorem callAll_of_pure {f : σ → β → σ × β} {g : β → β} (hf : ∀ state x, (f state x).2 = g x)
    (state : σ) (xs : List β) : (callAll f state xs).2 = xs.map g := by
  induction xs generalizing state with
  | nil => rfl
  | cons x xs ih => rw [callAll, List.map_cons, ← hf state x, ← ih (f state x).1]

end

namespace Space

variable [Zero α] {space : Space α} {e n : Nat} {σ : Type}
  {f : σ → Vector α space.sdim → σ × Vector α space.sdim}

/-- Visits to different nodes are calls on the points that they had at first, and leave the other
nodes where they are. -/
theorem foldl_visit {visits : List (Nat × Nat)} (hnodup : visits.Nodup)
    (hvisits : ∀ node ∈ visits, node ∈ space.allNodes)
    (acc : σ × { nodes : Array α // nodes.size = space.nodes.size }) :
    let calls := callAll f acc.1 (space.pointsAt acc.2.1 visits)
    let last := visits.foldl (space.visit f) acc
    last.1 = calls.1 ∧ space.pointsAt last.2.1 visits = calls.2 ∧
      ∀ e n, (e, n) ∈ space.allNodes → (e, n) ∉ visits →
        space.point last.2.1 e n = space.point acc.2.1 e n := by
  induction visits generalizing acc with
  | nil => exact ⟨rfl, rfl, fun _ _ _ _ => rfl⟩
  | cons first visits ih =>
    obtain ⟨hfirst, hrest⟩ := List.nodup_cons.1 hnodup
    obtain ⟨hmem, hmems⟩ := List.forall_mem_cons.1 hvisits
    obtain ⟨he, hn⟩ := mem_allNodes.1 hmem
    have hself : space.point (space.visit f acc first).2.1 first.1 first.2 =
        (f acc.1 (space.point acc.2.1 first.1 first.2)).2 := point_place acc.2.2 he hn _
    have hother : ∀ node ∈ space.allNodes, node ≠ first →
        space.point (space.visit f acc first).2.1 node.1 node.2 =
          space.point acc.2.1 node.1 node.2 :=
      fun node hat hne => point_place_of_ne hn (mem_allNodes.1 hat).2 hne _
    -- The later visits find their nodes as they were before the first.
    have hlater : space.pointsAt (space.visit f acc first).2.1 visits =
        space.pointsAt acc.2.1 visits :=
      List.map_congr_left fun node hnode =>
        hother node (hmems node hnode) fun h => hfirst (h ▸ hnode)
    obtain ⟨hstate, hpoints, hkept⟩ := ih hrest hmems (space.visit f acc first)
    rw [hlater] at hstate hpoints
    refine ⟨hstate, ?_, fun e n hat hnot => ?_⟩
    · exact congrArg₂ List.cons ((hkept _ _ hmem hfirst).trans hself) hpoints
    · obtain ⟨hne, hnot⟩ := List.ne_and_not_mem_of_not_mem_cons hnot
      exact (hkept e n hat hnot).trans (hother (e, n) hat hne)

/-- **Every node is handed to `f` once**, element by element and with the coordinates that it had at
first, and becomes what the call returns.  Nothing else of the space changes. -/
theorem transformNodes_calls (f : σ → Vector α space.sdim → σ × Vector α space.sdim) (state : σ) :
    ∃ nodes, ∃ h : nodes.size = space.nodes.size,
      space.transformNodes f state =
        ((callAll f state (space.points space.nodes)).1, space.withNodes nodes h) ∧
      space.points nodes = (callAll f state (space.points space.nodes)).2 := by
  obtain ⟨hstate, hpoints, -⟩ := foldl_visit (f := f) nodup_allNodes (fun _ h => h)
    (state, ⟨space.nodes, rfl⟩)
  refine ⟨_, (space.allNodes.foldl (space.visit f) (state, ⟨space.nodes, rfl⟩)).2.2, ?_, hpoints⟩
  rw [transformNodes_eq]
  exact Prod.ext hstate rfl

variable {g g' : Vector α space.sdim → Vector α space.sdim}

/-- A map of points moves every point to its image. -/
theorem mapNodes_points (g : Vector α space.sdim → Vector α space.sdim) :
    ∃ nodes, ∃ h : nodes.size = space.nodes.size, space.mapNodes g = space.withNodes nodes h ∧
      space.points nodes = (space.points space.nodes).map g := by
  obtain ⟨nodes, h, hrun, hpoints⟩ := transformNodes_calls (fun _ x => ((), g x)) ()
  refine ⟨nodes, h, ?_, ?_⟩
  · rw [mapNodes, hrun]
  · rw [hpoints]
    exact callAll_of_pure (f := fun _ x => ((), g x)) (fun _ _ => rfl) () _

/-- A map of points moves every node to its image. -/
theorem mapNodes_moves (g : Vector α space.sdim → Vector α space.sdim) :
    ∃ nodes, ∃ h : nodes.size = space.nodes.size, space.mapNodes g = space.withNodes nodes h ∧
      ∀ e n, e < space.numElements → n < space.nodesPerElement →
        space.point nodes e n = g (space.point space.nodes e n) := by
  obtain ⟨nodes, h, hspace, hpoints⟩ := space.mapNodes_points g
  refine ⟨nodes, h, hspace, fun e n he hn => ?_⟩
  rw [points, points, pointsAt, pointsAt, List.map_map] at hpoints
  exact List.map_inj_left.1 hpoints (e, n) (mem_allNodes.2 ⟨he, hn⟩)

/-- **Maps of points compose.** -/
theorem mapNodes_mapNodes (g g' : Vector α space.sdim → Vector α space.sdim) :
    (space.mapNodes g).mapNodes g' = space.mapNodes (g' ∘ g) := by
  obtain ⟨first, hfirst, hmoved, hpoints⟩ := space.mapNodes_points g
  obtain ⟨second, hsecond, hagain, hpoints'⟩ := (space.mapNodes g).mapNodes_points g'
  obtain ⟨both, hboth, htogether, hpoints''⟩ := space.mapNodes_points (g' ∘ g)
  have hnodes : (space.mapNodes g).nodes = first := congrArg Space.nodes hmoved
  rw [hnodes] at hsecond hpoints'
  have hsame : second = both := by
    refine nodes_ext (hsecond.trans hfirst) hboth ?_
    rw [hpoints'', ← List.map_map, ← hpoints]
    exact hpoints'
  subst hsame
  exact hagain.trans htogether.symm

/-- The identity moves nothing. -/
theorem mapNodes_id : space.mapNodes id = space := by
  obtain ⟨nodes, h, hspace, hpoints⟩ := space.mapNodes_points id
  rw [List.map_id] at hpoints
  obtain rfl : nodes = space.nodes := nodes_ext h rfl hpoints
  exact hspace

/-- **Nodes are moved faithfully.**  `f` is called once on every node, element by element, with the
coordinates of the node as they were at first, and the node ends up where the call says; the
dimensions, the order and the numbers of elements and of coordinates are kept.  Maps of points
compose, the identity moves nothing, and a map that can be undone is undone. -/
theorem transformNodes_faithful (space : Space α) :
    (∀ {σ : Type} (f : σ → Vector α space.sdim → σ × Vector α space.sdim) (state : σ),
      let moved := (space.transformNodes f state).2
      let calls := callAll f state (space.points space.nodes)
      (space.transformNodes f state).1 = calls.1 ∧ space.points moved.nodes = calls.2 ∧
        moved.dim = space.dim ∧ moved.sdim = space.sdim ∧ moved.order = space.order ∧
        moved.numElements = space.numElements ∧
        moved.nodesPerElement = space.nodesPerElement ∧ moved.nodes.size = space.nodes.size) ∧
    (∀ g g' : Vector α space.sdim → Vector α space.sdim,
      (space.mapNodes g).mapNodes g' = space.mapNodes (g' ∘ g)) ∧
    space.mapNodes id = space ∧
    ∀ g g' : Vector α space.sdim → Vector α space.sdim, Function.LeftInverse g' g →
      (space.mapNodes g).mapNodes g' = space := by
  refine ⟨fun f state => ?_, mapNodes_mapNodes, mapNodes_id, fun g g' hinverse => ?_⟩
  · obtain ⟨nodes, h, hrun, hpoints⟩ := space.transformNodes_calls f state
    refine ⟨congrArg Prod.fst hrun, ?_, rfl, rfl, rfl, rfl, rfl, ?_⟩
    · rw [hrun]
      exact hpoints
    · rw [hrun]
      exact h
  · rw [mapNodes_mapNodes, hinverse.id, mapNodes_id]

/-- Two segments in the plane. -/
def twoSegments : Space Int where
  dim := 1
  sdim := 2
  order := 1
  numElements := 2
  nodes := #[0, 1, 5, 6, 1, 2, 6, 8]
  one_le_dim := Nat.one_pos
  dim_le_sdim := by decide
  sdim_le := by decide
  one_le_order := Nat.one_pos
  element_lt := by decide
  nodes_size := by decide

/-- Four calls, and a shear that is undone. -/
theorem transformNodes_faithful_shear :
    let shear (x : Vector Int 2) : Vector Int 2 := #v[x.get 0 + 3 * x.get 1, x.get 1]
    let unshear (x : Vector Int 2) : Vector Int 2 := #v[x.get 0 - 3 * x.get 1, x.get 1]
    let record (seen : List (Vector Int 2)) (x : Vector Int 2) := (seen ++ [x], shear x)
    (twoSegments.transformNodes record []).1 = [#v[0, 5], #v[1, 6], #v[1, 6], #v[2, 8]] ∧
      (twoSegments.mapNodes shear).mapNodes unshear = twoSegments := by
  intro shear unshear record
  obtain ⟨hcalls, -, -, hinverse⟩ := transformNodes_faithful twoSegments
  refine ⟨(hcalls record []).1.trans (by decide), hinverse shear unshear fun x => ?_⟩
  refine Vector.ext fun i hi => ?_
  match i, hi with
  | 0, _ => exact add_sub_cancel_right _ _
  | 1, _ => rfl

end Space

end TensorDiffusion
