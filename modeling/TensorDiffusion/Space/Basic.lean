import TensorDiffusion.Basis.Lagrange
import TensorDiffusion.Size

/-!
# Element spaces

A collection of tensor-product Lagrange elements of one order, as the operators see a mesh: the
dimensions, the order, and the coordinates of the nodes of every element in the layout
`(D1D^dim, SDIM, NE)`.  The nodes of an element are ordered with the x index fastest.  Elements
are not connected; vectors are element by element, too.
-/

namespace TensorDiffusion

/-- Tensor-product elements of reference dimension `dim` in space of dimension `sdim`. -/
structure Space (α : Type) where
  dim : Nat
  sdim : Nat
  order : Nat
  numElements : Nat
  /-- The node coordinates, with layout `(D1D^dim, SDIM, NE)`. -/
  nodes : Array α
  one_le_dim : 1 ≤ dim
  dim_le_sdim : dim ≤ sdim
  sdim_le : sdim ≤ 3
  one_le_order : 1 ≤ order
  element_lt : Nat.pow (order + 1) dim * sdim < Size.bound
  nodes_size : nodes.size = numElements * (Nat.pow (order + 1) dim * sdim)

namespace Space

variable {α : Type}

/-- The number of coordinates of an element. -/
def elementSize (dim sdim order : Nat) : Except Fault Nat := do
  Size.mul (← Size.pow (← Size.add order 1) dim) sdim

theorem elementSize_eq_ok {dim sdim order n : Nat} (h : elementSize dim sdim order = .ok n) :
    Nat.pow (order + 1) dim * sdim < Size.bound ∧ n = Nat.pow (order + 1) dim * sdim := by
  unfold elementSize Size.add Size.pow Size.mul at h
  cases h₁ : Size.fit (order + 1) .addOverflow with
  | error _ => simp only [h₁, bind, Except.bind, reduceCtorEq] at h
  | ok d =>
    obtain ⟨-, rfl⟩ := Size.fit_eq_ok.1 h₁
    cases h₂ : Size.fit (Nat.pow (order + 1) dim) .powOverflow with
    | error _ => simp only [h₁, h₂, bind, Except.bind, reduceCtorEq] at h
    | ok k =>
      obtain ⟨-, rfl⟩ := Size.fit_eq_ok.1 h₂
      simp only [h₁, h₂, bind, Except.bind] at h
      have := Size.fit_eq_ok.1 h
      exact ⟨this.1, this.2.symm⟩

/-- The space of the elements with the given nodes. -/
def ofNodes (dim sdim order : Nat) (nodes : Array α) : Except Fault (Space α) :=
  if hd : 1 ≤ dim ∧ dim ≤ 3 then
    if hs : dim ≤ sdim ∧ sdim ≤ 3 then
      if ho : 1 ≤ order then
        match hn : elementSize dim sdim order with
        | .error fault => .error fault
        | .ok n =>
          if hr : nodes.size % n = 0 then
            .ok {
              dim, sdim, order, nodes
              numElements := nodes.size / n
              one_le_dim := hd.1
              dim_le_sdim := hs.1
              sdim_le := hs.2
              one_le_order := ho
              element_lt := (elementSize_eq_ok hn).1
              nodes_size := by
                rw [← (elementSize_eq_ok hn).2, Nat.div_mul_cancel (Nat.dvd_of_mod_eq_zero hr)] }
          else refuse (.partialElement nodes.size n)
      else refuse .orderZero
    else refuse (.spaceDimension dim sdim)
  else refuse (.referenceDimension dim)

/-- The number of components of a vector field on the space. -/
def vdim (space : Space α) : Nat :=
  space.sdim

/-- The number of nodes per axis. -/
def nodesPerAxis (space : Space α) : Nat :=
  space.order + 1

/-- The number of nodes of an element. -/
def nodesPerElement (space : Space α) : Nat :=
  Nat.pow space.nodesPerAxis space.dim

/-- The length of a vector with layout `(D1D^dim, VDIM, NE)`. -/
def vectorLen (space : Space α) : Nat :=
  space.nodesPerElement * space.vdim * space.numElements

/-- The basis on every axis of every element. -/
def basis [Zero α] [One α] [Add α] [Sub α] [Mul α] [Div α] [BEq α] [OfDouble α]
    (space : Space α) : Except Fault (LagrangeBasis α) :=
  LagrangeBasis.gaussLobatto space.order

/-- The position of coordinate `i` of node `n` of element `e`. -/
def position (space : Space α) (e n i : Nat) : Nat :=
  e * (space.nodesPerElement * space.sdim) + (n + space.nodesPerElement * i)

/-- The coordinates of node `n` of element `e`, read from an array of node coordinates. -/
def point [Zero α] (space : Space α) (nodes : Array α) (e n : Nat) : Vector α space.sdim :=
  Vector.ofFn fun i => nodes.getD (space.position e n i) 0

/-- Writes the coordinates of node `n` of element `e` into an array of node coordinates. -/
def place (space : Space α) (nodes : Array α) (e n : Nat) (x : Vector α space.sdim) : Array α :=
  Fin.foldl space.sdim (fun nodes i => nodes.setIfInBounds (space.position e n i) x[i]) nodes

theorem size_foldl_setIfInBounds {k : Nat} (pos : Fin k → Nat) (v : Fin k → α)
    (nodes : Array α) :
    (Fin.foldl k (fun nodes i => nodes.setIfInBounds (pos i) (v i)) nodes).size = nodes.size := by
  induction k with
  | zero => simp [Fin.foldl_zero]
  | succ k ih => rw [Fin.foldl_succ_last, Array.size_setIfInBounds, ih]

theorem size_place (space : Space α) (nodes : Array α) (e n : Nat) (x : Vector α space.sdim) :
    (space.place nodes e n x).size = nodes.size :=
  size_foldl_setIfInBounds _ _ nodes

/-- Moves every node by `f`, which is handed a state and the coordinates of one node.  Nodes are
visited once each, element by element, and see the state that the node before left. -/
def transformNodes [Zero α] {σ : Type} (space : Space α)
    (f : σ → Vector α space.sdim → σ × Vector α space.sdim) (state : σ) : σ × Space α :=
  let step (e : Nat) (acc : σ × { nodes : Array α // nodes.size = space.nodes.size }) (n : Nat) :
      σ × { nodes : Array α // nodes.size = space.nodes.size } :=
    let (state, x) := f acc.1 (space.point acc.2.1 e n)
    (state, ⟨space.place acc.2.1 e n x, by rw [size_place, acc.2.2]⟩)
  let (state, nodes) := (List.range space.numElements).foldl (fun acc e =>
    (List.range space.nodesPerElement).foldl (step e) acc) (state, ⟨space.nodes, rfl⟩)
  (state, { space with nodes := nodes.1, nodes_size := by rw [nodes.2, space.nodes_size] })

/-- Moves every node by a map of points. -/
def mapNodes [Zero α] (space : Space α) (f : Vector α space.sdim → Vector α space.sdim) :
    Space α :=
  (space.transformNodes (fun _ x => ((), f x)) ()).2

end Space

end TensorDiffusion
