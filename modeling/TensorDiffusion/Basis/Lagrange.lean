import TensorDiffusion.Quadrature.Interval

/-!
# Lagrange bases

The nodal basis of polynomials on distinct nodes.  Basis function `j` is one at node `j` and zero
at the others; it is evaluated as its barycentric weight times the product of the distances to the
other nodes, so its value and derivative at a node need no division.
-/

namespace TensorDiffusion

/-- The Lagrange basis on a list of nodes. -/
structure LagrangeBasis (α : Type) where
  nodes : List α
  /-- The reciprocal of the product of the distances from each node to the others. -/
  weights : List α

namespace LagrangeBasis

variable {α : Type} [Zero α] [One α] [Add α] [Sub α] [Mul α] [Div α]

/-- The number of basis functions. -/
def numNodes (basis : LagrangeBasis α) : Nat :=
  basis.nodes.length

/-- The polynomial degree. -/
def order (basis : LagrangeBasis α) : Nat :=
  basis.nodes.length - 1

/-- The product of the distances from node `j`, at `xj`, to the others, which must not be at the
same place. -/
def distances [BEq α] (nodes : List α) (j : Nat) (xj : α) : Except Fault α :=
  nodes.zipIdx.foldlM (fun product (xm, m) =>
    if m = j then return product
    else do
      require ((xj == xm) = false) .repeatedNode
      return product * (xj - xm)) 1

/-- The basis on the given nodes, which must be distinct and at least one. -/
def ofNodes [BEq α] (nodes : List α) : Except Fault (LagrangeBasis α) := do
  require (nodes ≠ []) .noNodes
  let weights ← nodes.zipIdx.mapM fun (xj, j) => do return 1 / (← distances nodes j xj)
  return ⟨nodes, weights⟩

/-- The basis of the given order on Gauss-Lobatto nodes. -/
def gaussLobatto [BEq α] [OfDouble α] (order : Nat) : Except Fault (LagrangeBasis α) := do
  require (1 ≤ order) .basisOrderZero
  let rule ← Rule.lobatto RootSearch.double (← Size.add order 1)
  ofNodes (rule.abscissas.map OfDouble.ofDouble)

/-- The product of `x - x_m` over the nodes other than node `j`, with its derivative. -/
def factors (nodes : List α) (j : Nat) (x : α) : α × α :=
  nodes.zipIdx.foldl (fun (p, dp) (xm, m) =>
    if m = j then (p, dp) else (p * (x - xm), dp * (x - xm) + p)) (1, 0)

/-- The value and the derivative of every basis function at `x`. -/
def evaluate (basis : LagrangeBasis α) (x : α) : List (α × α) :=
  basis.weights.zipIdx.map fun (w, j) =>
    let (p, dp) := factors basis.nodes j x
    (w * p, w * dp)

/-- Replaces a buffer of values and one of derivatives, each with one entry per node. -/
def evaluateInto (basis : LagrangeBasis α) (x : α) (values derivatives : Array α) :
    Except Fault (Array α × Array α) := do
  require (values.size = basis.numNodes) .evaluationBuffer
  require (derivatives.size = basis.numNodes) .evaluationBuffer
  let results := basis.evaluate x
  return ((results.map (·.1)).toArray, (results.map (·.2)).toArray)

end LagrangeBasis

end TensorDiffusion
