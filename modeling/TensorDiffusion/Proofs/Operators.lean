import TensorDiffusion.Operator.Factorized
import TensorDiffusion.Proofs.DenseElements
import TensorDiffusion.Proofs.Diagonal

/-!
# Operators, applied

A sum-factorized operator adds `Bᵀ D B x` to its output, and so does the operator of the dense
element matrices of the same tables and operator data; with the diagonals it is the same
(`Factorized.addMult_ok`, `Dense.addMult_ok`, `Factorized.addDiagonal_ok`, `Dense.addDiagonal_ok`).
Only the sum-factorized one writes to the journal.
-/

namespace TensorDiffusion

theorem checkVector_ok {name : String} {len expected : Nat} (h : len = expected) :
    checkVector name len expected = .ok () :=
  insist_eq_ok.2 h

theorem Shape.vdim_pos (shape : Shape) : 0 < shape.vdim :=
  shape.hasKernel.dim_pos.2

theorem Shape.dim_two_le (shape : Shape) : 2 ≤ shape.dim := by
  rcases shape.dim_cases with ⟨h, -⟩ | ⟨h, -⟩ | ⟨h, -⟩ <;> omega

/-- An element with two nodes per axis has more nodes than axes and components. -/
theorem Shape.components_le {shape : Shape} (hd : 2 ≤ shape.d1d) :
    shape.dim ≤ shape.d1d ^ shape.dim ∧ shape.vdim ≤ shape.d1d ^ shape.dim ∧
      3 ≤ shape.d1d ^ shape.dim := by
  have hfour : 2 * 2 ≤ shape.d1d ^ shape.dim :=
    Nat.le_trans (Nat.mul_le_mul hd hd) (square_le_pow shape.d1d_pos shape.dim_two_le)
  rcases shape.dim_cases with ⟨hdim, hv⟩ | ⟨hdim, hv⟩ | ⟨hdim, hv⟩ <;> omega

/-- The length of a vector is found. -/
theorem Shape.vectorLen_ok {shape : Shape} {ne : Nat}
    (hfits : shape.d1d ^ shape.dim * shape.vdim * max 1 ne < Size.bufferBound) :
    shape.vectorLen ne = .ok (shape.d1d ^ shape.dim * shape.vdim * ne) := by
  have hone : shape.d1d ^ shape.dim * shape.vdim < Size.bufferBound :=
    Nat.lt_of_le_of_lt (Nat.le_mul_of_pos_right _ (by omega)) hfits
  have hnodes : shape.numNodes = .ok (shape.d1d ^ shape.dim) :=
    Size.pow_ok (Nat.lt_of_le_of_lt (Nat.le_mul_of_pos_right _ shape.vdim_pos) hone)
  have hpos : ∀ n ∈ [shape.d1d ^ shape.dim, shape.vdim], 0 < n := by
    simp [Nat.pow_pos shape.d1d_pos, shape.vdim_pos]
  rw [vectorLen, hnodes, ok_bind]
  exact Size.product_elements hpos (by simp [volume]) rfl hfits

/-- Vectors of the length of a shape are accepted. -/
theorem Shape.checkVectors_ok {shape : Shape} {ne xLen yLen : Nat}
    (hfits : shape.d1d ^ shape.dim * shape.vdim * max 1 ne < Size.bufferBound)
    (hy : yLen = shape.d1d ^ shape.dim * shape.vdim * ne) (hx : xLen = yLen) :
    (do
      let len ← shape.vectorLen ne
      checkVector "x" xLen len
      checkVector "y" yLen len) = .ok () := by
  rw [vectorLen_ok hfits, ok_bind, checkVector_ok (hx.trans hy), ok_bind, checkVector_ok hy]

/-- A diagonal of the length of a shape is accepted. -/
theorem Shape.checkDiagonal_ok {shape : Shape} {ne len : Nat}
    (hfits : shape.d1d ^ shape.dim * shape.vdim * max 1 ne < Size.bufferBound)
    (hlen : len = shape.d1d ^ shape.dim * shape.vdim * ne) :
    (do checkVector "diagonal" len (← shape.vectorLen ne)) = .ok () := by
  rw [vectorLen_ok hfits, ok_bind, checkVector_ok hlen]

variable {K : Type} [CommRing K] {shape : Shape} {ne : Nat} {config : Execution}
  {x y diag : Array K} {events : Array Event}

namespace Factorized

variable [Stored K] {operator : Factorized K} (ht : operator.tables.Paired)
  (hd : operator.tables.ndof = operator.shape.d1d) (hq : operator.tables.nqpt = operator.shape.q1d)

include hd hq

include ht in
/-- **The sum-factorized operator adds `Bᵀ D B x`.** -/
theorem addMult_ok (h : KernelSizes K operator.shape.dim operator.shape.vdim operator.shape.d1d
    operator.shape.q1d operator.ne operator.execution.limits operator.op.size y.size)
    (hx : x.size = y.size) :
    (operator.addMult x).run ⟨y, events⟩ =
      .ok () ⟨addStiffness operator.shape.dim operator.shape.vdim operator.shape.d1d
          operator.shape.q1d operator.tables.b operator.tables.g operator.op x y,
        events.push (.applied operator.shape operator.shape.variant)⟩ := by
  have hcheck := Shape.checkVectors_ok h.vectorFits.lt h.len hx
  rw [addMult, run_bind_ok (run_get _), run_bind_ok (run_ofExcept hcheck _)]
  exact Action.select_ok ht hd hq h hx

/-- **The sum-factorized operator adds its diagonal.** -/
theorem addDiagonal_ok (hs : operator.tables.Sized)
    (h : KernelSizes K operator.shape.dim operator.shape.vdim operator.shape.d1d
      operator.shape.q1d operator.ne operator.execution.limits operator.op.size diag.size)
    (hroom : operator.shape.dim = 2 →
      Stored.bytes K * (3 * operator.shape.q1d * operator.shape.d1d) < Size.bufferBound) :
    operator.addDiagonal.run ⟨diag, events⟩ =
      .ok () ⟨TensorDiffusion.addDiagonal operator.shape.dim operator.shape.vdim operator.shape.d1d
          operator.shape.q1d operator.tables.b operator.tables.g operator.op diag,
        events.push (.diagonal operator.shape operator.shape.variant)⟩ := by
  have hcheck := Shape.checkDiagonal_ok h.vectorFits.lt h.len
  rw [Factorized.addDiagonal, run_bind_ok (run_get _), run_bind_ok (run_ofExcept hcheck _)]
  exact Diagonal.select_ok hs hd hq h hroom

end Factorized

namespace Dense

variable {b g op : Array K}

/-- **The operator of dense matrices adds `Bᵀ D B x`.** -/
theorem addMult_ok
    (hmatrix : shape.d1d ^ shape.dim * shape.d1d ^ shape.dim * max 1 ne < Size.bufferBound)
    (hfits : shape.d1d ^ shape.dim * shape.vdim * max 1 ne < Size.bufferBound)
    (hy : y.size = shape.d1d ^ shape.dim * shape.vdim * ne) (hx : x.size = y.size) :
    ((ofForms shape ne config b g op).addMult x).run ⟨y, events⟩ =
      .ok () ⟨addStiffness shape.dim shape.vdim shape.d1d shape.q1d b g op x y, events⟩ := by
  have hcheck := Shape.checkVectors_ok hfits hy hx
  have hchunk : 0 < shape.d1d ^ shape.dim * shape.vdim :=
    Nat.mul_pos (Nat.pow_pos shape.d1d_pos) shape.vdim_pos
  rw [addMult, run_bind_ok (run_get _)]
  refine (run_bind_ok (run_ofExcept (numNodes_ok hmatrix) _)).trans ?_
  refine (run_bind_ok (run_ofExcept hcheck _)).trans (Run.run_onValue ?_)
  refine (forElements_eq (applyElement_acts hmatrix (hx.trans hy)) hchunk rfl trivial
    (by rw [hy, Nat.mul_comm])).trans ?_
  refine congrArg (EStateM.Result.ok () <| y.mapIdx ·) (funext fun n => funext fun v => ?_)
  rw [Nat.mod_mul_right_div_self, Nat.mod_mul_right_mod]

/-- **The operator of dense matrices adds its diagonal.** -/
theorem addDiagonal_ok
    (hmatrix : shape.d1d ^ shape.dim * shape.d1d ^ shape.dim * max 1 ne < Size.bufferBound)
    (hfits : shape.d1d ^ shape.dim * shape.vdim * max 1 ne < Size.bufferBound)
    (hdiag : diag.size = shape.d1d ^ shape.dim * shape.vdim * ne) :
    (ofForms shape ne config b g op).addDiagonal.run ⟨diag, events⟩ =
      .ok () ⟨TensorDiffusion.addDiagonal shape.dim shape.vdim shape.d1d shape.q1d b g op diag,
        events⟩ := by
  have hcheck := Shape.checkDiagonal_ok hfits hdiag
  have hchunk : 0 < shape.d1d ^ shape.dim * shape.vdim :=
    Nat.mul_pos (Nat.pow_pos shape.d1d_pos) shape.vdim_pos
  rw [Dense.addDiagonal, run_bind_ok (run_get _)]
  refine (run_bind_ok (run_ofExcept (numNodes_ok hmatrix) _)).trans ?_
  refine (run_bind_ok (run_ofExcept hcheck _)).trans (Run.run_onValue ?_)
  refine (forElements_eq (diagonalElement_acts hmatrix) hchunk rfl trivial
    (by rw [hdiag, Nat.mul_comm])).trans ?_
  refine congrArg (EStateM.Result.ok () <| diag.mapIdx ·) (funext fun n => funext fun v => ?_)
  rw [Nat.mod_mul_right_mod, diagonalEntry_mod]

end Dense

end TensorDiffusion
