import TensorDiffusion.Proofs.Decision
import TensorDiffusion.Proofs.Representation
import TensorDiffusion.Proofs.Reproduction

/-!
# Rules of the same exactness

On affine elements the matrix at a point is a weight times a matrix that all points share, and the
weight is a product over the axes.  So the entries of the matrix of an element are products over the
axes of weighted sums of polynomials of one variable, of degree `2 p` at most
(`Tables.Evaluates.matrixEntry_eq`), and rules with the same sums up to this degree give the same
operator (`operator_free_of_rule`), with whatever points and however many.
-/

open Polynomial

open scoped Matrix

namespace TensorDiffusion

/-! ### Weighted sums -/

namespace TensorRule

section

variable {K : Type} [CommSemiring K] {dim : Nat} {points1d weights1d : Array K}
  {rule : TensorRule K}

theorem weightAt_eq (hdim : 1 ≤ dim ∧ dim ≤ 3) {k : Nat} (hk : k < weights1d.size ^ dim) :
    weightAt dim weights1d k = .ok (∏ axis ∈ Finset.range dim,
      weights1d.getD (k / weights1d.size ^ axis % weights1d.size) 0) := by
  have hpos : 0 < weights1d.size := Nat.pos_of_ne_zero fun h0 => by
    rw [h0, Nat.zero_pow hdim.1] at hk
    exact Nat.not_lt_zero _ hk
  have hslot : ∀ k, slot weights1d (k % weights1d.size) =
      .ok (weights1d.getD (k % weights1d.size) 0) := fun k => slot_getD 0 (Nat.mod_lt k hpos)
  obtain rfl | rfl | rfl : dim = 1 ∨ dim = 2 ∨ dim = 3 := by omega
  · simp [weightAt, hslot]
  · simp [weightAt, hslot, Finset.prod_range_succ]
  · rw [pow_three'] at hk
    have hlast : k / (weights1d.size * weights1d.size) =
        k / (weights1d.size * weights1d.size) % weights1d.size :=
      (Nat.mod_eq_of_lt (div_lt_right hk)).symm
    rw [weightAt, hlast]
    simp [hslot, Finset.prod_range_succ, pow_two]

/-- **The weight of a tensor point** is the product of the weights on the axes. -/
theorem weight_eq_prod [Stored K] (h : ofInterval dim points1d weights1d = .ok rule) {q : Nat}
    (hq : q < rule.numPoints1d ^ rule.dim) :
    rule.weights.getD q 0 = ∏ axis ∈ Finset.range rule.dim,
      rule.weights1d.getD (q / rule.numPoints1d ^ axis % rule.numPoints1d) 0 := by
  obtain ⟨_, hdim, h⟩ := bind_eq_ok.1 h
  obtain ⟨_, hpaired, h⟩ := bind_eq_ok.1 h
  obtain ⟨count, hcount, h⟩ := bind_eq_ok.1 h
  obtain ⟨_, -, h⟩ := bind_eq_ok.1 h
  obtain ⟨weights, hweights, h⟩ := bind_eq_ok.1 h
  obtain rfl := Except.ok.inj h
  have hdim := require_eq_ok.1 hdim
  have hpaired : points1d.size = weights1d.size := require_eq_ok.1 hpaired
  obtain ⟨-, rfl⟩ := Size.pow_eq_ok.1 hcount
  obtain ⟨hsize, hslot⟩ := slot_of_tabulate hweights
  dsimp only [numPoints1d] at hq ⊢
  rw [hpaired] at hq ⊢
  have hweight := hslot q hq
  rw [slot_getD 0 (hsize ▸ hq), weightAt_eq hdim hq] at hweight
  exact Except.ok.inj hweight

end

variable {K : Type} [Field K]

/-- The weighted sum of a polynomial at the points of one axis. -/
def sum (rule : TensorRule K) (p : K[X]) : K :=
  ∑ q ∈ Finset.range rule.numPoints1d, rule.weights1d.getD q 0 * p.eval (rule.points1d.getD q 0)

/-- Rules with the same sums for all polynomials of degree `n` at most. -/
def AgreesTo (n : Nat) (rule rule' : TensorRule K) : Prop :=
  ∀ p : K[X], p.natDegree ≤ n → rule.sum p = rule'.sum p

theorem sum_eq_moments (rule : TensorRule K) {p : K[X]} {n : Nat} (h : p.natDegree ≤ n) :
    rule.sum p = ∑ k ∈ Finset.range (n + 1), p.coeff k * rule.sum (X ^ k) := by
  simp only [sum, eval_eq_sum_range' (Nat.lt_succ_of_le h), eval_pow, eval_X, Finset.mul_sum]
  rw [Finset.sum_comm]
  exact Finset.sum_congr rfl fun k _ => Finset.sum_congr rfl fun q _ => mul_left_comm _ _ _

/-- Rules agree where their moments do. -/
theorem agreesTo_of_moments {n : Nat} {rule rule' : TensorRule K}
    (h : ∀ k ≤ n, rule.sum (X ^ k) = rule'.sum (X ^ k)) : rule.AgreesTo n rule' := by
  intro p hp
  rw [sum_eq_moments rule hp, sum_eq_moments rule' hp]
  exact Finset.sum_congr rfl fun k hk => by rw [h k (Nat.le_of_lt_succ (Finset.mem_range.1 hk))]

end TensorRule

/-! ### Matrices of elements -/

section

variable {K : Type} [Field K]

/-- The factor of an axis in the product of two derivatives, of the functions of two nodes. -/
noncomputable def LagrangeBasis.integrand (nodes : List K) (k l axis d d' : Nat) : K[X] :=
  onAxis nodes k axis d * onAxis nodes l axis d'

theorem LagrangeBasis.natDegree_integrand_le [BEq K] [LawfulBEq K] {nodes : List K} {d d' : Nat}
    (h : Distinct nodes) (hd : d < nodes.length) (hd' : d' < nodes.length) (k l axis : Nat) :
    (integrand nodes k l axis d d').natDegree ≤ 2 * (nodes.length - 1) :=
  calc (integrand nodes k l axis d d').natDegree
      ≤ (onAxis nodes k axis d).natDegree + (onAxis nodes l axis d').natDegree := natDegree_mul_le
    _ ≤ (nodes.length - 1) + (nodes.length - 1) :=
        Nat.add_le_add (natDegree_onAxis_le h hd k axis) (natDegree_onAxis_le h hd' l axis)
    _ = 2 * (nodes.length - 1) := (Nat.two_mul _).symm

namespace Tables.Evaluates

open LagrangeBasis

variable {tables : Tables K} {nodes : List K} {x w : Nat → K} {dim q e : Nat} {op : Array K}
  {f : FinMatrix dim dim K} (h : tables.Evaluates nodes x) (hnqpt : 0 < tables.nqpt)
  (hndof : 0 < tables.ndof)

include h hnqpt hndof

/-- The share of a point in the matrix of an element. -/
theorem pointEntry_eq (hform : formMatrix dim (tables.nqpt ^ dim) op q e =
      (∏ axis ∈ Finset.range dim, w (q / tables.nqpt ^ axis % tables.nqpt)) • f) (i i' : Nat) :
    pointEntry dim tables.ndof tables.nqpt tables.b tables.g op e q i i' =
      ∑ k : Fin dim, ∑ l : Fin dim, f k l * ∏ axis ∈ Finset.range dim,
        w (q / tables.nqpt ^ axis % tables.nqpt) *
          (integrand nodes k l axis (i / tables.ndof ^ axis % tables.ndof)
            (i' / tables.ndof ^ axis % tables.ndof)).eval
              (x (q / tables.nqpt ^ axis % tables.nqpt)) := by
  have hgradient : ∀ k i, gradientEntry dim tables.ndof tables.nqpt tables.b tables.g k q i =
      ∏ axis ∈ Finset.range dim, (onAxis nodes k axis (i / tables.ndof ^ axis % tables.ndof)).eval
        (x (q / tables.nqpt ^ axis % tables.nqpt)) := fun k i =>
    Finset.prod_congr rfl fun axis _ =>
      h.entry k axis _ _ (Nat.mod_lt _ hnqpt) (Nat.mod_lt _ hndof)
  rw [pointEntry, Finset.sum_range]
  refine Finset.sum_congr rfl fun k _ => ?_
  rw [Finset.sum_range]
  refine Finset.sum_congr rfl fun l _ => ?_
  have hentry : formEntry dim (tables.nqpt ^ dim) op q e k l = _ := congrFun (congrFun hform k) l
  rw [hentry, hgradient, hgradient, Matrix.smul_apply, smul_eq_mul]
  simp only [integrand, eval_mul, Finset.prod_mul_distrib]
  ring

/-- **The matrix of an element factors** where the matrices at the points are one matrix times the
product of the weights of the axes. -/
theorem matrixEntry_eq (hform : ∀ q < tables.nqpt ^ dim, formMatrix dim (tables.nqpt ^ dim) op q e =
      (∏ axis ∈ Finset.range dim, w (q / tables.nqpt ^ axis % tables.nqpt)) • f) (i i' : Nat) :
    matrixEntry dim tables.ndof tables.nqpt tables.b tables.g op e i i' =
      ∑ k : Fin dim, ∑ l : Fin dim, f k l * ∏ axis ∈ Finset.range dim,
        ∑ q ∈ Finset.range tables.nqpt,
          w q * (integrand nodes k l axis (i / tables.ndof ^ axis % tables.ndof)
            (i' / tables.ndof ^ axis % tables.ndof)).eval (x q) := by
  rw [matrixEntry, Finset.sum_congr rfl fun q hq =>
    h.pointEntry_eq hnqpt hndof (hform q (Finset.mem_range.1 hq)) i i', Finset.sum_comm]
  refine Finset.sum_congr rfl fun k _ => ?_
  rw [Finset.sum_comm]
  refine Finset.sum_congr rfl fun l _ => ?_
  rw [← Finset.mul_sum]
  exact congrArg (f k l * ·) (sum_prod_digits tables.nqpt dim fun axis q => w q *
    (integrand nodes k l axis (i / tables.ndof ^ axis % tables.ndof)
      (i' / tables.ndof ^ axis % tables.ndof)).eval (x q))

end Tables.Evaluates

end

/-! ### Affine elements -/

namespace PointData

variable {K : Type} [Field K] [BEq K] [LawfulBEq K] [OfDouble K] [SquareRoot K] [Stored K]
  {context : Context K} {data : PointData K} {basis : LagrangeBasis K} {j : Array K} {c : K}
  {q e : Nat} {a : FinMatrix context.space.sdim context.space.dim K}
  {t : Vector K context.space.sdim}

/-- The matrix that the points of an affine element share, but for their weights. -/
def elementForm {m n : Nat} (c : K) (a : FinMatrix m n K) : FinMatrix n n K :=
  (c / volumeFactor a) • (aᵀ * a).adjugate

omit [LawfulBEq K] [SquareRoot K] in
/-- A constant has a single sample. -/
theorem sampleEntry_constant (hcompute : compute context = .ok data)
    (hconstant : context.coefficient = .constant c) (nq q e : Nat) :
    sampleEntry nq data.samples.values q e = c := by
  obtain ⟨_, _, _, geometry, samples, -, -, -, -, hsamples, rfl⟩ := compute_eq_ok hcompute
  rw [hconstant] at hsamples
  obtain rfl := Except.ok.inj hsamples
  rfl

variable (hcompute : compute context = .ok data) (hj : data.jacobians = .ok j)
  (hconstant : context.coefficient = .constant c) {dim : Nat} {points1d weights1d : Array K}
  (hrule : TensorRule.ofInterval dim points1d weights1d = .ok context.rule)
  (hbasis : context.space.basis = .ok basis) (he : e < context.space.numElements)
  (haffine : context.space.AffineOn basis e a t)

include hcompute hj hconstant hrule hbasis he haffine

/-- **The matrix at a point of an affine element.** -/
theorem formMatrix_affine (hq : q < context.rule.numPoints1d ^ context.space.dim) :
    formMatrix context.space.dim (context.rule.numPoints1d ^ context.space.dim)
        (Factorized.ofData context data j).op q e =
      (∏ axis ∈ Finset.range context.space.dim, context.rule.weights1d.getD
        (q / context.rule.numPoints1d ^ axis % context.rule.numPoints1d) 0) •
          elementForm c a := by
  have hwf := compute_wellFormed hcompute
  obtain ⟨_, hsized⟩ := sizes_of_compute hcompute
  have hweight := TensorRule.weight_eq_prod hrule (q := q)
  rw [hsized.ruleDim] at hweight
  have hjacobian : jacobianMatrix context.space.sdim context.space.dim
      (jacobianEntry (context.rule.numPoints1d ^ context.space.dim) context.space.sdim
        context.space.dim j q e) = a := jacobianAt_affine hcompute hj hbasis hq he haffine
  rw [Factorized.op_eq hwf, formMatrix_stored hwf.hasKernel Array.size_replicate hq he,
    OperatorData.formAt, pointForm_eq_adjugate hwf.hasKernel, hjacobian,
    sampleEntry_constant hcompute hconstant, hweight hq, elementForm, smul_smul, mul_div_assoc]

/-- The matrix of an affine element depends on the rule through sums on one axis. -/
theorem matrixEntry_affine (i i' : Nat) :
    matrixEntry context.space.dim context.space.nodesPerAxis context.rule.numPoints1d data.tables.b
        data.tables.g (Factorized.ofData context data j).op e i i' =
      ∑ k : Fin context.space.dim, ∑ l : Fin context.space.dim, elementForm c a k l *
        ∏ axis ∈ Finset.range context.space.dim, context.rule.sum
          (LagrangeBasis.integrand basis.nodes k l axis
            (i / context.space.nodesPerAxis ^ axis % context.space.nodesPerAxis)
            (i' / context.space.nodesPerAxis ^ axis % context.space.nodesPerAxis)) := by
  have hwf := compute_wellFormed hcompute
  obtain ⟨hevaluates, -⟩ := evaluates_of_compute hcompute hbasis
  have hndof : data.tables.ndof = context.space.nodesPerAxis := hwf.ndof.trans hwf.d1d
  have hnqpt : data.tables.nqpt = context.rule.numPoints1d := hwf.nqpt.trans hwf.q1d
  have hnodes : 0 < data.tables.ndof := hwf.ndof ▸ data.shape.d1d_pos
  have hpoints : 0 < data.tables.nqpt := hwf.nqpt ▸ data.shape.q1d_pos
  have hform : ∀ q < data.tables.nqpt ^ context.space.dim, _ := fun q hq =>
    formMatrix_affine hcompute hj hconstant hrule hbasis he haffine (q := q) (hnqpt ▸ hq)
  rw [← hnqpt] at hform
  have hmatrix := hevaluates.matrixEntry_eq (w := (context.rule.weights1d.getD · 0)) hpoints hnodes
    hform i i'
  rw [← hndof, ← hnqpt, hmatrix]
  simp only [TensorRule.sum, hnqpt]

end PointData

/-- The nodes of every element are those of the reference element under an affine map. -/
def Space.Affine {K : Type} [Field K] [BEq K] [OfDouble K] (space : Space K) : Prop :=
  ∃ basis, space.basis = .ok basis ∧
    ∀ e < space.numElements, ∃ a t, space.AffineOn basis e a t

/-- **Rules that agree give the same matrices** of affine elements. -/
theorem PointData.matrixEntry_congr {K : Type} [Field K] [BEq K] [LawfulBEq K] [OfDouble K]
    [SquareRoot K] [Stored K] {space : Space K} {rule rule' : TensorRule K} {c : K}
    {config : Execution} {data data' : PointData K} {j j' : Array K} {dim dim' : Nat}
    {points1d weights1d points1d' weights1d' : Array K}
    (hcompute : compute ⟨space, rule, .constant c, config⟩ = .ok data)
    (hcompute' : compute ⟨space, rule', .constant c, config⟩ = .ok data')
    (hj : data.jacobians = .ok j) (hj' : data'.jacobians = .ok j')
    (hrule : TensorRule.ofInterval dim points1d weights1d = .ok rule)
    (hrule' : TensorRule.ofInterval dim' points1d' weights1d' = .ok rule')
    (hagree : rule.AgreesTo (2 * space.order) rule') (haffine : space.Affine) {e : Nat}
    (he : e < space.numElements) (i i' : Nat) :
    matrixEntry space.dim space.nodesPerAxis rule.numPoints1d data.tables.b data.tables.g
        (Factorized.ofData ⟨space, rule, .constant c, config⟩ data j).op e i i' =
      matrixEntry space.dim space.nodesPerAxis rule'.numPoints1d data'.tables.b data'.tables.g
        (Factorized.ofData ⟨space, rule', .constant c, config⟩ data' j').op e i i' := by
  obtain ⟨basis, hbasis, helements⟩ := haffine
  obtain ⟨a, t, haffine⟩ := helements e he
  obtain ⟨-, hdistinct⟩ := evaluates_of_compute hcompute hbasis
  have hlength : basis.nodes.length = space.order + 1 := Space.numNodes_basis hbasis
  have hdigit : ∀ n, n % space.nodesPerAxis < basis.nodes.length := fun n =>
    hlength ▸ Nat.mod_lt n (Nat.succ_pos space.order)
  refine (matrixEntry_affine hcompute hj rfl hrule hbasis he haffine i i').trans
    (Eq.trans ?_ (matrixEntry_affine hcompute' hj' rfl hrule' hbasis he haffine i i').symm)
  refine Finset.sum_congr rfl fun k _ => Finset.sum_congr rfl fun l _ => ?_
  refine congrArg (elementForm c a k l * ·) (Finset.prod_congr rfl fun axis _ => hagree _ ?_)
  have hdegree := LagrangeBasis.natDegree_integrand_le hdistinct
    (hdigit (i / space.nodesPerAxis ^ axis)) (hdigit (i' / space.nodesPerAxis ^ axis)) k l axis
  rw [hlength] at hdegree
  exact hdegree

/-! ### Operators with the same matrices -/

section

variable {K : Type} [CommRing K] {dim vdim d1d q1d q1d' ne : Nat} {b g op b' g' op' x y : Array K}
  (hy : y.size = d1d ^ dim * vdim * ne)
  (h : ∀ e < ne, ∀ i i', matrixEntry dim d1d q1d b g op e i i' =
    matrixEntry dim d1d q1d' b' g' op' e i i')

include hy h

/-- What is added for a vector depends on the matrices alone. -/
theorem addStiffness_congr :
    addStiffness dim vdim d1d q1d b g op x y = addStiffness dim vdim d1d q1d' b' g' op' x y := by
  refine mapIdx_congr fun n v hn => congrArg (v + ·) ?_
  rw [hy] at hn
  rw [stiffness_eq_matrix, stiffness_eq_matrix]
  exact Finset.sum_congr rfl fun i _ => by rw [h _ (div_lt_right hn)]

/-- So does the diagonal. -/
theorem addDiagonal_congr :
    addDiagonal dim vdim d1d q1d b g op y = addDiagonal dim vdim d1d q1d' b' g' op' y := by
  refine mapIdx_congr fun n v hn => congrArg (v + ·) ?_
  rw [hy] at hn
  exact h _ (div_lt_right hn) n n

end

/-- Room for the vectors of a space, and for the workspace of the diagonal on faces. -/
structure Context.HoldsWork {K : Type} [Field K] [Stored K] (context : Context K) : Prop
    extends context.HoldsVectors where
  workspace : context.space.dim = 2 →
    Stored.bytes K * (3 * context.rule.numPoints1d * context.space.nodesPerAxis) < Size.bufferBound

namespace Factorized

variable {K : Type} [Field K] [SquareRoot K] [Stored K] {context : Context K} {data : PointData K}
  {j : Array K} (hwf : data.WellFormed context) (hforms : data.FormsFit)
  (hroom : context.HoldsWork)

include hwf hforms hroom

theorem kernelSizes_of_room :
    KernelSizes K data.shape.dim data.shape.vdim data.shape.d1d data.shape.q1d data.ne
      context.execution.limits (ofData context data j).op.size context.space.vectorLen :=
  hwf.kernelSizes (hwf.holds_vector hroom.toHoldsVectors) (hwf.forms_fit hforms hroom.forms)
    (size_op context data j) rfl

omit [SquareRoot K] hforms in
theorem workspace_lt (hdim : data.shape.dim = 2) :
    Stored.bytes K * (3 * data.shape.q1d * data.shape.d1d) < Size.bufferBound := by
  rw [hwf.q1d, hwf.d1d]
  exact hroom.workspace (hwf.dim.symm.trans hdim)

theorem answers_of_room :
    (Backend.factorized (ofData context data j)).Answers context.space.vectorLen :=
  Backend.factorized_answers hwf.tables.toSized hwf.ndof hwf.nqpt
    (kernelSizes_of_room hwf hforms hroom) (workspace_lt hwf hroom)

/-- What an operator adds, in the sizes of its space. -/
theorem addMult_of_room {x y : Array K} (hx : x.size = context.space.vectorLen)
    (hy : y.size = context.space.vectorLen) (events : Array Event) :
    Run.returned (((ofData context data j).addMult x).run ⟨y, events⟩) =
      .ok ((), addStiffness context.space.dim context.space.vdim context.space.nodesPerAxis
        context.rule.numPoints1d data.tables.b data.tables.g (ofData context data j).op x y) := by
  have hrun : ((ofData context data j).addMult x).run ⟨y, events⟩ = _ :=
    addMult_ok hwf.tables hwf.ndof hwf.nqpt (hy ▸ kernelSizes_of_room hwf hforms hroom)
      (hx.trans hy.symm)
  rw [hrun, ← hwf.dim, ← hwf.d1d, ← hwf.q1d, hwf.vdim_eq]
  rfl

/-- The diagonal of an operator, in the sizes of its space. -/
theorem addDiagonal_of_room {diag : Array K} (hdiag : diag.size = context.space.vectorLen)
    (events : Array Event) :
    Run.returned ((ofData context data j).addDiagonal.run ⟨diag, events⟩) =
      .ok ((), TensorDiffusion.addDiagonal context.space.dim context.space.vdim
        context.space.nodesPerAxis context.rule.numPoints1d data.tables.b data.tables.g
        (ofData context data j).op diag) := by
  have hrun : (ofData context data j).addDiagonal.run ⟨diag, events⟩ = _ :=
    addDiagonal_ok hwf.ndof hwf.nqpt hwf.tables.toSized
      (hdiag ▸ kernelSizes_of_room hwf hforms hroom) (workspace_lt hwf hroom)
  rw [hrun, ← hwf.dim, ← hwf.d1d, ← hwf.q1d, hwf.vdim_eq]
  rfl

end Factorized

namespace Backend

variable {α : Type} [Zero α] [Add α] [Mul α] [Stored α] {backend backend' : Backend α} {len : Nat}
  (h : backend.Answers len) (h' : backend'.Answers len)

include h h'

/-- Backends that do the same for vectors of their length do the same for all vectors. -/
theorem addMult_same (x : Array α)
    (hsame : ∀ (y : Array α) events others, x.size = len → y.size = len →
      Run.returned ((backend.addMult x).run ⟨y, events⟩) =
        Run.returned ((backend'.addMult x).run ⟨y, others⟩)) :
    Run.Same (backend.addMult x) (backend'.addMult x) := by
  intro y events others
  by_cases hlen : x.size = len ∧ y.size = len
  · exact hsame y events others hlen.1 hlen.2
  · have hother : x.size ≠ len ∨ y.size ≠ len := not_and_or.1 hlen
    rw [h.action_refused x y events hother, h'.action_refused x y others hother]
    rfl

theorem addDiagonal_same
    (hsame : ∀ (diag : Array α) events others, diag.size = len →
      Run.returned (backend.addDiagonal.run ⟨diag, events⟩) =
        Run.returned (backend'.addDiagonal.run ⟨diag, others⟩)) :
    Run.Same backend.addDiagonal backend'.addDiagonal := by
  intro diag events others
  by_cases hlen : diag.size = len
  · exact hsame diag events others hlen
  · rw [h.diagonal_refused diag events hlen, h'.diagonal_refused diag others hlen]
    rfl

end Backend

/-- **The rule does not matter** on affine elements, if it is exact.  An integrator with a constant
coefficient is assembled in the native form with two tensor rules, whose sums on one axis agree for
all polynomials of degree `2 p` at most, where `p` is the order of the space.  The operators do the
same for all vectors, and so do their diagonals: they refuse the same ones, and add the same to all
others, which they accept. -/
theorem operator_free_of_rule {K : Type} [Field K] [BEq K] [LawfulBEq K] [OfDouble K]
    [SquareRoot K] [Stored K] {integrator : Integrator K} {space : Space K}
    {rule rule' : TensorRule K} {c : K} {dim dim' : Nat}
    {points1d weights1d points1d' weights1d' : Array K} {events events' : Array Event}
    {assembled assembled' : Session (Integrator K)}
    (hcoefficient : integrator.coefficient = .constant c) (haffine : space.Affine)
    (hrule : TensorRule.ofInterval dim points1d weights1d = .ok rule)
    (hrule' : TensorRule.ofInterval dim' points1d' weights1d' = .ok rule')
    (hagree : rule.AgreesTo (2 * space.order) rule')
    (hkeeps : (integrator.withRule rule).KeepsNative space)
    (hkeeps' : (integrator.withRule rule').KeepsNative space)
    (h : (Integrator.assemble space).run ⟨integrator.withRule rule, events⟩ = .ok () assembled)
    (h' : (Integrator.assemble space).run ⟨integrator.withRule rule', events'⟩ = .ok () assembled')
    (hroom : (integrator.context space rule).HoldsWork)
    (hroom' : (integrator.context space rule').HoldsWork) :
    (∀ x, Run.Same (assembled.value.addMult x) (assembled'.value.addMult x)) ∧
      Run.Same assembled.value.addDiagonal assembled'.value.addDiagonal ∧
      ∃ backend, assembled.value.backend = some backend ∧ backend.Answers space.vectorLen := by
  have hcontext (rule : TensorRule K) : integrator.context space rule =
      ⟨space, rule, .constant c, integrator.execution⟩ := by
    rw [← hcoefficient]
    rfl
  obtain ⟨data, j, hcompute, hj, hforms, hheld⟩ := hkeeps.assembled rfl h
  obtain ⟨data', j', hcompute', hj', hforms', hheld'⟩ := hkeeps'.assembled rfl h'
  rw [hheld, hheld']
  have hwf := PointData.compute_wellFormed hcompute
  have hwf' := PointData.compute_wellFormed hcompute'
  -- Requests that are refused are refused by both, so vectors of the length of the space are left.
  have hanswers := Factorized.answers_of_room (j := j) hwf hforms hroom
  have hanswers' := Factorized.answers_of_room (j := j') hwf' hforms' hroom'
  have hmatrix : ∀ e < space.numElements, ∀ i i', _ := fun e he i i' =>
    PointData.matrixEntry_congr ((congrArg _ (hcontext rule).symm).trans hcompute)
      ((congrArg _ (hcontext rule').symm).trans hcompute') hj hj' hrule hrule' hagree haffine he
      i i'
  rw [← hcontext rule, ← hcontext rule'] at hmatrix
  refine ⟨fun x => Backend.addMult_same hanswers hanswers' x fun y events others hx hy => ?_,
    Backend.addDiagonal_same hanswers hanswers' fun diag events others hdiag => ?_,
    _, rfl, hanswers⟩
  · refine (Factorized.addMult_of_room hwf hforms hroom hx hy events).trans
      (Eq.trans ?_ (Factorized.addMult_of_room hwf' hforms' hroom' hx hy others).symm)
    exact congrArg (fun y => Except.ok ((), y)) (addStiffness_congr hy hmatrix)
  · refine (Factorized.addDiagonal_of_room hwf hforms hroom hdiag events).trans
      (Eq.trans ?_ (Factorized.addDiagonal_of_room hwf' hforms' hroom' hdiag others).symm)
    exact congrArg (fun y => Except.ok ((), y)) (addDiagonal_congr hdiag hmatrix)

/-! ### One face -/

/-- The sheared face is assembled with every tensor rule of at most three points per axis. -/
theorem assemble_shearedFace_rule {points1d weights1d : Array ℝ} {rule : TensorRule ℝ}
    (h : TensorRule.ofInterval 2 points1d weights1d = .ok rule) (hdim : rule.dim = 2)
    (hpos : 0 < rule.numPoints1d) (hle : rule.numPoints1d ≤ 3) :
    ∃ assembled, (Integrator.assemble shearedFace).run
      ⟨(Integrator.new (.constant 1)).withRule rule, #[]⟩ = .ok () assembled := by
  have hlimits : 2 ≤ ({} : Execution).limits.maxD1d ∧ 3 ≤ ({} : Execution).limits.maxQ1d := by
    decide
  have hsupported : Context.Supported ⟨shearedFace, rule, .constant 1, {}⟩ :=
    ⟨⟨hasKernel_plane, hpos, hdim, hlimits.1, Nat.le_trans hle hlimits.2, rfl⟩,
      fun _ h => nomatch h⟩
  have hsmall : Context.Small ⟨shearedFace, rule, .constant 1, {}⟩ := by
    have hsquare : rule.numPoints1d ^ 2 ≤ 3 ^ 2 := Nat.pow_le_pow_left hle 2
    have htables : rule.numPoints1d * 2 < 2 ^ 56 := by omega
    have hchunks : (rule.numPoints1d ^ 2 * 2 * 2 + 0) * 1 < 2 ^ 56 := by omega
    have hlines : 2 * rule.numPoints1d * 2 * 2 < 2 ^ 56 := by omega
    have hplanes : 3 * rule.numPoints1d * rule.numPoints1d * 2 < 2 ^ 56 := by
      rw [Nat.mul_assoc 3, ← Nat.pow_two]
      omega
    exact ⟨htables, hchunks, fun _ => hlines, fun _ => hplanes⟩
  have helement : shearedFace.nodesPerAxis ^ shearedFace.dim * shearedFace.sdim < 2 ^ 56 := by
    decide
  obtain ⟨_, s, hfound⟩ : ∃ found s, (((Integrator.new (.constant 1)).withRule rule).ruleFor
      shearedFace).run ⟨(), #[]⟩ = .ok found s :=
    Integrator.ruleFor_ok helement (fun h => absurd h (Option.some_ne_none rule)) _
  obtain rfl := Except.ok.inj (Integrator.ruleFor_eq_ok hfound)
  obtain ⟨operator, s', hrun⟩ := Factorized.assemble_of_supported hsupported
    ⟨distinctLobatto_one, helement⟩ hsmall (.ofInterval h) s
  exact ⟨_, Integrator.assemble_run_ok.2
    ⟨_, s, _, s', hfound, (run_map_eq_ok (f := Backend.factorized)).2 ⟨operator, hrun, rfl⟩, rfl⟩⟩

/-- The sheared face is the image of the square under a shear. -/
theorem affine_shearedFace : shearedFace.Affine := by
  have hnodes : ∀ n < 4, ∀ i : Fin 2,
      (#[-(1 + half), half, -half, 1 + half, -1, -1, 1, 1] : Array ℝ).getD
          (0 * 8 + (n + 4 * i)) 0 =
        (!![1, half; 0, 1] *ᵥ fun k : Fin 2 => [(-1 : ℝ), 1].getD (n / 2 ^ (k : Nat) % 2) 0) i +
          (#v[0, 0] : Vector ℝ 2).get i := by
    intro n hn i
    rw [Matrix.mulVec, dotProduct, Fin.sum_univ_two]
    interval_cases n <;> fin_cases i <;> norm_num [half]
  refine ⟨_, Space.basis_of_order_one rfl, fun e he => ⟨!![1, half; 0, 1], #v[0, 0], ?_⟩⟩
  obtain rfl : e = 0 := Nat.lt_one_iff.1 he
  exact fun n hn => congrArg Vector.ofFn (funext (hnodes n hn))

/-- With a rule of two points and one of three, which agree for polynomials of degree two, the
sheared face gives the same operator. -/
theorem operator_free_of_rule_two_three_points :
    ∃ (two three : TensorRule ℝ) (assembled assembled' : Session (Integrator ℝ)),
      two.numPoints1d = 2 ∧ three.numPoints1d = 3 ∧
      (Integrator.assemble shearedFace).run
        ⟨(Integrator.new (.constant 1)).withRule two, #[]⟩ = .ok () assembled ∧
      (Integrator.assemble shearedFace).run
        ⟨(Integrator.new (.constant 1)).withRule three, #[]⟩ = .ok () assembled' ∧
      (∀ x, Run.Same (assembled.value.addMult x) (assembled'.value.addMult x)) ∧
      Run.Same assembled.value.addDiagonal assembled'.value.addDiagonal := by
  have htwo : TensorRule.ofInterval 2 #[(-1 : ℝ), 1 / 3] #[1 / 2, 3 / 2] = .ok _ := rfl
  have hthree : TensorRule.ofInterval 2 #[(-1 : ℝ), 0, 1] #[1 / 3, 4 / 3, 1 / 3] = .ok _ := rfl
  obtain ⟨assembled, h⟩ := assemble_shearedFace_rule htwo rfl (by decide) (by decide)
  obtain ⟨assembled', h'⟩ := assemble_shearedFace_rule hthree rfl (by decide) (by decide)
  have hcoefficient : (Integrator.new (.constant (1 : ℝ))).coefficient = .constant 1 := rfl
  have hmoments : ∀ k ≤ 2, (1 / 2 * (-1) ^ k + 3 / 2 * (1 / 3) ^ k : ℝ) =
      1 / 3 * (-1) ^ k + 4 / 3 * 0 ^ k + 1 / 3 * 1 ^ k := by
    intro k hk
    interval_cases k <;> norm_num
  obtain ⟨haction, hdiagonal, -⟩ := operator_free_of_rule hcoefficient affine_shearedFace htwo
    hthree (TensorRule.agreesTo_of_moments fun k hk => by
      simpa [TensorRule.sum, TensorRule.numPoints1d, Finset.sum_range_succ] using hmoments k hk)
    (fun _ _ h => nomatch h) (fun _ _ h => nomatch h) h h'
    ⟨⟨by decide, by decide⟩, by decide⟩ ⟨⟨by decide, by decide⟩, by decide⟩
  exact ⟨_, _, assembled, assembled', rfl, rfl, h, h', haction, hdiagonal⟩

end TensorDiffusion
