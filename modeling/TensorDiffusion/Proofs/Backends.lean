import TensorDiffusion.Operator.Backend
import TensorDiffusion.Proofs.Semidefinite

/-!
# Assembled backends answer

A backend that an assembly made, in either form, answers every request for vectors of the length of
its space, and refuses any other before it writes an entry (`assembled_answers`).  The scalars are
arbitrary, so this holds of rounded ones, of every mesh, and where there are no elements.

* `Shape.checkVectors_error`, `Shape.checkDiagonal_error`: what is said of a vector of another
  length.
* `Action.select_returns`, `Diagonal.select_returns`: the kernels return on sizes that agree.
* `Dense.applyElement_returns`, `Dense.diagonalElement_returns`: so do the loops over dense
  matrices.
-/

namespace TensorDiffusion

/-! ### Counts of entries -/

/-- No product of sizes reaches `2 ^ 56`, where each of `ne` elements has `count` entries.  Sizes
are multiplied before elements are counted, as in `FitsMemory`. -/
def CountFits (count ne : Nat) : Prop :=
  count * max 1 ne < 2 ^ 56

instance (count ne : Nat) : Decidable (CountFits count ne) :=
  inferInstanceAs (Decidable (_ < _))

theorem CountFits.fitsMemory {α : Type} [Stored α] {count ne : Nat} (h : CountFits count ne) :
    FitsMemory α count ne :=
  Size.bytes_mul_lt Stored.bytes_le h

theorem CountFits.one_lt {count ne : Nat} (h : CountFits count ne) : count < 2 ^ 56 :=
  Nat.lt_of_le_of_lt (Nat.le_mul_of_pos_right _ (by omega)) h

/-! ### Vectors of another length -/

theorem checkVector_error {name : String} {len expected : Nat} (h : len ≠ expected) :
    checkVector name len expected = .error (.refused (.vectorLength name len expected)) :=
  insist_eq_error.2 ⟨h, rfl⟩

/-- What is said of two vectors of which one is not of length `len`. -/
def wrongVector (xLen yLen len : Nat) : Refusal :=
  if xLen = len then .vectorLength "y" yLen len else .vectorLength "x" xLen len

namespace Shape

variable {shape : Shape} {ne xLen yLen : Nat}
  (hfits : shape.d1d ^ shape.dim * shape.vdim * max 1 ne < Size.bufferBound)

include hfits

/-- The first vector of another length is named. -/
theorem checkVectors_error (h : xLen ≠ shape.d1d ^ shape.dim * shape.vdim * ne ∨
      yLen ≠ shape.d1d ^ shape.dim * shape.vdim * ne) :
    (do
      let len ← shape.vectorLen ne
      checkVector "x" xLen len
      checkVector "y" yLen len) =
      .error (.refused (wrongVector xLen yLen (shape.d1d ^ shape.dim * shape.vdim * ne))) := by
  rw [vectorLen_ok hfits, ok_bind, wrongVector]
  split
  case isTrue hx =>
    have hy := h.resolve_left fun hne => hne hx
    rw [checkVector_ok hx, ok_bind, checkVector_error hy]
  case isFalse hx =>
    rw [checkVector_error hx]
    rfl

theorem checkDiagonal_error {len : Nat} (h : len ≠ shape.d1d ^ shape.dim * shape.vdim * ne) :
    (do checkVector "diagonal" len (← shape.vectorLen ne)) =
      .error (.refused (.vectorLength "diagonal" len
        (shape.d1d ^ shape.dim * shape.vdim * ne))) := by
  rw [vectorLen_ok hfits, ok_bind, checkVector_error h]

end Shape

/-! ### Kernels -/

section

variable {α : Type} [Zero α] [Add α] [Mul α] [Stored α] {fixed : FixedSizes} {config : Execution}
  {shape : Shape} {ne vdim : Nat} {tables : Tables α} {op x y diag : Array α} {events : Array Event}
  (hs : tables.Sized)

include hs

namespace Action

theorem onFaces_returns (hf : fixed.Agrees tables.ndof tables.nqpt vdim)
    (h : KernelSizes α 2 vdim tables.ndof tables.nqpt ne config.limits op.size y.size)
    (hx : x.size = y.size) :
    ∃ update, (onFaces fixed config ne tables op x vdim).run y = .ok () (y.mapIdx update) := by
  obtain ⟨plan, hplan, hroom⟩ := facePlan_ok hs hf h hx
  exact ⟨_, onFaces_eq hplan hroom⟩

theorem onCells_returns (hf : fixed.Agrees tables.ndof tables.nqpt 3)
    (h : KernelSizes α 3 3 tables.ndof tables.nqpt ne config.limits op.size y.size)
    (hx : x.size = y.size) :
    ∃ update, (onCells fixed config ne tables op x).run y = .ok () (y.mapIdx update) := by
  obtain ⟨plan, hplan, hroom⟩ := cellPlan_ok hs hf h hx
  exact ⟨_, onCells_eq hplan hroom⟩

/-- **The selected action returns**, and every entry of the output is replaced once. -/
theorem select_returns (hd : tables.ndof = shape.d1d) (hq : tables.nqpt = shape.q1d)
    (h : KernelSizes α shape.dim shape.vdim shape.d1d shape.q1d ne config.limits op.size y.size)
    (hx : x.size = y.size) :
    ∃ update, (select config shape ne tables op x).run ⟨y, events⟩ =
      .ok () ⟨y.mapIdx update, events.push (.applied shape shape.variant)⟩ := by
  obtain ⟨fixed, hf, hselect⟩ := select_eq config shape ne tables op x
  suffices hkernel : ∃ update, (kernel fixed config shape ne tables op x).run y =
      .ok () (y.mapIdx update) by
    obtain ⟨update, hrun⟩ := hkernel
    exact ⟨update, hselect ▸ Run.run_record_onValue hrun⟩
  rw [← hd, ← hq] at h hf
  rw [kernel]
  rcases shape.dim_cases with ⟨hdim, hv⟩ | ⟨hdim, hv⟩ | ⟨hdim, hv⟩ <;> rw [hdim, hv] at h <;>
    rw [hv] at hf <;> rw [hdim, hv]
  · exact onFaces_returns hs hf h hx
  · exact onFaces_returns hs hf h hx
  · exact onCells_returns hs hf h hx

end Action

namespace Diagonal

theorem onFaces_returns (hf : fixed.Agrees tables.ndof tables.nqpt vdim)
    (h : KernelSizes α 2 vdim tables.ndof tables.nqpt ne config.limits op.size diag.size)
    (hroom : Stored.bytes α * (3 * tables.nqpt * tables.ndof) < Size.bufferBound) :
    ∃ update, (onFaces fixed config ne tables op vdim).run diag = .ok () (diag.mapIdx update) := by
  obtain ⟨plan, hplan, hroom⟩ := facePlan_ok hs hf h hroom
  have hp := facePlanned hplan
  exact ⟨_, onFaces_eq hplan hroom (chunk_lt_of_len hp.diagLen h.len_lt)⟩

theorem onCells_returns (hf : fixed.Agrees tables.ndof tables.nqpt 3)
    (h : KernelSizes α 3 3 tables.ndof tables.nqpt ne config.limits op.size diag.size) :
    ∃ update, (onCells fixed config ne tables op).run diag = .ok () (diag.mapIdx update) := by
  obtain ⟨plan, hplan, hroom⟩ := cellPlan_ok hs hf h
  have hp := cellPlanned hplan
  exact ⟨_, onCells_eq hplan hroom (chunk_lt_of_len hp.diagLen h.len_lt)⟩

/-- **The selected diagonal returns**, and every entry of the output is replaced once. -/
theorem select_returns (hd : tables.ndof = shape.d1d) (hq : tables.nqpt = shape.q1d)
    (h : KernelSizes α shape.dim shape.vdim shape.d1d shape.q1d ne config.limits op.size diag.size)
    (hroom : shape.dim = 2 →
      Stored.bytes α * (3 * shape.q1d * shape.d1d) < Size.bufferBound) :
    ∃ update, (select config shape ne tables op).run ⟨diag, events⟩ =
      .ok () ⟨diag.mapIdx update, events.push (.diagonal shape shape.variant)⟩ := by
  obtain ⟨fixed, hf, hselect⟩ := select_eq config shape ne tables op
  suffices hkernel : ∃ update, (kernel fixed config shape ne tables op).run diag =
      .ok () (diag.mapIdx update) by
    obtain ⟨update, hrun⟩ := hkernel
    exact ⟨update, hselect ▸ Run.run_record_onValue hrun⟩
  rw [← hd, ← hq] at h hf hroom
  rw [kernel]
  rcases shape.dim_cases with ⟨hdim, hv⟩ | ⟨hdim, hv⟩ | ⟨hdim, hv⟩ <;> rw [hdim, hv] at h <;>
    rw [hv] at hf <;> rw [hdim, hv]
  · exact onFaces_returns hs hf h (hroom hdim)
  · exact onFaces_returns hs hf h (hroom hdim)
  · exact onCells_returns hs hf h

end Diagonal

end

/-! ### Sum-factorized operators -/

namespace Factorized

variable {α : Type} [Zero α] [Add α] [Mul α] [Stored α] {operator : Factorized α}
  {x y diag : Array α} {events : Array Event}

/-- Vectors of another length are refused, and the output is left as it was. -/
theorem addMult_refused
    (hfits : operator.shape.d1d ^ operator.shape.dim * operator.shape.vdim * max 1 operator.ne <
      Size.bufferBound) {len : Nat}
    (hlen : len = operator.shape.d1d ^ operator.shape.dim * operator.shape.vdim * operator.ne)
    (h : x.size ≠ len ∨ y.size ≠ len) :
    (operator.addMult x).run ⟨y, events⟩ =
      .error (.refused (wrongVector x.size y.size len)) ⟨y, events⟩ := by
  subst hlen
  refine (run_bind_ok (run_get _)).trans ?_
  exact run_bind_error (run_ofExcept_error (Shape.checkVectors_error hfits h) _)

variable (hs : operator.tables.Sized) (hd : operator.tables.ndof = operator.shape.d1d)
  (hq : operator.tables.nqpt = operator.shape.q1d)

include hs hd hq

theorem addMult_returns (h : KernelSizes α operator.shape.dim operator.shape.vdim
      operator.shape.d1d operator.shape.q1d operator.ne operator.execution.limits operator.op.size
      y.size) (hx : x.size = y.size) :
    ∃ update, (operator.addMult x).run ⟨y, events⟩ =
      .ok () ⟨y.mapIdx update, events.push (.applied operator.shape operator.shape.variant)⟩ := by
  obtain ⟨update, hrun⟩ := Action.select_returns hs hd hq h hx
  have hcheck := Shape.checkVectors_ok h.vectorFits.lt h.len hx
  refine ⟨update, ?_⟩
  rw [addMult, run_bind_ok (run_get _)]
  exact (run_bind_ok (run_ofExcept hcheck _)).trans hrun

theorem addDiagonal_returns (h : KernelSizes α operator.shape.dim operator.shape.vdim
      operator.shape.d1d operator.shape.q1d operator.ne operator.execution.limits operator.op.size
      diag.size)
    (hroom : operator.shape.dim = 2 →
      Stored.bytes α * (3 * operator.shape.q1d * operator.shape.d1d) < Size.bufferBound) :
    ∃ update, operator.addDiagonal.run ⟨diag, events⟩ =
      .ok () ⟨diag.mapIdx update,
        events.push (.diagonal operator.shape operator.shape.variant)⟩ := by
  obtain ⟨update, hrun⟩ := Diagonal.select_returns hs hd hq h hroom
  have hcheck := Shape.checkDiagonal_ok h.vectorFits.lt h.len
  refine ⟨update, ?_⟩
  rw [addDiagonal, run_bind_ok (run_get _)]
  exact (run_bind_ok (run_ofExcept hcheck _)).trans hrun

end Factorized

/-! ### Dense element matrices -/

namespace Dense

variable {α : Type} {operator : Dense α} {nd vdim e : Nat}

/-- Matrices for all elements, and room for them. -/
structure Filled (operator : Dense α) (nd : Nat) : Prop where
  nodes : nd = operator.shape.d1d ^ operator.shape.dim
  room : nd * nd * max 1 operator.ne < Size.bufferBound
  matrices : operator.matrices.size = nd * nd * operator.ne

/-- The matrix of an element is found, and so are its entries. -/
theorem Filled.elementMatrix [Zero α] (h : operator.Filled nd) (he : e < operator.ne) :
    ∃ m, operator.elementMatrix e = .ok m ∧ ∀ i j, i < nd → j < nd →
      m.get i j = .ok (operator.matrices.getD (nd * nd * e + (i + nd * j)) 0) := by
  refine ⟨_, elementMatrix_eq h.nodes h.room h.matrices he, fun i j hi hj => ?_⟩
  have hstop : nd * nd * (e + 1) ≤ operator.matrices.size := by
    rw [h.matrices]
    exact Nat.mul_le_mul_left _ he
  have hlt : nd * nd * e + (i + nd * j) < operator.matrices.size := by
    rw [h.matrices, Nat.add_comm]
    exact pair_lt (pair_lt hi hj) he
  rw [get_part hstop hi hj, slot_getD 0 hlt]

theorem applyElement_returns [Zero α] [Add α] [Mul α] {x : Array α} (h : operator.Filled nd)
    (hx : x.size = nd * vdim * operator.ne) :
    ∃ update, ActsBy (nd * vdim) operator.ne (fun _ => True) (operator.applyElement nd vdim x)
      update := by
  refine ⟨fun e n v => (List.range nd).foldl (fun sum k =>
    operator.matrices.getD (nd * nd * e + (n % nd + nd * k)) 0 * nodal nd vdim x e (n / nd) k +
      sum) v, ?_⟩
  intro _ e chunk _ he hchunk
  refine ⟨(), trivial, ?_⟩
  obtain ⟨matrix, hmatrix, hentry⟩ := h.elementMatrix he
  obtain ⟨part, values, hpart, hvalues, hvalue⟩ := part_ok hx he
  rw [applyElement, hpart, ok_bind, hvalues, ok_bind, Matrix.ofSlice_ok (Nat.le_of_eq hchunk.symm),
    ok_bind, hmatrix, ok_bind]
  refine bind_eq_ok.2 ⟨_, modifyAll_eq hchunk fun n v hn => sweep_eq fun k s hk => ?_, rfl⟩
  rw [hentry _ k (mod_lt_left hn) hk, ok_bind, hvalue _ k (div_lt_right hn) hk, ok_bind]
  rfl

theorem diagonalElement_returns [Zero α] [Add α] (h : operator.Filled nd) :
    ∃ update, ActsBy (nd * vdim) operator.ne (fun _ => True) (operator.diagonalElement nd vdim)
      update := by
  refine ⟨fun e n v =>
    v + operator.matrices.getD (nd * nd * e + (n % nd + nd * (n % nd))) 0, ?_⟩
  intro _ e chunk _ he hchunk
  refine ⟨(), trivial, ?_⟩
  obtain ⟨matrix, hmatrix, hentry⟩ := h.elementMatrix he
  rw [diagonalElement, hmatrix, ok_bind]
  refine bind_eq_ok.2 ⟨_, modifyAll_eq hchunk fun n v hn => ?_, rfl⟩
  rw [hentry _ _ (mod_lt_left hn) (mod_lt_left hn), ok_bind]
  rfl

section

variable (h : operator.Filled nd)
  (hfits : nd * operator.shape.vdim * max 1 operator.ne < Size.bufferBound)

include h

theorem Filled.numNodes : operator.shape.numNodes = .ok nd := by
  obtain ⟨rfl, hroom, -⟩ := h
  exact numNodes_ok hroom

theorem Filled.chunk_pos : 0 < nd * operator.shape.vdim := by
  rw [h.nodes]
  exact Nat.mul_pos (Nat.pow_pos operator.shape.d1d_pos) operator.shape.vdim_pos

include hfits

theorem addMult_returns [Zero α] [Add α] [Mul α] {x y : Array α} {events : Array Event}
    (hx : x.size = y.size) (hy : y.size = nd * operator.shape.vdim * operator.ne) :
    ∃ update, (operator.addMult x).run ⟨y, events⟩ = .ok () ⟨y.mapIdx update, events⟩ := by
  obtain ⟨update, hacts⟩ := applyElement_returns h (hx.trans hy)
  refine ⟨fun k => update (k / (nd * operator.shape.vdim)) (k % (nd * operator.shape.vdim)), ?_⟩
  have hcheck := Shape.checkVectors_ok (h.nodes ▸ hfits) (h.nodes ▸ hy) hx
  rw [addMult, run_bind_ok (run_get _)]
  refine (run_bind_ok (run_ofExcept h.numNodes _)).trans ?_
  refine (run_bind_ok (run_ofExcept hcheck _)).trans (Run.run_onValue ?_)
  exact forElements_eq hacts h.chunk_pos rfl trivial (by rw [hy, Nat.mul_comm])

theorem addDiagonal_returns [Zero α] [Add α] {diag : Array α} {events : Array Event}
    (hdiag : diag.size = nd * operator.shape.vdim * operator.ne) :
    ∃ update, operator.addDiagonal.run ⟨diag, events⟩ = .ok () ⟨diag.mapIdx update, events⟩ := by
  obtain ⟨update, hacts⟩ := diagonalElement_returns h
  refine ⟨fun k => update (k / (nd * operator.shape.vdim)) (k % (nd * operator.shape.vdim)), ?_⟩
  have hcheck := Shape.checkDiagonal_ok (h.nodes ▸ hfits) (h.nodes ▸ hdiag)
  rw [addDiagonal, run_bind_ok (run_get _)]
  refine (run_bind_ok (run_ofExcept h.numNodes _)).trans ?_
  refine (run_bind_ok (run_ofExcept hcheck _)).trans (Run.run_onValue ?_)
  exact forElements_eq hacts h.chunk_pos rfl trivial (by rw [hdiag, Nat.mul_comm])

end

end Dense

/-! ### Backends -/

namespace Backend

variable {α : Type} [Zero α] [Add α] [Mul α] [Stored α]

/-- A backend answers requests for vectors of length `len`, and refuses any other, which leaves the
output and the journal as they were. -/
structure Answers (backend : Backend α) (len : Nat) : Prop where
  action : ∀ (x y : Array α) events, x.size = len → y.size = len →
    ∃ out journal, out.size = len ∧
      (backend.addMult x).run ⟨y, events⟩ = .ok () ⟨out, journal⟩
  action_refused : ∀ (x y : Array α) events, x.size ≠ len ∨ y.size ≠ len →
    (backend.addMult x).run ⟨y, events⟩ =
      .error (.refused (wrongVector x.size y.size len)) ⟨y, events⟩
  diagonal : ∀ (diag : Array α) events, diag.size = len →
    ∃ out journal, out.size = len ∧
      backend.addDiagonal.run ⟨diag, events⟩ = .ok () ⟨out, journal⟩
  diagonal_refused : ∀ (diag : Array α) events, diag.size ≠ len →
    backend.addDiagonal.run ⟨diag, events⟩ =
      .error (.refused (.vectorLength "diagonal" diag.size len)) ⟨diag, events⟩

/-- A sum-factorized operator whose kernels accept its sizes. -/
theorem factorized_answers {operator : Factorized α} {len : Nat} (hs : operator.tables.Sized)
    (hd : operator.tables.ndof = operator.shape.d1d)
    (hq : operator.tables.nqpt = operator.shape.q1d)
    (h : KernelSizes α operator.shape.dim operator.shape.vdim operator.shape.d1d
      operator.shape.q1d operator.ne operator.execution.limits operator.op.size len)
    (hroom : operator.shape.dim = 2 →
      Stored.bytes α * (3 * operator.shape.q1d * operator.shape.d1d) < Size.bufferBound) :
    (Backend.factorized operator).Answers len where
  action := by
    rintro x y events hx rfl
    obtain ⟨update, hrun⟩ := Factorized.addMult_returns hs hd hq h hx
    exact ⟨_, _, Array.size_mapIdx, hrun⟩
  action_refused _ _ _ hne := Factorized.addMult_refused h.vectorFits.lt h.len hne
  diagonal := by
    rintro diag events rfl
    obtain ⟨update, hrun⟩ := Factorized.addDiagonal_returns hs hd hq h hroom
    exact ⟨_, _, Array.size_mapIdx, hrun⟩
  diagonal_refused := by
    intro diag events hne
    rw [h.len] at hne ⊢
    have hcheck := Shape.checkDiagonal_error h.vectorFits.lt hne
    refine (run_bind_ok (run_get _)).trans ?_
    exact run_bind_error (run_ofExcept_error hcheck _)

/-- An operator with a dense matrix for every element. -/
theorem dense_answers {operator : Dense α} {nd len : Nat} (h : operator.Filled nd)
    (hfits : nd * operator.shape.vdim * max 1 operator.ne < Size.bufferBound)
    (hlen : len = nd * operator.shape.vdim * operator.ne) :
    (Backend.dense operator).Answers len where
  action := by
    intro x y events hx hy
    obtain ⟨update, hrun⟩ := Dense.addMult_returns h hfits (hx.trans hy.symm) (hy.trans hlen)
    exact ⟨_, _, Array.size_mapIdx.trans hy, hrun⟩
  action_refused := by
    intro x y events hne
    rw [hlen, h.nodes] at hne ⊢
    have hcheck := Shape.checkVectors_error (h.nodes ▸ hfits) hne
    refine (run_bind_ok (run_get _)).trans ?_
    refine (run_bind_ok (run_ofExcept h.numNodes _)).trans ?_
    exact run_bind_error (run_ofExcept_error hcheck _)
  diagonal := by
    intro diag events hdiag
    obtain ⟨update, hrun⟩ := Dense.addDiagonal_returns h hfits (hdiag.trans hlen)
    exact ⟨_, _, Array.size_mapIdx.trans hdiag, hrun⟩
  diagonal_refused := by
    intro diag events hne
    rw [hlen, h.nodes] at hne ⊢
    have hcheck := Shape.checkDiagonal_error (h.nodes ▸ hfits) hne
    refine (run_bind_ok (run_get _)).trans ?_
    refine (run_bind_ok (run_ofExcept h.numNodes _)).trans ?_
    exact run_bind_error (run_ofExcept_error hcheck _)

variable [One α] [Sub α] [Neg α] [Div α] [BEq α] [OfDouble α] [SquareRoot α]

/-- A backend that one of the two assemblies made of a context. -/
inductive AssembledFrom (context : Context α) : Backend α → Prop
  | factorized {operator : Factorized α} {s s' : Session Unit}
      (h : (Factorized.assemble context).run s = .ok operator s') :
      AssembledFrom context (.factorized operator)
  | dense {operator : Dense α} {s s' : Session Unit}
      (h : (Dense.assemble context).run s = .ok operator s') :
      AssembledFrom context (.dense operator)

/-- No product of sizes that a backend of a context forms reaches `2 ^ 56`: of the vectors, and of
the operator data or the matrices that it keeps. -/
def Small (context : Context α) (backend : Backend α) : Prop :=
  let space := context.space
  CountFits (space.nodesPerElement * space.vdim) space.numElements ∧
    match backend with
    | .factorized _ =>
      CountFits (context.rule.numPoints1d ^ space.dim * symmetricEntries space.dim)
        space.numElements
    | .dense _ => CountFits (space.nodesPerElement * space.nodesPerElement) space.numElements
    | .other _ => True

end Backend

theorem PointData.WellFormed.countFits_vectors {α : Type} [Zero α] {context : Context α}
    {data : PointData α} (hwf : data.WellFormed context)
    (h : CountFits (context.space.nodesPerElement * context.space.vdim)
      context.space.numElements) :
    CountFits (data.shape.d1d ^ data.shape.dim * data.shape.vdim) data.ne := by
  rw [hwf.d1d, hwf.dim, hwf.ne, Shape.vdim, hwf.sdim]
  exact h

theorem Shape.two_le_vdim (shape : Shape) : 2 ≤ shape.vdim := by
  rcases shape.dim_cases with ⟨-, h⟩ | ⟨-, h⟩ | ⟨-, h⟩ <;> omega

/-- There is room for the workspace of the diagonal on faces where there is for forms and
vectors. -/
theorem diagonalRoom_lt {width q d vdim : Nat} (hwidth : width ≤ 64) (hq : q ^ 2 * 3 < 2 ^ 56)
    (hd : d ^ 2 * vdim < 2 ^ 56) (hvdim : 2 ≤ vdim) : width * (3 * q * d) < Size.bufferBound := by
  have hvectors : d ^ 2 * 2 < 2 ^ 56 := Nat.lt_of_le_of_lt (Nat.mul_le_mul_left _ hvdim) hd
  rw [Nat.mul_assoc]
  -- The longer side decides; a square of nodes counts for less than two of them.
  rcases Nat.le_total d q with hle | hle
  · have hbound : 3 * (q * d) ≤ q ^ 2 * 3 := by
      rw [Nat.pow_two, Nat.mul_comm (q * q)]
      exact Nat.mul_le_mul_left 3 (Nat.mul_le_mul_left q hle)
    exact Size.bytes_mul_lt hwidth (Nat.lt_of_le_of_lt hbound hq)
  · have hbound : 3 * (q * d) ≤ 2 * (d ^ 2 * 2) := by
      rw [Nat.pow_two]
      have := Nat.mul_le_mul_right d hle
      omega
    calc width * (3 * (q * d)) ≤ 64 * (2 * (d ^ 2 * 2)) := Nat.mul_le_mul hwidth hbound
      _ < Size.bufferBound := by
        have : Size.bufferBound = 64 * (2 * 2 ^ 56) := rfl
        omega

/-- **Assembled backends answer.**  A backend that an assembly made, in either form, answers every
request for vectors of its space, and refuses any other before it writes an entry.  Nothing else can
go wrong: no check of a kernel fails, no view, slice or index is out of bounds, and no kernel is
missing. -/
theorem assembled_answers {α : Type} [Zero α] [One α] [Add α] [Sub α] [Mul α] [Neg α] [Div α]
    [BEq α] [OfDouble α] [SquareRoot α] [Stored α] {context : Context α} {backend : Backend α}
    (h : backend.AssembledFrom context) (hsmall : backend.Small context) :
    backend.Answers context.space.vectorLen := by
  cases h with
  | factorized h =>
    obtain ⟨data, j, hcompute, -, rfl, -, -⟩ := Factorized.assemble_eq_ok h
    have hwf := PointData.compute_wellFormed hcompute
    obtain ⟨hvectors, hforms⟩ := hsmall
    have hvectors := hwf.countFits_vectors hvectors
    have hforms : CountFits (data.shape.q1d ^ data.shape.dim *
        symmetricEntries data.shape.dim) data.ne := by
      rw [hwf.q1d, hwf.dim, hwf.ne]
      exact hforms
    have hsizes := hwf.kernelSizes hvectors.fitsMemory hforms.fitsMemory
      (Factorized.size_op context data j) rfl
    refine Backend.factorized_answers hwf.tables.toSized hwf.ndof hwf.nqpt hsizes fun hdim => ?_
    have hpoints := hforms.one_lt
    have hnodes := hvectors.one_lt
    have hdim : data.shape.dim = 2 := hdim
    rw [hdim] at hpoints hnodes
    exact diagonalRoom_lt Stored.bytes_le hpoints hnodes data.shape.two_le_vdim
  | dense h =>
    obtain ⟨data, _, _, hcompute, -, -, -, hshape, hne, hmatrices⟩ := Dense.assemble_eq_ok h
    have hwf := PointData.compute_wellFormed hcompute
    obtain ⟨hvectors, hroom⟩ := hsmall
    have hvectors := hwf.countFits_vectors hvectors
    have hroom : CountFits (data.shape.d1d ^ data.shape.dim *
        data.shape.d1d ^ data.shape.dim) data.ne := by
      rw [hwf.d1d, hwf.dim, hwf.ne]
      exact hroom
    rw [← hne, ← hshape] at hvectors hroom hmatrices
    have hlen := hwf.vectorLen_eq
    rw [← hne, ← hshape] at hlen
    exact Backend.dense_answers ⟨rfl, (hroom.fitsMemory (α := α)).lt, hmatrices⟩
      (hvectors.fitsMemory (α := α)).lt hlen

/-- Both operators of the sheared face answer requests for vectors of eight entries. -/
theorem assembled_answers_sheared_face :
    ∃ (factorized : Factorized ℝ) (dense : Dense ℝ),
      (Backend.factorized factorized).AssembledFrom
        (denseIntegrator.context shearedFace middleRule) ∧
      (Backend.dense dense).AssembledFrom (denseIntegrator.context shearedFace middleRule) ∧
      (Backend.factorized factorized).Answers 8 ∧ (Backend.dense dense).Answers 8 := by
  have hdet := fun q e hq he => PointData.regularAt_iff.1 (regularAt_sheared q e hq he)
  have hfactorized := Factorized.assemble_ok (s := ⟨(), #[]⟩) compute_shearedFace rfl
    sizesOf_sheared (by decide)
  have hdense := Dense.assemble_ok (s := ⟨(), #[]⟩) compute_shearedFace rfl sizesOf_sheared
    (by decide) hdet
  exact ⟨_, _, .factorized hfactorized, .dense hdense,
    assembled_answers (.factorized hfactorized) ⟨by decide, by decide⟩,
    assembled_answers (.dense hdense) ⟨by decide, by decide⟩⟩

end TensorDiffusion
