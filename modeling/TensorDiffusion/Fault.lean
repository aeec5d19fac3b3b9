/-!
# Faults

What can go wrong, as causes.  A *refusal* is the answer to a request that cannot be met: the
caller asked for a rule, a space, a coefficient or an operator that does not exist.  A *violation*
is a broken precondition: a buffer of the wrong length, an index outside its axis, a size that
does not fit in 64 bits.  The wording of every cause is in `Refusal.message` and
`Violation.message` and nowhere else.
-/

namespace TensorDiffusion

/-- Why a request cannot be met. -/
inductive Refusal where
  /-- No quadrature rule has the number of points asked for. -/
  | noRule
  /-- A space of reference dimension `dim`, which is not 1, 2 or 3. -/
  | referenceDimension (dim : Nat)
  /-- A space dimension outside `dim … 3`. -/
  | spaceDimension (dim sdim : Nat)
  /-- A space of polynomial order zero. -/
  | orderZero
  /-- Nodal coordinates that do not divide into elements of `perElement` entries. -/
  | partialElement (len perElement : Nat)
  /-- Samples that do not give one value to each of `nq` points of `ne` elements. -/
  | sampleCount (len nq ne : Nat)
  /-- A function coefficient on geometry that carries no coordinates. -/
  | noCoordinates
  /-- A coefficient of the given kind cannot be sampled. -/
  | unsampledKind (kind : String)
  /-- Diffusion on curves. -/
  | oneDimensional
  /-- No kernel exists for these dimensions. -/
  | noKernel (dim sdim : Nat)
  /-- A shape without nodes. -/
  | noNodes
  /-- A shape without quadrature points. -/
  | noPoints
  /-- A shape beyond the limits in force. -/
  | beyondLimits (d1d q1d maxD1d maxQ1d : Nat)
  /-- A coefficient of the given kind cannot weigh a diffusion operator. -/
  | notScalar (kind : String)
  /-- A rule of one dimension on elements of another. -/
  | ruleDimension (rule space : Nat)
  /-- Geometry that carries no Jacobians. -/
  | noJacobians
  /-- A vector that is no element vector of the assembled operator. -/
  | vectorLength (name : String) (len expected : Nat)
  /-- The element map is not an immersion at a quadrature point. -/
  | singularJacobian (q e : Nat)
  /-- An operator is applied before it is assembled. -/
  | notAssembled
  deriving Repr, DecidableEq

/-- Which precondition is broken. -/
inductive Violation where
  /-- A sum of sizes needs more than 64 bits. -/
  | addOverflow
  /-- A difference of sizes is negative. -/
  | subOverflow
  /-- A product of sizes needs more than 64 bits. -/
  | mulOverflow
  /-- A power of a size needs more than 64 bits. -/
  | powOverflow
  /-- A remainder is taken by zero. -/
  | remainderByZero
  /-- A buffer of 2⁶³ bytes or more is requested. -/
  | capacityOverflow
  /-- A flat index outside its buffer. -/
  | position (len i : Nat)
  /-- A range that starts outside its buffer. -/
  | rangeStart (start len : Nat)
  /-- A range that ends outside its buffer. -/
  | rangeEnd (stop len : Nat)
  /-- A buffer is cut in two beyond its end. -/
  | cutBeyondEnd
  /-- A buffer is cut into chunks of length zero. -/
  | emptyChunks
  /-- A multi-index outside its shape. -/
  | axis (idx shape : List Nat)
  /-- A matrix index outside the matrix. -/
  | matrixIndex
  /-- A buffer too short for the matrix it is viewed as. -/
  | shortMatrix
  /-- A buffer too short for the shape it is viewed with. -/
  | shortBuffer (len : Nat)
  /-- A buffer is viewed with a shape whose size needs more than 63 bits. -/
  | shapeOverflow (len : Nat)
  /-- An interval rule is requested with no points. -/
  | gaussWithoutPoints
  /-- A Lobatto rule is requested with fewer than two points. -/
  | lobattoWithoutEndpoints
  /-- A tensor rule is requested with no points. -/
  | noPoints
  /-- A tensor rule is built for a dimension other than 1, 2 and 3. -/
  | ruleDimension
  /-- A tensor Gauss rule is requested for the given dimension, which is not 1, 2 or 3. -/
  | gaussDimension (dim : Nat)
  /-- A rule whose points and weights differ in number. -/
  | unpairedWeights
  /-- A basis without nodes. -/
  | noNodes
  /-- A basis with a repeated node. -/
  | repeatedNode
  /-- A nodal basis of order zero. -/
  | basisOrderZero
  /-- A basis is evaluated into a buffer that does not have one entry per node. -/
  | evaluationBuffer
  /-- A table of the given name that is not `Q1D × D1D`. -/
  | tableShape (name : String)
  /-- More nodes per axis than the limits in force allow. -/
  | nodeLimit (d1d limit : Nat)
  /-- More points per axis than the limits in force allow. -/
  | pointLimit (q1d limit : Nat)
  /-- The element loop is given chunks of length zero. -/
  | emptyElements
  /-- The element loop is given a buffer that does not divide into chunks. -/
  | partialChunk (len chunk : Nat)
  /-- Geometry of elements that are neither faces nor cells. -/
  | geometryDimension
  /-- Geometry in a space of the wrong dimension. -/
  | geometrySpace
  /-- Nodal coordinates that do not divide into elements. -/
  | nodesShape
  /-- An array of Jacobians of the wrong length. -/
  | jacobiansShape
  /-- A single Jacobian of the wrong shape. -/
  | jacobianShape
  /-- A kernel for a fixed size is called with another. -/
  | fixedSize (name : String) (fixed actual : Nat)
  /-- A kernel is called with a size of zero. -/
  | zeroSize
  /-- A setup kernel is called with no points per axis. -/
  | noSetupPoints
  /-- A buffer of the given name has the wrong length. -/
  | bufferLength (name : String) (len expected : Nat)
  /-- Coefficient samples that are neither one value nor one per point. -/
  | samplesLength (expected len : Nat)
  /-- Setup on curves. -/
  | setupOneDimensional
  /-- Setup for dimensions without a kernel. -/
  | setupDimensions (dim sdim : Nat)
  /-- A shape that selects a fixed-size kernel which does not exist. -/
  | noInstance (shape kernel : String)
  deriving Repr, DecidableEq

/-- A refusal or a violation. -/
inductive Fault where
  | refused (cause : Refusal)
  | violated (cause : Violation)
  deriving Repr, DecidableEq

/-- A list of sizes as text, such as `[2, 3]`. -/
def sizesText (sizes : List Nat) : String :=
  "[" ++ ", ".intercalate (sizes.map Nat.repr) ++ "]"

/-- The text of a refusal. -/
def Refusal.message : Refusal → String
  | .noRule => "There is no quadrature rule satisfying the requirements available"
  | .referenceDimension dim => s!"reference dimension must be 1, 2 or 3, got {dim}"
  | .spaceDimension dim sdim => s!"space dimension must be between {dim} and 3, got {sdim}"
  | .orderZero => "polynomial order must be at least 1"
  | .partialElement len perElement =>
      s!"nodal coordinates of length {len} do not match (D1D^dim, SDIM, NE) with "
        ++ s!"{perElement} entries per element"
  | .sampleCount len nq ne =>
      s!"coefficient has {len} values, but NQ * NE = {nq} * {ne} are required"
  | .noCoordinates => "function coefficients require quadrature point coordinates"
  | .unsampledKind kind =>
      s!"{kind} coefficients are not supported by the vector diffusion integrator"
  | .oneDimensional => "dim = 1 is not supported by the vector diffusion kernels"
  | .noKernel dim sdim => s!"no vector diffusion kernel for dim = {dim} and sdim = {sdim}"
  | .noNodes => "D1D must be positive"
  | .noPoints => "Q1D must be positive"
  | .beyondLimits d1d q1d maxD1d maxQ1d =>
      s!"D1D = {d1d} and Q1D = {q1d} exceed the kernel limits "
        ++ s!"(D1D <= {maxD1d}, Q1D <= {maxQ1d})"
  | .notScalar kind =>
      "only scalar coefficients are supported by the vector diffusion operator, "
        ++ s!"got a {kind} coefficient"
  | .ruleDimension rule space =>
      s!"quadrature rule of dimension {rule} does not match elements of dimension {space}"
  | .noJacobians => "geometric factors were computed without Jacobians"
  | .vectorLength name len expected =>
      s!"{name} has length {len}, but the operator was assembled for element vectors "
        ++ s!"of length {expected}"
  | .singularJacobian q e => s!"singular Jacobian at quadrature point {q} of element {e}"
  | .notAssembled => "vector diffusion integrator used before assemble_pa"

/-- The text of a violation. -/
def Violation.message : Violation → String
  | .addOverflow => "attempt to add with overflow"
  | .subOverflow => "attempt to subtract with overflow"
  | .mulOverflow => "attempt to multiply with overflow"
  | .powOverflow => "attempt to exponentiate with overflow"
  | .remainderByZero => "attempt to calculate the remainder with a divisor of zero"
  | .capacityOverflow => "capacity overflow"
  | .position len i => s!"index out of bounds: the len is {len} but the index is {i}"
  | .rangeStart start len =>
      s!"range start index {start} out of range for slice of length {len}"
  | .rangeEnd stop len => s!"range end index {stop} out of range for slice of length {len}"
  | .cutBeyondEnd => "mid > len"
  | .emptyChunks => "chunk size must be non-zero"
  | .axis idx shape =>
      s!"ndarray: index {sizesText idx} is out of bounds for array of shape {sizesText shape}"
  | .matrixIndex => "Matrix index out of bounds."
  | .shortMatrix => "Matrix slice: input data buffer to small."
  | .shortBuffer len =>
      s!"buffer of length {len} cannot be viewed with the requested shape: "
        ++ "ShapeError/OutOfBounds: out of bounds indexing"
  | .shapeOverflow len =>
      s!"buffer of length {len} cannot be viewed with the requested shape: "
        ++ "ShapeError/Overflow: arithmetic overflow"
  | .gaussWithoutPoints => "number of points must be positive: NoRuleAvailable"
  | .lobattoWithoutEndpoints =>
      "Gauss-Lobatto rules need at least two points: NoRuleAvailable"
  | .noPoints => "number of points must be positive"
  | .ruleDimension => "tensor rules are only available for dimensions 1, 2 and 3"
  | .gaussDimension dim =>
      s!"tensor rules are only available for dimensions 1, 2 and 3, got {dim}"
  | .unpairedWeights => "rule must have one weight per point"
  | .noNodes => "a Lagrange basis needs at least one node"
  | .repeatedNode => "Lagrange nodes must be distinct"
  | .basisOrderZero => "Gauss-Lobatto bases must have order at least 1"
  | .evaluationBuffer => ""
  | .tableShape name => s!"{name} must have shape (Q1D, D1D)"
  | .nodeLimit d1d limit =>
      s!"D1D = {d1d} exceeds the maximum of {limit} supported by the backend"
  | .pointLimit q1d limit =>
      s!"Q1D = {q1d} exceeds the maximum of {limit} supported by the backend"
  | .emptyElements => "element chunks must be non-empty"
  | .partialChunk len chunk =>
      s!"output length {len} is not a multiple of the element chunk length {chunk}"
  | .geometryDimension => "geometric factors are only available for dim 2 and 3"
  | .geometrySpace => "space dimension must be in dim ..= 3"
  | .nodesShape => "nodes must have shape (D1D^dim, SDIM, NE)"
  | .jacobiansShape => "Jacobians must have shape (NQ, SDIM, DIM, NE)"
  | .jacobianShape => "Jacobian must be a SDIM x DIM matrix"
  | .fixedSize name fixed actual =>
      s!"kernel instantiated for {name} = {fixed} called with {name} = {actual}"
  | .zeroSize => "sizes must be positive"
  | .noSetupPoints => "Q1D must be positive"
  | .bufferLength name len expected => s!"{name} has length {len}, expected {expected}"
  | .samplesLength expected len =>
      s!"coefficient must have length 1 or NQ * NE = {expected}, got {len}"
  | .setupOneDimensional => "dim = 1 is not supported by the vector diffusion setup"
  | .setupDimensions dim sdim =>
      s!"unsupported dimensions for vector diffusion setup: dim = {dim}, sdim = {sdim}"
  | .noInstance shape kernel =>
      s!"internal error: entered unreachable code: {shape} has no fixed-size {kernel} kernel"

/-- The text of a fault. -/
def Fault.message : Fault → String
  | .refused cause  => cause.message
  | .violated cause => cause.message

/-- Refuses a request. -/
def refuse {β : Type} (cause : Refusal) : Except Fault β :=
  .error (.refused cause)

/-- Reports a broken precondition. -/
def violate {β : Type} (cause : Violation) : Except Fault β :=
  .error (.violated cause)

/-- Refuses unless `p` holds. -/
def insist (p : Prop) [Decidable p] (cause : Refusal) : Except Fault Unit :=
  if p then .ok () else refuse cause

/-- Reports a broken precondition unless `p` holds. -/
def require (p : Prop) [Decidable p] (cause : Violation) : Except Fault Unit :=
  if p then .ok () else violate cause

theorem insist_eq_ok {p : Prop} [Decidable p] {cause : Refusal} :
    insist p cause = .ok () ↔ p := by
  unfold insist refuse; split <;> simp_all

theorem require_eq_ok {p : Prop} [Decidable p] {cause : Violation} :
    require p cause = .ok () ↔ p := by
  unfold require violate; split <;> simp_all

end TensorDiffusion
