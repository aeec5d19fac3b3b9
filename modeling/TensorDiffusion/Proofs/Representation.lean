import TensorDiffusion.Proofs.Conservation
import TensorDiffusion.Proofs.Factors
import TensorDiffusion.Proofs.Lifecycle

/-!
# Representations of a coefficient

A coefficient may be given as a constant, as a function of the place or as samples, and a constant
may be stored as a single value or as one for every point.  An operator depends on none of this
(`operator_free_of_representation`): a setup reads the samples point by point, and these are the
same (`OperatorData.setup_congr`).  The Jacobians are the same, too, although a function asks for
the coordinates in the same pass (`Geometry.jacobians_eq`).  No law of arithmetic is used.
-/

namespace TensorDiffusion

variable {α : Type}

/-! ### Setups -/

/-- Samples that stand for all points, and are the same at every one. -/
structure SameSamples [Zero α] (nq ne : Nat) (c c' : Array α) : Prop where
  left : c.size = 1 ∨ c.size = nq * ne
  right : c'.size = 1 ∨ c'.size = nq * ne
  entry : ∀ q e, q < nq → e < ne → sampleEntry nq c q e = sampleEntry nq c' q e

/-- A value stands for as many copies of it as there are points. -/
theorem SameSamples.constant [Zero α] (nq ne : Nat) (v : α) :
    SameSamples nq ne #[v] (Array.replicate (nq * ne) v) where
  left := .inl rfl
  right := .inr Array.size_replicate
  entry q e hq he := by
    have hlt : q + nq * e < nq * ne := pair_lt hq he
    have hcopy : ∀ n < nq * ne, (Array.replicate (nq * ne) v).getD n 0 = v := fun n hn => by
      rw [Array.getD_eq_getD_getElem?, Array.getElem?_replicate, if_pos hn, Option.getD_some]
    rw [sampleEntry, sampleEntry, if_pos Array.size_singleton, hcopy _ (Nat.zero_lt_of_lt hlt),
      hcopy _ hlt, ite_self]
    rfl

namespace OperatorData

variable {kernel : Kernel α} {form : α → (Nat → Nat → α) → Array α} {config : Execution}
  {q1d ne : Nat} {w j c c' op : Array α}

/-- What is reported of sizes does not depend on samples of the right number. -/
theorem plan_eq_error_iff (hk : HasKernel kernel.dim kernel.sdim)
    (hc : c.size = 1 ∨ c.size = q1d ^ kernel.dim * ne) {opLen : Nat} {fault : Fault} :
    plan kernel q1d ne w j c opLen = .error fault ↔
      checks kernel q1d ne w j opLen = .error fault := by
  cases hchecked : checks kernel q1d ne w j opLen with
  | error cause =>
    rw [plan_eq_checks, hchecked]
    exact ⟨fun h => congrArg _ (Except.error.inj h), fun h => congrArg _ (Except.error.inj h)⟩
  | ok checked =>
    obtain ⟨v, hplan, -⟩ := plan_ok hk ((sizes_of_checks hk hchecked).2 hc)
    rw [hplan]
    exact ⟨fun h => (nomatch h), fun h => (nomatch h)⟩

variable [Zero α] [Mul α]

theorem stored_congr {nq sdim dim : Nat} (h : SameSamples nq ne c c')
    (hop : op.size = nq * symmetricEntries dim * ne) :
    stored form nq sdim dim w j c op = stored form nq sdim dim w j c' op := by
  refine mapIdx_congr fun n _ hn => ?_
  rw [hop] at hn
  have hq : n % (nq * symmetricEntries dim) % nq < nq :=
    mod_lt_left (mod_lt_left hn)
  rw [storedEntry, storedEntry, formAt, formAt, h.entry _ _ hq (div_lt_right hn)]

/-- A setup depends on what the samples are at the points. -/
theorem run_congr (hform : kernel.Computes form) (hk : HasKernel kernel.dim kernel.sdim)
    (h : SameSamples (q1d ^ kernel.dim) ne c c') :
    run kernel config q1d ne w j c = run kernel config q1d ne w j c' := by
  funext op
  cases hplan : plan kernel q1d ne w j c op.size with
  | ok p =>
    have hsizes := sizes_of_plan hk hplan
    have hsame : stored form (q1d ^ kernel.dim) kernel.sdim kernel.dim w j c op = _ :=
      stored_congr h hsizes.op
    exact (run_eq hform hk hsizes).trans
      (hsame ▸ (run_eq hform hk { hsizes with c := h.right }).symm)
  | error fault =>
    have hplan' : plan kernel q1d ne w j c' op.size = .error fault :=
      (plan_eq_error_iff hk h.right).2 ((plan_eq_error_iff hk h.left).1 hplan)
    have hfails : ∀ {c}, plan kernel q1d ne w j c op.size = .error fault →
        (run kernel config q1d ne w j c).run op = .error fault op := fun hc =>
      (run_bind_ok (run_get op)).trans (run_bind_error (run_ofExcept_error hc op))
    exact (hfails hplan).trans (hfails hplan').symm

/-- **A setup depends on the samples point by point**, whatever their form. -/
theorem setup_congr [One α] [Add α] [Sub α] [Neg α] [Div α] [SquareRoot α] {dim sdim : Nat}
    (hk : HasKernel dim sdim) (h : SameSamples (q1d ^ dim) ne c c') :
    setup config dim sdim q1d ne w j c = setup config dim sdim q1d ne w j c' := by
  refine bind_congr fun _ => ?_
  rcases hk with ⟨rfl, rfl⟩ | ⟨rfl, rfl⟩ | ⟨rfl, rfl⟩
  · exact congrArg Run.onValue (run_congr planar_computes (.inl ⟨rfl, rfl⟩) h)
  · exact congrArg Run.onValue (run_congr surface_computes (.inr (.inl ⟨rfl, rfl⟩)) h)
  · exact congrArg Run.onValue (run_congr solid_computes (.inr (.inr ⟨rfl, rfl⟩)) h)

end OperatorData

/-! ### Computations that do the same -/

namespace Run

variable {σ β γ : Type}

/-- The result of a computation and the value that it leaves, without the journal. -/
def returned : EStateM.Result Fault (Session σ) β → Except Fault (β × σ)
  | .ok result s   => .ok (result, s.value)
  | .error fault _ => .error fault

/-- Two computations that do the same but for the journal. -/
def Same (x y : Run σ β) : Prop :=
  ∀ value events others, returned (x.run ⟨value, events⟩) = returned (y.run ⟨value, others⟩)

theorem OnlyWrites.same {x : Run σ β} (h : OnlyWrites x) : Same x x := by
  have hjournal : ∀ value events,
      returned (x.run ⟨value, events⟩) = returned (x.run ⟨value, #[]⟩) := fun value events => by
    rw [h value events]
    cases x.run ⟨value, #[]⟩ <;> rfl
  exact fun value events others => (hjournal value events).trans (hjournal value others).symm

namespace Same

theorem record (event other : Event) : Same (record event : Run σ Unit) (record other) :=
  fun _ _ _ => rfl

theorem bind {x y : Run σ β} {f g : β → Run σ γ} (h : Same x y) (hfg : ∀ b, Same (f b) (g b)) :
    Same (x >>= f) (y >>= g) := by
  intro value events others
  have hfirst := h value events others
  cases hx : x.run ⟨value, events⟩ with
  | ok b s =>
    cases hy : y.run ⟨value, others⟩ with
    | ok b' s' =>
      obtain ⟨left, _⟩ := s
      obtain ⟨right, _⟩ := s'
      rw [hx, hy] at hfirst
      obtain ⟨rfl, rfl⟩ : b = b' ∧ left = right := Prod.mk.inj (Except.ok.inj hfirst)
      rw [run_bind_ok hx, run_bind_ok hy]
      exact hfg b left _ _
    | error fault s' =>
      rw [hx, hy] at hfirst
      exact nomatch hfirst
  | error fault s =>
    cases hy : y.run ⟨value, others⟩ with
    | ok b' s' =>
      rw [hx, hy] at hfirst
      exact nomatch hfirst
    | error fault' s' =>
      rw [hx, hy] at hfirst
      obtain rfl : fault = fault' := Except.error.inj hfirst
      rw [run_bind_error hx, run_bind_error hy]
      rfl

theorem map {x y : Run σ β} (f : β → γ) (h : Same x y) : Same (f <$> x) (f <$> y) := by
  rw [map_eq_pure_bind, map_eq_pure_bind]
  exact h.bind fun b => (OnlyWrites.pure (f b)).same

end Same

end Run

/-! ### Assemblies -/

/-- Both fail in one way, or both return, with related results. -/
def Alike {β : Type} (r : β → β → Prop) : Except Fault β → Except Fault β → Prop
  | .ok a, .ok b                   => r a b
  | .error fault, .error fault' => fault = fault'
  | _, _                           => False

/-- What comes after one first step is alike. -/
theorem Alike.bind {β γ : Type} {r : γ → γ → Prop} {m : Except Fault β}
    {f g : β → Except Fault γ} (h : ∀ a, m = .ok a → Alike r (f a) (g a)) :
    Alike r (m >>= f) (m >>= g) := by
  cases m with
  | ok a => exact h a rfl
  | error fault => exact rfl

/-- Two computations that are alike to a third one are alike. -/
theorem Alike.of_common {β : Type} {r : β → β → Prop} (hr : ∀ {a b c}, r a c → r b c → r a b)
    {x y z : Except Fault β} (hx : Alike r x z) (hy : Alike r y z) : Alike r x y := by
  match x, y, z, hx, hy with
  | .ok _, .ok _, .ok _, hx, hy             => exact hr hx hy
  | .error _, .error _, .error _, rfl, rfl => exact rfl

/-- Computations that go on alike from related results are the same. -/
theorem Alike.bind_same {β γ σ : Type} {r : β → β → Prop} {m m' : Except Fault β}
    {f g : β → Run σ γ} (h : Alike r m m') (hfg : ∀ a b, r a b → Run.Same (f a) (g b)) :
    Run.Same (ofExcept m >>= f) (ofExcept m' >>= g) := by
  intro value events others
  match m, m', h with
  | .ok a, .ok b, h =>
    rw [run_bind_ok (run_ofExcept rfl _), run_bind_ok (run_ofExcept rfl _)]
    exact hfg a b h value events others
  | .error fault, .error _, rfl =>
    rw [run_bind_error (run_ofExcept_error rfl _), run_bind_error (run_ofExcept_error rfl _)]
    rfl

namespace PointData

/-- Data that differ in the form of the samples and in what was computed beside the Jacobians. -/
structure SameForms [Zero α] (data data' : PointData α) : Prop where
  shape : data'.shape = data.shape
  ne : data'.ne = data.ne
  tables : data'.tables = data.tables
  jacobians : data'.geometry.jacobians = data.geometry.jacobians
  samples : SameSamples (data.shape.q1d ^ data.shape.dim) data.ne data.samples.values
    data'.samples.values

theorem SameForms.of_common [Zero α] {data data' common : PointData α} (h : SameForms data common)
    (h' : SameForms data' common) : SameForms data data' := by
  obtain ⟨hshape, hne, htables, hjacobians, hsamples⟩ := h
  obtain ⟨hshape', hne', htables', hjacobians', hsamples'⟩ := h'
  rw [← hshape', ← hne', hshape, hne] at hsamples'
  exact ⟨hshape'.symm.trans hshape, hne'.symm.trans hne, htables'.symm.trans htables,
    hjacobians'.symm.trans hjacobians, hsamples.left, hsamples'.left,
    fun q e hq he => (hsamples.entry q e hq he).trans (hsamples'.entry q e hq he).symm⟩

end PointData

section

variable [Zero α] [One α] [Add α] [Sub α] [Mul α] [Neg α] [Div α] [BEq α] [OfDouble α]
  [SquareRoot α] [Stored α]

open Run

/-- **Contexts of one setup** are assembled to the same operator. -/
theorem Factorized.assemble_same {context context' : Context α}
    (hrule : context'.rule = context.rule) (hexecution : context'.execution = context.execution)
    (h : Alike PointData.SameForms (PointData.compute context) (PointData.compute context')) :
    Same (assemble context) (assemble context') := by
  refine h.bind_same fun data data' hsame => ?_
  obtain ⟨shape, ne, tables, geometry, samples⟩ := data
  obtain ⟨shape', ne', tables', geometry', samples'⟩ := data'
  obtain ⟨hshape, hne, htables, hjacobians, hsamples⟩ := hsame
  obtain rfl : shape' = shape := hshape
  obtain rfl : ne' = ne := hne
  obtain rfl : tables' = tables := htables
  refine .bind (.record _ _) fun _ => .bind (OnlyWrites.ofExcept _).same fun blank => ?_
  have hj : PointData.jacobians ⟨shape', ne', tables', geometry', samples'⟩ =
      PointData.jacobians ⟨shape', ne', tables', geometry, samples⟩ := by
    rw [PointData.jacobians, PointData.jacobians, hjacobians]
  rw [hj, hrule, hexecution]
  refine .bind (OnlyWrites.ofExcept _).same fun j => ?_
  dsimp only
  rw [OperatorData.setup_congr shape'.hasKernel hsamples]
  exact (OnlyWrites.bind (.within blank (OperatorData.setup_onlyWrites _ _ _ _ _ _ _ _))
    fun _ => .pure _).same

end

/-! ### Data -/

/-- The samples of a coefficient are the same at every point in both ways to store them. -/
theorem Samples.take_storage [Zero α] [Stored α] (coefficient : Coefficient α)
    (geometry : Geometry α) (config : Execution)
    (hroom : Stored.bytes α * (geometry.nq * geometry.ne) < Size.bufferBound) :
    Alike (fun full compressed => ∀ q e, q < geometry.nq → e < geometry.ne →
        ∃ v, full.get q e = .ok v ∧ compressed.get q e = .ok v)
      (take coefficient geometry .full config) (take coefficient geometry .compressed config) := by
  have hfits := lt_of_bytes hroom
  have htaken : ∀ storage, Alike (fun full compressed : Samples α => ∀ q e, q < geometry.nq →
      e < geometry.ne → ∃ v, full.get q e = .ok v ∧ compressed.get q e = .ok v)
      (take coefficient geometry storage config) (take coefficient geometry storage config) := by
    intro storage
    cases htake : take coefficient geometry storage config with
    | error fault => exact rfl
    | ok samples =>
      intro q e hq he
      have hget := get_eq (nq_of_take htake) (size_of_take htake) hfits hq he
      exact ⟨_, hget, hget⟩
  cases coefficient with
  | constant v =>
    rw [take, take, Size.mul_ok hfits, ok_bind, filled_ok hroom]
    intro q e hq he
    have hsame := SameSamples.constant geometry.nq geometry.ne v
    refine ⟨_, get_eq rfl hsame.right hfits hq he, ?_⟩
    rw [← hsame.entry q e hq he]
    exact get_eq rfl hsame.left hfits hq he
  | samples values => exact htaken .full
  | function field => exact htaken .full
  | vector => exact rfl
  | matrix => exact rfl

section

variable [Zero α] [One α] [Add α] [Sub α] [Mul α] [Div α] [BEq α] [OfDouble α] [Stored α]
  {space : Space α} {rule : TensorRule α} {basis : LagrangeBasis α} {tables : Tables α}
  {want : Quantities} {config : Execution} {geometry : Geometry α}

/-- The geometric factors of a space at the points of a rule. -/
def Space.factors (space : Space α) (rule : TensorRule α) (want : Quantities)
    (config : Execution) : Except Fault (Geometry α) := do
  let tables ← Tables.ofRule (← space.basis) rule
  Geometry.ofNodes space.dim space.sdim tables space.nodes want config

/-- There is room for the Jacobians and the coordinates of all points. -/
def Space.HoldsFactors (space : Space α) (rule : TensorRule α) : Prop :=
  FitsMemory α (rule.numPoints1d ^ space.dim * space.sdim * (space.dim + 1)) space.numElements

instance (space : Space α) (rule : TensorRule α) : Decidable (space.HoldsFactors rule) :=
  inferInstanceAs (Decidable (FitsMemory ..))

/-- The sizes of the factors of a space. -/
theorem Space.sized_of_ofNodes (hbasis : space.basis = .ok basis)
    (htables : Tables.ofRule basis rule = .ok tables)
    (h : Geometry.ofNodes space.dim space.sdim tables space.nodes want config = .ok geometry) :
    geometry.Sized space.dim space.sdim (rule.numPoints1d ^ space.dim) space.numElements want := by
  have hsized := Geometry.sized_of_ofNodes h
  obtain ⟨-, hndof, hnqpt⟩ := Tables.paired_of_ofRule htables
  rwa [hnqpt, hndof, numNodes_basis hbasis, space.size_div_element] at hsized

/-- Where the coordinates are computed, the Jacobians are, with the coordinates and without. -/
theorem Space.factors_of_coordinates (hbasis : space.basis = .ok basis)
    (htables : Tables.ofRule basis rule = .ok tables)
    (h : Geometry.ofNodes space.dim space.sdim tables space.nodes want config = .ok geometry)
    {x : Array α} (hx : geometry.coordinates = some x) (hroom : space.HoldsFactors rule)
    (config' : Execution) :
    ∃ both one j,
      Geometry.ofNodes space.dim space.sdim tables space.nodes ⟨true, true⟩ config' = .ok both ∧
      Geometry.ofNodes space.dim space.sdim tables space.nodes ⟨true, false⟩ config' = .ok one ∧
      both.jacobians = some j ∧ one.jacobians = some j ∧ both.coordinates = some x := by
  have hwant := (Geometry.wanted_of_ofNodes h).2 (hx ▸ rfl)
  obtain ⟨-, -, hnqpt⟩ := Tables.paired_of_ofRule htables
  have hlayout : (Geometry.layoutOf space.dim space.sdim tables.nqpt ⟨true, true⟩).len =
      rule.numPoints1d ^ space.dim * space.sdim * (space.dim + 1) := by
    rw [hnqpt, Nat.mul_add, Nat.mul_one]
    rfl
  have hboth : FitsMemory α (Geometry.layoutOf space.dim space.sdim tables.nqpt ⟨true, true⟩).len
      geometry.ne := by
    rw [hlayout, (sized_of_ofNodes hbasis htables h).ne]
    exact hroom
  have hone : FitsMemory α (Geometry.layoutOf space.dim space.sdim tables.nqpt ⟨true, false⟩).len
      geometry.ne := hboth.mono (Nat.add_le_add_left (Nat.zero_le _) _)
  obtain ⟨both, hboth'⟩ := Geometry.ofNodes_of_ofNodes h (.inr hwant) hboth config'
  obtain ⟨one, hone'⟩ := Geometry.ofNodes_of_ofNodes h (.inr hwant) hone config'
  obtain ⟨j, hj, -⟩ := (Geometry.sized_of_ofNodes hboth').jacobians rfl
  obtain ⟨j', hj', -⟩ := (Geometry.sized_of_ofNodes hone').jacobians rfl
  obtain ⟨x', hx', -⟩ := (Geometry.sized_of_ofNodes hboth').coordinates rfl
  obtain rfl := Geometry.coordinates_eq h hboth' hx hx'
  obtain rfl := Geometry.jacobians_eq hboth' hone' hj hj'
  exact ⟨both, one, j, hboth', hone', hj, hj', hx'⟩

namespace PointData

omit [Zero α] [One α] [Add α] [Sub α] [Mul α] [Div α] [BEq α] [OfDouble α] [Stored α] in
/-- Scalar coefficients have the same kernels. -/
theorem kernelShape_congr (c c' : Coefficient α) (hc : c.isScalar) (hc' : c'.isScalar) :
    kernelShape ⟨space, rule, c, config⟩ = kernelShape ⟨space, rule, c', config⟩ := by
  rw [kernelShape, kernelShape]
  dsimp only
  rw [insist_eq_ok.2 hc, insist_eq_ok.2 hc']

/-- A constant and as many copies of it as there are points give the same forms. -/
theorem constant_alike (space : Space α) (rule : TensorRule α) (config : Execution) (v : α) :
    Alike SameForms (compute ⟨space, rule, .constant v, config⟩)
      (compute ⟨space, rule, .samples (Array.replicate
        (rule.numPoints1d ^ space.dim * space.numElements) v), config⟩) := by
  rw [compute, compute, kernelShape_congr (.samples _) (.constant v) rfl rfl]
  refine Alike.bind fun shape hshape => Alike.bind fun basis hbasis =>
    Alike.bind fun tables htables => Alike.bind fun geometry hgeometry => ?_
  obtain ⟨hdim, -, -, hq1d, -⟩ := kernelShape_eq hshape
  have hsized := Space.sized_of_ofNodes hbasis htables hgeometry
  have hroom := Geometry.points_room_of_ofNodes hgeometry (.inl rfl)
  rw [hsized.nq, hsized.ne] at hroom
  rw [Samples.take_samples_eq hsized config hroom Array.size_replicate]
  refine ⟨rfl, rfl, rfl, rfl, ?_⟩
  show SameSamples (shape.q1d ^ shape.dim) space.numElements #[v] _
  rw [hq1d, hdim]
  exact .constant _ _ v

/-- A function and its values at the points give the same forms. -/
theorem function_alike {x : Array α} (hfactors : space.factors rule want config = .ok geometry)
    (hx : geometry.coordinates = some x) (hroom : space.HoldsFactors rule) (config' : Execution)
    (field : Array α → α) :
    Alike SameForms (compute ⟨space, rule, .function field, config'⟩)
      (compute ⟨space, rule, .samples (Samples.fieldValues (rule.numPoints1d ^ space.dim) space.sdim
        space.numElements field x), config'⟩) := by
  obtain ⟨basis, hbasis, hfactors⟩ := bind_eq_ok.1 hfactors
  obtain ⟨tables, htables, hgeometry⟩ := bind_eq_ok.1 hfactors
  obtain ⟨both, one, j, hboth, hone, hj, hj', hx'⟩ :=
    Space.factors_of_coordinates hbasis htables hgeometry hx hroom config'
  have hsized := Space.sized_of_ofNodes hbasis htables hboth
  have hsized' := Space.sized_of_ofNodes hbasis htables hone
  rw [compute, compute, kernelShape_congr (.samples _) (.function field) rfl rfl]
  refine Alike.bind fun shape hshape => ?_
  obtain ⟨hdim, -, -, hq1d, -⟩ := kernelShape_eq hshape
  have hpoints : 0 < rule.numPoints1d ^ space.dim := Nat.pow_pos (hq1d ▸ shape.q1d_pos)
  have hroom' : FitsMemory α (rule.numPoints1d ^ space.dim * space.sdim) space.numElements :=
    FitsMemory.mono hroom (Nat.le_mul_of_pos_right _ (Nat.succ_pos _))
  have hfits := Geometry.points_room_of_ofNodes hone (.inl rfl)
  rw [hsized'.nq, hsized'.ne] at hfits
  have hfunction : Samples.take (.function field) both .compressed config' = _ :=
    Samples.take_function_eq hsized config' hx' rfl hpoints ⟨space.sdim_pos, space.sdim_le⟩
      hroom'.lt hfits field
  obtain ⟨values, hvalues, hsize⟩ : ∃ values, Samples.fieldValues
      (rule.numPoints1d ^ space.dim) space.sdim space.numElements field x = values ∧
        values.size = rule.numPoints1d ^ space.dim * space.numElements :=
    ⟨_, rfl, Array.size_ofFn⟩
  rw [hvalues] at hfunction ⊢
  have hsamples : Samples.take (.samples values) one .compressed config' = _ :=
    Samples.take_samples_eq hsized' config' hfits hsize
  have hboth : Geometry.ofNodes space.dim space.sdim tables space.nodes (wanted (.function field))
      config' = .ok both := hboth
  have hone : Geometry.ofNodes space.dim space.sdim tables space.nodes (wanted (.samples values))
      config' = .ok one := hone
  simp only [hbasis, htables, hboth, hone, hfunction, hsamples, ok_bind]
  refine ⟨rfl, rfl, rfl, hj'.trans hj.symm, .inr ?_, .inr ?_, fun _ _ _ _ => rfl⟩
  · rw [hsize, hq1d, hdim]
  · rw [hsize, hq1d, hdim]

end PointData

end

/-! ### Integrators -/

namespace Integrator

/-- The integrator with another coefficient. -/
def weighing (integrator : Integrator α) (coefficient : Coefficient α) : Integrator α :=
  { integrator with coefficient }

/-- A provider, if there is one, leaves the space to the sum-factorized form. -/
def KeepsNative [OfDouble α] (integrator : Integrator α) (space : Space α) : Prop :=
  ∀ provider rule, integrator.provider = some provider →
    integrator.integrationRule space = .ok rule →
    provider.accepts (integrator.context space rule) = false

variable [Zero α] [One α] [Add α] [Sub α] [Mul α] [Neg α] [Div α] [BEq α] [OfDouble α]
  [SquareRoot α] [Stored α] {integrator : Integrator α} {space : Space α} {rule : TensorRule α}

/-- What an assembly makes of a space: a backend, or a fault. -/
def outcome (integrator : Integrator α) (space : Space α) (events : Array Event) :
    Except Fault (Option (Backend α)) :=
  (fun made => made.2.backend) <$> Run.returned ((assemble space).run ⟨integrator, events⟩)

/-- A native assembly makes the same of a space with both coefficients: the same operator, or the
same fault. -/
def SameOutcome (integrator : Integrator α) (space : Space α) (events : Array Event)
    (c c' : Coefficient α) : Prop :=
  (integrator.weighing c).KeepsNative space → (integrator.weighing c').KeepsNative space →
    (integrator.weighing c).outcome space events = (integrator.weighing c').outcome space events

theorem KeepsNative.chosen_eq (h : integrator.KeepsNative space)
    (hrule : integrator.integrationRule space = .ok rule) :
    chosen integrator.provider (integrator.context space rule) =
      Backend.factorized <$> Factorized.assemble (integrator.context space rule) := by
  unfold chosen
  split
  · rfl
  · next provider hprovider =>
    rw [h provider rule hprovider hrule]
    rfl

/-- An integrator whose provider leaves the space to the sum-factorized form makes one. -/
theorem KeepsNative.chosen_ok {backend : Backend α} {s s' : Session Unit}
    (h : integrator.KeepsNative space) (hrule : integrator.integrationRule space = .ok rule) :
    (chosen integrator.provider (integrator.context space rule)).run s = .ok backend s' ↔
      ∃ operator, (Factorized.assemble (integrator.context space rule)).run s = .ok operator s' ∧
        backend = .factorized operator := by
  rw [h.chosen_eq hrule]
  exact run_map_eq_ok

/-- After a successful assembly it holds the operator of its context. -/
theorem KeepsNative.assembled (h : integrator.KeepsNative space)
    (hrule : integrator.integrationRule space = .ok rule) {events : Array Event}
    {last : Session (Integrator α)} (hrun : (assemble space).run ⟨integrator, events⟩ = .ok () last) :
    ∃ data j, PointData.compute (integrator.context space rule) = .ok data ∧
      data.jacobians = .ok j ∧ data.FormsFit ∧ last.value =
        (integrator.asked (integrator.context space rule)).holding
          (.factorized (Factorized.ofData (integrator.context space rule) data j)) := by
  obtain ⟨_, s, _, s', hfound, hchosen, rfl⟩ := assemble_run_ok.1 hrun
  obtain rfl := Except.ok.inj (hrule.symm.trans (ruleFor_eq_ok hfound))
  obtain ⟨operator, hoperator, rfl⟩ := (h.chosen_ok hrule).1 hchosen
  obtain ⟨data, j, hcompute, hj, rfl, -, hforms⟩ := Factorized.assemble_eq_ok hoperator
  exact ⟨data, j, hcompute, hj, hforms, rfl⟩

/-- The outcome is that of the sum-factorized form. -/
theorem KeepsNative.outcome_eq (h : integrator.KeepsNative space) (events : Array Event) :
    integrator.outcome space events =
      match (integrator.ruleFor space).run ⟨(), events⟩ with
      | .error fault _ => .error fault
      | .ok rule s => (fun made => some made.1) <$> Run.returned
          ((Backend.factorized <$> Factorized.assemble (integrator.context space rule)).run s) := by
  rw [outcome, assemble_eq]
  cases hrule : (integrator.ruleFor space).run ⟨(), events⟩ with
  | error fault s => rfl
  | ok rule s =>
    dsimp only
    rw [h.chosen_eq (ruleFor_eq_ok hrule)]
    cases (Backend.factorized <$> Factorized.assemble (integrator.context space rule)).run s <;> rfl

/-- Coefficients that give the same forms have the same outcome. -/
theorem SameOutcome.of_alike {c c' : Coefficient α} {events : Array Event}
    (hfound : integrator.integrationRule space = .ok rule)
    (h : Alike PointData.SameForms (PointData.compute ⟨space, rule, c, integrator.execution⟩)
      (PointData.compute ⟨space, rule, c', integrator.execution⟩)) :
    integrator.SameOutcome space events c c' := by
  intro hc hc'
  rw [hc.outcome_eq, hc'.outcome_eq]
  have hrules : (integrator.weighing c).ruleFor space = (integrator.weighing c').ruleFor space :=
    ruleFor_congr rfl space
  rw [hrules]
  cases hrule : ((integrator.weighing c').ruleFor space).run ⟨(), events⟩ with
  | error fault s => rfl
  | ok rule' s =>
    obtain rfl := Except.ok.inj (hfound.symm.trans (ruleFor_eq_ok hrule))
    have hsame : Run.Same (Factorized.assemble ((integrator.weighing c).context space rule))
        (Factorized.assemble ((integrator.weighing c').context space rule)) :=
      Factorized.assemble_same rfl rfl h
    exact congrArg ((fun made => some made.1) <$> ·)
      (hsame.map Backend.factorized () s.events s.events)

end Integrator

/-! ### Representations -/

section

variable [Zero α] [One α] [Add α] [Sub α] [Mul α] [Neg α] [Div α] [BEq α] [OfDouble α]
  [SquareRoot α] [Stored α]

/-- The coordinates of the points of a rule, as they are computed with or without the Jacobians. -/
def Space.CoordinatesAt (space : Space α) (rule : TensorRule α) (x : Array α) : Prop :=
  ∃ want config geometry, space.factors rule want config = .ok geometry ∧
    geometry.coordinates = some x

/-- **The representation of a coefficient** makes no difference to an operator in the native form,
or to the fault that is reported.  A function gives what its values at the points give, a constant
what as many copies of it give or a function with this one value.  Samples of one coefficient that
are stored in full and those that are compressed are the same at every point. -/
theorem operator_free_of_representation (integrator : Integrator α) (space : Space α)
    (events : Array Event) :
    (∀ rule x, integrator.integrationRule space = .ok rule → space.CoordinatesAt rule x →
      space.HoldsFactors rule → ∀ field : Array α → α,
        integrator.SameOutcome space events (.function field)
          (.samples (Samples.fieldValues (rule.numPoints1d ^ space.dim) space.sdim space.numElements
            field x))) ∧
    (∀ rule (v : α), integrator.integrationRule space = .ok rule →
      integrator.SameOutcome space events (.constant v) (.samples
        (Array.replicate (rule.numPoints1d ^ space.dim * space.numElements) v)) ∧
      ∀ x, space.CoordinatesAt rule x → space.HoldsFactors rule →
        integrator.SameOutcome space events (.function fun _ => v) (.constant v)) ∧
    ∀ (coefficient : Coefficient α) (geometry : Geometry α) (config : Execution),
      Stored.bytes α * (geometry.nq * geometry.ne) < Size.bufferBound →
      Alike (fun full compressed => ∀ q e, q < geometry.nq → e < geometry.ne →
          ∃ v, full.get q e = .ok v ∧ compressed.get q e = .ok v)
        (Samples.take coefficient geometry .full config)
        (Samples.take coefficient geometry .compressed config) := by
  refine ⟨fun rule x hrule hx hroom field => ?_, fun rule v hrule => ⟨?_, fun x hx hroom => ?_⟩,
    Samples.take_storage⟩
  · obtain ⟨want, config, geometry, hfactors, hcoordinates⟩ := hx
    exact .of_alike hrule (PointData.function_alike hfactors hcoordinates hroom _ field)
  · exact .of_alike hrule (PointData.constant_alike space rule _ v)
  · obtain ⟨want, config, geometry, hfactors, hcoordinates⟩ := hx
    have hfunction := PointData.function_alike hfactors hcoordinates hroom integrator.execution
      fun _ => v
    rw [Samples.fieldValues_const] at hfunction
    exact .of_alike hrule
      (hfunction.of_common .of_common (PointData.constant_alike space rule _ v))

end

/-! ### One point -/

/-- The coordinates of the middle of a face. -/
theorem Geometry.ofNodes_middle {b₀ b₁ g₀ g₁ x₀ x₁ x₂ x₃ y₀ y₁ y₂ y₃ : ℝ} {bt gt : Array ℝ} :
    Geometry.ofNodes 2 2 ⟨2, 1, #[b₀, b₁], #[g₀, g₁], bt, gt⟩ #[x₀, x₁, x₂, x₃, y₀, y₁, y₂, y₃]
      ⟨false, true⟩ {} = .ok ⟨2, 2, 1, 1, none, some #[
        0 + b₀ * (0 + b₀ * x₀ + b₁ * x₁) + b₁ * (0 + b₀ * x₂ + b₁ * x₃),
        0 + b₀ * (0 + b₀ * y₀ + b₁ * y₁) + b₁ * (0 + b₀ * y₂ + b₁ * y₃)]⟩ := by
  cbv

theorem coordinatesAt_sheared : shearedFace.CoordinatesAt middleRule #[0, 0] := by
  refine ⟨⟨false, true⟩, {}, ⟨2, 2, 1, 1, none, some #[0, 0]⟩, ?_, rfl⟩
  refine bind_eq_ok.2 ⟨_, Space.basis_of_order_one rfl, bind_eq_ok.2
    ⟨_, Tables.ofRule_middle, ?_⟩⟩
  rw [middleTables]
  refine Geometry.ofNodes_middle.trans ?_
  norm_num [half]

/-- The sheared face has a single point, so a single sample stands for all points and is one for
every point.  It is assembled with a constant, with the constant as this sample, and with any
function as its value in the middle. -/
theorem operator_free_of_representation_single_point :
    (∃ backend, (nativeIntegrator.weighing (.constant 1)).outcome shearedFace #[] =
      .ok (some backend)) ∧
    (nativeIntegrator.weighing (.constant 1)).outcome shearedFace #[] =
      (nativeIntegrator.weighing (.samples #[1])).outcome shearedFace #[] ∧
    (∀ field : Array ℝ → ℝ,
      (nativeIntegrator.weighing (.function field)).outcome shearedFace #[] =
        (nativeIntegrator.weighing (.samples #[field #[0, 0]])).outcome shearedFace #[]) ∧
    ∃ full compressed, Samples.take (.constant (1 : ℝ)) ⟨2, 2, 1, 1, none, none⟩ .full {} = .ok full ∧
      Samples.take (.constant (1 : ℝ)) ⟨2, 2, 1, 1, none, none⟩ .compressed {} = .ok compressed ∧
      ∃ v, full.get 0 0 = .ok v ∧ compressed.get 0 0 = .ok v := by
  obtain ⟨hfunction, hconstant, hstorage⟩ :=
    operator_free_of_representation nativeIntegrator shearedFace #[]
  have hkeeps : ∀ c, (nativeIntegrator.weighing c).KeepsNative shearedFace :=
    fun _ _ _ hprovider => nomatch hprovider
  refine ⟨?_, ?_, fun field => ?_, _, _, rfl, rfl, ?_⟩
  · obtain ⟨assembled, hassemble, hnative⟩ := assemble_shearedFace_native
    obtain ⟨backend, hbackend, -⟩ := Option.map_eq_some_iff.1 hnative
    refine ⟨backend, ?_⟩
    rw [← hbackend, Integrator.outcome]
    exact congrArg (fun r => (fun made => made.2.backend) <$> Run.returned r) hassemble
  · exact (hconstant middleRule 1 rfl).1 (hkeeps _) (hkeeps _)
  · exact hfunction middleRule _ rfl coordinatesAt_sheared (by decide) field (hkeeps _) (hkeeps _)
  · exact hstorage (.constant 1) ⟨2, 2, 1, 1, none, none⟩ {} (by decide) 0 0 Nat.one_pos Nat.one_pos

end TensorDiffusion
