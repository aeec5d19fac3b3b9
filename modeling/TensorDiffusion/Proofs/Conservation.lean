import TensorDiffusion.Proofs.Backends
import TensorDiffusion.Proofs.Partition

/-!
# Constants and fluxes

A field that is constant on every element is in the null space of an assembled operator, and what
the operator adds for any field cancels over the nodes of every element (`assembled_conserves`).
Both come from the tables alone: their functions are a partition of unity, so the gradient of a
constant vanishes at every point.  What the setup stores at the points is of no account, so this
holds of every mesh, rule and scalar coefficient.
-/

namespace TensorDiffusion

/-! ### One element -/

section

variable {K : Type} [Field K] {tables : Tables K} {dim e : Nat} {op : Array K}

namespace Tables.Partition

/-- The gradient of a constant vanishes. -/
theorem fieldGradient_constant (h : tables.Partition) (hnqpt : 0 < tables.nqpt) {l : Nat}
    (hl : l < dim) {x : Nat → K} {v : K} (hx : ∀ j < tables.ndof ^ dim, x j = v) (q : Nat) :
    fieldGradient dim tables.ndof tables.nqpt tables.b tables.g x l q = 0 := by
  calc fieldGradient dim tables.ndof tables.nqpt tables.b tables.g x l q
      = ∑ j ∈ Finset.range (tables.ndof ^ dim),
          gradientEntry dim tables.ndof tables.nqpt tables.b tables.g l q j * v :=
        Finset.sum_congr rfl fun j hj => by rw [hx j (Finset.mem_range.1 hj)]
    _ = 0 := by rw [← Finset.sum_mul, h.sum_gradientEntry hl hnqpt, zero_mul]

/-- **Constants** are in the null space of the operator of an element. -/
theorem stiffness_constant (h : tables.Partition) (hnqpt : 0 < tables.nqpt) {x : Nat → K} {v : K}
    (hx : ∀ j < tables.ndof ^ dim, x j = v) (i : Nat) :
    stiffness dim tables.ndof tables.nqpt tables.b tables.g op e x i = 0 := by
  refine Finset.sum_eq_zero fun q _ => Finset.sum_eq_zero fun k _ =>
    Finset.sum_eq_zero fun l hl => ?_
  rw [h.fieldGradient_constant hnqpt (Finset.mem_range.1 hl) hx, mul_zero]

/-- **Fluxes balance**: the operator of an element is symmetric, and tested with one it is the
operator applied to one. -/
theorem sum_stiffness (h : tables.Partition) (hnqpt : 0 < tables.nqpt) (x : Nat → K) :
    ∑ i ∈ Finset.range (tables.ndof ^ dim),
      stiffness dim tables.ndof tables.nqpt tables.b tables.g op e x i = 0 := by
  calc ∑ i ∈ Finset.range (tables.ndof ^ dim),
        stiffness dim tables.ndof tables.nqpt tables.b tables.g op e x i
      = ∑ i ∈ Finset.range (tables.ndof ^ dim),
          stiffness dim tables.ndof tables.nqpt tables.b tables.g op e x i * 1 := by
        simp only [mul_one]
    _ = ∑ i ∈ Finset.range (tables.ndof ^ dim),
          stiffness dim tables.ndof tables.nqpt tables.b tables.g op e (fun _ => 1) i * x i := by
        rw [sum_stiffness_mul x fun _ => 1, energy_comm, ← sum_stiffness_mul]
    _ = 0 := Finset.sum_eq_zero fun i _ => by
        rw [h.stiffness_constant hnqpt fun _ _ => rfl, zero_mul]

end Tables.Partition

end

/-! ### Vectors of a space -/

namespace Space

variable {K : Type} [Field K]

/-- Every component of the vector has one value at all nodes of an element.  The value may differ
between components and elements. -/
def ConstantOnElements (space : Space K) (x : Array K) : Prop :=
  ∀ e c, e < space.numElements → c < space.vdim →
    ∃ v, ∀ j < space.nodesPerElement, nodal space.nodesPerElement space.vdim x e c j = v

/-- Every component of the vector sums to zero over the nodes of each element. -/
def BalancedOnElements (space : Space K) (x : Array K) : Prop :=
  ∀ e c, e < space.numElements → c < space.vdim →
    ∑ j ∈ Finset.range space.nodesPerElement, nodal space.nodesPerElement space.vdim x e c j = 0

end Space

namespace PointData

variable {K : Type} [Field K] {context : Context K} {data : PointData K} {j x y : Array K}

/-- The tables of data that was computed are a partition of unity. -/
theorem partition_of_compute [BEq K] [LawfulBEq K] [OfDouble K] [Stored K]
    (h : compute context = .ok data) : data.tables.Partition := by
  obtain ⟨_, basis, tables, _, _, -, hbasis, htables, -, -, rfl⟩ := compute_eq_ok h
  obtain ⟨_, -, hnodes⟩ := Space.basis_eq_ok hbasis
  exact Tables.partition_of_ofRule hnodes htables

theorem WellFormed.nodesPerElement_eq (hwf : data.WellFormed context) :
    context.space.nodesPerElement = data.tables.ndof ^ data.shape.dim := by
  rw [hwf.ndof, hwf.d1d, hwf.dim]
  rfl

theorem WellFormed.vdim_eq (hwf : data.WellFormed context) :
    context.space.vdim = data.shape.vdim :=
  hwf.sdim.symm

variable [SquareRoot K]

theorem image_eq (hwf : data.WellFormed context) :
    image context data j x = stiffnessVector data.shape.dim data.shape.vdim data.tables.ndof
      data.tables.nqpt data.tables.b data.tables.g (Factorized.ofData context data j).op x := by
  rw [image, hwf.ndof, hwf.nqpt]

/-- What is added for a constant changes nothing. -/
theorem add_image_constant (hwf : data.WellFormed context) (h : data.tables.Partition)
    (hx : x.size = context.space.vectorLen) (hy : y.size = context.space.vectorLen)
    (hconstant : context.space.ConstantOnElements x) :
    Array.zipWith (· + ·) y (image context data j x) = y := by
  rw [image_eq hwf, ← addStiffness_eq (hx.trans hy.symm), addStiffness]
  refine (mapIdx_congr fun n v hn => ?_).trans (mapIdx_eq_self y)
  rw [hy, Space.vectorLen, hwf.nodesPerElement_eq, hwf.vdim_eq, ← hwf.ne] at hn
  have hcomponent := hn
  rw [Nat.mul_assoc] at hcomponent
  obtain ⟨value, hvalue⟩ := hconstant _ _ (hwf.ne ▸ div_lt_right hn)
    (hwf.vdim_eq ▸ mod_lt_left (div_lt_right hcomponent))
  rw [hwf.nodesPerElement_eq, hwf.vdim_eq] at hvalue
  rw [h.stiffness_constant (hwf.nqpt ▸ data.shape.q1d_pos) hvalue, add_zero]

/-- What is added balances over every element. -/
theorem image_balanced (hwf : data.WellFormed context) (h : data.tables.Partition)
    (hx : x.size = context.space.vectorLen) :
    context.space.BalancedOnElements (image context data j x) := by
  intro e c he hc
  rw [Space.vectorLen, hwf.nodesPerElement_eq, hwf.vdim_eq] at hx
  rw [hwf.vdim_eq] at hc
  rw [image_eq hwf, hwf.nodesPerElement_eq, hwf.vdim_eq]
  rw [Finset.sum_congr rfl fun i hi =>
    nodal_stiffnessVector hx he hc (Finset.mem_range.1 hi)]
  exact h.sum_stiffness (hwf.nqpt ▸ data.shape.q1d_pos) _

end PointData

/-! ### Assembled operators -/

section

variable {K : Type} [Field K] [BEq K] [LawfulBEq K] [OfDouble K] [SquareRoot K] [Stored K]

/-- An action on the vectors of a space that has the constants in its null space, and adds what
balances over every element.  Vectors of another length are refused and left as they are. -/
structure Space.ConservedBy (space : Space K) (addMult : Array K → Run (Array K) Unit) : Prop where
  constants : ∀ (x y : Array K) events, x.size = space.vectorLen → y.size = space.vectorLen →
    space.ConstantOnElements x → ∃ journal, (addMult x).run ⟨y, events⟩ = .ok () ⟨y, journal⟩
  fluxes : ∀ (x y : Array K) events, x.size = space.vectorLen → y.size = space.vectorLen →
    ∃ added journal, added.size = space.vectorLen ∧ space.BalancedOnElements added ∧
      (addMult x).run ⟨y, events⟩ = .ok () ⟨Array.zipWith (· + ·) y added, journal⟩
  refused : ∀ (x y : Array K) events, x.size ≠ space.vectorLen ∨ y.size ≠ space.vectorLen →
    ∃ cause, (addMult x).run ⟨y, events⟩ = .error (.refused cause) ⟨y, events⟩

/-- A sum-factorized operator conserves the space that it was assembled on. -/
theorem Factorized.conserves {context : Context K} {operator : Factorized K} {s s' : Session Unit}
    (h : (assemble context).run s = .ok operator s') (hroom : context.HoldsVectors) :
    context.space.ConservedBy (Backend.factorized operator).addMult := by
  obtain ⟨data, j, hcompute, -, rfl, -, hforms⟩ := assemble_eq_ok h
  have hwf := PointData.compute_wellFormed hcompute
  have hpartition := PointData.partition_of_compute hcompute
  have hadds : (Backend.factorized (ofData context data j)).Adds context.space.vectorLen
      (PointData.image context data j) := adds_image hwf hforms hroom
  refine ⟨fun x y events hx hy hconstant => ?_, fun x y events hx hy => ?_,
    fun x y events hne => ⟨_, addMult_refused (hwf.holds_vector hroom).lt hwf.vectorLen_eq hne⟩⟩
  · obtain ⟨-, journal, hrun⟩ := hadds events hx hy
    rw [PointData.add_image_constant hwf hpartition hx hy hconstant] at hrun
    exact ⟨journal, hrun⟩
  · obtain ⟨hsize, journal, hrun⟩ := hadds events hx hy
    exact ⟨_, journal, hsize, PointData.image_balanced hwf hpartition hx, hrun⟩

/-- **Constants are in the null space, and fluxes balance**, of every integrator that was assembled
in the native form: on any mesh of any order, with any rule and any scalar coefficient.  Only room
for the vectors themselves is asked for. -/
theorem assembled_conserves {integrator : Integrator K} {space : Space K} {events : Array Event}
    {assembled : Session (Integrator K)}
    (hprovider : ∀ provider, integrator.provider = some provider → provider.Standard)
    (h : (Integrator.assemble space).run ⟨integrator, events⟩ = .ok () assembled)
    (hnative : assembled.value.backendName = some "native")
    (hroom : ∀ rule, integrator.integrationRule space = .ok rule →
      (integrator.context space rule).HoldsVectors) :
    space.ConservedBy assembled.value.addMult := by
  obtain ⟨rule, s, backend, s', hfound, hchosen, rfl⟩ := Integrator.assemble_run_ok.1 h
  rcases Integrator.chosen_eq_ok hprovider hchosen with ⟨operator, hrun, rfl⟩ | ⟨_, -, rfl⟩
  · exact Factorized.conserves hrun (hroom rule (Integrator.ruleFor_eq_ok hfound))
  · have hname : "dense element" = "native" := Option.some.inj hnative
    exact absurd hname (by decide)

end

/-! ### One face -/

/-- An integrator that keeps to the native form. -/
noncomputable def nativeIntegrator : Integrator ℝ :=
  (Integrator.new (.constant 1)).withRule middleRule

theorem assemble_shearedFace_native :
    ∃ assembled, (Integrator.assemble shearedFace).run ⟨nativeIntegrator, #[]⟩ =
      .ok () assembled ∧ assembled.value.backendName = some "native" := by
  have hrule : (nativeIntegrator.ruleFor shearedFace).run ⟨(), #[]⟩ =
      .ok middleRule ⟨(), #[.underIntegrated 1 1 2]⟩ := rfl
  have hrun := Factorized.assemble_ok (s := ⟨(), #[.underIntegrated 1 1 2]⟩) compute_shearedFace rfl
    sizesOf_sheared (by decide)
  have hchosen := (run_map_eq_ok (f := Backend.factorized)).2 ⟨_, hrun, rfl⟩
  exact ⟨_, Integrator.assemble_run_ok.2 ⟨_, _, _, _, hrule, hchosen, rfl⟩, rfl⟩

/-- On the sheared face, integrated at its middle only, the operator conserves; so two components
of one value each leave an output as it was. -/
theorem assembled_conserves_sheared_face :
    ∃ assembled, (Integrator.assemble shearedFace).run ⟨nativeIntegrator, #[]⟩ = .ok () assembled ∧
      shearedFace.ConservedBy assembled.value.addMult ∧
      ∃ journal, (assembled.value.addMult #[5, 5, 5, 5, 7, 7, 7, 7]).run
          ⟨#[1, 2, 3, 4, 5, 6, 7, 8], #[]⟩ = .ok () ⟨#[1, 2, 3, 4, 5, 6, 7, 8], journal⟩ := by
  obtain ⟨assembled, hassemble, hnative⟩ := assemble_shearedFace_native
  have hprovider : ∀ p, (none : Option (Provider ℝ)) = some p → p.Standard := fun _ hp => nomatch hp
  have hconserved := assembled_conserves hprovider hassemble hnative fun rule hrule => by
    obtain rfl := Except.ok.inj hrule
    exact ⟨by decide, by decide⟩
  refine ⟨assembled, hassemble, hconserved, hconserved.constants _ _ _ rfl rfl ?_⟩
  intro e c he hc
  obtain rfl : e = 0 := by have : e < 1 := he; omega
  have hc : c < 2 := hc
  refine ⟨if c = 0 then 5 else 7, fun j hj => ?_⟩
  have hj : j < 4 := hj
  interval_cases c <;> interval_cases j <;> rfl

end TensorDiffusion
