import TensorDiffusion.Diffusion.OperatorData
import TensorDiffusion.Proofs.Elements
import TensorDiffusion.Proofs.InPlace
import TensorDiffusion.Proofs.Kernels
import TensorDiffusion.Proofs.Selection

/-!
# Setup, in closed form

A setup whose sizes are accepted overwrites the operator data: every entry becomes an entry of the
form at its point, which depends on the weight, the sample and the Jacobian there and on nothing
else (`setup_eq`).  Nothing is assumed of the scalars, so a Jacobian that is singular at one point
leaves the other points as they are.
-/

namespace TensorDiffusion

variable {α : Type}

/-! ### Samples -/

/-- Entry `(i, k)` of the Jacobian at point `q` of element `e`, in an array of layout
`(NQ, SDIM, DIM, NE)`. -/
def jacobianEntry [Zero α] (nq sdim dim : Nat) (j : Array α) (q e i k : Nat) : α :=
  j.getD (q + nq * (i + sdim * (k + dim * e))) 0

/-- The sample at point `q` of element `e`: the single value, or the entry of an array of layout
`(NQ, NE)`. -/
def sampleEntry [Zero α] (nq : Nat) (c : Array α) (q e : Nat) : α :=
  if c.size = 1 then c.getD 0 0 else c.getD (q + nq * e) 0

/-- A sample is found at every point. -/
theorem Samples.get_eq [Zero α] {samples : Samples α} {nq ne : Nat} (hnq : samples.nq = nq)
    (hc : samples.values.size = 1 ∨ samples.values.size = nq * ne)
    (hfits : nq * ne < Size.bufferBound) {q e : Nat} (hq : q < nq) (he : e < ne) :
    samples.get q e = .ok (sampleEntry nq samples.values q e) := by
  rw [get, sampleEntry, hnq]
  by_cases h1 : samples.values.size = 1
  · rw [if_pos h1, if_pos h1]
    exact slot_getD 0 (h1.symm ▸ Nat.one_pos)
  · have hlt : q + nq * e < nq * ne := pair_lt hq he
    have hle : nq * e ≤ q + nq * e := Nat.le_add_left _ _
    have hmul : Size.mul nq e = .ok (nq * e) := Size.mul_ok (by omega)
    have hadd : Size.add q (nq * e) = .ok (q + nq * e) := Size.add_ok (by omega)
    rw [if_neg h1, if_neg h1]
    simp only [hmul, hadd, ok_bind]
    exact slot_getD 0 (hc.resolve_left h1 ▸ hlt)

/-- The Jacobian of a point is found in a view of the layout `(NQ, SDIM, DIM, NE)`. -/
theorem View.get_jacobian [Zero α] {v : View α} {nq sdim dim ne q e i k : Nat}
    (hv : v.shape = [nq, sdim, dim, ne]) (hq : q < nq) (hi : i < sdim) (hk : k < dim)
    (he : e < ne) : v.get [q, i, k, e] = .ok (jacobianEntry nq sdim dim v.data q e i k) := by
  rw [get_four hv hq hi hk he, entry_eq hv]
  simp [flat, jacobianEntry]

/-! ### Sizes -/

/-- Sizes that pass the checks of a setup: positive numbers of points, buffers of the right length,
and a number of Jacobian entries that is a size. -/
structure SetupSizes (dim sdim q1d ne : Nat) (wLen jLen cLen opLen : Nat) : Prop where
  q1d_pos : 0 < q1d
  w : wLen = q1d ^ dim
  j : jLen = q1d ^ dim * sdim * dim * ne
  c : cLen = 1 ∨ cLen = q1d ^ dim * ne
  op : opLen = q1d ^ dim * symmetricEntries dim * ne
  fits : q1d ^ dim * sdim * dim * max 1 ne < Size.bufferBound

/-- A form needs no more room than a Jacobian. -/
theorem symmetricEntries_le {dim sdim : Nat} (h : HasKernel dim sdim) :
    symmetricEntries dim ≤ sdim * dim := by
  rcases h with ⟨rfl, rfl⟩ | ⟨rfl, rfl⟩ | ⟨rfl, rfl⟩ <;> decide

theorem HasKernel.dim_pos {dim sdim : Nat} (h : HasKernel dim sdim) : 0 < dim ∧ 0 < sdim := by
  rcases h with ⟨rfl, rfl⟩ | ⟨rfl, rfl⟩ | ⟨rfl, rfl⟩ <;> decide

namespace SetupSizes

variable {dim sdim q1d ne wLen jLen cLen opLen : Nat}
  (h : SetupSizes dim sdim q1d ne wLen jLen cLen opLen) (hk : HasKernel dim sdim)

include h

theorem points_pos : 0 < q1d ^ dim :=
  Nat.pow_pos h.q1d_pos

include hk

theorem chunk_pos : 0 < q1d ^ dim * symmetricEntries dim :=
  Nat.mul_pos h.points_pos (symmetricEntries_pos hk.dim_pos.1)

/-- There is room for the forms. -/
theorem chunks_lt : q1d ^ dim * symmetricEntries dim * max 1 ne < Size.bufferBound := by
  have hle : q1d ^ dim * symmetricEntries dim ≤ q1d ^ dim * sdim * dim := by
    rw [Nat.mul_assoc]
    exact Nat.mul_le_mul_left _ (symmetricEntries_le hk)
  exact Nat.lt_of_le_of_lt (Nat.mul_le_mul_right _ hle) h.fits

theorem chunk_lt : q1d ^ dim * symmetricEntries dim < Size.bufferBound :=
  Nat.lt_of_le_of_lt (Nat.le_mul_of_pos_right _ (by omega)) (h.chunks_lt hk)

theorem points_lt : q1d ^ dim < Size.bufferBound :=
  Nat.lt_of_le_of_lt (Nat.le_mul_of_pos_right _ (symmetricEntries_pos hk.dim_pos.1))
    (h.chunk_lt hk)

theorem samples_lt : q1d ^ dim * ne < Size.bufferBound := by
  have hle : q1d ^ dim * ne ≤ q1d ^ dim * symmetricEntries dim * max 1 ne :=
    Nat.mul_le_mul (Nat.le_mul_of_pos_right _ (symmetricEntries_pos hk.dim_pos.1))
      (Nat.le_max_right 1 ne)
  exact Nat.lt_of_le_of_lt hle (h.chunks_lt hk)

theorem jLen_ok : Size.product [q1d ^ dim, sdim, dim, ne] = .ok jLen := by
  have hpos : ∀ n ∈ [q1d ^ dim, sdim, dim], 0 < n := by
    simp [h.points_pos, hk.dim_pos.1, hk.dim_pos.2]
  exact Size.product_elements hpos (by simp [volume, Nat.mul_assoc]) h.j h.fits

theorem opLen_ok : Size.product [q1d ^ dim, symmetricEntries dim, ne] = .ok opLen := by
  have hpos : ∀ n ∈ [q1d ^ dim, symmetricEntries dim], 0 < n := by
    simp [h.points_pos, symmetricEntries_pos hk.dim_pos.1]
  exact Size.product_elements hpos (by simp [volume]) h.op (h.chunks_lt hk)

end SetupSizes

/-- The Jacobians are viewed with one matrix for each point. -/
theorem SetupSizes.jacobian_view {dim sdim q1d ne wLen cLen opLen : Nat} {j : Array α}
    (h : SetupSizes dim sdim q1d ne wLen j.size cLen opLen) (hk : HasKernel dim sdim) :
    ∃ v, View.ofBuffer j [q1d ^ dim, sdim, dim, ne] = .ok v := by
  have hpos : ∀ n ∈ [q1d ^ dim, sdim, dim], 0 < n := by
    simp [h.points_pos, hk.dim_pos.1, hk.dim_pos.2]
  exact View.ofBuffer_elements hpos (by simp [volume, Nat.mul_assoc]) h.j h.fits

namespace OperatorData

/-! ### The kernels -/

/-- A kernel computes the function `form` of a weight and a Jacobian. -/
def Kernel.Computes (kernel : Kernel α) (form : α → (Nat → Nat → α) → Array α) : Prop :=
  ∀ w (read : Nat → Nat → Except Fault α) (j : Nat → Nat → α),
    (∀ i k, i < kernel.sdim → k < kernel.dim → read i k = .ok (j i k)) →
      kernel.form w read = .ok (form w j) ∧ (form w j).size = symmetricEntries kernel.dim

section

variable [One α] [Add α] [Sub α] [Mul α] [Neg α] [Div α] [SquareRoot α]

/-- The form of a point of an element of the given dimensions, from a weight and a Jacobian. -/
def pointForm : Nat → Nat → α → (Nat → Nat → α) → Array α
  | 2, 2, w, j => (Form2.planar w (j 0 0) (j 1 0) (j 0 1) (j 1 1)).toArray
  | 2, 3, w, j => (Form2.surface w (j 0 0) (j 1 0) (j 2 0) (j 0 1) (j 1 1) (j 2 1)).toArray
  | 3, 3, w, j => (Form3.solid w (j 0 0) (j 1 0) (j 2 0) (j 0 1) (j 1 1) (j 2 1)
      (j 0 2) (j 1 2) (j 2 2)).toArray
  | _, _, _, _ => #[]

theorem planar_computes : (planar : Kernel α).Computes (pointForm 2 2) := by
  intro w read j h
  refine ⟨?_, show _ = symmetricEntries 2 from rfl⟩
  simp only [planar] at h ⊢
  simp (disch := decide) only [h, ok_bind]
  rfl

theorem surface_computes : (surface : Kernel α).Computes (pointForm 2 3) := by
  intro w read j h
  refine ⟨?_, show _ = symmetricEntries 2 from rfl⟩
  simp only [surface] at h ⊢
  simp (disch := decide) only [h, ok_bind]
  rfl

theorem solid_computes : (solid : Kernel α).Computes (pointForm 3 3) := by
  intro w read j h
  refine ⟨?_, show _ = symmetricEntries 3 from rfl⟩
  simp only [solid] at h ⊢
  simp (disch := decide) only [h, ok_bind]
  rfl

end

/-! ### The element loop -/

/-- The checks of a setup that do not look at the samples. -/
def checks (kernel : Kernel α) (q1d ne : Nat) (w j : Array α) (opLen : Nat) :
    Except Fault (Nat × View α) := do
  require (0 < q1d) .noSetupPoints
  let nq ← Size.pow q1d kernel.dim
  checkBuffer "quadrature weights" w.size nq
  checkBuffer "Jacobians" j.size (← Size.product [nq, kernel.sdim, kernel.dim, ne])
  checkBuffer "operator data" opLen (← Size.product [nq, symmetricEntries kernel.dim, ne])
  return (nq, ← View.ofBuffer j [nq, kernel.sdim, kernel.dim, ne])

/-- The samples are looked at last. -/
theorem plan_eq_checks (kernel : Kernel α) (q1d ne : Nat) (w j c : Array α) (opLen : Nat) :
    plan kernel q1d ne w j c opLen = (do
      let (nq, jacobians) ← checks kernel q1d ne w j opLen
      if c.size ≠ 1 then
        let expected ← Size.mul nq ne
        require (c.size = expected) (.samplesLength expected c.size)
      let chunk ← Size.mul nq (symmetricEntries kernel.dim)
      return { nq, chunk, weights := w, jacobians, samples := ⟨nq, ne, c⟩ }) := by
  simp only [plan, checks, bind_assoc, pure_bind]

/-- Sizes that were checked are accepted, with any samples of the right number. -/
theorem sizes_of_checks {kernel : Kernel α} {q1d ne : Nat} {w j : Array α} {opLen : Nat}
    {checked : Nat × View α} (hk : HasKernel kernel.dim kernel.sdim)
    (h : checks kernel q1d ne w j opLen = .ok checked) :
    checked.1 = q1d ^ kernel.dim ∧ ∀ {cLen}, cLen = 1 ∨ cLen = q1d ^ kernel.dim * ne →
      SetupSizes kernel.dim kernel.sdim q1d ne w.size j.size cLen opLen := by
  simp only [checks, bind_eq_ok] at h
  obtain ⟨_, hq, nq, hnq, _, hw, jLen, hjLen, _, hj, len, hlen, _, hop, v, hv, h⟩ := h
  obtain rfl := Except.ok.inj h
  obtain ⟨-, rfl⟩ := Size.pow_eq_ok.1 hnq
  have hq := require_eq.1 hq
  have hpos : ∀ n ∈ [q1d ^ kernel.dim, kernel.sdim, kernel.dim], 0 < n := by
    simp [Nat.pow_pos hq, hk.dim_pos.1, hk.dim_pos.2]
  have hvolume : volume [q1d ^ kernel.dim, kernel.sdim, kernel.dim] =
      q1d ^ kernel.dim * kernel.sdim * kernel.dim := by
    simp [volume, Nat.mul_assoc]
  have hfits : nonemptyVolume ([q1d ^ kernel.dim, kernel.sdim, kernel.dim] ++ [ne]) <
      Size.bufferBound := (View.ofBuffer_eq_ok.1 hv).1
  rw [nonemptyVolume_elements hpos, hvolume] at hfits
  refine ⟨rfl, fun hc => ⟨hq, checkBuffer_eq.1 hw, ?_, hc, ?_, hfits⟩⟩
  · rw [checkBuffer_eq.1 hj, Size.product_eq hjLen]
    simp [volume, Nat.mul_assoc]
  · rw [checkBuffer_eq.1 hop, Size.product_eq hlen]
    simp [volume, Nat.mul_assoc]

/-- Sizes that were accepted. -/
theorem sizes_of_plan {kernel : Kernel α} {p : Plan α} {q1d ne : Nat} {w j c : Array α}
    {opLen : Nat} (hk : HasKernel kernel.dim kernel.sdim)
    (h : plan kernel q1d ne w j c opLen = .ok p) :
    SetupSizes kernel.dim kernel.sdim q1d ne w.size j.size c.size opLen := by
  rw [plan_eq_checks] at h
  obtain ⟨⟨nq, v⟩, hchecked, h⟩ := bind_eq_ok.1 h
  obtain ⟨hnq, hsizes⟩ := sizes_of_checks hk hchecked
  obtain rfl : nq = q1d ^ kernel.dim := hnq
  refine hsizes ?_
  by_cases hone : c.size = 1
  · exact .inl hone
  · dsimp only at h
    rw [if_pos hone] at h
    simp only [bind_eq_ok] at h
    obtain ⟨expected, hexpected, _, hc, -⟩ := h
    obtain ⟨-, rfl⟩ := Size.mul_eq_ok.1 hexpected
    exact .inr (require_eq.1 hc)

/-- What the checks of a setup establish. -/
theorem plan_ok {kernel : Kernel α} {q1d ne : Nat} {w j c : Array α} {opLen : Nat}
    (hk : HasKernel kernel.dim kernel.sdim)
    (h : SetupSizes kernel.dim kernel.sdim q1d ne w.size j.size c.size opLen) :
    ∃ v, plan kernel q1d ne w j c opLen = .ok
        ⟨q1d ^ kernel.dim, q1d ^ kernel.dim * symmetricEntries kernel.dim, w, v,
          ⟨q1d ^ kernel.dim, ne, c⟩⟩ ∧
      v.data = j ∧ v.shape = [q1d ^ kernel.dim, kernel.sdim, kernel.dim, ne] := by
  obtain ⟨v, hv⟩ := h.jacobian_view hk
  obtain ⟨-, hdata, hshape⟩ := View.ofBuffer_eq_ok.1 hv
  refine ⟨v, ?_, hdata, hshape⟩
  simp only [plan]
  rw [require_eq_ok.2 h.q1d_pos, ok_bind, Size.pow_ok (h.points_lt hk), ok_bind,
    checkBuffer_ok h.w, ok_bind, h.jLen_ok hk, ok_bind, checkBuffer_ok rfl, ok_bind,
    h.opLen_ok hk, ok_bind, checkBuffer_ok rfl, ok_bind, hv, ok_bind,
    Size.mul_ok (h.chunk_lt hk)]
  by_cases hone : c.size = 1
  · rw [if_neg (not_not_intro hone)]
    rfl
  · rw [if_pos hone, Size.mul_ok (h.samples_lt hk), ok_bind,
      require_eq_ok.2 (h.c.resolve_left hone)]
    rfl

variable [Zero α] [Mul α]

/-- The form at point `q` of element `e`. -/
def formAt (form : α → (Nat → Nat → α) → Array α) (nq sdim dim : Nat) (w j c : Array α)
    (q e : Nat) : Array α :=
  form (w.getD q 0 * sampleEntry nq c q e) (jacobianEntry nq sdim dim j q e)

/-- What a setup stores at position `n` of the chunk of element `e`. -/
def storedEntry (form : α → (Nat → Nat → α) → Array α) (nq sdim dim : Nat) (w j c : Array α)
    (e n : Nat) : α :=
  (formAt form nq sdim dim w j c (n % nq) e).getD (n / nq) 0

/-- Operator data of which every entry is an entry of the form at its point. -/
def stored (form : α → (Nat → Nat → α) → Array α) (nq sdim dim : Nat) (w j c op : Array α) :
    Array α :=
  let chunk := nq * symmetricEntries dim
  op.mapIdx fun n _ => storedEntry form nq sdim dim w j c (n / chunk) (n % chunk)

@[simp]
theorem size_stored (form : α → (Nat → Nat → α) → Array α) (nq sdim dim : Nat)
    (w j c op : Array α) : (stored form nq sdim dim w j c op).size = op.size :=
  Array.size_mapIdx

variable {kernel : Kernel α} {form : α → (Nat → Nat → α) → Array α} {config : Execution}
  {q1d ne : Nat} {w j c op : Array α}

section

variable {nq : Nat} {v : View α} (hw : w.size = nq)
  (hv : v.shape = [nq, kernel.sdim, kernel.dim, ne]) (hc : c.size = 1 ∨ c.size = nq * ne)
  (hfits : nq * ne < Size.bufferBound)

include hw hv hc hfits

/-- The entries of the form at a point are stored one after the other. -/
theorem storeForm_eq (hform : kernel.Computes form) (len : Nat) {q e : Nat} (hq : q < nq)
    (he : e < ne) (op : View α) :
    storeForm kernel ⟨nq, len, w, v, ⟨nq, ne, c⟩⟩ e q op =
      sweep (symmetricEntries kernel.dim) (fun op k => op.set [q, k]
        (storedEntry form nq kernel.sdim kernel.dim w v.data c e (q + nq * k))) op := by
  have hread : ∀ i l, i < kernel.sdim → l < kernel.dim → v.get [q, i, l, e] =
      .ok (jacobianEntry nq kernel.sdim kernel.dim v.data q e i l) :=
    fun i l hi hl => View.get_jacobian hv hq hi hl he
  have hsample : (⟨nq, ne, c⟩ : Samples α).get q e = .ok (sampleEntry nq c q e) :=
    Samples.get_eq rfl hc hfits hq he
  obtain ⟨hentries, hcount⟩ := hform (w.getD q 0 * sampleEntry nq c q e) _ _ hread
  rw [storeForm, slot_getD 0 (hw ▸ hq), ok_bind, hsample, ok_bind]
  dsimp only
  rw [hentries, ok_bind]
  refine sweep_congr (fun op k hk => ?_) op
  rw [slot_getD 0 (hcount.symm ▸ hk), ok_bind, storedEntry, pair_mod k hq, pair_div k hq]
  rfl

/-- What a setup does to the chunk of an element. -/
theorem element_acts (hform : kernel.Computes form) (hpos : 0 < nq * symmetricEntries kernel.dim)
    (hchunk : nq * symmetricEntries kernel.dim < Size.bufferBound) :
    ActsBy (nq * symmetricEntries kernel.dim) ne (fun _ => True)
      (element kernel ⟨nq, nq * symmetricEntries kernel.dim, w, v, ⟨nq, ne, c⟩⟩)
      fun e k _ => storedEntry form nq kernel.sdim kernel.dim w v.data c e k := by
  intro _ e chunk _ he hsize
  have hshape : ∀ k ∈ [nq, symmetricEntries kernel.dim], 0 < k := by
    simp [Nat.pos_of_mul_pos_right hpos, Nat.pos_of_mul_pos_left hpos]
  have hvolume : volume [nq, symmetricEntries kernel.dim] = nq * symmetricEntries kernel.dim := by
    simp [volume]
  obtain ⟨op, hview, hexact, -⟩ :=
    View.ofBuffer_exact hshape (hsize.trans hvolume.symm) (hvolume ▸ hchunk)
  obtain ⟨op', hrun, hop'⟩ := hexact.holds.sets_nested
    (storedEntry form nq kernel.sdim kernel.dim w v.data c e) (visits_line _)
    fun op q hq => storeForm_eq hw hv hc hfits hform (nq * symmetricEntries kernel.dim) hq he op
  refine ⟨(), trivial, ?_⟩
  simp only [element, hview, hrun, ok_bind, pure_eq_ok]
  rw [mapIdx_eq_ofFn hsize, hop'.data_eq, hvolume]

end

/-- **A setup overwrites the operator data** with the forms of the points. -/
theorem run_eq (hform : kernel.Computes form) (hk : HasKernel kernel.dim kernel.sdim)
    (h : SetupSizes kernel.dim kernel.sdim q1d ne w.size j.size c.size op.size) :
    (run kernel config q1d ne w j c).run op =
      .ok () (stored form (q1d ^ kernel.dim) kernel.sdim kernel.dim w j c op) := by
  obtain ⟨v, hplan, rfl, hshape⟩ := plan_ok hk h
  have hacts := element_acts h.w hshape h.c (h.samples_lt hk) hform (h.chunk_pos hk)
    (h.chunk_lt hk)
  have hop : op.size = ne * (q1d ^ kernel.dim * symmetricEntries kernel.dim) := by
    rw [h.op, Nat.mul_comm]
  rw [run, run_bind_ok (run_get op), run_bind_ok (run_ofExcept hplan op)]
  exact forElements_eq hacts (h.chunk_pos hk) rfl trivial hop

omit [Zero α] in
/-- Sizes that a setup accepted. -/
theorem sizes_of_setup [One α] [Add α] [Sub α] [Neg α] [Div α] [SquareRoot α] {dim sdim : Nat}
    (hk : HasKernel dim sdim) {events : Array Event} {session : Session (Array α)}
    (h : (setup config dim sdim q1d ne w j c).run ⟨op, events⟩ = .ok () session) :
    SetupSizes dim sdim q1d ne w.size j.size c.size op.size := by
  have hrun : ∀ kernel : Kernel α, HasKernel kernel.dim kernel.sdim →
      (do
        Run.record (.setupKernel dim sdim q1d ne)
        Run.onValue (run kernel config q1d ne w j c) : Run (Array α) Unit).run ⟨op, events⟩ =
        .ok () session →
      SetupSizes kernel.dim kernel.sdim q1d ne w.size j.size c.size op.size := by
    intro kernel hkernel hsetup
    rw [run_bind_ok (Run.run_record _)] at hsetup
    have hkernelRun := Run.run_onValue_eq_ok hsetup
    rw [run, run_bind_ok (run_get _)] at hkernelRun
    obtain ⟨p, _, hplan, -⟩ := run_bind_eq_ok.1 hkernelRun
    exact sizes_of_plan hkernel (run_ofExcept_eq_ok.1 hplan).1
  rcases hk with ⟨rfl, rfl⟩ | ⟨rfl, rfl⟩ | ⟨rfl, rfl⟩
  · exact hrun planar (.inl ⟨rfl, rfl⟩) h
  · exact hrun surface (.inr (.inl ⟨rfl, rfl⟩)) h
  · exact hrun solid (.inr (.inr ⟨rfl, rfl⟩)) h

/-- **The setup of every shape** overwrites the operator data with the forms of the points. -/
theorem setup_eq [One α] [Add α] [Sub α] [Neg α] [Div α] [SquareRoot α] {dim sdim : Nat}
    (hk : HasKernel dim sdim)
    (h : SetupSizes dim sdim q1d ne w.size j.size c.size op.size) {events : Array Event} :
    (setup config dim sdim q1d ne w j c).run ⟨op, events⟩ =
      .ok () ⟨stored (pointForm dim sdim) (q1d ^ dim) sdim dim w j c op,
        events.push (.setupKernel dim sdim q1d ne)⟩ := by
  rcases hk with ⟨rfl, rfl⟩ | ⟨rfl, rfl⟩ | ⟨rfl, rfl⟩
  · exact Run.run_record_onValue (run_eq planar_computes (.inl ⟨rfl, rfl⟩) h)
  · exact Run.run_record_onValue (run_eq surface_computes (.inr (.inl ⟨rfl, rfl⟩)) h)
  · exact Run.run_record_onValue (run_eq solid_computes (.inr (.inr ⟨rfl, rfl⟩)) h)

end OperatorData

end TensorDiffusion
