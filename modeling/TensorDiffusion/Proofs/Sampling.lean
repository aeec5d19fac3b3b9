import TensorDiffusion.Coefficient
import TensorDiffusion.Proofs.Geometry

/-!
# Sampling, in closed form

A function coefficient is evaluated once at every point of every element, at the coordinates of that
point and nothing else (`Samples.sampleElement_acts`), so its samples are the same under all
settings (`Samples.take_function_ok`).
-/

namespace TensorDiffusion.Samples

variable {α : Type} [Zero α] {field : Array α → α} {nq sdim ne : Nat} {coordinates : View α}

/-- The coordinates of point `q` of element `e`. -/
def pointAt (coordinates : View α) (sdim e q : Nat) : Array α :=
  Array.ofFn fun i : Fin sdim => coordinates.entry [q, i, e]

/-- **An element replaces its values** by the field at its own points, whatever point was visited
before. -/
theorem sampleElement_acts (hshape : coordinates.shape = [nq, sdim, ne]) :
    ActsBy nq ne (fun x : Array α => x.size = sdim) (sampleElement field coordinates sdim)
      fun e q _ => field (pointAt coordinates sdim e q) := by
  intro x e values hx he hvalues
  have hstep : ∀ q (s : Array α × Array α), q < values.size → s.1.size = sdim →
      s.2.size = values.size →
      ∃ s', (do
          let x ← overwrite sdim (fun i => coordinates.get [q, i, e]) s.1
          let values ← modifyRange q 1 (fun _ _ => pure (field x)) s.2
          return (x, values)) = Except.ok s' ∧ s'.1.size = sdim ∧
        s'.2 = s.2.mapIdx fun i v => if id i = q then field (pointAt coordinates sdim e i) else v := by
    rintro q ⟨x, buf⟩ hq hx hbuf
    have hpoint : ∀ i < sdim, coordinates.get [q, i, e] = .ok (coordinates.entry [q, i, e]) :=
      fun i hi => View.get_three hshape (hvalues ▸ hq) hi he
    have hvalue : modifyRange q 1 (fun _ _ => pure (field (pointAt coordinates sdim e q))) buf =
        .ok (buf.mapIdx fun i v => if i = q then field (pointAt coordinates sdim e i) else v) := by
      have hfit : q + 1 ≤ buf.size := hbuf ▸ hq
      refine (modifyRange_eq hfit fun _ _ _ => rfl).trans ?_
      refine congrArg Except.ok (mapIdx_congr fun i v _ => ?_)
      by_cases hi : i = q
      · rw [if_pos (by omega), if_pos hi, hi]
      · rw [if_neg (by omega), if_neg hi]
    refine ⟨(pointAt coordinates sdim e q, _), ?_, Array.size_ofFn, rfl⟩
    rw [overwrite_eq hx hpoint, ok_bind]
    exact bind_eq_ok.2 ⟨_, hvalue, rfl⟩
  obtain ⟨⟨x', out⟩, hrun, hx', hout⟩ := sweep_owned Prod.snd (x, values) hx hstep
  refine ⟨x', hx', hrun.trans (congrArg (fun out => Except.ok (x', out)) ?_)⟩
  exact hout.trans (mapIdx_congr fun i _ hi => if_pos hi)

/-- The values of a field at all points. -/
def valuesAt (field : Array α → α) (coordinates : View α) (nq sdim ne : Nat) : Array α :=
  Array.ofFn fun k : Fin (nq * ne) => field (pointAt coordinates sdim (k / nq) (k % nq))

variable [Stored α] {geometry : Geometry α} {x : Array α} {storage : Storage}

/-- **The samples of a function** are its values at the points, whatever the settings. -/
theorem take_function_ok (hx : geometry.coordinates = some x)
    (hv : View.ofBuffer x [geometry.nq, geometry.sdim, geometry.ne] = .ok coordinates)
    (hroom : Stored.bytes α * (geometry.nq * geometry.ne) < Size.bufferBound)
    (hpoint : 0 < geometry.nq → 0 < geometry.ne →
      Stored.bytes α * geometry.sdim < Size.bufferBound) (config : Execution) :
    take (.function field) geometry storage config = .ok ⟨geometry.nq, geometry.ne,
      valuesAt field coordinates geometry.nq geometry.sdim geometry.ne⟩ := by
  rw [take, hx]
  dsimp only
  rw [hv, ok_bind, Size.mul_ok (lt_of_bytes hroom), ok_bind, filled_ok hroom, ok_bind]
  by_cases hany : 0 < geometry.nq ∧ 0 < geometry.ne
  · have hacts : ActsBy geometry.nq geometry.ne (fun x : Array α => x.size = geometry.sdim)
        (sampleElement field coordinates geometry.sdim) fun e q _ =>
          field (pointAt coordinates geometry.sdim e q) :=
      sampleElement_acts (View.ofBuffer_eq_ok.1 hv).2.2
    have hblank : (Array.replicate (geometry.nq * geometry.ne) (0 : α)).size =
        geometry.ne * geometry.nq := by
      rw [Array.size_replicate, Nat.mul_comm]
    have hrun : (forElements config geometry.nq (pointWorkspace geometry.sdim)
        (sampleElement field coordinates geometry.sdim)).run (Array.replicate _ 0) = _ :=
      forElements_eq hacts hany.1 (Size.reserve_eq_ok.2 (hpoint hany.1 hany.2))
        Array.size_replicate hblank
    rw [if_pos hany, Geometry.fill_eq_ok.2 hrun, ok_bind, mapIdx_eq_ofFn Array.size_replicate]
    rfl
  · have hnone : geometry.nq * geometry.ne = 0 := by
      rcases Nat.eq_zero_or_pos geometry.nq with hq | hq
      · rw [hq, Nat.zero_mul]
      · rcases Nat.eq_zero_or_pos geometry.ne with he | he
        · rw [he, Nat.mul_zero]
        · exact absurd ⟨hq, he⟩ hany
    rw [if_neg hany]
    exact congrArg (fun values => Except.ok (Samples.mk _ _ values))
      (Array.ext (by simp [valuesAt]) fun k hk _ => by simp [hnone] at hk)

/-! ### Samples at the points of a geometry -/

omit [Stored α] in
/-- The values of a field at points whose coordinates have the layout `(NQ, SDIM, NE)`. -/
def fieldValues (nq sdim ne : Nat) (field : Array α → α) (coordinates : Array α) : Array α :=
  Array.ofFn fun k : Fin (nq * ne) =>
    field (Array.ofFn fun i : Fin sdim => nodal nq sdim coordinates (k / nq) i (k % nq))

omit [Stored α] in
/-- The values of a constant function. -/
theorem fieldValues_const (nq sdim ne : Nat) (v : α) (x : Array α) :
    fieldValues nq sdim ne (fun _ => v) x = Array.replicate (nq * ne) v :=
  Array.ext (by rw [fieldValues, Array.size_ofFn, Array.size_replicate]) fun n _ _ => by
    rw [Array.getElem_replicate]
    exact Array.getElem_ofFn _

omit [Stored α] in
theorem valuesAt_eq {nq sdim ne : Nat} {v : View α} (hv : v.shape = [nq, sdim, ne]) :
    valuesAt field v nq sdim ne = fieldValues nq sdim ne field v.data := by
  refine congrArg Array.ofFn (funext fun k => congrArg field ?_)
  refine congrArg Array.ofFn (funext fun i => ?_)
  rw [View.entry_eq hv]
  simp [flat, nodal]

omit [Zero α] in
/-- A point of a space has room. -/
theorem point_room {sdim : Nat} (h : sdim ≤ 3) : Stored.bytes α * sdim < Size.bufferBound :=
  Nat.lt_of_le_of_lt (Nat.mul_le_mul Stored.bytes_le h) (by decide)

variable {dim : Nat} {want : Quantities} (hsized : geometry.Sized dim sdim nq ne want)
  (config : Execution)

include hsized

/-- A function is sampled where the coordinates of the points were computed, and there is room. -/
theorem take_function_eq (hx : geometry.coordinates = some x) (hwant : want.coordinates)
    (hnq : 0 < nq) (hsdim : 0 < sdim ∧ sdim ≤ 3) (hfits : nq * sdim * max 1 ne < Size.bufferBound)
    (hroom : Stored.bytes α * (nq * ne) < Size.bufferBound) (field : Array α → α) :
    take (.function field) geometry storage config =
      .ok ⟨nq, ne, fieldValues nq sdim ne field x⟩ := by
  obtain ⟨_, hsome, hsize⟩ := hsized.coordinates hwant
  obtain rfl := Option.some.inj (hsome.symm.trans hx)
  have hpos : ∀ n ∈ [nq, sdim], 0 < n := by simp [hnq, hsdim.1]
  obtain ⟨v, hv⟩ := View.ofBuffer_elements hpos (by simp [volume]) hsize hfits
  obtain ⟨-, rfl, hshape⟩ := View.ofBuffer_eq_ok.1 hv
  rw [← valuesAt_eq hshape]
  obtain ⟨-, -, -, rfl, rfl, rfl⟩ := hsized
  exact take_function_ok hx hv hroom (fun _ _ => point_room hsdim.2) config

/-- Samples that are one for every point are taken as they are. -/
theorem take_samples_eq {values : Array α} (hroom : Stored.bytes α * (nq * ne) < Size.bufferBound)
    (hsize : values.size = nq * ne) :
    take (.samples values) geometry storage config = .ok ⟨nq, ne, values⟩ := by
  obtain ⟨-, -, -, rfl, rfl, rfl⟩ := hsized
  rw [take, ofValues, Size.mul_ok (lt_of_bytes hroom), ok_bind, insist_eq_ok.2 hsize]
  rfl

end TensorDiffusion.Samples
