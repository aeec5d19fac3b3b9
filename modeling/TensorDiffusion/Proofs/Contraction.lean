import TensorDiffusion.Diffusion.Form
import TensorDiffusion.Proofs.InPlace

/-!
# Contractions, in closed form

What a kernel has in its scratch buffer after each axis.  On the way to the points a *jet* holds the
value of a field and its derivatives along the axes already contracted; on the way back a vector is
tested against the gradients of the basis functions, component by component.  The sums keep the
order of the loops, so no law of arithmetic is used.

The entries of a jet or a vector are numbered as they are stored (`Jet1.entry`, `Jet2.entry`,
`Vec2.entry`,
`Vec3.entry`).  Each is a sum over one axis of its own source times its own table,
which is what a cleared view holds after a loop that adds term by term (`sweep_contract`).
-/

namespace TensorDiffusion

open View (columns)

variable {α : Type}

/-! ### Jets and vectors -/

/-- The value and the derivative along x. -/
structure Jet1 (α : Type) where
  value : α
  dx : α

/-- The value and the derivatives along x and y. -/
structure Jet2 (α : Type) where
  value : α
  dx : α
  dy : α

/-- The first or the second of two. -/
def pairAt {β : Type} (x y : β) : Nat → β
  | 0 => x
  | _ => y

/-- The first, the second or the third of three. -/
def tripleAt {β : Type} (x y z : β) : Nat → β
  | 0 => x
  | 1 => y
  | _ => z

/-- The entries of a jet on a line, as they are stored. -/
def Jet1.entry (jet : Jet1 α) : Nat → α :=
  pairAt jet.value jet.dx

/-- The entries of a jet on a plane, as they are stored. -/
def Jet2.entry (jet : Jet2 α) : Nat → α :=
  tripleAt jet.dx jet.dy jet.value

/-- The entries of a vector of the plane. -/
def Vec2.entry (v : Vec2 α) : Nat → α :=
  pairAt v.x v.y

/-- The entries of a vector of space. -/
def Vec3.entry (v : Vec3 α) : Nat → α :=
  tripleAt v.x v.y v.z

/-- The entries of a symmetric matrix of the plane, as they are stored. -/
def Form2.entry (m : Form2 α) : Nat → α :=
  tripleAt m.xx m.xy m.yy

/-! ### Forms -/

variable [Zero α]

/-- The form at point `q` of element `e`. -/
def Form2.of (op : View α) (q e : Nat) : Form2 α :=
  ⟨op.entry [q, 0, e], op.entry [q, 1, e], op.entry [q, 2, e]⟩

theorem Form2.read_eq {op : View α} {nq ne q e : Nat} (hs : op.shape = [nq, 3, ne]) (hq : q < nq)
    (he : e < ne) : Form2.read op q e = .ok (Form2.of op q e) := by
  have h : ∀ k < 3, op.get [q, k, e] = .ok (op.entry [q, k, e]) := fun k hk =>
    View.get_three hs hq hk he
  rw [Form2.read, h 0 (by decide), h 1 (by decide), h 2 (by decide)]
  rfl

/-- The form at point `q` of element `e`. -/
def Form3.of (op : View α) (q e : Nat) : Form3 α :=
  ⟨op.entry [q, 0, e], op.entry [q, 1, e], op.entry [q, 2, e],
    op.entry [q, 3, e], op.entry [q, 4, e], op.entry [q, 5, e]⟩

theorem Form3.read_eq {op : View α} {nq ne q e : Nat} (hs : op.shape = [nq, 6, ne]) (hq : q < nq)
    (he : e < ne) : Form3.read op q e = .ok (Form3.of op q e) := by
  have h : ∀ k < 6, op.get [q, k, e] = .ok (op.entry [q, k, e]) := fun k hk =>
    View.get_three hs hq hk he
  rw [Form3.read, h 0 (by decide), h 1 (by decide), h 2 (by decide), h 3 (by decide),
    h 4 (by decide), h 5 (by decide)]
  rfl

/-! ### Sums -/

variable [Add α] [Mul α]

/-- The sum over one axis of a term times a row of a table. -/
def dot (n : Nat) (table : View α) (row : Nat) (t : Nat → α) : α :=
  leftSum 0 n fun k => t k * table.entry [row, k]

/-- The value and derivative along x of a field on a line. -/
def Jet1.of (d1d : Nat) (b g : View α) (qx : Nat) (field : Nat → α) : Jet1 α :=
  ⟨dot d1d b qx field, dot d1d g qx field⟩

/-- The value and derivatives of a field that is contracted along x. -/
def Jet2.of (d1d : Nat) (b g : View α) (qy : Nat) (line : Nat → Jet1 α) : Jet2 α :=
  ⟨dot d1d b qy fun k => (line k).value, dot d1d b qy fun k => (line k).dx,
    dot d1d g qy fun k => (line k).value⟩

/-- The gradient on a face of a field that is contracted along x. -/
def Vec2.gradient (d1d : Nat) (b g : View α) (qy : Nat) (line : Nat → Jet1 α) : Vec2 α :=
  ⟨dot d1d b qy fun k => (line k).dx, dot d1d g qy fun k => (line k).value⟩

/-- The gradient on a cell of a field that is contracted along x and y. -/
def Vec3.gradient (d1d : Nat) (b g : View α) (qz : Nat) (plane : Nat → Jet2 α) : Vec3 α :=
  ⟨dot d1d b qz fun k => (plane k).dx, dot d1d b qz fun k => (plane k).dy,
    dot d1d g qz fun k => (plane k).value⟩

/-- A plane vector field tested along x. -/
def Vec2.testX (q1d : Nat) (bt gt : View α) (dx : Nat) (flux : Nat → Vec2 α) : Vec2 α :=
  ⟨dot q1d gt dx fun k => (flux k).x, dot q1d bt dx fun k => (flux k).y⟩

/-- A vector field tested along x. -/
def Vec3.testX (q1d : Nat) (bt gt : View α) (dx : Nat) (flux : Nat → Vec3 α) : Vec3 α :=
  ⟨dot q1d gt dx fun k => (flux k).x, dot q1d bt dx fun k => (flux k).y,
    dot q1d bt dx fun k => (flux k).z⟩

/-- A vector field, tested along x, tested along y. -/
def Vec3.testY (q1d : Nat) (bt gt : View α) (dy : Nat) (line : Nat → Vec3 α) : Vec3 α :=
  ⟨dot q1d bt dy fun k => (line k).x, dot q1d gt dy fun k => (line k).y,
    dot q1d bt dy fun k => (line k).z⟩

section

variable {n row : Nat} {b g : View α}

theorem Jet1.entry_of {t : Nat → α} :
    (Jet1.of n b g row t).entry = fun i =>
      dot n (pairAt b g i) row t := by
  funext i
  cases i <;> rfl

theorem Jet2.entry_of {t : Nat → Jet1 α} :
    (Jet2.of n b g row t).entry = fun i =>
      dot n (tripleAt b g b i) row fun k => tripleAt (t k).dx (t k).value (t k).value i := by
  funext i
  rcases i with _ | _ | _ <;> rfl

theorem Vec2.entry_gradient {t : Nat → Jet1 α} :
    (Vec2.gradient n b g row t).entry = fun i =>
      dot n (pairAt b g i) row fun k => pairAt (t k).dx (t k).value i := by
  funext i
  cases i <;> rfl

theorem Vec3.entry_gradient {t : Nat → Jet2 α} :
    (Vec3.gradient n b g row t).entry = fun i =>
      dot n (tripleAt b b g i) row fun k => (t k).entry i := by
  funext i
  rcases i with _ | _ | _ <;> rfl

theorem Vec2.entry_testX {t : Nat → Vec2 α} :
    (Vec2.testX n b g row t).entry = fun i =>
      dot n (pairAt g b i) row fun k => (t k).entry i := by
  funext i
  cases i <;> rfl

theorem Vec3.entry_testX {t : Nat → Vec3 α} :
    (Vec3.testX n b g row t).entry = fun i =>
      dot n (tripleAt g b b i) row fun k => (t k).entry i := by
  funext i
  rcases i with _ | _ | _ <;> rfl

theorem Vec3.entry_testY {t : Nat → Vec3 α} :
    (Vec3.testY n b g row t).entry = fun i =>
      dot n (tripleAt b g b i) row fun k => (t k).entry i := by
  funext i
  rcases i with _ | _ | _ <;> rfl

/-! Fields that agree have the same contractions. -/

theorem dot_congr {t t' : Nat → α} (h : ∀ k < n, t k = t' k) : dot n b row t = dot n b row t' :=
  leftSum_congr 0 fun k hk => by rw [h k hk]

theorem Jet1.of_congr {t t' : Nat → α} (h : ∀ k < n, t k = t' k) :
    Jet1.of n b g row t = Jet1.of n b g row t' := by
  rw [Jet1.of, dot_congr h, dot_congr h, ← Jet1.of]

theorem Jet2.of_congr {t t' : Nat → Jet1 α} (h : ∀ k < n, t k = t' k) :
    Jet2.of n b g row t = Jet2.of n b g row t' := by
  rw [Jet2.of, dot_congr fun k hk => congrArg Jet1.value (h k hk),
    dot_congr fun k hk => congrArg Jet1.dx (h k hk),
    dot_congr fun k hk => congrArg Jet1.value (h k hk), ← Jet2.of]

theorem Vec2.gradient_congr {t t' : Nat → Jet1 α} (h : ∀ k < n, t k = t' k) :
    Vec2.gradient n b g row t = Vec2.gradient n b g row t' := by
  rw [Vec2.gradient, dot_congr fun k hk => congrArg Jet1.dx (h k hk),
    dot_congr fun k hk => congrArg Jet1.value (h k hk), ← Vec2.gradient]

theorem Vec3.gradient_congr {t t' : Nat → Jet2 α} (h : ∀ k < n, t k = t' k) :
    Vec3.gradient n b g row t = Vec3.gradient n b g row t' := by
  rw [Vec3.gradient, dot_congr fun k hk => congrArg Jet2.dx (h k hk),
    dot_congr fun k hk => congrArg Jet2.dy (h k hk),
    dot_congr fun k hk => congrArg Jet2.value (h k hk), ← Vec3.gradient]

theorem Vec2.testX_congr {t t' : Nat → Vec2 α} (h : ∀ k < n, t k = t' k) :
    Vec2.testX n b g row t = Vec2.testX n b g row t' := by
  rw [Vec2.testX, dot_congr fun k hk => congrArg Vec2.x (h k hk),
    dot_congr fun k hk => congrArg Vec2.y (h k hk), ← Vec2.testX]

theorem Vec3.testX_congr {t t' : Nat → Vec3 α} (h : ∀ k < n, t k = t' k) :
    Vec3.testX n b g row t = Vec3.testX n b g row t' := by
  rw [Vec3.testX, dot_congr fun k hk => congrArg Vec3.x (h k hk),
    dot_congr fun k hk => congrArg Vec3.y (h k hk),
    dot_congr fun k hk => congrArg Vec3.z (h k hk), ← Vec3.testX]

theorem Vec3.testY_congr {t t' : Nat → Vec3 α} (h : ∀ k < n, t k = t' k) :
    Vec3.testY n b g row t = Vec3.testY n b g row t' := by
  rw [Vec3.testY, dot_congr fun k hk => congrArg Vec3.x (h k hk),
    dot_congr fun k hk => congrArg Vec3.y (h k hk),
    dot_congr fun k hk => congrArg Vec3.z (h k hk), ← Vec3.testY]

end

/-! ### Loops -/

/-- **A contraction in place.**  In a cleared view a loop adds, for one index of an axis after the
other, a source times a table to entry `i` of the column at every place `q`, with a table of its
own for each `i` and a row of its own for each `q`.  Beside the view it keeps `Inv`. -/
theorem sweep_contract {σ : Type} (Inv : σ → Prop) {n m : Nat} {box : List Nat}
    (tables : Nat → View α) (row : Nat → Nat) (source : Nat → Nat → Nat → α)
    {step : View α × σ → Nat → Except Fault (View α × σ)} {v : View α} {s : σ}
    (hv : v.Exact (m :: box)) (hs : Inv s)
    (hstep : ∀ k (w : View α) s T, k < n → w.Holds (m :: box) (columns m T) → Inv s →
      ∃ w' s', step (w, s) k = .ok (w', s') ∧ Inv s' ∧ w'.Holds (m :: box)
        (columns m fun q i => T q i + source k q i * (tables i).entry [row q, k])) :
    ∃ w s', sweep n step (v.fill 0, s) = .ok (w, s') ∧ Inv s' ∧ w.Holds (m :: box)
      (columns m fun q i => dot n (tables i) (row q) fun k => source k q i) := by
  let P (k : Nat) (state : View α × σ) : Prop := Inv state.2 ∧ state.1.Holds (m :: box)
    (columns m fun q i => dot k (tables i) (row q) fun k => source k q i)
  have hstart : P 0 (v.fill 0, s) := ⟨hs, hv.fill 0⟩
  have hnext : ∀ k state, k < n → P k state → ∃ state', step state k = .ok state' ∧
      P (k + 1) state' := by
    rintro k ⟨w, s⟩ hk ⟨hs, hw⟩
    obtain ⟨w', s', hrun, hs', hw'⟩ := hstep k w s _ hk hw hs
    exact ⟨(w', s'), hrun, hs', hw'⟩
  obtain ⟨⟨w, s'⟩, hrun, hs', hw⟩ := sweep_induction P hstart hnext
  exact ⟨w, s', hrun, hs', hw⟩

/-- A contraction in place, with nothing kept beside the view. -/
theorem sweep_contract_view {n m : Nat} {box : List Nat} (tables : Nat → View α) (row : Nat → Nat)
    (source : Nat → Nat → Nat → α) {step : View α → Nat → Except Fault (View α)} {v : View α}
    (hv : v.Exact (m :: box))
    (hstep : ∀ k (w : View α) T, k < n → w.Holds (m :: box) (columns m T) →
      ∃ w', step w k = .ok w' ∧ w'.Holds (m :: box)
        (columns m fun q i => T q i + source k q i * (tables i).entry [row q, k])) :
    ∃ w, sweep n step (v.fill 0) = .ok w ∧ w.Holds (m :: box)
      (columns m fun q i => dot n (tables i) (row q) fun k => source k q i) := by
  let P (k : Nat) (w : View α) : Prop := w.Holds (m :: box)
    (columns m fun q i => dot k (tables i) (row q) fun k => source k q i)
  have hstart : P 0 (v.fill 0) := hv.fill 0
  exact sweep_induction P hstart fun k w hk hw => hstep k w _ hk hw

end TensorDiffusion
