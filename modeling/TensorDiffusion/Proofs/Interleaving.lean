import TensorDiffusion.Proofs.Elements

/-!
# The element loop, interleaved

Workers that run at the same time come to their elements in some common order.  A `Turn` is one
visit; an interleaving lists the turns of all workers as they happen, so it fixes which worker takes
which element, in which order, and how the workers mix.  A worker makes its workspace when it comes
to its first element and keeps it, as the last element left it, for all that follow.

* `takeTurn_eq`: one turn replaces one chunk and leaves every workspace in form.
* `interleave_eq`: turns that come to every element once replace every entry of the buffer once.
* `ElementLoop.Determines`: the output of a loop depends on nothing but the buffer it starts from.
-/

namespace TensorDiffusion

variable {β σ : Type}

/-! ### Turns -/

/-- One visit: a worker comes to an element. -/
structure Turn where
  worker : Nat
  element : Nat

/-- Every one of `ne` elements has one turn. -/
def Covers (turns : List Turn) (ne : Nat) : Prop :=
  (turns.map Turn.element).Perm (List.range ne)

/-- The workspace that a worker holds.  It has none before its first turn, and then makes it. -/
def claim (workspace : Workspace σ) : Option σ → Except Fault σ
  | some own => .ok own
  | none     => do
    workspace.reserve
    return workspace.fresh ()

/-- One turn, from the workspaces that the workers hold. -/
def takeTurn (len : Nat) (workspace : Workspace σ) (body : ElementMap σ β) (held : Nat → Option σ)
    (turn : Turn) : Update β (Nat → Option σ) := do
  let own ← ofExcept (claim workspace (held turn.worker))
  let own ← visit len body own turn.element
  return fun worker => if worker = turn.worker then some own else held worker

/-- Takes the turns of all workers, who hold no workspace yet. -/
def interleave (len : Nat) (workspace : Workspace σ) (body : ElementMap σ β) (turns : List Turn) :
    Update β Unit := do
  let _ ← turns.foldlM (takeTurn len workspace body) fun _ => none

variable {len ne : Nat} {Inv : σ → Prop} {body : ElementMap σ β} {g : Nat → Nat → β → β}
  {workspace : Workspace σ} {buf : Array β}

/-- The workspaces that are held have `Inv`. -/
def Held (Inv : σ → Prop) (held : Nat → Option σ) : Prop :=
  ∀ worker own, held worker = some own → Inv own

theorem claim_ok (hroom : workspace.reserve = .ok ()) (hfresh : Inv (workspace.fresh ()))
    {held : Nat → Option σ} (hheld : Held Inv held) (worker : Nat) :
    ∃ own, claim workspace (held worker) = .ok own ∧ Inv own := by
  cases h : held worker with
  | some own => exact ⟨own, rfl, hheld worker own h⟩
  | none => exact ⟨workspace.fresh (), by rw [claim, hroom]; rfl, hfresh⟩

/-- **One turn** replaces the chunk of its element, and no other. -/
theorem takeTurn_eq (hbody : ActsBy len ne Inv body g) (hlen : 0 < len)
    (hroom : workspace.reserve = .ok ()) (hfresh : Inv (workspace.fresh ()))
    (hbuf : buf.size = ne * len) {held : Nat → Option σ} (hheld : Held Inv held) {turn : Turn}
    (he : turn.element < ne) :
    ∃ held', Held Inv held' ∧ (takeTurn len workspace body held turn).run buf =
      .ok held' (visited len g [turn.element] buf) := by
  obtain ⟨own, hclaim, hown⟩ := claim_ok hroom hfresh hheld turn.worker
  obtain ⟨own', hown', hvisit⟩ := visit_eq hbody hlen hbuf hown he
  refine ⟨fun worker => if worker = turn.worker then some own' else held worker, ?_, ?_⟩
  · intro worker own h
    dsimp only at h
    by_cases hworker : worker = turn.worker
    · rw [if_pos hworker] at h
      exact Option.some.inj h ▸ hown'
    · rw [if_neg hworker] at h
      exact hheld worker own h
  · rw [takeTurn, run_bind_ok (run_ofExcept hclaim buf), run_bind_ok hvisit]
    rfl

theorem foldlM_takeTurn_eq (hbody : ActsBy len ne Inv body g) (hlen : 0 < len)
    (hroom : workspace.reserve = .ok ()) (hfresh : Inv (workspace.fresh ())) {turns : List Turn}
    (hnd : (turns.map Turn.element).Nodup) (hlt : ∀ turn ∈ turns, turn.element < ne)
    (hbuf : buf.size = ne * len) {held : Nat → Option σ} (hheld : Held Inv held) :
    ∃ held', (turns.foldlM (takeTurn len workspace body) held).run buf =
      .ok held' (visited len g (turns.map Turn.element) buf) := by
  -- Whoever held which workspace, from turn to turn only `Held` is known of them.
  induction turns generalizing buf held with
  | nil => exact ⟨held, by rw [List.foldlM_nil, List.map_nil, visited_nil]; rfl⟩
  | cons turn turns ih =>
    rw [List.map_cons, List.nodup_cons] at hnd
    obtain ⟨held₁, hheld₁, h₁⟩ :=
      takeTurn_eq hbody hlen hroom hfresh hbuf hheld (hlt turn List.mem_cons_self)
    have hbuf₁ : (visited len g [turn.element] buf).size = ne * len := by rwa [size_visited]
    obtain ⟨held₂, h₂⟩ := ih hnd.2 (fun t ht => hlt t (List.mem_cons_of_mem turn ht)) hbuf₁ hheld₁
    refine ⟨held₂, ?_⟩
    rw [List.foldlM_cons, run_bind_ok h₁, h₂, visited_append (by simpa using hnd.1), List.map_cons]
    rfl

/-- **The element loop under any interleaving.**  Every entry of the buffer is replaced once. -/
theorem interleave_eq (hbody : ActsBy len ne Inv body g) (hlen : 0 < len)
    (hroom : workspace.reserve = .ok ()) (hfresh : Inv (workspace.fresh ())) {turns : List Turn}
    (hcovers : Covers turns ne) (hbuf : buf.size = ne * len) :
    (interleave len workspace body turns).run buf =
      .ok () (buf.mapIdx fun k => g (k / len) (k % len)) := by
  have hlt : ∀ turn ∈ turns, turn.element < ne := fun turn ht =>
    List.mem_range.1 (hcovers.mem_iff.1 (List.mem_map_of_mem ht))
  have hnone : Held Inv fun _ => none := fun _ _ h => nomatch h
  obtain ⟨held, h⟩ := foldlM_takeTurn_eq hbody hlen hroom hfresh
    (hcovers.nodup_iff.2 List.nodup_range) hlt hbuf hnone
  rw [interleave, run_bind_ok h, visited_all hcovers hbuf]
  rfl

/-! ### Loops whose output is determined -/

/-- A loop over elements: the chunk length, the workspace of a worker, and what an element does. -/
structure ElementLoop (σ β : Type) where
  len : Nat
  workspace : Workspace σ
  body : ElementMap σ β

/-- The chunk of element `e`. -/
def chunkAt (len e : Nat) (buf : Array β) : Array β :=
  buf.extract (e * len) ((e + 1) * len)

/-- From `buf` the loop makes `out`, under all settings and whatever turns the workers take.  An
element makes its own chunk of `out` from its own chunk of `buf`, whatever fitting workspace it
comes to. -/
structure ElementLoop.Determines (loop : ElementLoop σ β) (Fits : σ → Prop) (ne : Nat)
    (buf out : Array β) : Prop where
  settings : ∀ config, (forElements config loop.len loop.workspace loop.body).run buf = .ok () out
  turns : ∀ turns, Covers turns ne →
    (interleave loop.len loop.workspace loop.body turns).run buf = .ok () out
  chunk : ∀ workspace e, Fits workspace → e < ne →
    ∃ workspace', Fits workspace' ∧
      loop.body workspace e (chunkAt loop.len e buf) = .ok (workspace', chunkAt loop.len e out)
  fresh : Fits (loop.workspace.fresh ())

/-- A chunk of the output is made of the same chunk of the buffer. -/
theorem chunkAt_mapIdx {e : Nat} (hlen : 0 < len) :
    chunkAt len e (buf.mapIdx fun k => g (k / len) (k % len)) =
      (chunkAt len e buf).mapIdx (g e) := by
  refine Array.ext (by simp [chunkAt]) fun k hk _ => ?_
  have hlt : k < len := by
    simp only [chunkAt, Array.size_extract, Array.size_mapIdx, Nat.succ_mul] at hk
    omega
  have hdiv : (e * len + k) / len = e := by
    rw [Nat.add_comm, Nat.add_mul_div_right _ _ hlen, Nat.div_eq_of_lt hlt, Nat.zero_add]
  have hmod : (e * len + k) % len = k := by
    rw [Nat.add_comm, Nat.add_mul_mod_self_right, Nat.mod_eq_of_lt hlt]
  simp only [chunkAt, Array.getElem_extract, Array.getElem_mapIdx, hdiv, hmod]

/-- **A loop whose body acts on its own chunk** determines its output. -/
theorem ElementLoop.determines (loop : ElementLoop σ β) (hbody : ActsBy loop.len ne Inv loop.body g)
    (hlen : 0 < loop.len) (hroom : loop.workspace.reserve = .ok ())
    (hfresh : Inv (loop.workspace.fresh ())) (hbuf : buf.size = ne * loop.len) :
    loop.Determines Inv ne buf (buf.mapIdx fun k => g (k / loop.len) (k % loop.len)) where
  settings _ := forElements_eq hbody hlen hroom hfresh hbuf
  turns _ hcovers := interleave_eq hbody hlen hroom hfresh hcovers hbuf
  chunk workspace e hfits he := by
    have hsize : (chunkAt loop.len e buf).size = loop.len := by
      have hle : e * loop.len + loop.len ≤ buf.size := chunk_le hbuf he
      rw [chunkAt, Array.size_extract, Nat.succ_mul]
      omega
    obtain ⟨workspace', hfits', hrun⟩ := hbody workspace e _ hfits he hsize
    exact ⟨workspace', hfits', by rw [hrun, chunkAt_mapIdx hlen]⟩
  fresh := hfresh

end TensorDiffusion
