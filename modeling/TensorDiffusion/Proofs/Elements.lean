import TensorDiffusion.Elements
import TensorDiffusion.Proofs.Loops

/-!
# The element loop, under any schedule

A kernel's element map `ActsBy` a family of functions if it replaces every entry of a chunk by a
function of that entry, of the element and of the position in the chunk, from any workspace of the
right form.  Then the loop replaces every entry of the buffer once, whichever worker comes to it
and when.

* `visit_eq`: what one visit changes.
* `runSchedule_eq`: a schedule that lists every element once, in any order and over any workers.
* `forElements_eq`: the schedules that settings stand for list every element once, in order.
* `forElements_error`, `forElements_reserve_error`: a loop that comes to no element's end, or whose
  workers find no room, leaves the buffer as it was.
-/

namespace TensorDiffusion

variable {β σ τ : Type}

/-! ### Computations with a state -/

theorem run_bind_ok {x : EStateM Fault σ β} {f : β → EStateM Fault σ τ} {s s' : σ} {a : β}
    (h : x.run s = .ok a s') : (x >>= f).run s = (f a).run s' := by
  show EStateM.bind x f s = f a s'
  rw [EStateM.bind, show x s = .ok a s' from h]

theorem run_bind_error {x : EStateM Fault σ β} {f : β → EStateM Fault σ τ} {s s' : σ}
    {fault : Fault} (h : x.run s = .error fault s') : (x >>= f).run s = .error fault s' := by
  show EStateM.bind x f s = _
  rw [EStateM.bind, show x s = .error fault s' from h]

@[simp]
theorem run_get (s : σ) : (get : EStateM Fault σ σ).run s = .ok s s := rfl

theorem run_ofExcept {m : Except Fault β} {a : β} (h : m = .ok a) (s : σ) :
    (ofExcept m : EStateM Fault σ β).run s = .ok a s := by
  subst h; rfl

/-- A computation in two steps returns when both do. -/
theorem run_bind_eq_ok {x : EStateM Fault σ β} {f : β → EStateM Fault σ τ} {s s'' : σ} {r : τ} :
    (x >>= f).run s = .ok r s'' ↔ ∃ a s', x.run s = .ok a s' ∧ (f a).run s' = .ok r s'' := by
  constructor
  · intro h
    cases hx : x.run s with
    | ok a s' => exact ⟨a, s', rfl, (run_bind_ok hx).symm.trans h⟩
    | error fault s' => rw [run_bind_error hx] at h; exact nomatch h
  · rintro ⟨a, s', hx, h⟩
    rw [run_bind_ok hx, h]

theorem run_ofExcept_eq_ok {m : Except Fault β} {a : β} {s s' : σ} :
    (ofExcept m : EStateM Fault σ β).run s = .ok a s' ↔ m = .ok a ∧ s = s' := by
  cases m with
  | ok b =>
    constructor
    · intro h
      cases h
      exact ⟨rfl, rfl⟩
    · rintro ⟨h, rfl⟩
      rw [Except.ok.inj h]
      rfl
  | error fault => exact ⟨fun h => (nomatch h), fun h => (nomatch h.1)⟩

theorem run_ofExcept_error {m : Except Fault β} {fault : Fault} (h : m = .error fault) (s : σ) :
    (ofExcept m : EStateM Fault σ β).run s = .error fault s := by
  subst h; rfl

/-! ### Chunks -/

theorem getElem?_foldl_setIfInBounds (chunk : List β) (buf : Array β) (start i : Nat) :
    (chunk.foldl (fun (buf, i) v => (buf.setIfInBounds i v, i + 1)) (buf, start)).1[i]? =
      if start ≤ i ∧ i < start + chunk.length ∧ i < buf.size then chunk[i - start]?
      else buf[i]? := by
  -- `chunk` is what is left to write; the buffer and the place to write at move with it.
  induction chunk generalizing buf start with
  | nil => rw [List.foldl_nil, if_neg (by simp; omega)]
  | cons v chunk ih =>
    rw [List.foldl_cons, ih, Array.size_setIfInBounds, List.length_cons]
    rcases Nat.lt_trichotomy i start with hlt | rfl | hgt
    · rw [if_neg (by omega), if_neg (by omega), Array.getElem?_setIfInBounds_ne (by omega)]
    · rw [if_neg (by omega)]
      by_cases hi : i < buf.size
      · rw [if_pos (by omega), Array.getElem?_setIfInBounds_self_of_lt hi, Nat.sub_self]; rfl
      · rw [if_neg (by omega), Array.getElem?_eq_none (by simpa using hi),
          Array.getElem?_eq_none (by omega)]
    · rw [Array.getElem?_setIfInBounds_ne (by omega),
        show i - start = i - (start + 1) + 1 by omega, List.getElem?_cons_succ]
      exact ite_congr (propext (by omega)) (fun _ => rfl) fun _ => rfl

theorem getElem?_writeChunk (buf : Array β) (start : Nat) (chunk : Array β) (i : Nat) :
    (writeChunk buf start chunk)[i]? =
      if start ≤ i ∧ i < start + chunk.size ∧ i < buf.size then chunk[i - start]?
      else buf[i]? := by
  rw [writeChunk, ← Array.foldl_toList, getElem?_foldl_setIfInBounds, Array.length_toList,
    Array.getElem?_toList]

/-- A chunk lies inside its buffer. -/
theorem chunk_le {len ne e size : Nat} (hsize : size = ne * len) (he : e < ne) :
    e * len + len ≤ size := by
  rw [hsize, ← Nat.succ_mul]
  exact Nat.mul_le_mul_right len he

/-- Position `k` of the buffer lies in chunk `k / len`, at `k % len`. -/
theorem chunk_mem_iff {len e k : Nat} (hlen : 0 < len) :
    e * len ≤ k ∧ k < e * len + len ↔ k / len = e := by
  rw [Nat.div_eq_iff hlen]
  omega

/-- Cutting out chunk `e`, replacing its entries and writing it back. -/
theorem writeChunk_extract {len ne e : Nat} {buf : Array β} (hlen : 0 < len)
    (hbuf : buf.size = ne * len) (he : e < ne) (g : Nat → β → β) :
    writeChunk buf (e * len) ((buf.extract (e * len) ((e + 1) * len)).mapIdx g) =
      buf.mapIdx fun k v => if k / len = e then g (k % len) v else v := by
  have hle : e * len + len ≤ buf.size := chunk_le hbuf he
  have hsize : ((buf.extract (e * len) ((e + 1) * len)).mapIdx g).size = len := by
    rw [Array.size_mapIdx, Array.size_extract, Nat.succ_mul]; omega
  refine Array.ext_getElem? fun k => ?_
  rw [getElem?_writeChunk, hsize, Array.getElem?_mapIdx]
  by_cases hk : k / len = e
  · have hmem := (chunk_mem_iff hlen).2 hk
    have hmod : k - e * len = k % len := by
      rw [← hk, Nat.mul_comm, Nat.mod_eq_sub_mul_div]
    rw [if_pos ⟨hmem.1, hmem.2, by omega⟩, Array.getElem?_mapIdx, hmod, Array.getElem?_extract,
      if_pos (by rw [Nat.succ_mul]; omega), show e * len + k % len = k by omega]
    exact congrArg (Option.map · _) (funext fun v => (if_pos hk).symm)
  · have hmem := mt (chunk_mem_iff hlen).1 hk
    rw [if_neg fun h => hmem ⟨h.1, h.2.1⟩]
    have : (fun v => if k / len = e then g (k % len) v else v) = id :=
      funext fun v => if_neg hk
    rw [Array.getElem?_mapIdx, this, Option.map_id, id]

/-! ### Visits -/

/-- The body replaces entry `i` of the chunk of element `e` by `g e i` of it, from any workspace
with `Inv`, and leaves such a workspace. -/
def ActsBy (len ne : Nat) (Inv : σ → Prop) (body : ElementMap σ β) (g : Nat → Nat → β → β) :
    Prop :=
  ∀ workspace e chunk, Inv workspace → e < ne → chunk.size = len →
    ∃ workspace', Inv workspace' ∧
      body workspace e chunk = .ok (workspace', chunk.mapIdx (g e))

/-- A buffer of chunks of length `len` after visits to the elements of a list. -/
def visited (len : Nat) (g : Nat → Nat → β → β) (elements : List Nat) (buf : Array β) : Array β :=
  buf.mapIdx fun k v => if k / len ∈ elements then g (k / len) (k % len) v else v

variable {len ne : Nat} {Inv : σ → Prop} {body : ElementMap σ β} {g : Nat → Nat → β → β}

@[simp]
theorem size_visited (elements : List Nat) (buf : Array β) :
    (visited len g elements buf).size = buf.size :=
  Array.size_mapIdx

theorem visited_nil (buf : Array β) : visited len g [] buf = buf :=
  Array.ext (by simp) fun i _ _ => by simp [visited]

/-- Visits to two lists without a common element. -/
theorem visited_append {first rest : List Nat} (h : ∀ e ∈ first, e ∉ rest) (buf : Array β) :
    visited len g rest (visited len g first buf) = visited len g (first ++ rest) buf := by
  refine Array.ext (by simp) fun k _ _ => ?_
  simp only [visited, Array.getElem_mapIdx, List.mem_append]
  by_cases h₁ : k / len ∈ first
  · rw [if_pos h₁, if_neg (h _ h₁), if_pos (.inl h₁)]
  · rw [if_neg h₁]
    exact ite_congr (propext (by simp [h₁])) (fun _ => rfl) fun _ => rfl

/-- Visits to all elements. -/
theorem visited_all {elements : List Nat} (h : elements.Perm (List.range ne)) {buf : Array β}
    (hbuf : buf.size = ne * len) :
    visited len g elements buf = buf.mapIdx fun k => g (k / len) (k % len) := by
  refine Array.ext (by simp) fun k hk _ => ?_
  have hlt : k / len < ne := by
    rw [size_visited, hbuf, Nat.mul_comm] at hk
    exact Nat.div_lt_of_lt_mul hk
  have hmem : k / len ∈ elements := h.mem_iff.2 (List.mem_range.2 hlt)
  simp only [visited, Array.getElem_mapIdx, if_pos hmem]

/-- What one visit changes. -/
theorem visit_eq (hbody : ActsBy len ne Inv body g) (hlen : 0 < len) {buf : Array β}
    (hbuf : buf.size = ne * len) {workspace : σ} (hinv : Inv workspace) {e : Nat} (he : e < ne) :
    ∃ workspace', Inv workspace' ∧
      (visit len body workspace e).run buf = .ok workspace' (visited len g [e] buf) := by
  have hle : e * len + len ≤ buf.size := chunk_le hbuf he
  obtain ⟨workspace', hinv', hrun⟩ := hbody workspace e
    (buf.extract (e * len) ((e + 1) * len)) hinv he
    (by rw [Array.size_extract, Nat.succ_mul]; omega)
  refine ⟨workspace', hinv', ?_⟩
  rw [visit, run_bind_ok (run_get buf), run_bind_ok (run_ofExcept hrun buf)]
  show EStateM.Result.ok _ (writeChunk buf (e * len) _) = _
  rw [writeChunk_extract hlen hbuf he, visited]
  refine congrArg _ (Array.ext (by simp) fun k _ _ => ?_)
  simp only [Array.getElem_mapIdx, List.mem_singleton]
  by_cases hk : k / len = e
  · rw [if_pos hk, if_pos hk, hk]
  · rw [if_neg hk, if_neg hk]

/-- The elements of one worker, in any order. -/
theorem foldlM_visit_eq (hbody : ActsBy len ne Inv body g) (hlen : 0 < len) {elements : List Nat}
    (hnd : elements.Nodup) (hlt : ∀ e ∈ elements, e < ne) {buf : Array β}
    (hbuf : buf.size = ne * len) {workspace : σ} (hinv : Inv workspace) :
    ∃ workspace', (elements.foldlM (visit len body) workspace).run buf =
      .ok workspace' (visited len g elements buf) := by
  -- `Inv` is all that is known of the workspace that one element leaves to the next.
  induction elements generalizing buf workspace with
  | nil => exact ⟨workspace, by rw [List.foldlM_nil, visited_nil]; rfl⟩
  | cons e elements ih =>
    obtain ⟨he, hnd⟩ := List.nodup_cons.1 hnd
    obtain ⟨w₁, hinv₁, h₁⟩ := visit_eq hbody hlen hbuf hinv (hlt e List.mem_cons_self)
    have hbuf₁ : (visited len g [e] buf).size = ne * len := by rwa [size_visited]
    obtain ⟨w₂, h₂⟩ := ih hnd (fun e' he' => hlt e' (List.mem_cons_of_mem e he')) hbuf₁ hinv₁
    refine ⟨w₂, ?_⟩
    rw [List.foldlM_cons, run_bind_ok h₁, h₂, visited_append (by simpa using he)]
    rfl

theorem runWorker_eq {workspace : Workspace σ} (hbody : ActsBy len ne Inv body g) (hlen : 0 < len)
    (hroom : workspace.reserve = .ok ()) (hfresh : Inv (workspace.fresh ()))
    {elements : List Nat} (hnd : elements.Nodup) (hlt : ∀ e ∈ elements, e < ne) {buf : Array β}
    (hbuf : buf.size = ne * len) :
    (runWorker len workspace body elements).run buf = .ok () (visited len g elements buf) := by
  cases elements with
  | nil => rw [runWorker, run_ofExcept hroom, visited_nil]
  | cons e elements =>
    obtain ⟨w, hw⟩ := foldlM_visit_eq hbody hlen hnd hlt hbuf hfresh
    rw [runWorker, run_bind_ok (run_ofExcept hroom buf), run_bind_ok hw]
    · rfl
    · exact List.cons_ne_nil e elements

/-! ### Schedules -/

/-- A schedule on which every one of `ne` elements stands exactly once. -/
def Schedule.Covers (schedule : Schedule) (ne : Nat) : Prop :=
  schedule.flatten.Perm (List.range ne)

theorem forM_runWorker_eq {workspace : Workspace σ} (hbody : ActsBy len ne Inv body g)
    (hlen : 0 < len) (hroom : workspace.reserve = .ok ()) (hfresh : Inv (workspace.fresh ()))
    {schedule : Schedule} (hnd : schedule.flatten.Nodup) (hlt : ∀ e ∈ schedule.flatten, e < ne)
    {buf : Array β} (hbuf : buf.size = ne * len) :
    (runSchedule len workspace body schedule).run buf =
      .ok () (visited len g schedule.flatten buf) := by
  -- A worker starts anew, so from one to the next only the buffer is handed on.
  induction schedule generalizing buf with
  | nil => rw [List.flatten_nil, visited_nil]; rfl
  | cons elements schedule ih =>
    rw [List.flatten_cons, List.nodup_append] at hnd
    rw [List.flatten_cons] at hlt ⊢
    have h₁ := runWorker_eq hbody hlen hroom hfresh hnd.1
      (fun e he => hlt e (List.mem_append_left _ he)) hbuf
    have hdisj : ∀ e ∈ elements, e ∉ schedule.flatten := fun e he he' => hnd.2.2 e he e he' rfl
    show EStateM.run (runWorker len workspace body elements >>= fun _ =>
      runSchedule len workspace body schedule) buf = _
    rw [run_bind_ok h₁, ← visited_append hdisj]
    exact ih hnd.2.1 (fun e he => hlt e (List.mem_append_right _ he)) (by rwa [size_visited])

/-- **The element loop under any schedule.**  Every entry of the buffer is replaced once. -/
theorem runSchedule_eq {workspace : Workspace σ} (hbody : ActsBy len ne Inv body g)
    (hlen : 0 < len) (hroom : workspace.reserve = .ok ()) (hfresh : Inv (workspace.fresh ()))
    {schedule : Schedule} (hcovers : schedule.Covers ne) {buf : Array β}
    (hbuf : buf.size = ne * len) :
    (runSchedule len workspace body schedule).run buf =
      .ok () (buf.mapIdx fun k => g (k / len) (k % len)) := by
  rw [forM_runWorker_eq hbody hlen hroom hfresh (hcovers.nodup_iff.2 List.nodup_range)
    (fun e he => List.mem_range.1 (hcovers.mem_iff.1 he)) hbuf, visited_all hcovers hbuf]

/-- The first blocks of a schedule, all of them full. -/
theorem flatten_fullBlocks (size tasks : Nat) :
    ((List.range tasks).map fun t => List.range' (t * size) size).flatten =
      List.range (tasks * size) := by
  induction tasks with
  | zero => simp
  | succ tasks ih =>
    rw [List.range_succ, List.map_append, List.flatten_append, ih, Nat.succ_mul,
      List.range_eq_range', List.range_eq_range', ← List.range'_append_1]
    simp

theorem flatten_blocks (size ne : Nat) : (Schedule.blocks size ne).flatten = List.range ne := by
  obtain ⟨tasks, htasks⟩ : ∃ tasks, max 1 (ne / size) = tasks + 1 :=
    ⟨max 1 (ne / size) - 1, by omega⟩
  have hle : tasks * size ≤ ne := by
    rcases Nat.eq_zero_or_pos tasks with rfl | hpos
    · simp
    · exact Nat.le_trans (Nat.mul_le_mul_right size (by omega)) (Nat.div_mul_le_self ne size)
  have hfull : (List.range tasks).map (fun t => List.range' (t * size)
      (if t + 1 = tasks + 1 then ne - t * size else size)) =
      (List.range tasks).map fun t => List.range' (t * size) size :=
    List.map_congr_left fun t ht => by
      rw [if_neg]
      have := List.mem_range.1 ht
      omega
  -- The last block takes what the full ones leave.
  rw [Schedule.blocks]
  simp only [htasks]
  rw [List.range_succ, List.map_append, List.flatten_append, hfull, flatten_fullBlocks,
    List.range_eq_range', List.range_eq_range']
  simp only [List.map_cons, List.map_nil, List.flatten_cons, List.flatten_nil, List.append_nil,
    if_true]
  rw [show List.range' (tasks * size) (ne - tasks * size) =
    List.range' (0 + tasks * size) (ne - tasks * size) by rw [Nat.zero_add],
    List.range'_append_1, Nat.add_sub_cancel' hle]

theorem Execution.flatten_schedule (config : Execution) (ne : Nat) :
    (config.schedule ne).flatten = List.range ne := by
  rw [schedule]
  split
  · simp
  · exact flatten_blocks _ ne

/-- **The element loop.**  Whatever the settings, every entry of the buffer is replaced once. -/
theorem forElements_eq {workspace : Workspace σ} {config : Execution}
    (hbody : ActsBy len ne Inv body g) (hlen : 0 < len) (hroom : workspace.reserve = .ok ())
    (hfresh : Inv (workspace.fresh ())) {buf : Array β} (hbuf : buf.size = ne * len) :
    (forElements config len workspace body).run buf =
      .ok () (buf.mapIdx fun k => g (k / len) (k % len)) := by
  have hcovers : (config.schedule (buf.size / len)).Covers ne := by
    rw [Schedule.Covers, config.flatten_schedule, hbuf, Nat.mul_div_cancel _ hlen]
  rw [forElements, run_bind_ok (run_get buf),
    run_bind_ok (run_ofExcept (require_eq_ok.2 hlen) buf),
    run_bind_ok (run_ofExcept (require_eq_ok.2 (by rw [hbuf, Nat.mul_mod_left])) buf)]
  exact runSchedule_eq hbody hlen hroom hfresh hcovers hbuf

/-! ### Loops that fail -/

/-- A worker whose first element fails leaves the buffer as it was. -/
theorem runWorker_error {workspace : Workspace σ} {fault : Fault}
    (hbody : ∀ own e chunk, e < ne → chunk.size = len → body own e chunk = .error fault)
    (hroom : workspace.reserve = .ok ()) {first : Nat} (hfirst : first < ne) (rest : List Nat)
    {buf : Array β} (hbuf : buf.size = ne * len) :
    (runWorker len workspace body (first :: rest)).run buf = .error fault buf := by
  have hle : first * len + len ≤ buf.size := chunk_le hbuf hfirst
  have hchunk := hbody (workspace.fresh ()) first (buf.extract (first * len) ((first + 1) * len))
    hfirst (by rw [Array.size_extract, Nat.succ_mul]; omega)
  have hvisit : (visit len body (workspace.fresh ()) first).run buf = .error fault buf := by
    rw [visit, run_bind_ok (run_get buf), run_bind_error (run_ofExcept_error hchunk buf)]
  rw [runWorker, run_bind_ok (run_ofExcept hroom buf), List.foldlM_cons]
  · exact run_bind_error (run_bind_error hvisit)
  · exact List.cons_ne_nil first rest

theorem runSchedule_error {workspace : Workspace σ} {fault : Fault}
    (hbody : ∀ own e chunk, e < ne → chunk.size = len → body own e chunk = .error fault)
    (hroom : workspace.reserve = .ok ()) {schedule : Schedule} (hne : schedule.flatten ≠ [])
    (hlt : ∀ e ∈ schedule.flatten, e < ne) {buf : Array β} (hbuf : buf.size = ne * len) :
    (runSchedule len workspace body schedule).run buf = .error fault buf := by
  -- Workers without elements do nothing; the first one that has an element fails on it.
  induction schedule with
  | nil => exact absurd List.flatten_nil hne
  | cons elements schedule ih =>
    rw [List.flatten_cons] at hne hlt
    show EStateM.run (runWorker len workspace body elements >>= fun _ =>
      runSchedule len workspace body schedule) buf = _
    cases elements with
    | nil =>
      have hworker : (runWorker len workspace body []).run buf = .ok () buf :=
        run_ofExcept hroom buf
      rw [run_bind_ok hworker]
      exact ih hne hlt
    | cons first rest =>
      have hfirst := hlt first (List.mem_append_left _ List.mem_cons_self)
      exact run_bind_error (runWorker_error hbody hroom hfirst rest hbuf)

/-- **A loop whose body fails** on every element leaves the buffer as it was. -/
theorem forElements_error {workspace : Workspace σ} {config : Execution} {fault : Fault}
    (hbody : ∀ own e chunk, e < ne → chunk.size = len → body own e chunk = .error fault)
    (hlen : 0 < len) (hroom : workspace.reserve = .ok ()) (hne : 0 < ne) {buf : Array β}
    (hbuf : buf.size = ne * len) :
    (forElements config len workspace body).run buf = .error fault buf := by
  have hflatten : (config.schedule (buf.size / len)).flatten = List.range ne := by
    rw [config.flatten_schedule, hbuf, Nat.mul_div_cancel _ hlen]
  rw [forElements, run_bind_ok (run_get buf),
    run_bind_ok (run_ofExcept (require_eq_ok.2 hlen) buf),
    run_bind_ok (run_ofExcept (require_eq_ok.2 (by rw [hbuf, Nat.mul_mod_left])) buf)]
  refine runSchedule_error hbody hroom ?_ (fun e he => List.mem_range.1 (hflatten ▸ he)) hbuf
  rw [hflatten]
  exact fun h => Nat.ne_of_gt hne (List.range_eq_nil.1 h)

theorem Execution.schedule_ne_nil (config : Execution) (ne : Nat) : config.schedule ne ≠ [] := by
  rw [schedule]
  split
  · exact List.cons_ne_nil _ _
  · simp [Schedule.blocks]

/-- A loop whose workers find no room leaves the buffer as it was.  There is always a worker, even
where there are no elements. -/
theorem forElements_reserve_error {workspace : Workspace σ} {config : Execution} {buf : Array β}
    {fault : Fault}
    (hlen : 0 < len) (hwhole : buf.size % len = 0) (h : workspace.reserve = .error fault) :
    (forElements config len workspace body).run buf = .error fault buf := by
  rw [forElements, run_bind_ok (run_get buf),
    run_bind_ok (run_ofExcept (require_eq_ok.2 hlen) buf),
    run_bind_ok (run_ofExcept (require_eq_ok.2 hwhole) buf), runSchedule]
  obtain ⟨elements, rest, hschedule⟩ :=
    List.exists_cons_of_ne_nil (config.schedule_ne_nil (buf.size / len))
  have hworker : (runWorker len workspace body elements).run buf = .error fault buf := by
    cases elements with
    | nil => exact run_ofExcept_error h buf
    | cons e elements => exact run_bind_error (run_ofExcept_error h buf)
  rw [hschedule]
  exact run_bind_error hworker

/-! ### Loops that returned -/

theorem foldlM_visit_body_ok {elements : List Nat} {own own' : σ} {buf out : Array β}
    (h : (elements.foldlM (visit len body) own).run buf = .ok own' out) {e : Nat}
    (he : e ∈ elements) : ∃ own chunk r, body own e chunk = .ok r := by
  induction elements generalizing own buf with
  | nil => cases he
  | cons first elements ih =>
    rw [List.foldlM_cons] at h
    obtain ⟨next, between, hvisit, hrest⟩ := run_bind_eq_ok.1 h
    rcases List.mem_cons.1 he with rfl | he
    · rw [visit, run_bind_ok (run_get buf)] at hvisit
      obtain ⟨r, _, hbody, -⟩ := run_bind_eq_ok.1 hvisit
      exact ⟨_, _, r, (run_ofExcept_eq_ok.1 hbody).1⟩
    · exact ih hrest he

/-- A loop that returned has come to every element of its schedule. -/
theorem runSchedule_body_ok {workspace : Workspace σ} {schedule : Schedule} {buf out : Array β}
    (h : (runSchedule len workspace body schedule).run buf = .ok () out) {e : Nat}
    (he : e ∈ schedule.flatten) : ∃ own chunk r, body own e chunk = .ok r := by
  induction schedule generalizing buf with
  | nil => cases he
  | cons elements schedule ih =>
    have hcons : (runWorker len workspace body elements >>= fun _ =>
        runSchedule len workspace body schedule).run buf = .ok () out := h
    obtain ⟨_, between, hworker, hrest⟩ := run_bind_eq_ok.1 hcons
    rcases List.mem_append.1 (List.flatten_cons ▸ he) with he | he
    · rw [runWorker] at hworker
      · obtain ⟨_, _, -, hvisits⟩ := run_bind_eq_ok.1 hworker
        obtain ⟨_, _, hvisits, -⟩ := run_bind_eq_ok.1 hvisits
        exact foldlM_visit_body_ok hvisits he
      · exact List.ne_nil_of_mem he
    · exact ih hrest he

theorem forElements_body_ok {workspace : Workspace σ} {config : Execution} {buf out : Array β}
    (h : (forElements config len workspace body).run buf = .ok () out) {e : Nat}
    (he : e < buf.size / len) : ∃ own chunk r, body own e chunk = .ok r := by
  rw [forElements, run_bind_ok (run_get buf)] at h
  obtain ⟨_, _, hlen, h⟩ := run_bind_eq_ok.1 h
  obtain rfl := (run_ofExcept_eq_ok.1 hlen).2
  obtain ⟨_, _, hwhole, h⟩ := run_bind_eq_ok.1 h
  obtain rfl := (run_ofExcept_eq_ok.1 hwhole).2
  refine runSchedule_body_ok h ?_
  rw [config.flatten_schedule]
  exact List.mem_range.2 he

/-- The loop over the elements returns only if its workers find room. -/
theorem reserve_of_forElements {workspace : Workspace σ} {config : Execution} {buf out : Array β}
    (h : (forElements config len workspace body).run buf = .ok () out) :
    workspace.reserve = .ok () := by
  cases hreserve : workspace.reserve with
  | ok u => rfl
  | error fault =>
    have hrun := h
    rw [forElements, run_bind_ok (run_get buf)] at h
    obtain ⟨_, _, hlen, h⟩ := run_bind_eq_ok.1 h
    obtain ⟨hpos, -⟩ := run_ofExcept_eq_ok.1 hlen
    obtain ⟨_, _, hwhole, -⟩ := run_bind_eq_ok.1 h
    obtain ⟨hmod, -⟩ := run_ofExcept_eq_ok.1 hwhole
    rw [forElements_reserve_error (require_eq.1 hpos) (require_eq.1 hmod) hreserve] at hrun
    cases hrun

theorem size_writeChunk (buf : Array β) (start : Nat) (chunk : Array β) :
    (writeChunk buf start chunk).size = buf.size := by
  rw [writeChunk, ← Array.foldl_toList]
  induction chunk.toList generalizing buf start with
  | nil => rfl
  | cons v rest ih => rw [List.foldl_cons, ih, Array.size_setIfInBounds]

/-- A computation that keeps the length of the buffer, if it returns. -/
def KeepsSize (update : Update β τ) : Prop :=
  ∀ buf a out, update.run buf = .ok a out → out.size = buf.size

namespace KeepsSize

variable {ρ : Type}

theorem ofExcept (m : Except Fault τ) : KeepsSize (ofExcept m : Update β τ) := by
  intro buf a out h
  rw [(run_ofExcept_eq_ok.1 h).2]

theorem bind {update : Update β τ} {f : τ → Update β ρ} (h : KeepsSize update)
    (hf : ∀ a, KeepsSize (f a)) : KeepsSize (update >>= f) := by
  intro buf r out hrun
  obtain ⟨a, between, hfirst, hrest⟩ := run_bind_eq_ok.1 hrun
  rw [hf a between r out hrest, h buf a between hfirst]

theorem visit (len : Nat) (body : ElementMap σ β) (own : σ) (e : Nat) :
    KeepsSize (visit len body own e) := by
  intro buf own' out h
  rw [TensorDiffusion.visit, run_bind_ok (run_get buf)] at h
  obtain ⟨r, _, hbody, h⟩ := run_bind_eq_ok.1 h
  obtain ⟨-, rfl⟩ := run_ofExcept_eq_ok.1 hbody
  cases h
  exact size_writeChunk ..

theorem runWorker (len : Nat) (workspace : Workspace σ) (body : ElementMap σ β)
    (elements : List Nat) : KeepsSize (runWorker len workspace body elements) := by
  have hvisits : ∀ (elements : List Nat) own,
      KeepsSize (elements.foldlM (TensorDiffusion.visit len body) own) := by
    intro elements
    induction elements with
    | nil =>
      intro own buf own' out h
      cases h
      rfl
    | cons e elements ih =>
      intro own
      rw [List.foldlM_cons]
      exact .bind (.visit len body own e) ih
  cases elements with
  | nil => exact .ofExcept _
  | cons e elements =>
    refine .bind (.ofExcept _) fun _ => .bind (hvisits _ _) fun own buf _ out h => ?_
    cases h
    rfl

theorem runSchedule (len : Nat) (workspace : Workspace σ) (body : ElementMap σ β)
    (schedule : Schedule) : KeepsSize (runSchedule len workspace body schedule) := by
  induction schedule with
  | nil =>
    intro buf _ out h
    cases h
    rfl
  | cons elements schedule ih => exact .bind (.runWorker len workspace body elements) fun _ => ih

/-- **A loop over elements** keeps the length of its buffer. -/
theorem forElements (config : Execution) (len : Nat) (workspace : Workspace σ)
    (body : ElementMap σ β) : KeepsSize (forElements config len workspace body) := by
  intro buf _ out h
  rw [TensorDiffusion.forElements, run_bind_ok (run_get buf)] at h
  refine KeepsSize.bind (.ofExcept _) (fun _ => .bind (.ofExcept _) fun _ => ?_) buf _ out h
  exact .runSchedule len workspace body _

end KeepsSize

end TensorDiffusion
