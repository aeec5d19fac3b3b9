import TensorDiffusion.Buffer
import TensorDiffusion.Proofs.Indexing

/-!
# Loops, in closed form

The loops of `Buffer` return whenever their bodies do, and what they return is a plain function of
what the bodies return.  No law of arithmetic is used: `leftSum` keeps the order in which the terms
are added.

* `sweep_induction`: an invariant that every step keeps holds of the result.
* `sweep_pairs`: two nested loops are one over the flat indices of pairs.
* `returns_or_first_fault`: computations that all return, or the first that fails.
* `accumulate_eq`, `total_eq`: a sum of terms that do not fail.
* `sweep_owned`: a loop whose steps own entries of a buffer replaces every entry once.
* `modifyRange_eq`: the range is replaced entry by entry, the rest of the buffer is kept.
* `overwrite_eq`: what a buffer of the right length held before is of no account.
-/

namespace TensorDiffusion

variable {α β σ : Type}

/-! ### Steps that return -/

@[simp]
theorem ok_bind (a : β) (f : β → Except Fault σ) : (Except.ok a >>= f) = f a := rfl

@[simp]
theorem pure_eq_ok (a : β) : (pure a : Except Fault β) = .ok a := rfl

/-- A computation in two steps returns when both do. -/
theorem bind_eq_ok {m : Except Fault β} {f : β → Except Fault σ} {r : σ} :
    (m >>= f) = .ok r ↔ ∃ a, m = .ok a ∧ f a = .ok r := by
  cases m with
  | ok a => exact ⟨fun h => ⟨a, rfl, h⟩, fun ⟨_, ha, h⟩ => Except.ok.inj ha ▸ h⟩
  | error fault => exact ⟨fun h => (nomatch h), fun ⟨_, ha, _⟩ => (nomatch ha)⟩

/-- A computation in two steps fails when one of them does. -/
theorem bind_eq_error {m : Except Fault β} {f : β → Except Fault σ} {fault : Fault} :
    (m >>= f) = .error fault ↔ m = .error fault ∨ ∃ a, m = .ok a ∧ f a = .error fault := by
  cases m with
  | ok a =>
    refine ⟨fun h => .inr ⟨a, rfl, h⟩, ?_⟩
    rintro (h | ⟨_, ha, h⟩)
    · exact nomatch h
    · exact Except.ok.inj ha ▸ h
  | error cause =>
    refine ⟨fun h => .inl (congrArg Except.error (Except.error.inj h)), ?_⟩
    rintro (h | ⟨_, ha, -⟩)
    · exact congrArg Except.error (Except.error.inj h)
    · exact nomatch ha

theorem insist_eq_error {p : Prop} [Decidable p] {cause : Refusal} {fault : Fault} :
    insist p cause = .error fault ↔ ¬ p ∧ fault = .refused cause := by
  unfold insist refuse
  split <;> simp_all [eq_comm]

/-- A check returns when its condition holds. -/
theorem require_eq {p : Prop} [Decidable p] {cause : Violation} {u : Unit} :
    require p cause = .ok u ↔ p :=
  require_eq_ok

theorem require_of_not {p : Prop} [Decidable p] {cause : Violation} (h : ¬ p) :
    require p cause = .error (.violated cause) :=
  if_neg h

/-- A check fails with its own cause. -/
theorem require_error {p : Prop} [Decidable p] {cause : Violation} {fault : Fault}
    (h : require p cause = .error fault) : fault = .violated cause := by
  unfold require violate at h
  split at h
  · exact nomatch h
  · exact (Except.error.inj h).symm

theorem checkBuffer_eq {name : String} {len expected : Nat} {u : Unit} :
    checkBuffer name len expected = .ok u ↔ len = expected :=
  require_eq_ok

theorem checkBuffer_ok {name : String} {len expected : Nat} (h : len = expected) :
    checkBuffer name len expected = .ok () :=
  checkBuffer_eq.2 h

/-- Computations that all return, or a first one that fails. -/
theorem returns_or_first_fault (n : Nat) (f : Nat → Except Fault β) :
    (∀ k < n, ∃ a, f k = .ok a) ∨
      ∃ k < n, ∃ fault, (∀ i < k, ∃ a, f i = .ok a) ∧ f k = .error fault := by
  induction n with
  | zero => exact .inl fun k hk => absurd hk (Nat.not_lt_zero k)
  | succ n ih =>
    rcases ih with hall | ⟨k, hk, hfirst⟩
    · cases hn : f n with
      | ok a =>
        refine .inl fun k hk => ?_
        rcases Nat.lt_succ_iff_lt_or_eq.1 hk with hlt | rfl
        · exact hall k hlt
        · exact ⟨a, hn⟩
      | error fault => exact .inr ⟨n, Nat.lt_succ_self n, fault, hall, hn⟩
    · exact .inr ⟨k, Nat.lt_succ_of_lt hk, hfirst⟩

/-! ### Sweeps -/

/-- The last step of a loop. -/
theorem sweep_succ (n : Nat) (step : σ → Nat → Except Fault σ) (start : σ) :
    sweep (n + 1) step start = sweep n step start >>= fun s => step s n := by
  rw [sweep_eq_foldlM, sweep_eq_foldlM, List.range_succ, List.foldlM_append]
  refine congrArg _ (funext fun s => ?_)
  rw [List.foldlM_cons]
  exact bind_pure _

/-- **Loop invariants.**  If `P 0` holds at the start and step `k` leads from `P k` to
`P (k + 1)`, the loop returns with `P n`. -/
theorem sweep_induction {n : Nat} {step : σ → Nat → Except Fault σ} {start : σ}
    (P : Nat → σ → Prop) (h₀ : P 0 start)
    (hs : ∀ k s, k < n → P k s → ∃ s', step s k = .ok s' ∧ P (k + 1) s') :
    ∃ s, sweep n step start = .ok s ∧ P n s := by
  induction n with
  | zero => exact ⟨start, rfl, h₀⟩
  | succ n ih =>
    obtain ⟨s, hrun, hP⟩ := ih fun k s hk => hs k s (Nat.lt_succ_of_lt hk)
    obtain ⟨s', hstep, hP'⟩ := hs n s (Nat.lt_succ_self n) hP
    exact ⟨s', by rw [sweep_succ, hrun, ok_bind, hstep], hP'⟩

/-- A loop whose steps do not fail is a fold. -/
theorem sweep_eq {n : Nat} {step : σ → Nat → Except Fault σ} {f : σ → Nat → σ} {start : σ}
    (h : ∀ k s, k < n → step s k = .ok (f s k)) :
    sweep n step start = .ok ((List.range n).foldl f start) := by
  obtain ⟨s, hrun, rfl⟩ : ∃ s, sweep n step start = .ok s ∧ s = (List.range n).foldl f start := by
    refine sweep_induction (fun k s => s = (List.range k).foldl f start) rfl fun k s hk hs => ?_
    refine ⟨f s k, h k s hk, ?_⟩
    rw [hs, List.range_succ, List.foldl_append]
    rfl
  exact hrun

/-- A loop ends at the first step that fails. -/
theorem sweep_error {n k : Nat} {step : σ → Nat → Except Fault σ} {start s : σ} {fault : Fault}
    (hk : k < n) (hs : sweep k step start = .ok s) (h : step s k = .error fault) :
    sweep n step start = .error fault := by
  induction n with
  | zero => exact absurd hk (Nat.not_lt_zero k)
  | succ n ih =>
    rw [sweep_succ]
    rcases Nat.lt_succ_iff_lt_or_eq.1 hk with hlt | rfl
    · rw [ih hlt]
      rfl
    · rw [hs, ok_bind, h]

/-- Steps that agree make the same loop. -/
theorem sweep_congr {n : Nat} {step step' : σ → Nat → Except Fault σ}
    (h : ∀ s, ∀ k < n, step s k = step' s k) (start : σ) :
    sweep n step start = sweep n step' start := by
  induction n with
  | zero => rfl
  | succ n ih =>
    rw [sweep_succ, sweep_succ, ih fun s k hk => h s k (Nat.lt_succ_of_lt hk)]
    exact bind_congr fun s => h s n (Nat.lt_succ_self n)

/-- A loop in two parts. -/
theorem sweep_add (m n : Nat) (step : σ → Nat → Except Fault σ) (start : σ) :
    sweep (m + n) step start =
      sweep m step start >>= fun s => sweep n (fun s k => step s (m + k)) s := by
  simp only [sweep_eq_foldlM, List.range_add, List.foldlM_append, List.foldlM_map]

/-- A loop in a loop is one loop over flat indices, the inner one fastest. -/
theorem sweep_pairs (m n : Nat) (step : σ → Nat → Nat → Except Fault σ) (start : σ) :
    sweep m (fun s a => sweep n (fun s b => step s a b) s) start =
      sweep (m * n) (fun s c => step s (c / n) (c % n)) start := by
  induction m with
  | zero => rw [Nat.zero_mul]; rfl
  | succ m ih =>
    rw [sweep_succ, ih, Nat.succ_mul, sweep_add]
    refine bind_congr fun s => sweep_congr (fun s b hb => ?_) s
    rw [Nat.add_comm, Nat.mul_comm, pair_div m hb, pair_mod m hb]

/-! ### Sums -/

/-- `start + t 0 + t 1 + … + t (n - 1)`, added from left to right. -/
def leftSum [Add α] (start : α) : Nat → (Nat → α) → α
  | 0,     _ => start
  | n + 1, t => leftSum start n t + t n

theorem leftSum_congr [Add α] {n : Nat} {t t' : Nat → α} (start : α) (h : ∀ k < n, t k = t' k) :
    leftSum start n t = leftSum start n t' := by
  induction n with
  | zero => rfl
  | succ n ih =>
    rw [leftSum, leftSum, ih fun k hk => h k (Nat.lt_succ_of_lt hk), h n (Nat.lt_succ_self n)]

theorem accumulate_eq [Add α] {start : α} {n : Nat} {term : Nat → Except Fault α} {t : Nat → α}
    (h : ∀ k < n, term k = .ok (t k)) : accumulate start n term = .ok (leftSum start n t) := by
  obtain ⟨s, hrun, rfl⟩ : ∃ s, accumulate start n term = .ok s ∧ s = leftSum start n t :=
    sweep_induction (fun k s => s = leftSum start k t) rfl
      fun k s hk hs => ⟨s + t k, by rw [h k hk]; rfl, by rw [hs, leftSum]⟩
  exact hrun

theorem total_eq [Zero α] [Add α] {n : Nat} {term : Nat → Except Fault α} {t : Nat → α}
    (h : ∀ k < n, term k = .ok (t k)) : total n term = .ok (leftSum 0 n t) :=
  accumulate_eq h

/-! ### Buffers -/

theorem slot_eq {buf : Array β} {i : Nat} (h : i < buf.size) : slot buf i = .ok buf[i] :=
  dif_pos h

theorem slot_eq_ok {buf : Array β} {i : Nat} {v : β} : slot buf i = .ok v ↔ buf[i]? = some v := by
  by_cases hi : i < buf.size
  · rw [slot_eq hi, Array.getElem?_eq_getElem hi, Except.ok.injEq, Option.some.injEq]
  · rw [slot, dif_neg hi, Array.getElem?_eq_none (Nat.le_of_not_lt hi)]
    exact ⟨fun h => (nomatch h), fun h => (nomatch h)⟩

/-- Buffers of one size with the same entries. -/
theorem ext_slot {a b : Array β} (hsize : a.size = b.size)
    (h : ∀ k < a.size, slot a k = slot b k) : a = b := by
  refine Array.ext hsize fun k hk hk' => ?_
  have hentry := h k hk
  rw [slot_eq hk, slot_eq hk'] at hentry
  exact Except.ok.inj hentry

theorem slot_ofFn {n i : Nat} {f : Nat → β} (h : i < n) :
    slot (Array.ofFn fun k : Fin n => f k) i = .ok (f i) := by
  rw [slot_eq (by rwa [Array.size_ofFn]), Array.getElem_ofFn]

theorem getD_ofFn {n i : Nat} {f : Fin n → β} (d : β) (h : i < n) :
    (Array.ofFn f).getD i d = f ⟨i, h⟩ := by
  rw [← Array.getElem_eq_getD (h := by rwa [Array.size_ofFn]), Array.getElem_ofFn]

theorem slot_getD {buf : Array β} {i : Nat} (d : β) (h : i < buf.size) :
    slot buf i = .ok (buf.getD i d) := by
  rw [slot_eq h, Array.getElem_eq_getD]

theorem mapIdx_mapIdx (f g : Nat → β → β) (buf : Array β) :
    (buf.mapIdx f).mapIdx g = buf.mapIdx fun i v => g i (f i v) :=
  Array.ext (by simp) fun i _ _ => by simp

theorem mapIdx_eq_self (buf : Array β) : (buf.mapIdx fun _ v => v) = buf :=
  Array.ext (by simp) fun i _ _ => by simp

/-- A buffer of which every entry is replaced, whatever it was. -/
theorem mapIdx_eq_ofFn {n : Nat} {f : Nat → β} {buf : Array β} (h : buf.size = n) :
    (buf.mapIdx fun k _ => f k) = Array.ofFn fun k : Fin n => f k :=
  Array.ext (by simp [h]) fun k _ _ => by simp

theorem mapIdx_congr {f g : Nat → β → β} {buf : Array β}
    (h : ∀ i v, i < buf.size → f i v = g i v) : buf.mapIdx f = buf.mapIdx g :=
  Array.ext (by simp) fun i hi _ => by
    rw [Array.getElem_mapIdx, Array.getElem_mapIdx, h i _ (by simpa using hi)]

/-- The range is replaced entry by entry, the rest of the buffer is kept. -/
theorem modifyRange_eq {start n : Nat} {f : Nat → β → Except Fault β} {g : Nat → β → β}
    {buf : Array β} (hn : start + n ≤ buf.size) (h : ∀ k v, k < n → f k v = .ok (g k v)) :
    modifyRange start n f buf =
      .ok (buf.mapIdx fun i v => if start ≤ i ∧ i < start + n then g (i - start) v else v) := by
  obtain ⟨s, hrun, rfl⟩ : ∃ s, modifyRange start n f buf = .ok s ∧ s = buf.mapIdx fun i v =>
      if start ≤ i ∧ i < start + n then g (i - start) v else v := by
    -- After `k` steps the first `k` entries of the range are replaced.
    refine sweep_induction
      (fun k s => s = buf.mapIdx fun i v => if start ≤ i ∧ i < start + k then g (i - start) v else v)
      (Array.ext (by simp) fun i _ _ => ?_) fun k s hk hs => ?_
    · rw [Array.getElem_mapIdx, if_neg (by omega)]
    · have hlt : start + k < s.size := by rw [hs, Array.size_mapIdx]; omega
      refine ⟨_, by rw [dif_pos hlt, h k _ hk]; rfl, ?_⟩
      subst hs
      refine Array.ext (by simp) fun i _ _ => ?_
      simp only [Array.getElem_set, Array.getElem_mapIdx]
      by_cases hik : start + k = i
      · subst hik
        rw [if_pos rfl, if_neg (by omega), if_pos (by omega), Nat.add_sub_cancel_left]
      · rw [if_neg hik]
        exact ite_congr (propext (by omega)) (fun _ => rfl) fun _ => rfl
  exact hrun

/-- A range that is the whole buffer. -/
theorem modifyAll_eq {n : Nat} {f : Nat → β → Except Fault β} {g : Nat → β → β} {buf : Array β}
    (hn : buf.size = n) (h : ∀ k v, k < n → f k v = .ok (g k v)) :
    modifyRange 0 n f buf = .ok (buf.mapIdx g) := by
  rw [modifyRange_eq (by omega) h]
  refine congrArg _ (Array.ext (by simp) fun i hi _ => ?_)
  simp only [Array.getElem_mapIdx, Nat.sub_zero]
  exact if_pos ⟨Nat.zero_le i, by rw [Nat.zero_add, ← hn]; simpa using hi⟩

/-- A loop of which step `k` replaces the entries of a buffer that `own` gives to `k`. -/
theorem sweep_owned {n : Nat} {step : σ → Nat → Except Fault σ} {Inv : σ → Prop}
    (buffer : σ → Array β) {own : Nat → Nat} {g : Nat → β → β} (start : σ) (hstart : Inv start)
    (hstep : ∀ k s, k < n → Inv s → (buffer s).size = (buffer start).size →
      ∃ s', step s k = .ok s' ∧ Inv s' ∧
        buffer s' = (buffer s).mapIdx fun i v => if own i = k then g i v else v) :
    ∃ s, sweep n step start = .ok s ∧ Inv s ∧
      buffer s = (buffer start).mapIdx fun i v => if own i < n then g i v else v := by
  -- After `k` steps the entries that are given to these steps are replaced, and no other.
  let P (k : Nat) (s : σ) : Prop :=
    Inv s ∧ buffer s = (buffer start).mapIdx fun i v => if own i < k then g i v else v
  refine sweep_induction P ⟨hstart, Array.ext (by simp) fun i _ _ => by simp⟩ ?_
  rintro k s hk ⟨hinv, hbuffer⟩
  obtain ⟨s', hrun, hinv', hreplaced⟩ := hstep k s hk hinv (by rw [hbuffer, Array.size_mapIdx])
  refine ⟨s', hrun, hinv', ?_⟩
  rw [hreplaced, hbuffer, mapIdx_mapIdx]
  refine congrArg (Array.mapIdx · (buffer start)) (funext fun i => funext fun v => ?_)
  rcases Nat.lt_trichotomy (own i) k with hlt | heq | hgt
  · rw [if_neg (Nat.ne_of_lt hlt), if_pos hlt, if_pos (Nat.lt_succ_of_lt hlt)]
  · rw [if_pos heq, if_neg (by omega), if_pos (by omega)]
  · rw [if_neg (by omega), if_neg (by omega), if_neg (by omega)]

/-- A loop that replaces one part of `m` entries after the other.  The parts tile the buffer, so
every entry is replaced once. -/
theorem sweep_parts {n m : Nat} {step : σ → Nat → Except Fault σ} {Inv : σ → Prop}
    (buffer : σ → Array β) {g : Nat → Nat → β → β} (start : σ) (hstart : Inv start)
    (hsize : (buffer start).size = n * m)
    (hstep : ∀ k s, k < n → Inv s → ∃ s', step s k = .ok s' ∧ Inv s' ∧
      buffer s' = (buffer s).mapIdx fun i v => if i / m = k then g k (i % m) v else v) :
    ∃ s, sweep n step start = .ok s ∧ Inv s ∧
      buffer s = (buffer start).mapIdx fun i v => g (i / m) (i % m) v := by
  have howned : ∀ k s, k < n → Inv s → (buffer s).size = (buffer start).size →
      ∃ s', step s k = .ok s' ∧ Inv s' ∧ buffer s' = (buffer s).mapIdx fun i v =>
        if i / m = k then g (i / m) (i % m) v else v := by
    intro k s hk hinv _
    obtain ⟨s', hrun, hinv', hreplaced⟩ := hstep k s hk hinv
    refine ⟨s', hrun, hinv', hreplaced.trans (mapIdx_congr fun i v _ => ?_)⟩
    exact ite_congr rfl (fun hi => by rw [hi]) fun _ => rfl
  obtain ⟨s, hrun, hinv, hbuffer⟩ := sweep_owned buffer start hstart howned
  refine ⟨s, hrun, hinv, hbuffer.trans (mapIdx_congr fun i v hi => if_pos ?_)⟩
  rw [hsize, Nat.mul_comm] at hi
  exact div_lt_right hi

/-- What a buffer of the right length held before is of no account. -/
theorem overwrite_eq {n : Nat} {f : Nat → Except Fault β} {g : Nat → β} {buf : Array β}
    (hn : buf.size = n) (h : ∀ k < n, f k = .ok (g k)) :
    overwrite n f buf = .ok (Array.ofFn fun k : Fin n => g k) := by
  unfold overwrite
  rw [modifyAll_eq (g := fun k _ => g k) hn fun k _ hk => h k hk]
  exact congrArg _ (Array.ext (by simp [hn]) fun i _ _ => by simp)

theorem tabulate_eq {n : Nat} {f : Nat → Except Fault β} {g : Nat → β}
    (h : ∀ k < n, f k = .ok (g k)) : tabulate n f = .ok (Array.ofFn fun k : Fin n => g k) := by
  obtain ⟨s, hrun, rfl⟩ : ∃ s, tabulate n f = .ok s ∧ s = Array.ofFn fun k : Fin n => g k :=
    sweep_induction (fun k s => s = Array.ofFn fun i : Fin k => g i) (by simp)
      fun k s hk hs => ⟨s.push (g k), by rw [h k hk]; rfl, by rw [hs, Array.ofFn_succ]; rfl⟩
  exact hrun

/-- Entries that are made one by one are found at their places. -/
theorem tabulate_forall {n : Nat} {f : Nat → Except Fault β} {P : Nat → β → Prop}
    (h : ∀ k < n, ∃ a, f k = .ok a ∧ P k a) :
    ∃ buf, tabulate n f = .ok buf ∧ ∀ k < n, ∃ a, slot buf k = .ok a ∧ P k a := by
  let Inv (m : Nat) (buf : Array β) : Prop :=
    buf.size = m ∧ ∀ k < m, ∃ a, slot buf k = .ok a ∧ P k a
  have hstart : Inv 0 #[] := ⟨rfl, fun k hk => absurd hk (Nat.not_lt_zero k)⟩
  have hkeep : ∀ m (buf : Array β) a, Inv m buf → P m a → Inv (m + 1) (buf.push a) := by
    rintro m buf a ⟨hsize, hslot⟩ ha
    refine ⟨by rw [Array.size_push, hsize], ?_⟩
    intro k hk
    rcases Nat.lt_succ_iff_lt_or_eq.1 hk with hlt | rfl
    · obtain ⟨b, hb, hP⟩ := hslot k hlt
      have hk' : k < buf.size := hsize.symm ▸ hlt
      rw [slot_eq hk'] at hb
      refine ⟨b, ?_, hP⟩
      rw [slot_eq (by rw [Array.size_push, hsize]; exact hk), Array.getElem_push_lt hk', hb]
    · refine ⟨a, ?_, ha⟩
      subst hsize
      rw [slot_eq (by rw [Array.size_push]; exact hk), Array.getElem_push_eq]
  obtain ⟨buf, hrun, -, hslot⟩ := sweep_induction Inv hstart fun m buf hm hinv => by
    obtain ⟨a, ha, hP⟩ := h m hm
    exact ⟨buf.push a, bind_eq_ok.2 ⟨a, ha, rfl⟩, hkeep m buf a hinv hP⟩
  exact ⟨buf, hrun, hslot⟩

/-- Making entries one by one ends at the first that fails. -/
theorem tabulate_error {n k : Nat} {f : Nat → Except Fault β} {fault : Fault} (hk : k < n)
    (hlt : ∀ i < k, ∃ a, f i = .ok a) (h : f k = .error fault) :
    tabulate n f = .error fault := by
  obtain ⟨buf, hrun, -⟩ := tabulate_forall (P := fun _ _ => True) fun i hi => by
    obtain ⟨a, ha⟩ := hlt i hi
    exact ⟨a, ha, trivial⟩
  exact sweep_error hk hrun (by rw [h]; rfl)

/-- The entries of a part of a buffer. -/
theorem slot_extract {buf : Array β} {start stop k : Nat} (hk : start + k < stop)
    (hstop : stop ≤ buf.size) : slot (buf.extract start stop) k = slot buf (start + k) := by
  have hlt : k < (buf.extract start stop).size := by
    rw [Array.size_extract]
    omega
  rw [slot_eq hlt, slot_eq (Nat.lt_of_lt_of_le hk hstop), Array.getElem_extract]

theorem slice_eq {buf : Array β} {start stop : Nat} (hle : start ≤ stop) (h : stop ≤ buf.size) :
    slice buf start stop = .ok (buf.extract start stop) := by
  rw [slice, require_eq_ok.2 (Nat.le_trans hle h), ok_bind, require_eq_ok.2 h, ok_bind, pure_eq_ok]

end TensorDiffusion
