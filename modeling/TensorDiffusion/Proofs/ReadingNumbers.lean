import Mathlib.Data.List.Basic
import Mathlib.Data.List.TakeDrop
import Mathlib.Tactic.IntervalCases
import TensorDiffusion.Json.Reader
import TensorDiffusion.Json.Value

/-!
# Reading numbers

A reader that meets a number takes it up to its last character, whatever it makes of it, provided
that what follows is the end of the text, a comma or a closing bracket.  A whole number below
`2 ^ 64` is read as the number that was written.

`run_bind_ok` and its companions carry out the steps of a reader on characters that are known.
-/

namespace TensorDiffusion

namespace Reader

variable {β γ : Type} {r : Reader β} {f : β → Reader γ} {cs cs' : List Char} {b : β} {c : Char}

/-! ### Runs -/

theorem run_bind_ok (h : r.run cs = .ok (b, cs')) : (r >>= f).run cs = (f b).run cs' := by
  rw [StateT.run_bind, h]
  rfl

theorem run_get : (get : Reader (List Char)).run cs = .ok (cs, cs) := rfl

theorem run_peek : peek.run cs = .ok (cs.head?, cs) := rfl

theorem run_advance : advance.run cs = .ok ((), cs.tail) := rfl

theorem run_char : char.run (c :: cs) = .ok (c, cs) := rfl

theorem run_peekToken (h : isBlank c = false) :
    peekToken.run (c :: cs) = .ok (some c, c :: cs) := by
  show Except.ok (((c :: cs).dropWhile isBlank).head?, (c :: cs).dropWhile isBlank) = _
  rw [List.dropWhile_cons_of_neg (by rw [h]; decide)]
  rfl

theorem run_word (text : List Char) : (word text).run (text ++ cs) = .ok ((), cs) := by
  induction text with
  | nil => rfl
  | cons c text ih => rw [word, List.cons_append, run_bind_ok run_char, if_pos rfl, ih]

/-- Characters that may follow a value. -/
def Stops (rest : List Char) : Prop :=
  ∀ c ∈ rest.head?, c = ',' ∨ c = ']' ∨ c = '}'

/-! ### Digits -/

/-- Digits, of which there is one at least. -/
def IsDigits (ds : List Char) : Prop :=
  ds ≠ [] ∧ ∀ c ∈ ds, c.isDigit

theorem isDigits_singleton (h : c.isDigit) : IsDigits [c] :=
  ⟨List.cons_ne_nil _ _, List.forall_mem_singleton.2 h⟩

/-- The digits of a number before the point. -/
def IsWhole (ds : List Char) : Prop :=
  ds = ['0'] ∨ IsDigits ds ∧ ds.head? ≠ some '0'

/-- The point of a number and the digits after it, or nothing. -/
def IsFraction (cs : List Char) : Prop :=
  cs = [] ∨ ∃ ds, IsDigits ds ∧ cs = '.' :: ds

/-- The exponent of a number with its mark, or nothing. -/
def IsExponent (cs : List Char) : Prop :=
  cs = [] ∨ ∃ mark sign ds, (mark = 'e' ∨ mark = 'E') ∧ (∀ c ∈ sign, c = '+' ∨ c = '-') ∧
    IsDigits ds ∧ cs = mark :: (Option.toList sign ++ ds)

/-- No digit follows. -/
def NoDigit (rest : List Char) : Prop :=
  ∀ c ∈ rest.head?, c.isDigit = false

/-- Neither a digit nor a point follows. -/
def NoFraction (rest : List Char) : Prop :=
  NoDigit rest ∧ rest.head? ≠ some '.'

section

variable {ds rest whole fraction' exponent' : List Char}

theorem Stops.noFraction (h : Stops rest) : NoFraction rest := by
  refine ⟨fun c hc => ?_, fun hc => ?_⟩
  · rcases h c hc with rfl | rfl | rfl <;> decide
  · rcases h '.' hc with h | h | h <;> exact absurd h (by decide)

theorem IsExponent.noFraction (h : IsExponent cs) (hrest : Stops rest) :
    NoFraction (cs ++ rest) := by
  rcases h with rfl | ⟨mark, sign, ds, hmark, -, -, rfl⟩
  · exact hrest.noFraction
  · refine ⟨fun c hc => ?_, fun hc => ?_⟩
    · obtain rfl := Option.some.inj hc
      rcases hmark with rfl | rfl <;> decide
    · obtain rfl := Option.some.inj hc
      rcases hmark with h | h <;> exact absurd h (by decide)

theorem IsFraction.noDigit (h : IsFraction cs) (hrest : NoFraction rest) :
    NoDigit (cs ++ rest) := by
  rcases h with rfl | ⟨ds, -, rfl⟩
  · exact hrest.1
  · rintro c hc
    obtain rfl := Option.some.inj hc
    decide

theorem run_digits (h : ∀ c ∈ ds, c.isDigit) (hrest : NoDigit rest) :
    digits.run (ds ++ rest) = .ok (ds, rest) := by
  have hspan : (ds ++ rest).span Char.isDigit = (ds, rest) := by
    rw [List.span_eq_takeWhile_dropWhile, List.takeWhile_append_of_pos h,
      List.dropWhile_append_of_pos h]
    cases rest with
    | nil => simp
    | cons c rest =>
      have hc : c.isDigit = false := hrest c rfl
      simp [hc]
  show Except.ok (((ds ++ rest).span Char.isDigit).1, ((ds ++ rest).span Char.isDigit).2) = _
  rw [hspan]

theorem run_oneOf {accept : Char → Bool} (h : accept c) :
    (oneOf accept).run (c :: cs) = .ok ((), cs) := by
  rw [oneOf, run_bind_ok run_peek]
  show StateT.run (if accept c then advance else _) _ = _
  rw [if_pos h]
  rfl

theorem run_wholeDigits (h : IsWhole whole) (hrest : NoDigit rest) :
    wholeDigits.run (whole ++ rest) = .ok (whole, rest) := by
  rcases h with rfl | ⟨⟨hne, hdigits⟩, hhead⟩
  · rw [wholeDigits, List.singleton_append, run_bind_ok run_char, if_pos rfl, run_bind_ok run_peek]
    cases rest with
    | nil => rfl
    | cons c rest =>
      have hc : c.isDigit = false := hrest c rfl
      show StateT.run (if c.isDigit = true then _ else _) _ = _
      rw [hc]
      rfl
  · obtain ⟨c, ds, rfl⟩ := List.exists_cons_of_ne_nil hne
    obtain ⟨hc, hds⟩ := List.forall_mem_cons.1 hdigits
    have hzero : c ≠ '0' := fun h => hhead (congrArg some h)
    rw [wholeDigits, List.cons_append, run_bind_ok run_char, if_neg hzero, if_pos hc,
      run_bind_ok (run_digits hds hrest)]
    rfl

theorem run_fraction (h : IsFraction fraction') (hrest : NoFraction rest) :
    ∃ r, fraction.run (fraction' ++ rest) = .ok (r, rest) ∧ (fraction' = [] → r = none) := by
  rcases h with rfl | ⟨ds, ⟨hne, hdigits⟩, rfl⟩
  · refine ⟨none, ?_, fun _ => rfl⟩
    rw [fraction, List.nil_append, run_bind_ok run_peek, if_neg hrest.2]
    rfl
  · refine ⟨some ds, ?_, fun h => nomatch h⟩
    rw [fraction, List.cons_append, run_bind_ok run_peek, List.head?_cons, if_pos rfl,
      run_bind_ok run_advance, List.tail_cons, run_bind_ok (run_digits hdigits hrest.1)]
    have hempty : ds.isEmpty = false := by simpa using hne
    show StateT.run (if ds.isEmpty = true then _ else pure (some ds)) rest = _
    rw [hempty]
    rfl

/-- What is left of an exponent after its mark. -/
theorem run_exponent (h : IsExponent exponent') (hrest : Stops rest) :
    ∃ r, exponent.run (exponent' ++ rest) = .ok (r, rest) ∧ (exponent' = [] → r = none) := by
  rcases h with rfl | ⟨mark, sign, ds, hmark, hsign, ⟨hne, hdigits⟩, rfl⟩
  · refine ⟨none, ?_, fun _ => rfl⟩
    rw [exponent, List.nil_append, run_bind_ok run_peek]
    cases rest with
    | nil => rfl
    | cons c rest =>
      have hc : ¬(c = 'e' ∨ c = 'E') := by
        rcases hrest c rfl with rfl | rfl | rfl <;> decide
      show StateT.run (if c = 'e' ∨ c = 'E' then _ else pure none) _ = _
      rw [if_neg hc]
      rfl
  · obtain ⟨d, ds, rfl⟩ := List.exists_cons_of_ne_nil hne
    obtain ⟨hd, hds⟩ := List.forall_mem_cons.1 hdigits
    have hsigns : ¬(some d = some '+' ∨ some d = some '-') := by
      rintro (h | h) <;> (obtain rfl := Option.some.inj h; exact absurd hd (by decide))
    have hrun := run_digits hds hrest.noFraction.1
    refine (?_ : ∃ r, _ = Except.ok (r, rest)).imp fun r h => ⟨h, fun h => nomatch h⟩
    rw [exponent, List.cons_append, run_bind_ok run_peek]
    simp only [List.head?_cons, if_pos hmark]
    rw [run_bind_ok run_advance, List.tail_cons, run_bind_ok run_peek]
    cases sign with
    | none =>
      rw [Option.toList_none, List.nil_append, List.cons_append, List.head?_cons, if_neg hsigns,
        run_bind_ok run_char, if_neg (not_not.2 hd), run_bind_ok hrun]
      exact ⟨_, rfl⟩
    | some c =>
      have hc : some c = some '+' ∨ some c = some '-' := by simpa using hsign c rfl
      rw [Option.toList_some, List.singleton_append, List.cons_append, List.cons_append,
        List.head?_cons, if_pos hc, run_bind_ok run_advance, List.tail_cons, run_bind_ok run_char,
        if_neg (not_not.2 hd), run_bind_ok hrun]
      exact ⟨_, rfl⟩

/-- A number without its sign. -/
def IsUnsigned (cs : List Char) : Prop :=
  ∃ whole fraction exponent, IsWhole whole ∧ IsFraction fraction ∧ IsExponent exponent ∧
    cs = whole ++ (fraction ++ exponent)

/-- A number. -/
def IsNumber (cs : List Char) : Prop :=
  IsUnsigned cs ∨ ∃ ds, IsUnsigned ds ∧ cs = '-' :: ds

/-- A number is read to its end. -/
theorem run_unsigned (negative : Bool) (h : IsUnsigned cs) (hrest : Stops rest) :
    ∃ number, (unsigned negative).run (cs ++ rest) = .ok (number, rest) := by
  obtain ⟨whole, fr, ex, hwhole, hfraction, hexponent, rfl⟩ := h
  have hafter := hexponent.noFraction hrest
  obtain ⟨f, hf, -⟩ := run_fraction hfraction hafter
  obtain ⟨x, hx, -⟩ := run_exponent hexponent hrest
  rw [unsigned, List.append_assoc, List.append_assoc,
    run_bind_ok (run_wholeDigits hwhole (hfraction.noDigit hafter)), run_bind_ok hf, run_bind_ok hx]
  cases f with
  | some f => exact ⟨_, rfl⟩
  | none =>
    cases x with
    | some x => exact ⟨_, rfl⟩
    | none =>
      dsimp only
      split_ifs <;> exact ⟨_, rfl⟩

theorem run_natural (h : IsWhole ds) (hlt : digitsValue ds < UInt64.size) (hrest : Stops rest) :
    (unsigned false).run (ds ++ rest) = .ok (.natural (digitsValue ds), rest) := by
  obtain ⟨f, hf, hnone⟩ := run_fraction (.inl rfl) hrest.noFraction
  obtain ⟨x, hx, hnone'⟩ := run_exponent (.inl rfl) hrest
  obtain rfl := hnone rfl
  obtain rfl := hnone' rfl
  rw [List.nil_append] at hf hx
  rw [unsigned, run_bind_ok (run_wholeDigits h hrest.noFraction.1), run_bind_ok hf,
    run_bind_ok hx]
  dsimp only
  rw [if_neg (by decide), if_pos hlt]
  rfl

/-! ### Skipped numbers -/

/-- Skips a digit and those after it. -/
theorem run_skipDigits (h : IsDigits ds) (hrest : NoDigit rest) :
    StateT.run (do oneOf Char.isDigit; let _ ← digits) (ds ++ rest) = .ok ((), rest) := by
  obtain ⟨hne, hdigits⟩ := h
  obtain ⟨d, ds, rfl⟩ := List.exists_cons_of_ne_nil hne
  obtain ⟨hd, hds⟩ := List.forall_mem_cons.1 hdigits
  rw [List.cons_append, run_bind_ok (run_oneOf hd), run_bind_ok (run_digits hds hrest)]
  rfl

/-- Skips the digits before the point. -/
def skipWhole : Reader Unit := do
  if (← peek) = some '0' then
    advance
    if ((← peek).map Char.isDigit).getD false then
      throw .malformed
  else
    oneOf Char.isDigit
    let _ ← digits

/-- Skips the point and the digits after it, if there is a point. -/
def skipFraction : Reader Unit := do
  if (← peek) = some '.' then
    advance
    oneOf Char.isDigit
    let _ ← digits

/-- Skips the mark, the sign and the digits of an exponent, if there is one. -/
def skipExponent : Reader Unit := do
  if (← peek) = some 'e' ∨ (← peek) = some 'E' then
    advance
    if (← peek) = some '+' ∨ (← peek) = some '-' then
      advance
    oneOf Char.isDigit
    let _ ← digits

theorem ite_bind {p : Prop} [Decidable p] (r r' : Reader β) (f : β → Reader γ) :
    (if p then r else r') >>= f = if p then r >>= f else r' >>= f := by
  split <;> rfl

theorem skipUnsigned_eq : skipUnsigned = (do skipWhole; skipFraction; skipExponent) := by
  simp only [skipWhole, skipFraction, bind_assoc, ite_bind, pure_bind]
  rfl

theorem run_skipWhole (h : IsWhole ds) (hrest : NoDigit rest) :
    skipWhole.run (ds ++ rest) = .ok ((), rest) := by
  rw [skipWhole, run_bind_ok run_peek]
  rcases h with rfl | ⟨hdigits, hhead⟩
  · rw [List.singleton_append, List.head?_cons, if_pos rfl, run_bind_ok run_advance,
      run_bind_ok run_peek, List.tail_cons]
    cases rest with
    | nil => rfl
    | cons c rest =>
      have hc : c.isDigit = false := hrest c rfl
      rw [List.head?_cons, Option.map_some, Option.getD_some, hc]
      rfl
  · obtain ⟨d, ds', rfl⟩ := List.exists_cons_of_ne_nil hdigits.1
    rw [if_neg (by exact hhead), run_skipDigits hdigits hrest]

theorem run_skipFraction (h : IsFraction cs) (hrest : NoFraction rest) :
    skipFraction.run (cs ++ rest) = .ok ((), rest) := by
  rw [skipFraction, run_bind_ok run_peek]
  rcases h with rfl | ⟨ds, hdigits, rfl⟩
  · rw [List.nil_append, if_neg hrest.2]
    rfl
  · rw [List.cons_append, List.head?_cons, if_pos rfl, run_bind_ok run_advance, List.tail_cons,
      run_skipDigits hdigits hrest.1]

theorem run_skipExponent (h : IsExponent cs) (hrest : Stops rest) :
    skipExponent.run (cs ++ rest) = .ok ((), rest) := by
  rw [skipExponent, run_bind_ok run_peek, run_bind_ok run_peek]
  rcases h with rfl | ⟨mark, sign, ds, hmark, hsign, hdigits, rfl⟩
  · have hhead : ¬(rest.head? = some 'e' ∨ rest.head? = some 'E') := by
      rintro (h | h) <;> rcases hrest _ h with h | h | h <;> exact absurd h (by decide)
    rw [List.nil_append, if_neg hhead]
    rfl
  · rw [List.cons_append, List.head?_cons, if_pos (by simpa using hmark),
      run_bind_ok run_advance, List.tail_cons, run_bind_ok run_peek, run_bind_ok run_peek]
    cases sign with
    | none =>
      obtain ⟨d, ds', rfl⟩ := List.exists_cons_of_ne_nil hdigits.1
      have hsigns : ¬(some d = some '+' ∨ some d = some '-') := by
        rintro (h | h) <;>
          (obtain rfl := Option.some.inj h; exact absurd (hdigits.2 _ (.head _)) (by decide))
      rw [Option.toList_none, List.nil_append, List.cons_append, List.head?_cons, if_neg hsigns,
        ← List.cons_append, run_skipDigits hdigits hrest.noFraction.1]
    | some c =>
      have hc : some c = some '+' ∨ some c = some '-' := by simpa using hsign c rfl
      rw [Option.toList_some, List.singleton_append, List.cons_append, List.head?_cons, if_pos hc,
        run_bind_ok run_advance, List.tail_cons, run_skipDigits hdigits hrest.noFraction.1]

/-- A number is skipped to its end. -/
theorem run_skipUnsigned (h : IsUnsigned cs) (hrest : Stops rest) :
    skipUnsigned.run (cs ++ rest) = .ok ((), rest) := by
  obtain ⟨whole, fr, ex, hwhole, hfraction, hexponent, rfl⟩ := h
  have hafter := hexponent.noFraction hrest
  rw [skipUnsigned_eq, List.append_assoc, List.append_assoc,
    run_bind_ok (run_skipWhole hwhole (hfraction.noDigit hafter)),
    run_bind_ok (run_skipFraction hfraction hafter), run_skipExponent hexponent hrest]

/-! ### Numbers -/

theorem IsUnsigned.exists_cons (h : IsUnsigned cs) : ∃ d ds, cs = d :: ds ∧ d.isDigit := by
  obtain ⟨whole, fr, ex, hwhole, -, -, rfl⟩ := h
  rcases hwhole with rfl | ⟨⟨hne, hdigits⟩, -⟩
  · exact ⟨'0', _, rfl, rfl⟩
  · obtain ⟨d, ds, rfl⟩ := List.exists_cons_of_ne_nil hne
    exact ⟨d, _, List.cons_append, hdigits d (.head _)⟩

theorem isBlank_of_isDigit (h : c.isDigit) : isBlank c = false := by
  by_contra hc
  simp only [isBlank, Bool.not_eq_false, Bool.or_eq_true, decide_eq_true_eq] at hc
  rcases hc with ((rfl | rfl) | rfl) | rfl <;> exact absurd h (by decide)

theorem isBlank_of_isNumberStart (h : c = '-' ∨ c.isDigit) : isBlank c = false := by
  rcases h with rfl | h
  · decide
  · exact isBlank_of_isDigit h

theorem IsNumber.exists_cons (h : IsNumber cs) :
    ∃ d ds, cs = d :: ds ∧ (d = '-' ∨ d.isDigit) := by
  rcases h with h | ⟨ds, -, rfl⟩
  · obtain ⟨d, ds, rfl, hd⟩ := h.exists_cons
    exact ⟨d, ds, rfl, .inr hd⟩
  · exact ⟨'-', ds, rfl, .inl rfl⟩

theorem run_number_unsigned (h : IsUnsigned cs) :
    number.run (cs ++ rest) = (unsigned false).run (cs ++ rest) := by
  obtain ⟨d, ds, rfl, hd⟩ := h.exists_cons
  have hminus : d ≠ '-' := by
    rintro rfl
    exact absurd hd (by decide)
  rw [number, List.cons_append, run_bind_ok (run_peekToken (isBlank_of_isDigit hd))]
  show StateT.run (if d = '-' ∨ d.isDigit then literal d else wrongType) _ = _
  rw [if_pos (.inr hd), literal, if_neg hminus]

/-- A number is read to its end. -/
theorem run_number (h : IsNumber cs) (hrest : Stops rest) :
    ∃ n, number.run (cs ++ rest) = .ok (n, rest) := by
  rcases h with h | ⟨ds, h, rfl⟩
  · rw [run_number_unsigned h]
    exact run_unsigned false h hrest
  · rw [number, List.cons_append, run_bind_ok (run_peekToken (by decide))]
    show ∃ n, StateT.run (if '-' = '-' ∨ '-'.isDigit then literal '-' else wrongType) _ = _
    rw [if_pos (.inl rfl), literal, if_pos rfl, run_bind_ok run_advance]
    exact run_unsigned true h hrest

/-! ### Sizes -/

theorem digitsValue_repr (n : Nat) : digitsValue (Nat.repr n).toList = n := by
  rw [Nat.toList_repr]
  exact Nat.ofDigitChars_toDigits (by decide) (by decide)

/-- The digits of a number that is not zero do not start with zero. -/
theorem head?_toDigits_ne {n : Nat} (h : 0 < n) : (Nat.toDigits 10 n).head? ≠ some '0' := by
  induction n using Nat.strong_induction_on with
  | _ n ih =>
    rw [Nat.toDigits_eq_if (by decide)]
    split_ifs with hlt
    · intro hzero
      have hval := congrArg Char.toNat (Option.some.inj hzero)
      interval_cases n <;> exact absurd hval (by decide)
    · rw [List.head?_append_of_ne_nil _ Nat.toDigits_ne_nil]
      exact ih (n / 10) (by omega) (by omega)

theorem isWhole_repr (n : Nat) : IsWhole (Nat.repr n).toList := by
  rw [Nat.toList_repr]
  rcases n.eq_zero_or_pos with rfl | h
  · exact .inl rfl
  · exact .inr ⟨⟨Nat.toDigits_ne_nil, fun c hc => Nat.isDigit_of_mem_toDigits (by decide)
      (by decide) hc⟩, head?_toDigits_ne h⟩

theorem isUnsigned_of_isWhole (h : IsWhole ds) : IsUnsigned ds :=
  ⟨ds, [], [], h, .inl rfl, .inl rfl, by simp⟩

/-- Every size below `2 ^ 64` is read as it is written. -/
theorem run_size {n : Nat} (hlt : n < UInt64.size) (hrest : Stops rest) :
    size.run ((Nat.repr n).toList ++ rest) = .ok (n, rest) := by
  have hn := run_natural (isWhole_repr n) (by rwa [digitsValue_repr]) hrest
  rw [digitsValue_repr, ← run_number_unsigned (isUnsigned_of_isWhole (isWhole_repr n))] at hn
  rw [size, run_bind_ok hn]
  rfl

end

end Reader

end TensorDiffusion
