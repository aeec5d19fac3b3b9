import TensorDiffusion.Proofs.ReadingValues

/-!
# Readers and texts

What a reader makes of the text of a value, whatever comes after it: it reads the text as a value
(`Reads`), or stops at its end if it returns (`Takes`), or does not return from it (`Refuses`).
Sizes and names are read from what is written of them, and take the text of every value that they
are read from.
-/

namespace TensorDiffusion

namespace Reader

variable {β γ : Type} {r : Reader β} {f : β → Reader γ} {text rest : List Char} {b : β}
  {e : ReadError}

/-! ### Readers and texts -/

/-- The reader reads the text as a value, and stops there. -/
def Reads (r : Reader β) (text : List Char) (b : β) : Prop :=
  ∀ rest, Stops rest → r.run (text ++ rest) = .ok (b, rest)

/-- If the reader returns, it has read to the end of the text. -/
def Takes (r : Reader β) (text : List Char) : Prop :=
  ∀ rest, Stops rest → ∀ b rest', r.run (text ++ rest) = .ok (b, rest') → rest' = rest

/-- The reader does not return from the text. -/
def Refuses (r : Reader β) (text : List Char) : Prop :=
  ∀ rest, Stops rest → ∀ p, r.run (text ++ rest) ≠ .ok p

/-- The reader never returns. -/
def Fails (r : Reader β) : Prop :=
  ∀ cs p, r.run cs ≠ .ok p

theorem exists_of_run_bind {cs : List Char} {p : γ × List Char} (h : (r >>= f).run cs = .ok p) :
    ∃ b cs', r.run cs = .ok (b, cs') ∧ (f b).run cs' = .ok p := by
  rw [StateT.run_bind] at h
  cases hr : r.run cs with
  | error e =>
    rw [hr] at h
    cases h
  | ok q =>
    rw [hr] at h
    exact ⟨q.1, q.2, rfl, h⟩

theorem fails_throw : Fails (throw e : Reader β) :=
  fun _ _ h => nomatch h

theorem Fails.bind (h : ∀ b, Fails (f b)) : Fails (r >>= f) := by
  intro cs p hp
  obtain ⟨b, cs', -, hf⟩ := exists_of_run_bind hp
  exact h b cs' p hf

theorem Refuses.takes (h : Refuses r text) : Takes r text :=
  fun rest hrest _ _ hrun => absurd hrun (h rest hrest _)

theorem Reads.bind_pure {g : β → γ} (h : Reads r text b) :
    Reads (r >>= fun b => pure (g b)) text (g b) :=
  fun rest hrest => run_bind_ok (h rest hrest)

theorem Takes.bind_pure {g : β → γ} (h : Takes r text) :
    Takes (r >>= fun b => pure (g b)) text := by
  intro rest hrest c rest' hrun
  obtain ⟨b, cs', hr, hpure⟩ := exists_of_run_bind hrun
  obtain rfl := h rest hrest b cs' hr
  exact (congrArg Prod.snd (Except.ok.inj hpure)).symm

theorem Refuses.bind (h : Refuses r text) : Refuses (r >>= f) text := by
  intro rest hrest p hrun
  obtain ⟨b, cs', hr, -⟩ := exists_of_run_bind hrun
  exact h rest hrest _ hr

/-- A value of the wrong type is never read. -/
theorem fails_wrongType : Fails (wrongType : Reader β) := by
  refine .bind fun c => ?_
  split
  case h_1 | h_6 | h_7 => exact fails_throw
  case h_2 | h_3 | h_4 => exact .bind fun _ => .bind fun _ => fails_throw
  case h_5 => exact .bind fun _ => fails_throw
  case h_8 =>
    split_ifs
    · exact .bind fun _ => .bind fun _ => fails_throw
    · exact fails_throw

/-! ### Sizes and names -/

variable {value : Json}

theorem reads_size {n : Nat} (h : n < UInt64.size) : Reads size (Json.nat n).chars n :=
  fun _ hrest => run_size h hrest

theorem takes_size (h : value.WellFormed) : Takes size value.chars := by
  intro rest hrest n rest' hrun
  obtain ⟨c, cs, hcs, hc⟩ := exists_chars_eq_cons h
  by_cases hnumber : c = '-' ∨ c.isDigit
  · obtain ⟨literal, rfl⟩ := hc.exists_number hnumber
    cases h with
    | number h =>
      obtain ⟨n, hn⟩ := run_number h hrest
      rw [Json.chars_number, size, run_bind_ok hn] at hrun
      cases n with
      | natural n => exact (congrArg Prod.snd (Except.ok.inj hrun)).symm
      | minus n => cases hrun
      | decimal negative d =>
        exact absurd hrun (Fails.bind (fun _ => fails_throw) _ _)
  · rw [hcs, List.cons_append, size, number, bind_assoc,
      run_bind_ok (run_peekToken hc.isBlank_eq_false)] at hrun
    simp only at hrun
    rw [if_neg hnumber] at hrun
    obtain ⟨n, cs', hwrong, -⟩ := exists_of_run_bind hrun
    exact absurd hwrong (fails_wrongType _ _)

/-- The name that a string stands for. -/
def resolve (names : List (String × β)) (name : String) : Reader β :=
  match names.lookup name with
  | some b => pure b
  | none   => throw .unexpected

theorem eq_of_run_resolve {names : List (String × β)} {name : String} {cs cs' : List Char}
    (h : (resolve names name).run cs = .ok (b, cs')) : names.lookup name = some b ∧ cs' = cs := by
  rw [resolve] at h
  cases hlookup : names.lookup name with
  | some b' =>
    rw [hlookup] at h
    obtain ⟨rfl, rfl⟩ := Prod.mk.inj (Except.ok.inj h)
    exact ⟨rfl, rfl⟩
  | none =>
    rw [hlookup] at h
    cases h

theorem run_key (s : String) : key.run ('"' :: (Json.quoted s ++ rest)) = .ok (s, rest) := by
  rw [key, run_bind_ok (run_peekToken (by decide))]
  exact run_string s

theorem run_variant_string (names : List (String × β)) (s : String) :
    (variant names).run ('"' :: (Json.quoted s ++ rest)) = (resolve names s).run rest := by
  rw [variant, run_bind_ok (run_peekToken (by decide))]
  show StateT.run (string >>= resolve names) _ = _
  rw [run_bind_ok (run_string s)]

theorem reads_variant {names : List (String × β)} {name : String}
    (h : names.lookup name = some b) : Reads (variant names) (Json.string name).chars b := by
  intro rest hrest
  rw [Json.chars_string, List.cons_append, run_variant_string, resolve, h]
  rfl

theorem takes_variant_string (names : List (String × β)) (s : String) :
    Takes (variant names) (Json.string s).chars := by
  intro rest hrest b rest' hrun
  rw [Json.chars_string, List.cons_append, run_variant_string] at hrun
  exact (eq_of_run_resolve hrun).2

/-- A name may also be the key of an object whose value is null. -/
theorem takes_variant_object (names : List (String × β)) {members : List (String × Json)}
    (h : ∀ member ∈ members, member.2.WellFormed) :
    Takes (variant names) (Json.object members).chars := by
  intro rest hrest b rest' hrun
  rw [Json.chars_object, List.cons_append, variant, run_bind_ok (run_peekToken (by decide))] at hrun
  cases members with
  | nil => cases hrun
  | cons member members =>
    obtain ⟨c, cs, hcs, hc⟩ := exists_chars_eq_cons (h member (.head _))
    rw [List.map_cons, Json.listed, List.append_assoc, memberChars_append] at hrun
    simp only at hrun
    rw [run_bind_ok run_advance, List.tail_cons, run_bind_ok (run_key _)] at hrun
    obtain ⟨b', cs', hresolve, hrun⟩ := exists_of_run_bind hrun
    obtain ⟨-, rfl⟩ := eq_of_run_resolve hresolve
    rw [run_bind_ok run_colon, hcs, List.cons_append,
      run_bind_ok (run_peekToken hc.isBlank_eq_false)] at hrun
    -- only null starts with the letter that is asked for, and a name must be the only key
    by_cases hnull : c = 'n'
    · subst hnull
      rw [hc.eq_null] at hcs
      obtain rfl : cs = ['u', 'l', 'l'] := (List.cons.inj hcs).2.symm
      rw [if_pos rfl, run_bind_ok run_advance, List.tail_cons, run_bind_ok (run_word _)] at hrun
      cases members with
      | nil => exact (congrArg Prod.snd (Except.ok.inj hrun)).symm
      | cons next members => cases hrun
    · rw [if_neg fun h => hnull (Option.some.inj h)] at hrun
      obtain ⟨_, _, hwrong, -⟩ := exists_of_run_bind hrun
      exact absurd hwrong (fails_wrongType _ _)

theorem refuses_variant (names : List (String × β)) {c : Char} {cs : List Char}
    (hblank : isBlank c = false) (hstring : c ≠ '"') (hobject : c ≠ '{') :
    Refuses (variant names) (c :: cs) := by
  intro rest _ p hrun
  rw [List.cons_append, variant, run_bind_ok (run_peekToken hblank)] at hrun
  split at hrun
  case h_1 h => cases h
  case h_2 h => exact hstring (Option.some.inj h)
  case h_3 h => exact hobject (Option.some.inj h)
  case h_4 => cases hrun

theorem takes_variant (names : List (String × β)) (h : value.WellFormed) :
    Takes (variant names) value.chars := by
  obtain ⟨c, cs, hcs, hc⟩ := exists_chars_eq_cons h
  by_cases hstring : c = '"'
  · subst hstring
    obtain ⟨s, rfl⟩ := hc.exists_string
    exact takes_variant_string names s
  by_cases hobject : c = '{'
  · subst hobject
    obtain ⟨members, rfl⟩ := hc.exists_object
    cases h with
    | object h => exact takes_variant_object names h
  rw [hcs]
  exact (refuses_variant names hc.isBlank_eq_false hstring hobject).takes

/-! ### Whole texts -/

variable {whole : String}

theorem readText_of_reads (h : Reads r whole.toList b) : readText r whole = .ok b := by
  have hrun := h [] (fun c hc => nomatch hc)
  rw [List.append_nil] at hrun
  rw [readText, hrun]
  rfl

theorem readText_of_refuses (h : Refuses r whole.toList) : ∃ e, readText r whole = .error e := by
  have hrun := h [] (fun c hc => nomatch hc)
  rw [List.append_nil] at hrun
  rw [readText]
  cases hr : r.run whole.toList with
  | error e => exact ⟨e, rfl⟩
  | ok p => exact absurd hr (hrun p)

end Reader

end TensorDiffusion
