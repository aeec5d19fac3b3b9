import TensorDiffusion.Proofs.ReadingNumbers

/-!
# Reading strings and skipping values

A string is read back from its quoted form, whatever characters it holds (`run_string`).  A value
that no reader asks for is skipped up to its last character (`run_skip`), provided that its numbers
are written as numbers (`Json.WellFormed`); the length of a text is enough fuel for skipping it.

Both proofs follow the text: `Json.chars` is taken apart into the first item or member of a list and
what comes after it (`Json.following`).
-/

namespace TensorDiffusion

namespace Json

/-! ### Texts -/

/-- The characters of the compact text. -/
def chars (value : Json) : List Char :=
  value.compact.toList

/-- The characters of a string in quotes, from the first one after the quote on. -/
def quoted (s : String) : List Char :=
  s.toList.flatMap escape ++ ['"']

/-- The characters of a member of an object. -/
def memberChars (member : String × Json) : List Char :=
  '"' :: (quoted member.1 ++ ':' :: member.2.chars)

/-- What comes after the first item of a list: the other items and the end. -/
def following (close : Char) (texts : List (List Char)) : List Char :=
  texts.flatMap (',' :: ·) ++ [close]

theorem toList_quote (s : String) : (quote s).toList = '"' :: quoted s := by
  simp [quote, quoted]

theorem chars_string (s : String) : (string s).chars = '"' :: quoted s :=
  toList_quote s

theorem chars_number (literal : String) : (number literal).chars = literal.toList := rfl

theorem compactItems_eq_map (items : List Json) : compactItems items = items.map compact := by
  induction items with
  | nil => rfl
  | cons item items ih => rw [compactItems, ih, List.map_cons]

theorem compactMembers_eq_map (members : List (String × Json)) :
    compactMembers members = members.map fun m => quote m.1 ++ ":" ++ compact m.2 := by
  induction members with
  | nil => rfl
  | cons member members ih => rw [compactMembers, ih, List.map_cons]

theorem intercalate_append (close : Char) (text : List Char) (texts : List (List Char)) :
    [','].intercalate (text :: texts) ++ [close] = text ++ following close texts := by
  induction texts generalizing text with
  | nil => simp [following, List.intercalate]
  | cons next texts ih =>
    rw [List.intercalate_cons_cons, List.append_assoc, ih]
    simp [following]

/-- The items of a list, the first one or later ones, and the end. -/
def listed (close : Char) : Bool → List (List Char) → List Char
  | true,  text :: texts => text ++ following close texts
  | true,  []            => [close]
  | false, texts         => following close texts

theorem intercalate_append_singleton (close : Char) (texts : List (List Char)) :
    [','].intercalate texts ++ [close] = listed close true texts := by
  cases texts with
  | nil => rfl
  | cons text texts => exact intercalate_append close text texts

theorem chars_array (items : List Json) :
    (array items).chars = '[' :: listed ']' true (items.map chars) := by
  rw [chars, compact, compactItems_eq_map, String.toList_append, String.toList_append,
    String.toList_intercalate, List.map_map, ← intercalate_append_singleton]
  rfl

theorem toList_member (member : String × Json) :
    (quote member.1 ++ ":" ++ compact member.2).toList = memberChars member := by
  simp [memberChars, toList_quote, chars]

theorem chars_object (members : List (String × Json)) :
    (object members).chars = '{' :: listed '}' true (members.map memberChars) := by
  have hmembers : String.toList ∘ (fun m : String × Json => quote m.1 ++ ":" ++ compact m.2) =
      memberChars :=
    funext toList_member
  rw [chars, compact, compactMembers_eq_map, String.toList_append, String.toList_append,
    String.toList_intercalate, List.map_map, hmembers, ← intercalate_append_singleton]
  rfl

theorem following_cons (close : Char) (text : List Char) (texts : List (List Char)) :
    following close (text :: texts) = ',' :: (text ++ following close texts) := by
  simp [following]

/-- Every number in the value is written as one. -/
inductive WellFormed : Json → Prop where
  | null : WellFormed .null
  | bool (b : Bool) : WellFormed (.bool b)
  | number {literal : String} (h : Reader.IsNumber literal.toList) : WellFormed (.number literal)
  | string (s : String) : WellFormed (.string s)
  | array {items : List Json} (h : ∀ item ∈ items, WellFormed item) : WellFormed (.array items)
  | object {members : List (String × Json)} (h : ∀ member ∈ members, WellFormed member.2) :
    WellFormed (.object members)

/-! ### First characters -/

/-- The first characters that a value of its kind has. -/
def StartsWith : Json → Char → Prop
  | .null,     c => c = 'n'
  | .bool _,   c => c = 't' ∨ c = 'f'
  | .number _, c => c = '-' ∨ c.isDigit
  | .string _, c => c = '"'
  | .array _,  c => c = '['
  | .object _, c => c = '{'

variable {value : Json} {c : Char}

theorem StartsWith.eq_null (h : value.StartsWith 'n') : value = .null := by
  cases value with
  | null => rfl
  | _ => exact absurd h (by simp [StartsWith])

theorem StartsWith.exists_string (h : value.StartsWith '"') : ∃ s, value = .string s := by
  cases value with
  | string s => exact ⟨s, rfl⟩
  | _ => exact absurd h (by simp [StartsWith])

theorem StartsWith.exists_array (h : value.StartsWith '[') : ∃ items, value = .array items := by
  cases value with
  | array items => exact ⟨items, rfl⟩
  | _ => exact absurd h (by simp [StartsWith])

theorem StartsWith.exists_object (h : value.StartsWith '{') :
    ∃ members, value = .object members := by
  cases value with
  | object members => exact ⟨members, rfl⟩
  | _ => exact absurd h (by simp [StartsWith])

theorem StartsWith.exists_number (h : value.StartsWith c) (hc : c = '-' ∨ c.isDigit) :
    ∃ literal, value = .number literal := by
  cases value with
  | number literal => exact ⟨literal, rfl⟩
  | bool b =>
    rcases h with rfl | rfl <;> exact absurd hc (by decide)
  | _ =>
    obtain rfl := h
    exact absurd hc (by decide)

theorem StartsWith.isBlank_eq_false (h : value.StartsWith c) : Reader.isBlank c = false := by
  cases value with
  | number => exact Reader.isBlank_of_isNumberStart h
  | bool b => rcases h with rfl | rfl <;> decide
  | _ =>
    obtain rfl := h
    decide

theorem StartsWith.ne_bracket (h : value.StartsWith c) : c ≠ ']' := by
  rintro rfl
  cases value with
  | _ => exact absurd h (by simp [StartsWith])

end Json

namespace Reader

/-! ### Strings -/

variable {c : Char} {cs rest : List Char} {fuel : Nat}

theorem run_hexEscape (h : c.toNat < 32) :
    hexEscape.run (Json.hexCode c ++ rest) = .ok (c.toNat, rest) := by
  have key : ∀ n < 32, byteLength (Json.hexCode (Char.ofNat n)) = 4 ∧
      ((Json.hexCode (Char.ofNat n)).mapM hexValue?).map (fun ds =>
        ds.foldl (fun n d => 16 * n + d) 0) = some n := by
    decide
  obtain ⟨hbytes, hvalue⟩ := key c.toNat h
  rw [Char.ofNat_toNat] at hbytes hvalue
  obtain ⟨ds, hds, hvalue⟩ := Option.map_eq_some_iff.1 hvalue
  have htake : (Json.hexCode c ++ rest).take 4 = Json.hexCode c := rfl
  have hdrop : (Json.hexCode c ++ rest).drop 4 = rest := rfl
  rw [hexEscape, run_bind_ok run_get, htake, hdrop, hds, hbytes, ← hvalue]
  rfl

theorem run_unicodeEscape (h : c.toNat < 32) :
    unicodeEscape.run (Json.hexCode c ++ rest) = .ok (c, rest) := by
  rw [unicodeEscape, run_bind_ok (run_hexEscape h), if_neg (by omega), if_pos (by omega),
    Char.ofNat_toNat]
  rfl

/-- A character within quotes is a letter after a backslash, a code, or itself. -/
theorem escape_cases (c : Char) :
    (∃ e, Json.escape c = ['\\', e] ∧ e ≠ 'u' ∧ simpleEscape? e = some c) ∨
    (c.toNat < 32 ∧ Json.escape c = '\\' :: 'u' :: Json.hexCode c) ∨
    (c ≠ '"' ∧ c ≠ '\\' ∧ ¬c.toNat < 32 ∧ Json.escape c = [c]) := by
  unfold Json.escape
  split_ifs with hquote hslash _ _ _ _ _ hcode
  case pos | pos | pos | pos | pos | pos | pos =>
    subst_vars
    exact .inl ⟨_, rfl, by decide, rfl⟩
  case pos => exact .inr (.inl ⟨hcode, rfl⟩)
  case neg => exact .inr (.inr ⟨hquote, hslash, hcode, rfl⟩)

/-- The first character of a string is read from its escape. -/
theorem run_stringRest_escape (c : Char) :
    (stringRest (fuel + 1)).run (Json.escape c ++ cs) =
      (do let s ← stringRest fuel; return c :: s : Reader (List Char)).run cs := by
  rw [stringRest]
  rcases escape_cases c with ⟨e, he, hne, hsimple⟩ | ⟨hcode, he⟩ | ⟨hquote, hslash, hcode, he⟩
  · rw [he, List.cons_append, run_bind_ok run_char, if_neg (by decide), if_pos rfl,
      List.singleton_append, run_bind_ok run_char, if_neg hne, hsimple]
    rfl
  · rw [he, List.cons_append, run_bind_ok run_char, if_neg (by decide), if_pos rfl,
      List.cons_append, run_bind_ok run_char, if_pos rfl, run_bind_ok (run_unicodeEscape hcode)]
  · rw [he, List.singleton_append, run_bind_ok run_char, if_neg hquote, if_neg hslash,
      if_neg hcode]

/-- The first character of a string is skipped with its escape. -/
theorem run_skipString_escape (c : Char) :
    (skipString (fuel + 1)).run (Json.escape c ++ cs) = (skipString fuel).run cs := by
  rw [skipString]
  rcases escape_cases c with ⟨e, he, hne, hsimple⟩ | ⟨hcode, he⟩ | ⟨hquote, hslash, hcode, he⟩
  · rw [he, List.cons_append, run_bind_ok run_char, if_neg (by decide), if_pos rfl,
      List.singleton_append, run_bind_ok run_char, if_neg hne, hsimple]
    rfl
  · rw [he, List.cons_append, run_bind_ok run_char, if_neg (by decide), if_pos rfl,
      List.cons_append, run_bind_ok run_char, if_pos rfl, run_bind_ok (run_hexEscape hcode)]
  · rw [he, List.singleton_append, run_bind_ok run_char, if_neg hquote, if_neg hslash,
      if_neg hcode]

theorem run_stringRest (s rest : List Char) (hfuel : s.length < fuel) :
    (stringRest fuel).run (s.flatMap Json.escape ++ '"' :: rest) = .ok (s, rest) := by
  induction s generalizing fuel with
  | nil =>
    cases fuel with
    | zero => exact absurd hfuel (Nat.not_lt_zero _)
    | succ fuel => rfl
  | cons c s ih =>
    cases fuel with
    | zero => exact absurd hfuel (Nat.not_lt_zero _)
    | succ fuel =>
      rw [List.flatMap_cons, List.append_assoc, run_stringRest_escape,
        run_bind_ok (ih (Nat.lt_of_succ_lt_succ hfuel))]
      rfl

theorem run_skipString (s rest : List Char) (hfuel : s.length < fuel) :
    (skipString fuel).run (s.flatMap Json.escape ++ '"' :: rest) = .ok ((), rest) := by
  induction s generalizing fuel with
  | nil =>
    cases fuel with
    | zero => exact absurd hfuel (Nat.not_lt_zero _)
    | succ fuel => rfl
  | cons c s ih =>
    cases fuel with
    | zero => exact absurd hfuel (Nat.not_lt_zero _)
    | succ fuel =>
      rw [List.flatMap_cons, List.append_assoc, run_skipString_escape,
        ih (Nat.lt_of_succ_lt_succ hfuel)]

theorem length_escape_pos (c : Char) : 0 < (Json.escape c).length := by
  unfold Json.escape
  split_ifs <;> exact Nat.succ_pos _

theorem length_le_length_flatMap_escape (s : List Char) :
    s.length ≤ (s.flatMap Json.escape).length := by
  induction s with
  | nil => exact Nat.le_refl 0
  | cons c s ih =>
    have hc := length_escape_pos c
    rw [List.flatMap_cons, List.length_append, List.length_cons]
    omega

theorem quoted_append (s : String) :
    Json.quoted s ++ rest = s.toList.flatMap Json.escape ++ '"' :: rest := by
  rw [Json.quoted, List.append_assoc, List.singleton_append]

/-- What is left of a text is enough fuel for the string in front of it. -/
theorem length_lt_length_quoted (s : String) (rest : List Char) :
    s.toList.length < (Json.quoted s ++ rest).length + 1 := by
  have hescape := length_le_length_flatMap_escape s.toList
  rw [quoted_append, List.length_append]
  omega

/-- A string is read to its last quote. -/
theorem run_string (s : String) :
    string.run ('"' :: (Json.quoted s ++ rest)) = .ok (s, rest) := by
  have hrest := run_stringRest s.toList rest (length_lt_length_quoted s rest)
  rw [← quoted_append] at hrest
  rw [string, run_bind_ok run_advance, List.tail_cons, run_bind_ok run_get, run_bind_ok hrest,
    String.ofList_toList]
  rfl

/-- A string is skipped to its last quote. -/
theorem run_skipString_quoted (s : String) :
    (skipString ((Json.quoted s ++ rest).length + 1)).run (Json.quoted s ++ rest) =
      .ok ((), rest) := by
  have hrest := run_skipString s.toList rest (length_lt_length_quoted s rest)
  rwa [← quoted_append] at hrest

/-! ### Values -/

/-- Characters after which another item or the end of a list follows. -/
theorem stops_following {close : Char} (hclose : close = ']' ∨ close = '}')
    (texts : List (List Char)) : Stops (Json.following close texts ++ rest) := by
  intro c hc
  cases texts with
  | nil =>
    obtain rfl := Option.some.inj hc
    exact .inr hclose
  | cons text texts => exact .inl (Option.some.inj hc).symm

theorem stops_of_comma : Stops (',' :: rest) := by
  rintro c hc
  exact .inl (Option.some.inj hc).symm

theorem exists_chars_eq_cons {value : Json} (h : value.WellFormed) :
    ∃ c cs, value.chars = c :: cs ∧ value.StartsWith c := by
  cases h with
  | null => exact ⟨'n', _, rfl, rfl⟩
  | bool b =>
    cases b
    · exact ⟨'f', _, rfl, .inr rfl⟩
    · exact ⟨'t', _, rfl, .inl rfl⟩
  | number hnumber => exact hnumber.exists_cons
  | string s => exact ⟨'"', _, Json.chars_string s, rfl⟩
  | @array items _ => exact ⟨'[', _, Json.chars_array items, rfl⟩
  | @object members _ => exact ⟨'{', _, Json.chars_object members, rfl⟩

/-- With fuel for its length, a text is skipped to its end. -/
def Skips (text : List Char) : Prop :=
  ∀ n rest, text.length ≤ n → Stops rest → (skipValue n).run (text ++ rest) = .ok ((), rest)

theorem run_skipValue_digit {n : Nat} (h : c.isDigit) :
    (skipValue (n + 1)).run (c :: cs) = skipUnsigned.run (c :: cs) := by
  rw [skipValue, run_bind_ok (run_peekToken (isBlank_of_isDigit h))]
  split
  case h_1 hc => cases hc
  case h_9 hc =>
    obtain rfl := Option.some.inj hc
    rw [if_pos h]
  all_goals
    next hc =>
      obtain rfl := Option.some.inj hc
      exact absurd h (by decide)

theorem skips_number {text : List Char} (h : IsNumber text) : Skips text := by
  intro n rest hn hrest
  rcases n with _ | n
  · obtain ⟨c, cs, rfl, -⟩ := h.exists_cons
    exact absurd hn (Nat.not_succ_le_zero _)
  rcases h with h | ⟨ds, h, rfl⟩
  · have hrun := run_skipUnsigned h hrest
    obtain ⟨d, ds, rfl, hd⟩ := h.exists_cons
    rw [List.cons_append, run_skipValue_digit hd]
    exact hrun
  · rw [skipValue, List.cons_append, run_bind_ok (run_peekToken (by decide))]
    exact run_skipUnsigned h hrest

theorem skips_string (s : String) : Skips ('"' :: Json.quoted s) := by
  intro n rest hn hrest
  cases n with
  | zero => exact absurd hn (Nat.not_succ_le_zero _)
  | succ n =>
    rw [skipValue, List.cons_append, run_bind_ok (run_peekToken (by decide))]
    exact run_skipString_quoted s

/-- The items of an array are skipped to its end: each item leaves fuel for those after it. -/
theorem run_skipItems (rest : List Char) {item : Json} {items : List Json} {n : Nat}
    (hitem : Skips item.chars) (hitems : ∀ item ∈ items, Skips item.chars)
    (hn : (item.chars ++ Json.following ']' (items.map Json.chars)).length ≤ n) :
    (skipItems n).run (item.chars ++ (Json.following ']' (items.map Json.chars) ++ rest)) =
      .ok ((), rest) := by
  induction items generalizing item n with
  | nil =>
    rw [List.map_nil, List.length_append] at hn
    cases n with
    | zero => exact absurd hn (Nat.not_succ_le_zero _)
    | succ n =>
      rw [skipItems, run_bind_ok (hitem n _ (Nat.le_of_succ_le_succ hn)
        (stops_following (.inl rfl) _))]
      rfl
  | cons next items ih =>
    obtain ⟨hnext, hitems⟩ := List.forall_mem_cons.1 hitems
    rw [List.map_cons, Json.following_cons, List.length_append, List.length_cons] at hn
    cases n with
    | zero => exact absurd hn (Nat.not_succ_le_zero _)
    | succ n =>
      rw [List.map_cons, Json.following_cons, List.cons_append, List.append_assoc, skipItems,
        run_bind_ok (hitem n _ (by omega) stops_of_comma),
        run_bind_ok (run_peekToken (by decide))]
      exact ih hnext hitems (by omega)

theorem memberChars_append (member : String × Json) :
    Json.memberChars member ++ rest =
      '"' :: (Json.quoted member.1 ++ ':' :: (member.2.chars ++ rest)) := by
  simp [Json.memberChars]

theorem run_colon : colon.run (':' :: cs) = .ok ((), cs) := rfl

/-- A member is skipped before what comes after it. -/
theorem run_skipMembers_succ {member : String × Json} {n : Nat} (h : Skips member.2.chars)
    (hn : (Json.memberChars member).length ≤ n) (hrest : Stops rest) :
    (skipMembers (n + 1)).run (Json.memberChars member ++ rest) =
      StateT.run (do
        match ← peekToken with
        | none     => throw ReadError.unfinished
        | some ',' => advance; skipMembers n
        | some '}' => advance
        | some _   => throw ReadError.malformed) rest := by
  have hvalue : member.2.chars.length ≤ n := by
    rw [← List.append_nil (Json.memberChars member), memberChars_append, List.append_nil,
      List.length_cons, List.length_append, List.length_cons] at hn
    omega
  rw [memberChars_append, skipMembers, run_bind_ok (run_peekToken (by decide))]
  show StateT.run (advance >>= fun _ => get >>= fun cs => skipString (cs.length + 1) >>= fun _ =>
    colon >>= _) _ = _
  rw [run_bind_ok run_advance, List.tail_cons, run_bind_ok run_get,
    run_bind_ok (run_skipString_quoted member.1), run_bind_ok run_colon]
  exact run_bind_ok (h n rest hvalue hrest)

/-- The members of an object are skipped to its end. -/
theorem run_skipMembers (rest : List Char) {member : String × Json}
    {members : List (String × Json)} {n : Nat}
    (hmember : Skips member.2.chars) (hmembers : ∀ member ∈ members, Skips member.2.chars)
    (hn : (Json.memberChars member ++
      Json.following '}' (members.map Json.memberChars)).length ≤ n) :
    (skipMembers n).run (Json.memberChars member ++
      (Json.following '}' (members.map Json.memberChars) ++ rest)) = .ok ((), rest) := by
  induction members generalizing member n with
  | nil =>
    rw [List.map_nil, List.length_append] at hn
    cases n with
    | zero => exact absurd hn (Nat.not_succ_le_zero _)
    | succ n =>
      rw [run_skipMembers_succ hmember (Nat.le_of_succ_le_succ hn) (stops_following (.inr rfl) _)]
      rfl
  | cons next members ih =>
    obtain ⟨hnext, hmembers⟩ := List.forall_mem_cons.1 hmembers
    rw [List.map_cons, Json.following_cons, List.length_append, List.length_cons] at hn
    cases n with
    | zero => exact absurd hn (Nat.not_succ_le_zero _)
    | succ n =>
      rw [List.map_cons, Json.following_cons, List.cons_append, List.append_assoc,
        run_skipMembers_succ hmember (by omega) stops_of_comma,
        run_bind_ok (run_peekToken (by decide))]
      exact ih hnext hmembers (by omega)

/-- A word is skipped if its first letter says which word it is. -/
theorem skips_word (letters : List Char)
    (h : ∀ n rest, (skipValue (n + 1)).run (c :: (letters ++ rest)) = .ok ((), rest)) :
    Skips (c :: letters) := by
  intro n rest hn _
  cases n with
  | zero => exact absurd hn (Nat.not_succ_le_zero _)
  | succ n => exact h n rest

theorem skips_array {items : List Json} (h : ∀ item ∈ items, item.WellFormed)
    (hitems : ∀ item ∈ items, Skips item.chars) : Skips (Json.array items).chars := by
  rw [Json.chars_array]
  cases items with
  | nil => exact skips_word [']'] fun n rest => rfl
  | cons item items =>
    intro n rest hn hrest
    obtain ⟨hitem, hitems⟩ := List.forall_mem_cons.1 hitems
    obtain ⟨c, cs, hcs, hc⟩ := exists_chars_eq_cons (h item (.head _))
    cases n with
    | zero => exact absurd hn (Nat.not_succ_le_zero _)
    | succ n =>
      -- an item does not start with a bracket that would close the array
      have hrun := run_skipItems rest hitem hitems (Nat.le_of_succ_le_succ hn)
      rw [skipValue, List.cons_append, run_bind_ok (run_peekToken (by decide)), List.map_cons,
        Json.listed, List.append_assoc]
      rw [hcs, List.cons_append] at hrun ⊢
      show StateT.run (advance >>= fun _ => peekToken >>= fun next =>
        if next = some ']' then advance else skipItems n) _ = _
      rw [run_bind_ok run_advance, List.tail_cons, run_bind_ok (run_peekToken hc.isBlank_eq_false),
        if_neg fun h => hc.ne_bracket (Option.some.inj h)]
      exact hrun

theorem skips_object {members : List (String × Json)}
    (hmembers : ∀ member ∈ members, Skips member.2.chars) : Skips (Json.object members).chars := by
  rw [Json.chars_object]
  cases members with
  | nil => exact skips_word ['}'] fun n rest => rfl
  | cons member members =>
    intro n rest hn hrest
    obtain ⟨hmember, hmembers⟩ := List.forall_mem_cons.1 hmembers
    cases n with
    | zero => exact absurd hn (Nat.not_succ_le_zero _)
    | succ n =>
      have hrun := run_skipMembers rest hmember hmembers (Nat.le_of_succ_le_succ hn)
      rw [skipValue, List.cons_append, run_bind_ok (run_peekToken (by decide)), List.map_cons,
        Json.listed, List.append_assoc]
      rw [Json.memberChars, List.cons_append] at hrun ⊢
      show StateT.run (advance >>= fun _ => peekToken >>= fun next =>
        if next = some '}' then advance else skipMembers n) _ = _
      rw [run_bind_ok run_advance, List.tail_cons, run_bind_ok (run_peekToken (by decide)),
        if_neg (by decide)]
      exact hrun

/-- A well-formed value is skipped to its end. -/
theorem skips {value : Json} (h : value.WellFormed) : Skips value.chars := by
  induction h with
  | null => exact skips_word ['u', 'l', 'l'] fun n rest => rfl
  | bool b =>
    cases b
    · exact skips_word ['a', 'l', 's', 'e'] fun n rest => rfl
    · exact skips_word ['r', 'u', 'e'] fun n rest => rfl
  | number h => exact skips_number h
  | string s =>
    rw [Json.chars_string]
    exact skips_string s
  | array h ih => exact skips_array h ih
  | object h ih => exact skips_object ih

/-- A well-formed value is skipped to its end. -/
theorem run_skip {value : Json} (h : value.WellFormed) (hrest : Stops rest) :
    skip.run (value.chars ++ rest) = .ok ((), rest) := by
  rw [skip, run_bind_ok run_get]
  refine skips h _ _ ?_ hrest
  rw [List.length_append]
  omega

end Reader

end TensorDiffusion
