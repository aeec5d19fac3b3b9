import Mathlib.Data.List.Nodup
import TensorDiffusion.Proofs.Readers

/-!
# Reading records

A record takes an object's members in any order.  Members that are not fields are skipped, a field
that is left out keeps its default, and a field that stands there twice is refused.

* `WrittenAs.reads_partial`: an object with some of the members that are written of a record, and
  with others among them (`Json.IsPartial`), is read as those say.
* `accepted_of_record`: an object that is read has each field once at most, with a value that the
  field's reader accepts.

The second statement asks of a field's reader that it stops at the end of the value if it returns
(`Takes`).  Records do so themselves, on values of every kind.
-/

namespace TensorDiffusion

namespace Json

/-- The members are some of the written ones and others with names of their own, in any order. -/
def IsPartial (written members : List (String × Json)) : Prop :=
  ∃ kept extra, kept.Sublist written ∧
    (∀ m ∈ extra, m.1 ∉ written.map Prod.fst ∧ m.2.WellFormed) ∧ members.Perm (kept ++ extra)

variable {written members : List (String × Json)}

theorem IsPartial.refl (written : List (String × Json)) : IsPartial written written :=
  ⟨written, [], List.Sublist.refl _, (fun _ hm => nomatch hm), by rw [List.append_nil]⟩

theorem IsPartial.mem_or (h : IsPartial written members) {m : String × Json} (hm : m ∈ members) :
    m ∈ written ∨ m.1 ∉ written.map Prod.fst ∧ m.2.WellFormed := by
  obtain ⟨kept, extra, hkept, hextra, hperm⟩ := h
  rcases List.mem_append.1 (hperm.mem_iff.1 hm) with hm | hm
  · exact .inl (hkept.subset hm)
  · exact .inr (hextra m hm)

theorem IsPartial.wellFormed (h : IsPartial written members)
    (hwritten : ∀ m ∈ written, m.2.WellFormed) : ∀ m ∈ members, m.2.WellFormed := by
  intro m hm
  rcases h.mem_or hm with hm | ⟨-, hm⟩
  · exact hwritten m hm
  · exact hm

theorem IsPartial.mem_written (h : IsPartial written members) {m : String × Json}
    (hm : m ∈ members) (hname : m.1 ∈ written.map Prod.fst) : m ∈ written := by
  rcases h.mem_or hm with hm | ⟨hne, -⟩
  · exact hm
  · exact absurd hname hne

theorem WellFormed.nat (n : Nat) : (Json.nat n).WellFormed :=
  .number (.inl (Reader.isUnsigned_of_isWhole (Reader.isWhole_repr n)))

theorem WellFormed.of_object (h : (Json.object members).WellFormed) :
    ∀ m ∈ members, m.2.WellFormed := by
  cases h with
  | object h => exact h

end Json

namespace Reader

variable {σ : Type} {rest : List Char} {value : Json}

/-! ### Members of a record -/

/-- The field of the given name. -/
def fieldNamed (fields : List (Field σ)) (name : String) : Option (Field σ) :=
  fields.find? fun field => field.name = name

/-- The names of those members that are fields, in the order of the members. -/
def knownNames (fields : List (Field σ)) (members : List (String × Json)) : List String :=
  (members.map Prod.fst).filter fun name => (fieldNamed fields name).isSome

section

variable {fields : List (Field σ)} {field : Field σ} {member : String × Json}
  {ms : List (String × Json)} {fuel : Nat} {first : Bool} {seen : List String} {start : σ}
  {texts : List (List Char)}

theorem knownNames_cons_some (h : fieldNamed fields member.1 = some field) :
    knownNames fields (member :: ms) = member.1 :: knownNames fields ms := by
  rw [knownNames, List.map_cons, List.filter_cons_of_pos (by rw [h]; rfl)]
  rfl

theorem knownNames_cons_none (h : fieldNamed fields member.1 = none) :
    knownNames fields (member :: ms) = knownNames fields ms := by
  rw [knownNames, List.map_cons, List.filter_cons_of_neg (by rw [h]; exact Bool.false_ne_true)]
  rfl

theorem run_moreMembers_nil :
    (moreMembers first).run (Json.listed '}' first [] ++ rest) = .ok (false, '}' :: rest) := by
  cases first <;> rfl

theorem run_moreMembers_cons :
    (moreMembers first).run (Json.listed '}' first (Json.memberChars member :: texts) ++ rest) =
      .ok (true, Json.memberChars member ++ (Json.following '}' texts ++ rest)) := by
  cases first with
  | true =>
    rw [Json.listed, List.append_assoc]
    rfl
  | false =>
    rw [Json.listed, Json.following_cons, List.cons_append, List.append_assoc]
    rfl

/-- No member is left: the required fields must have been read. -/
theorem run_members_nil :
    (members fields (fuel + 1) first seen start).run (Json.listed '}' first [] ++ rest) =
      if fields.any fun field => field.required && !seen.contains field.name then
        .error .unexpected
      else .ok (start, rest) := by
  rw [members, run_bind_ok run_moreMembers_nil, if_neg Bool.false_ne_true]
  simp only
  split_ifs <;> rfl

/-- The next member is a field: it must be a new one, and its value is read into the record. -/
theorem run_members_some (h : fieldNamed fields member.1 = some field) :
    (members fields (fuel + 1) first seen start).run
        (Json.listed '}' first (Json.memberChars member :: texts) ++ rest) =
      if seen.contains member.1 then .error .unexpected
      else (field.read start >>= members fields fuel false (member.1 :: seen)).run
        (member.2.chars ++ (Json.following '}' texts ++ rest)) := by
  rw [fieldNamed] at h
  rw [members, run_bind_ok run_moreMembers_cons, if_pos rfl, memberChars_append,
    run_bind_ok (run_string _), h]
  simp only
  split_ifs
  · rfl
  · rw [run_bind_ok run_colon]

/-- The next member is no field: its value is skipped. -/
theorem run_members_none (h : fieldNamed fields member.1 = none) (hvalue : member.2.WellFormed) :
    (members fields (fuel + 1) first seen start).run
        (Json.listed '}' first (Json.memberChars member :: texts) ++ rest) =
      (members fields fuel false seen start).run (Json.following '}' texts ++ rest) := by
  rw [fieldNamed] at h
  rw [members, run_bind_ok run_moreMembers_cons, if_pos rfl, memberChars_append,
    run_bind_ok (run_string _), h]
  simp only
  rw [run_bind_ok run_colon, run_bind_ok (run_skip hvalue (stops_following (.inr rfl) texts))]

/-! ### Records that are read -/

/-- The members of a record are read to the end of the object, in any order.  The state says what
the record is after some of its fields. -/
theorem run_members {state : List String → σ}
    (hoptional : ∀ field ∈ fields, field.required = false)
    (hread : ∀ m ∈ ms, ∀ field, fieldNamed fields m.1 = some field → ∀ seen,
      Reads (field.read (state seen)) m.2.chars (state (m.1 :: seen)))
    (hvalues : ∀ m ∈ ms, m.2.WellFormed) (hnodup : (knownNames fields ms).Nodup)
    (hseen : ∀ name ∈ knownNames fields ms, name ∉ seen) (hfuel : ms.length < fuel) :
    (members fields fuel first seen (state seen)).run
        (Json.listed '}' first (ms.map Json.memberChars) ++ rest) =
      .ok (state ((knownNames fields ms).reverse ++ seen), rest) := by
  induction ms generalizing fuel first seen with
  | nil =>
    cases fuel with
    | zero => exact absurd hfuel (Nat.not_lt_zero _)
    | succ fuel =>
      rw [List.map_nil, run_members_nil, if_neg]
      · rfl
      · simp only [List.any_eq_true, Bool.and_eq_true]
        rintro ⟨field, hfield, hrequired, -⟩
        exact absurd hrequired (by rw [hoptional field hfield]; exact Bool.false_ne_true)
  | cons m ms ih =>
    obtain ⟨hm, hms⟩ := List.forall_mem_cons.1 hread
    obtain ⟨hvalue, hvalues⟩ := List.forall_mem_cons.1 hvalues
    cases fuel with
    | zero => exact absurd hfuel (Nat.not_lt_zero _)
    | succ fuel =>
      have hfuel := Nat.lt_of_succ_lt_succ hfuel
      cases hfield : fieldNamed fields m.1 with
      | none =>
        rw [knownNames_cons_none hfield] at hnodup hseen ⊢
        rw [List.map_cons, run_members_none hfield hvalue]
        exact ih hms hvalues hnodup hseen hfuel
      | some field =>
        rw [knownNames_cons_some hfield] at hnodup hseen ⊢
        obtain ⟨hnew, hseen⟩ := List.forall_mem_cons.1 hseen
        obtain ⟨hother, hnodup⟩ := List.nodup_cons.1 hnodup
        rw [List.map_cons, run_members_some hfield, if_neg (by simpa using hnew),
          run_bind_ok (hm field hfield seen _ (stops_following (.inr rfl) _)),
          List.reverse_cons, List.append_assoc, List.singleton_append]
        -- the names still to come are new: the key that was read is not one of them
        refine ih hms hvalues hnodup (fun name hname hmem => ?_) hfuel
        rcases List.mem_cons.1 hmem with rfl | hmem
        · exact hother hname
        · exact hseen name hname hmem

/-- What members that were read have in common. -/
structure Accepted (fields : List (Field σ)) (seen : List String)
    (members : List (String × Json)) : Prop where
  nodup : (knownNames fields members).Nodup
  unseen : ∀ name ∈ knownNames fields members, name ∉ seen
  accepts : ∀ m ∈ members, ∀ field, fieldNamed fields m.1 = some field →
    ∃ record, ¬Refuses (Field.read field record) m.2.chars

theorem Accepted.nil : Accepted fields seen [] where
  nodup := List.nodup_nil
  unseen := fun _ hname => nomatch hname
  accepts := fun _ hm => nomatch hm

theorem Accepted.cons_none (h : Accepted fields seen ms)
    (hfield : fieldNamed fields member.1 = none) : Accepted fields seen (member :: ms) where
  nodup := by
    rw [knownNames_cons_none hfield]
    exact h.nodup
  unseen := by
    rw [knownNames_cons_none hfield]
    exact h.unseen
  accepts := by
    refine List.forall_mem_cons.2 ⟨fun field hsome => ?_, h.accepts⟩
    rw [hfield] at hsome
    cases hsome

theorem Accepted.cons_some (h : Accepted fields (member.1 :: seen) ms)
    (hfield : fieldNamed fields member.1 = some field) (hnew : member.1 ∉ seen)
    (haccepts : ∃ record, ¬Refuses (field.read record) member.2.chars) :
    Accepted fields seen (member :: ms) where
  nodup := by
    rw [knownNames_cons_some hfield]
    exact List.nodup_cons.2 ⟨fun hmem => h.unseen _ hmem (.head _), h.nodup⟩
  unseen := by
    rw [knownNames_cons_some hfield]
    exact List.forall_mem_cons.2 ⟨hnew, fun name hname hmem => h.unseen name hname (.tail _ hmem)⟩
  accepts := by
    refine List.forall_mem_cons.2 ⟨fun field' hsome => ?_, h.accepts⟩
    obtain rfl := Option.some.inj (hfield.symm.trans hsome)
    exact haccepts

/-- If the members of a record are read, they are read to the end of the object, and no field
stands there twice. -/
theorem accepted_of_run_members
    (htakes : ∀ m ∈ ms, ∀ field ∈ fields, ∀ record, Takes (field.read record) m.2.chars)
    (hvalues : ∀ m ∈ ms, m.2.WellFormed) {record : σ} {cs : List Char}
    (hrun : (members fields fuel first seen start).run
      (Json.listed '}' first (ms.map Json.memberChars) ++ rest) = .ok (record, cs)) :
    cs = rest ∧ Accepted fields seen ms := by
  induction ms generalizing fuel first seen start with
  | nil =>
    cases fuel with
    | zero => cases hrun
    | succ fuel =>
      rw [List.map_nil, run_members_nil] at hrun
      split_ifs at hrun
      exact ⟨(congrArg Prod.snd (Except.ok.inj hrun)).symm, .nil⟩
  | cons m ms ih =>
    obtain ⟨hvalue, hvalues⟩ := List.forall_mem_cons.1 hvalues
    obtain ⟨htake, htakes⟩ := List.forall_mem_cons.1 htakes
    cases fuel with
    | zero => cases hrun
    | succ fuel =>
      cases hfield : fieldNamed fields m.1 with
      | none =>
        rw [List.map_cons, run_members_none hfield hvalue] at hrun
        obtain ⟨rfl, h⟩ := ih htakes hvalues hrun
        exact ⟨rfl, h.cons_none hfield⟩
      | some field =>
        rw [List.map_cons, run_members_some hfield] at hrun
        -- a key that was seen before has ended the run
        split_ifs at hrun with hnew
        obtain ⟨next, cs', hread, hrun⟩ := exists_of_run_bind hrun
        have hstops : Stops (Json.following '}' (ms.map Json.memberChars) ++ rest) :=
          stops_following (.inr rfl) _
        obtain rfl := htake field (List.mem_of_find?_eq_some hfield) start _ hstops _ _ hread
        obtain ⟨rfl, h⟩ := ih htakes hvalues hrun
        exact ⟨rfl, h.cons_some hfield (by simpa using hnew)
          ⟨start, fun hrefuses => hrefuses _ hstops _ hread⟩⟩

/-! ### Records -/

theorem length_lt_length_following (close : Char) (texts : List (List Char)) :
    texts.length < (Json.following close texts).length := by
  induction texts with
  | nil => exact Nat.one_pos
  | cons text texts ih =>
    rw [Json.following_cons, List.length_cons, List.length_cons, List.length_append]
    omega

theorem length_le_length_listed (close : Char) (texts : List (List Char)) :
    texts.length ≤ (Json.listed close true texts).length := by
  cases texts with
  | nil => exact Nat.zero_le _
  | cons text texts =>
    have hlength := length_lt_length_following close texts
    rw [Json.listed, List.length_append, List.length_cons]
    omega

theorem run_record_object (default : σ) :
    (record fields default).run ((Json.object ms).chars ++ rest) =
      (members fields ((Json.listed '}' true (ms.map Json.memberChars) ++ rest).length + 1)
        true [] default).run (Json.listed '}' true (ms.map Json.memberChars) ++ rest) := by
  rw [Json.chars_object, List.cons_append, record, run_bind_ok (run_peekToken (by decide))]
  rfl

/-- An object is read as the record that its fields make of the default. -/
theorem reads_record {state : List String → σ}
    (hoptional : ∀ field ∈ fields, field.required = false)
    (hread : ∀ m ∈ ms, ∀ field, fieldNamed fields m.1 = some field → ∀ seen,
      Reads (field.read (state seen)) m.2.chars (state (m.1 :: seen)))
    (hvalues : ∀ m ∈ ms, m.2.WellFormed) (hnodup : (knownNames fields ms).Nodup) :
    Reads (record fields (state [])) (Json.object ms).chars
      (state (knownNames fields ms).reverse) := by
  intro rest _
  have hfuel : ms.length <
      (Json.listed '}' true (ms.map Json.memberChars) ++ rest).length + 1 := by
    have hlength := length_le_length_listed '}' (ms.map Json.memberChars)
    rw [List.length_map] at hlength
    rw [List.length_append]
    omega
  have hseen : ∀ name ∈ knownNames fields ms, name ∉ [] := fun _ _ => List.not_mem_nil
  rw [run_record_object, run_members hoptional hread hvalues hnodup hseen hfuel, List.append_nil]

/-- An object that is read has each field once at most, with a value that is read. -/
theorem accepted_of_record {default : σ} {p : σ × List Char}
    (htakes : ∀ m ∈ ms, ∀ field ∈ fields, ∀ record, Takes (field.read record) m.2.chars)
    (hvalues : ∀ m ∈ ms, m.2.WellFormed)
    (hrun : (record fields default).run ((Json.object ms).chars ++ rest) = .ok p) :
    p.2 = rest ∧ Accepted fields [] ms := by
  rw [run_record_object] at hrun
  exact accepted_of_run_members htakes hvalues hrun

theorem run_moreItems_nil :
    (moreItems first).run (Json.listed ']' first [] ++ rest) = .ok (false, ']' :: rest) := by
  cases first <;> rfl

theorem run_moreItems_cons (h : value.WellFormed) :
    (moreItems first).run (Json.listed ']' first (value.chars :: texts) ++ rest) =
      .ok (true, value.chars ++ (Json.following ']' texts ++ rest)) := by
  obtain ⟨c, cs, hcs, hc⟩ := exists_chars_eq_cons h
  cases first with
  | true =>
    rw [Json.listed, List.append_assoc, hcs, List.cons_append, moreItems,
      run_bind_ok (run_peekToken hc.isBlank_eq_false)]
    simp only
    rw [if_neg hc.ne_bracket]
    rfl
  | false =>
    rw [Json.listed, Json.following_cons, List.cons_append, List.append_assoc, hcs,
      List.cons_append, moreItems, run_bind_ok (run_peekToken (by decide))]
    simp only
    rw [if_neg (by decide), if_neg Bool.false_ne_true, if_pos trivial, run_bind_ok run_advance,
      List.tail_cons, run_bind_ok (run_peekToken hc.isBlank_eq_false)]
    split
    case h_1 h => cases h
    case h_2 h => exact absurd (Option.some.inj h) hc.ne_bracket
    case h_3 => rfl

/-- The end of an array is read after its last item only. -/
theorem eq_of_run_endItems {items : List Json} {u : Unit} {cs : List Char}
    (h : ∀ item ∈ items, item.WellFormed)
    (hrun : endItems.run (Json.listed ']' first (items.map Json.chars) ++ rest) = .ok (u, cs)) :
    cs = rest := by
  cases items with
  | nil => cases first <;> exact (congrArg Prod.snd (Except.ok.inj hrun)).symm
  | cons item items =>
    obtain ⟨c, cs', hcs, hc⟩ := exists_chars_eq_cons (h item (.head _))
    cases first with
    | true =>
      rw [List.map_cons, Json.listed, List.append_assoc, hcs, List.cons_append, endItems,
        run_bind_ok (run_peekToken hc.isBlank_eq_false)] at hrun
      split at hrun
      case h_1 h => cases h
      case h_2 h => exact absurd (Option.some.inj h) hc.ne_bracket
      case h_3 => cases hrun
    | false => cases hrun

/-- Leading fields that are read from an array leave its other items and its end. -/
theorem exists_of_run_leadingFields {items : List Json} {record : σ} {cs : List Char}
    (htakes : ∀ item ∈ items, ∀ field ∈ fields, ∀ record, Takes (field.read record) item.chars)
    (hitems : ∀ item ∈ items, item.WellFormed)
    (hrun : (leadingFields fields first start).run
      (Json.listed ']' first (items.map Json.chars) ++ rest) = .ok (record, cs)) :
    ∃ (first' : Bool) (left : List Json), (∀ item ∈ left, item.WellFormed) ∧
      cs = Json.listed ']' first' (left.map Json.chars) ++ rest := by
  induction fields generalizing items first start with
  | nil => exact ⟨first, items, hitems, (congrArg Prod.snd (Except.ok.inj hrun)).symm⟩
  | cons field fields ih =>
    cases items with
    | nil =>
      -- the array ends before its fields do
      rw [leadingFields, List.map_nil, run_bind_ok run_moreItems_nil,
        if_neg Bool.false_ne_true] at hrun
      split_ifs at hrun
      · cases hrun
      · exact ⟨false, [], hitems, (congrArg Prod.snd (Except.ok.inj hrun)).symm⟩
    | cons item items =>
      obtain ⟨htake, htakes⟩ := List.forall_mem_cons.1 htakes
      obtain ⟨hitem, hitems⟩ := List.forall_mem_cons.1 hitems
      rw [leadingFields, List.map_cons, run_bind_ok (run_moreItems_cons hitem), if_pos rfl] at hrun
      obtain ⟨next, cs', hread, hrun⟩ := exists_of_run_bind hrun
      obtain rfl := htake field (.head _) start _ (stops_following (.inl rfl) _) _ _ hread
      exact ih (fun item hitem field hfield => htakes item hitem field (.tail _ hfield)) hitems hrun

theorem takes_record_array {items : List Json} (default : σ)
    (htakes : ∀ item ∈ items, ∀ field ∈ fields, ∀ record, Takes (field.read record) item.chars)
    (hitems : ∀ item ∈ items, item.WellFormed) :
    Takes (record fields default) (Json.array items).chars := by
  intro rest _ b cs hrun
  rw [Json.chars_array, List.cons_append, record, run_bind_ok (run_peekToken (by decide))] at hrun
  simp only at hrun
  rw [run_bind_ok run_advance, List.tail_cons] at hrun
  obtain ⟨r, cs', hfields, hrun⟩ := exists_of_run_bind hrun
  obtain ⟨first', left, hleft, rfl⟩ := exists_of_run_leadingFields htakes hitems hfields
  obtain ⟨u, cs', hend, hpure⟩ := exists_of_run_bind hrun
  obtain rfl := eq_of_run_endItems hleft hend
  exact (congrArg Prod.snd (Except.ok.inj hpure)).symm

theorem refuses_record (default : σ) {c : Char} {cs : List Char} (hblank : isBlank c = false)
    (harray : c ≠ '[') (hobject : c ≠ '{') : Refuses (record fields default) (c :: cs) := by
  intro rest _ p hrun
  rw [List.cons_append, record, run_bind_ok (run_peekToken hblank)] at hrun
  split at hrun
  case h_1 h => exact harray (Option.some.inj h)
  case h_2 h => exact hobject (Option.some.inj h)
  case h_3 => exact fails_wrongType _ _ hrun

/-- A record is read to the end of its value, an array or an object. -/
theorem takes_record (default : σ)
    (htakes : ∀ value : Json, value.WellFormed → ∀ field ∈ fields, ∀ record,
      Takes (field.read record) value.chars)
    (h : value.WellFormed) : Takes (record fields default) value.chars := by
  obtain ⟨c, cs, hcs, hc⟩ := exists_chars_eq_cons h
  by_cases harray : c = '['
  · subst harray
    obtain ⟨items, rfl⟩ := hc.exists_array
    cases h with
    | array h => exact takes_record_array default (fun item hitem => htakes item (h item hitem)) h
  by_cases hobject : c = '{'
  · subst hobject
    obtain ⟨members, rfl⟩ := hc.exists_object
    cases h with
    | object h =>
      intro rest _ r cs hrun
      exact (accepted_of_record (fun m hm => htakes m.2 (h m hm)) h hrun).1
  rw [hcs]
  exact (refuses_record default hc.isBlank_eq_false harray hobject).takes

/-! ### Partial objects -/

variable {written : List (String × Json)} {name : String}

theorem isSome_fieldNamed : (fieldNamed fields name).isSome ↔ name ∈ fields.map Field.name := by
  rw [fieldNamed, List.find?_isSome, List.mem_map]
  simp only [decide_eq_true_eq]

theorem mem_knownNames :
    name ∈ knownNames fields ms ↔
      name ∈ ms.map Prod.fst ∧ name ∈ fields.map Field.name := by
  rw [knownNames, List.mem_filter, isSome_fieldNamed]

theorem nodup_knownNames (h : Json.IsPartial written ms)
    (hnames : fields.map Field.name = written.map Prod.fst)
    (hnodup : (fields.map Field.name).Nodup) : (knownNames fields ms).Nodup := by
  obtain ⟨kept, extra, hkept, hextra, hperm⟩ := h
  have hunknown :
      (extra.map Prod.fst).filter (fun name => (fieldNamed fields name).isSome) = [] := by
    refine List.filter_eq_nil_iff.2 fun name hname => ?_
    obtain ⟨m, hm, rfl⟩ := List.mem_map.1 hname
    rw [isSome_fieldNamed, hnames]
    exact (hextra m hm).1
  rw [hnames] at hnodup
  rw [knownNames, ((hperm.map Prod.fst).filter _).nodup_iff, List.map_append, List.filter_append,
    hunknown, List.append_nil]
  exact (hnodup.sublist (hkept.map Prod.fst)).filter _

/-- How a record is written: one member for each field.  The state says what the record is if only
the fields of some names are read; the others have their defaults. -/
structure WrittenAs (fields : List (Field σ)) (written : List (String × Json))
    (state : List String → σ) : Prop where
  optional : ∀ field ∈ fields, field.required = false
  names : fields.map Field.name = written.map Prod.fst
  nodup : (fields.map Field.name).Nodup
  wellFormed : ∀ m ∈ written, m.2.WellFormed
  reads : ∀ m ∈ written, ∀ field, fieldNamed fields m.1 = some field → ∀ seen,
    Reads (Field.read field (state seen)) m.2.chars (state (m.1 :: seen))
  congr : ∀ names names', (∀ name ∈ fields.map Field.name, name ∈ names ↔ name ∈ names') →
    state names = state names'

/-- An object of some of the written members, with others among them, is read as those say. -/
theorem WrittenAs.reads_partial {state : List String → σ} (h : WrittenAs fields written state)
    (hmembers : Json.IsPartial written ms) :
    Reads (record fields (state [])) (Json.object ms).chars
      (state (ms.map Prod.fst)) := by
  have hvalues := hmembers.wellFormed h.wellFormed
  have hnodup := nodup_knownNames hmembers h.names h.nodup
  have hnames : ∀ name ∈ fields.map Field.name,
      name ∈ (knownNames fields ms).reverse ↔ name ∈ ms.map Prod.fst :=
    fun name hname => by rw [List.mem_reverse, mem_knownNames, and_iff_left hname]
  rw [← h.congr _ _ hnames]
  refine reads_record h.optional (fun m hm field hfield => ?_) hvalues hnodup
  refine h.reads m (hmembers.mem_written hm ?_) field hfield
  rw [← h.names, ← isSome_fieldNamed, hfield]
  rfl

/-- An object in which a field stands twice is not read. -/
theorem refuses_of_repeated {default : σ}
    (htakes : ∀ m ∈ ms, ∀ field ∈ fields, ∀ record, Takes (field.read record) m.2.chars)
    (hvalues : ∀ m ∈ ms, m.2.WellFormed) (hname : name ∈ fields.map Field.name)
    (htwice : 1 < (ms.map Prod.fst).count name) :
    Refuses (record fields default) (Json.object ms).chars := by
  intro rest _ p hrun
  have hnodup := (accepted_of_record htakes hvalues hrun).2.nodup
  rw [knownNames, List.nodup_iff_count_le_one] at hnodup
  have hcount := hnodup name
  rw [List.count_filter (by exact isSome_fieldNamed.2 hname)] at hcount
  exact absurd hcount (Nat.not_le.2 htwice)

/-- An object with a value that a field's reader does not accept is not read. -/
theorem refuses_of_member {default : σ} {field : Field σ} {m : String × Json}
    (htakes : ∀ m ∈ ms, ∀ field ∈ fields, ∀ record, Takes (field.read record) m.2.chars)
    (hvalues : ∀ m ∈ ms, m.2.WellFormed) (hm : m ∈ ms)
    (hfield : fieldNamed fields m.1 = some field)
    (hrefuses : ∀ record, Refuses (field.read record) m.2.chars) :
    Refuses (record fields default) (Json.object ms).chars := by
  intro rest _ p hrun
  obtain ⟨start, haccepts⟩ := (accepted_of_record htakes hvalues hrun).2.accepts m hm field hfield
  exact haccepts (hrefuses start)

end

end Reader

end TensorDiffusion
