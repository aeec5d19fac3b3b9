import TensorDiffusion.Execution.Text
import TensorDiffusion.Proofs.ReadingRecords

/-!
# Settings read back

Settings are read back from what is written of them, for sizes that are machine words.  They are
also read from any part of it, in any order and with other members among them; what is left out has
its default, both among the settings and among the limits (`Execution.given`).  A setting or a limit
that is given twice is refused.
-/

namespace TensorDiffusion

/-! ### Limits -/

/-- The limits as members of an object. -/
def Limits.members (limits : Limits) : List (String × Json) :=
  [("max_d1d", .nat limits.maxD1d), ("max_q1d", .nat limits.maxQ1d)]

/-- Of the limits, those with the given names; the others have their defaults. -/
def Limits.given (limits : Limits) (names : List String) : Limits where
  maxD1d := if "max_d1d" ∈ names then limits.maxD1d else ({} : Limits).maxD1d
  maxQ1d := if "max_q1d" ∈ names then limits.maxQ1d else ({} : Limits).maxQ1d

/-- The sizes are machine words. -/
structure Limits.InRange (limits : Limits) : Prop where
  maxD1d_lt : limits.maxD1d < UInt64.size
  maxQ1d_lt : limits.maxQ1d < UInt64.size

namespace Limits

variable {limits : Limits}

theorem given_maxD1d (seen : List String) :
    limits.given ("max_d1d" :: seen) =
      { limits.given seen with maxD1d := limits.maxD1d } := by
  simp [given]

theorem given_maxQ1d (seen : List String) :
    limits.given ("max_q1d" :: seen) =
      { limits.given seen with maxQ1d := limits.maxQ1d } := by
  simp [given]

/-- Each limit is read from what is written of it. -/
theorem writtenAs (h : limits.InRange) :
    Reader.WrittenAs fields limits.members limits.given where
  optional := by decide
  names := rfl
  nodup := by decide
  wellFormed := List.forall_mem_cons.2 ⟨.nat _, List.forall_mem_singleton.2 (.nat _)⟩
  reads := by
    refine List.forall_mem_cons.2 ⟨fun field hfield seen => ?_,
      List.forall_mem_singleton.2 fun field hfield seen => ?_⟩
    · obtain rfl := Option.some.inj hfield
      rw [given_maxD1d]
      exact (Reader.reads_size h.maxD1d_lt).bind_pure
    · obtain rfl := Option.some.inj hfield
      rw [given_maxQ1d]
      exact (Reader.reads_size h.maxQ1d_lt).bind_pure
  congr names names' hnames := by
    simp only [given, hnames "max_d1d" (by decide), hnames "max_q1d" (by decide)]

theorem takes_fields {value : Json} (hvalue : value.WellFormed) :
    ∀ field ∈ fields, ∀ limits, Reader.Takes (field.read limits) value.chars := by
  have hsize := Reader.takes_size hvalue
  exact List.forall_mem_cons.2 ⟨fun limits => hsize.bind_pure,
    List.forall_mem_singleton.2 fun limits => hsize.bind_pure⟩

end Limits

/-! ### Settings -/

/-- The settings as members of an object, with limits given by their own members. -/
def Execution.members (config : Execution) (limits : List (String × Json)) :
    List (String × Json) := [
  ("policy", .string config.policy.name),
  ("limits", .object limits),
  ("min_elements_per_task", .nat config.minElementsPerTask)]

/-- Of the settings, those with the given names, and of the limits, those with the given names of
their own; the others have their defaults. -/
def Execution.given (config : Execution) (limitNames names : List String) : Execution where
  policy := if "policy" ∈ names then config.policy else ({} : Execution).policy
  limits := if "limits" ∈ names then config.limits.given limitNames else ({} : Execution).limits
  minElementsPerTask :=
    if "min_elements_per_task" ∈ names then config.minElementsPerTask
    else ({} : Execution).minElementsPerTask

/-- The sizes are machine words. -/
structure Execution.InRange (config : Execution) : Prop where
  limits : config.limits.InRange
  minElementsPerTask_lt : config.minElementsPerTask < UInt64.size

namespace Execution

variable {config : Execution} {limitNames : List String} {limits members : List (String × Json)}

theorem given_policy (seen : List String) :
    config.given limitNames ("policy" :: seen) =
      { config.given limitNames seen with policy := config.policy } := by
  simp [given]

theorem given_limits (seen : List String) :
    config.given limitNames ("limits" :: seen) =
      { config.given limitNames seen with limits := config.limits.given limitNames } := by
  simp [given]

theorem given_minElementsPerTask (seen : List String) :
    config.given limitNames ("min_elements_per_task" :: seen) =
      { config.given limitNames seen with minElementsPerTask := config.minElementsPerTask } := by
  simp [given]

theorem lookup_names (policy : Policy) : Policy.names.lookup policy.name = some policy := by
  cases policy <;> rfl

/-- Each setting is read from what is written of it. -/
theorem writtenAs (h : config.InRange) (hlimits : Json.IsPartial config.limits.members limits) :
    Reader.WrittenAs fields (config.members limits) (config.given (limits.map Prod.fst)) where
  optional := by decide
  names := rfl
  nodup := by decide
  wellFormed := List.forall_mem_cons.2 ⟨.string _, List.forall_mem_cons.2
    ⟨.object (hlimits.wellFormed (Limits.writtenAs h.limits).wellFormed),
      List.forall_mem_singleton.2 (Json.WellFormed.nat _)⟩⟩
  reads := by
    refine List.forall_mem_cons.2 ⟨fun field hfield seen => ?_,
      List.forall_mem_cons.2 ⟨fun field hfield seen => ?_,
        List.forall_mem_singleton.2 fun field hfield seen => ?_⟩⟩
    · obtain rfl := Option.some.inj hfield
      rw [given_policy]
      exact (Reader.reads_variant (lookup_names config.policy)).bind_pure
    · obtain rfl := Option.some.inj hfield
      rw [given_limits]
      exact ((Limits.writtenAs h.limits).reads_partial hlimits).bind_pure
    · obtain rfl := Option.some.inj hfield
      rw [given_minElementsPerTask]
      exact (Reader.reads_size h.minElementsPerTask_lt).bind_pure
  congr names names' hnames := by
    simp only [given, hnames "policy" (by decide), hnames "limits" (by decide),
      hnames "min_elements_per_task" (by decide)]

theorem takes_limits {value : Json} (hvalue : value.WellFormed) :
    Reader.Takes (Reader.record Limits.fields {}) value.chars := by
  refine Reader.takes_record _ (fun value h => ?_) hvalue
  exact Limits.takes_fields h

theorem takes_fields {value : Json} (hvalue : value.WellFormed) :
    ∀ field ∈ fields, ∀ config, Reader.Takes (field.read config) value.chars := by
  refine List.forall_mem_cons.2 ⟨fun config => ?_, List.forall_mem_cons.2 ⟨fun config => ?_,
    List.forall_mem_singleton.2 fun config => ?_⟩⟩
  · exact (Reader.takes_variant Policy.names hvalue).bind_pure
  · exact (takes_limits hvalue).bind_pure
  · exact (Reader.takes_size hvalue).bind_pure

theorem given_all (config : Execution) :
    config.given (config.limits.members.map Prod.fst) ((config.members limits).map Prod.fst) =
      config := by
  simp [given, members, Limits.given, Limits.members]

/-- Settings in which one stands twice are refused. -/
theorem ofText_repeated (hvalues : ∀ m ∈ members, m.2.WellFormed) {name : String}
    (hname : name ∈ fields.map Reader.Field.name)
    (htwice : 1 < (members.map Prod.fst).count name) :
    ∃ e, ofText (Json.object members).compact = .error e := by
  have htakes := fun m hm => takes_fields (hvalues m hm)
  exact Reader.readText_of_refuses (Reader.refuses_of_repeated htakes hvalues hname htwice)

/-- Settings with limits in which one stands twice are refused. -/
theorem ofText_repeatedLimit (hvalues : ∀ m ∈ members, m.2.WellFormed)
    (hlimits : ("limits", Json.object limits) ∈ members) {name : String}
    (hname : name ∈ Limits.fields.map Reader.Field.name)
    (htwice : 1 < (limits.map Prod.fst).count name) :
    ∃ e, ofText (Json.object members).compact = .error e := by
  have htakes := fun m hm => takes_fields (hvalues m hm)
  have hinner := (hvalues _ hlimits).of_object
  have hrefuses : Reader.Refuses (Reader.record Limits.fields {}) (Json.object limits).chars :=
    Reader.refuses_of_repeated (fun m hm => Limits.takes_fields (hinner m hm)) hinner hname htwice
  exact Reader.readText_of_refuses
    (Reader.refuses_of_member htakes hvalues hlimits rfl fun config => hrefuses.bind)

/-- Settings are read back from any part of what is written of them.  The members may stand in any
order, with others among them; what is left out, among the settings or among the limits, has its
default.  A setting or a limit that is given twice is refused, whatever its values are. -/
theorem ofText_partial (config : Execution) (h : config.InRange) :
    ofText config.toText = .ok config ∧
    (∀ limits members, Json.IsPartial config.limits.members limits →
      Json.IsPartial (config.members limits) members →
      ofText (Json.object members).compact =
        .ok (config.given (limits.map Prod.fst) (members.map Prod.fst))) ∧
    (∀ members, (∀ m ∈ members, m.2.WellFormed) →
      ∀ name ∈ ["policy", "limits", "min_elements_per_task"],
        1 < (members.map Prod.fst).count name →
        ∃ e, ofText (Json.object members).compact = .error e) ∧
    (∀ members, (∀ m ∈ members, m.2.WellFormed) →
      ∀ limits, ("limits", Json.object limits) ∈ members →
      ∀ name ∈ ["max_d1d", "max_q1d"], 1 < (limits.map Prod.fst).count name →
        ∃ e, ofText (Json.object members).compact = .error e) := by
  have hpartial : ∀ limits members, Json.IsPartial config.limits.members limits →
      Json.IsPartial (config.members limits) members →
      ofText (Json.object members).compact =
        .ok (config.given (limits.map Prod.fst) (members.map Prod.fst)) := by
    intro limits members hlimits hmembers
    exact Reader.readText_of_reads ((writtenAs h hlimits).reads_partial hmembers)
  refine ⟨?_, hpartial, ?_, ?_⟩
  · have hwhole := hpartial _ _ (.refl _) (.refl (config.members config.limits.members))
    rw [given_all] at hwhole
    exact hwhole
  · intro members hvalues name hname htwice
    exact ofText_repeated hvalues hname htwice
  · intro members hvalues limits hlimits name hname htwice
    exact ofText_repeatedLimit hvalues hlimits hname htwice

theorem isNumber_thousands : Reader.IsNumber "-2.5e3".toList := by
  have hwhole : Reader.IsWhole ['2'] := .inr ⟨Reader.isDigits_singleton rfl, by decide⟩
  have hfraction : Reader.IsFraction ['.', '5'] :=
    .inr ⟨['5'], Reader.isDigits_singleton rfl, rfl⟩
  have hexponent : Reader.IsExponent ['e', '3'] :=
    .inr ⟨'e', none, ['3'], .inl rfl, (fun _ hc => nomatch hc),
      Reader.isDigits_singleton rfl, rfl⟩
  exact .inr ⟨_, ⟨_, _, _, hwhole, hfraction, hexponent, rfl⟩, rfl⟩

/-- Two settings out of three, with one limit out of two and after a member that is none of them;
then a policy that is given twice, and a limit. -/
theorem ofText_partial_two_settings :
    let config : Execution := ⟨.serial, ⟨6, 18446744073709551615⟩, 4⟩
    let policy := ("policy", Json.string "serial")
    let limits := [("max_q1d", Json.nat 18446744073709551615)]
    let note := ("note", Json.array [.null, .number "-2.5e3"])
    config.InRange ∧ ofText config.toText = .ok config ∧
    ofText (Json.object [note, ("limits", .object limits), policy]).compact =
      .ok ⟨.serial, ⟨14, 18446744073709551615⟩, 16⟩ ∧
    (∃ e, ofText (Json.object [policy, note, policy]).compact = .error e) ∧
    ∃ e, ofText (Json.object [note, ("limits", .object (limits ++ limits))]).compact =
      .error e := by
  intro config policy limits note
  have hrange : config.InRange := ⟨⟨by decide, by decide⟩, by decide⟩
  have hlimit : ∀ m ∈ limits, m.2.WellFormed := List.forall_mem_singleton.2 (.nat _)
  have hnote : note.2.WellFormed :=
    .array (List.forall_mem_cons.2
      ⟨.null, List.forall_mem_singleton.2 (.number isNumber_thousands)⟩)
  obtain ⟨hwhole, hpartial, hrepeated, hrepeatedLimit⟩ := ofText_partial config hrange
  have hlimits : Json.IsPartial config.limits.members limits :=
    ⟨limits, [], List.sublist_cons_self _ _, (fun _ hm => nomatch hm), .refl _⟩
  have hmembers : Json.IsPartial (config.members limits)
      [note, ("limits", .object limits), policy] := by
    refine ⟨[policy, ("limits", .object limits)], [note],
      List.take_sublist 2 (config.members limits), List.forall_mem_singleton.2 ⟨?_, hnote⟩,
      List.reverse_perm [policy, ("limits", .object limits), note]⟩
    show "note" ∉ ["policy", "limits", "min_elements_per_task"]
    decide
  refine ⟨hrange, hwhole, hpartial _ _ hlimits hmembers, ?_, ?_⟩
  · refine hrepeated _ ?_ "policy" (by decide) (by decide)
    exact List.forall_mem_cons.2
      ⟨.string _, List.forall_mem_cons.2 ⟨hnote, List.forall_mem_singleton.2 (.string _)⟩⟩
  · refine hrepeatedLimit _ ?_ _ (.tail _ (.head _)) "max_q1d" (by decide) (by decide)
    exact List.forall_mem_cons.2 ⟨hnote, List.forall_mem_singleton.2
      (.object (List.forall_mem_append.2 ⟨hlimit, hlimit⟩))⟩

end Execution

end TensorDiffusion
