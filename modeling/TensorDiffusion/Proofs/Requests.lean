import TensorDiffusion.Coefficient
import TensorDiffusion.Proofs.Grids

/-!
# Requests

A request comes to one of three ends: it is met, it is refused, or it breaks a precondition.  For a
space from its nodes, for samples from their values and for a tensor Gauss-Lobatto rule the request
itself tells the three apart (`requests_settled`).  What breaks a precondition is only a size: the
length that the request asks for is no size, or there is no room for the points.  A length other
than that, dimensions or an order that no space has, and fewer than two points are refused.

* `Settled`: the three ends and what decides between them.
* `Space.ofNodes_settled`, `Samples.ofValues_settled`, `TensorRule.requestLobatto_settled`: the
  requests one by one.
-/

namespace TensorDiffusion

variable {α : Type}

/-- A request is met where `made` holds, breaks a precondition where `oversized` holds, and is
refused in all other cases. -/
structure Settled {β : Type} (m : Except Fault β) (made oversized : Prop) : Prop where
  ok_iff : (∃ a, m = .ok a) ↔ made
  refused_iff : (∃ cause, m = .error (.refused cause)) ↔ ¬ made ∧ ¬ oversized
  violated_iff : (∃ cause, m = .error (.violated cause)) ↔ oversized

/-- A request comes to one end only, so it is enough to say where it comes to each. -/
theorem Settled.of_ends {β : Type} {m : Except Fault β} {made oversized : Prop}
    (hok : made → ∃ a, m = .ok a)
    (hrefused : ¬ made → ¬ oversized → ∃ cause, m = .error (.refused cause))
    (hviolated : oversized → ∃ cause, m = .error (.violated cause)) :
    Settled m made oversized := by
  refine ⟨⟨?_, hok⟩, ⟨?_, fun h => hrefused h.1 h.2⟩, ⟨?_, hviolated⟩⟩
  · rintro ⟨a, rfl⟩
    by_contra hmade
    by_cases hsize : oversized
    · obtain ⟨_, h⟩ := hviolated hsize
      exact nomatch h
    · obtain ⟨_, h⟩ := hrefused hmade hsize
      exact nomatch h
  · rintro ⟨cause, rfl⟩
    refine ⟨fun hmade => ?_, fun hsize => ?_⟩
    · obtain ⟨_, h⟩ := hok hmade
      exact nomatch h
    · obtain ⟨_, h⟩ := hviolated hsize
      exact nomatch h
  · rintro ⟨cause, rfl⟩
    by_contra hsize
    by_cases hmade : made
    · obtain ⟨_, h⟩ := hok hmade
      exact nomatch h
    · obtain ⟨_, h⟩ := hrefused hmade hsize
      exact nomatch h

/-- What is never refused and does not return breaks a precondition. -/
theorem NeverRefuses.violated {β : Type} {m : Except Fault β} (hm : NeverRefuses m)
    (h : ∀ a, m ≠ .ok a) : ∃ cause, m = .error (.violated cause) := by
  cases hrun : m with
  | ok a => exact absurd hrun (h a)
  | error fault =>
    obtain ⟨cause, rfl⟩ := hm.error_eq hrun
    exact ⟨cause, rfl⟩

/-! ### Spaces -/

namespace Space

variable {dim sdim order : Nat} {nodes : Array α}

/-- The dimensions and the order that a space can have. -/
structure Admissible (dim sdim order : Nat) : Prop where
  one_le_dim : 1 ≤ dim
  dim_le_sdim : dim ≤ sdim
  sdim_le : sdim ≤ 3
  one_le_order : 1 ≤ order

theorem ofNodes_of_not_admissible (h : ¬ Admissible dim sdim order) :
    ∃ cause, ofNodes dim sdim order nodes = .error (.refused cause) := by
  unfold ofNodes
  split
  · next hdim =>
    split
    · next hsdim =>
      split
      · next horder => exact absurd ⟨hdim.1, hsdim.1, hsdim.2, horder⟩ h
      · exact ⟨_, rfl⟩
    · exact ⟨_, rfl⟩
  · exact ⟨_, rfl⟩

/-- Only the length of an element and the number of nodes are left to decide. -/
theorem ofNodes_of_admissible (h : Admissible dim sdim order) :
    (∀ fault, elementSize dim sdim order = .error fault →
      ofNodes dim sdim order nodes = .error fault) ∧
    ∀ len, elementSize dim sdim order = .ok len → ¬ len ∣ nodes.size →
      ofNodes dim sdim order nodes = .error (.refused (.partialElement nodes.size len)) := by
  have hdim : 1 ≤ dim ∧ dim ≤ 3 := ⟨h.one_le_dim, Nat.le_trans h.dim_le_sdim h.sdim_le⟩
  unfold ofNodes
  rw [dif_pos hdim, dif_pos ⟨h.dim_le_sdim, h.sdim_le⟩, dif_pos h.one_le_order]
  constructor
  · intro fault hsize
    split
    · next hfault => rw [Except.error.inj (hfault.symm.trans hsize)]
    · next hlen => exact nomatch hlen.symm.trans hsize
  · intro len hsize hpartial
    split
    · next hfault => exact nomatch hfault.symm.trans hsize
    · next hlen =>
      obtain rfl := Except.ok.inj (hlen.symm.trans hsize)
      rw [dif_neg fun hmod => hpartial (Nat.dvd_of_mod_eq_zero hmod)]
      rfl

theorem elementSize_neverRefuses (dim sdim order : Nat) :
    NeverRefuses (elementSize dim sdim order) :=
  .bind (.fit _ _) fun _ _ => .bind (.fit _ _) fun _ _ => .fit _ _

/-- **A space** is made of whole elements, if the length of one is a size. -/
theorem ofNodes_settled : Settled (ofNodes dim sdim order nodes)
    (Admissible dim sdim order ∧ (order + 1) ^ dim * sdim < Size.bound ∧
      (order + 1) ^ dim * sdim ∣ nodes.size)
    (Admissible dim sdim order ∧ Size.bound ≤ (order + 1) ^ dim * sdim) := by
  refine .of_ends ?_ ?_ ?_
  · rintro ⟨h, hlt, ne, hne⟩
    obtain ⟨space, hspace, -⟩ := ofNodes_ok h.one_le_dim h.dim_le_sdim h.sdim_le h.one_le_order hlt
      (hne.trans (Nat.mul_comm _ _))
    exact ⟨space, hspace⟩
  · intro hmade hfits
    by_cases h : Admissible dim sdim order
    · have hlt : (order + 1) ^ dim * sdim < Size.bound := Nat.not_le.1 fun hle => hfits ⟨h, hle⟩
      have hsize := elementSize_ok h.one_le_dim (Nat.le_trans h.one_le_dim h.dim_le_sdim) hlt
      exact ⟨_, (ofNodes_of_admissible h).2 _ hsize fun hwhole => hmade ⟨h, hlt, hwhole⟩⟩
    · exact ofNodes_of_not_admissible h
  · rintro ⟨h, hle⟩
    obtain ⟨cause, hsize⟩ := (elementSize_neverRefuses dim sdim order).violated fun len hlen =>
      absurd (elementSize_eq_ok hlen).1 (Nat.not_lt.2 hle)
    exact ⟨cause, (ofNodes_of_admissible h).1 _ hsize⟩

end Space

/-! ### Samples -/

/-- **Samples** are one value for each point, if the number of points is a size. -/
theorem Samples.ofValues_settled {nq ne : Nat} {values : Array α} :
    Settled (ofValues nq ne values) (nq * ne < Size.bound ∧ values.size = nq * ne)
      (Size.bound ≤ nq * ne) := by
  refine .of_ends ?_ ?_ ?_
  · rintro ⟨hlt, hsize⟩
    exact ⟨⟨nq, ne, values⟩, bind_eq_ok.2 ⟨_, Size.mul_eq_ok.2 ⟨hlt, rfl⟩,
      bind_eq_ok.2 ⟨(), insist_eq_ok.2 hsize, rfl⟩⟩⟩
  · intro hmade hfits
    have hlt := Nat.not_le.1 hfits
    have hsize : values.size ≠ nq * ne := fun hsize => hmade ⟨hlt, hsize⟩
    exact ⟨_, bind_eq_error.2 (.inr ⟨_, Size.mul_eq_ok.2 ⟨hlt, rfl⟩, bind_eq_error.2
      (.inl (insist_eq_error.2 ⟨hsize, rfl⟩))⟩)⟩
  · intro hle
    obtain ⟨cause, hmul⟩ := NeverRefuses.violated (.fit (nq * ne) .mulOverflow) fun m hm =>
      absurd (Size.fit_eq_ok.1 hm).1 (Nat.not_lt.2 hle)
    exact ⟨cause, bind_eq_error.2 (.inl hmul)⟩

/-! ### Gauss-Lobatto rules -/

namespace Rule

variable [NatCast α] [Zero α] [One α] [Add α] [Sub α] [Mul α] [Div α] [Neg α] [Stored α]
  {search : RootSearch α} {n : Nat}

theorem requestLobatto_of_lt (hn : n < 2) :
    requestLobatto search n = .error (.refused .noRule) := by
  rw [requestLobatto, insist_eq_error.2 ⟨Nat.not_le.2 hn, rfl⟩]
  rfl

/-- With both ends, a rule with as many points as were asked for is made where there is room. -/
theorem requestLobatto_eq (search : RootSearch α) (hn : 2 ≤ n) :
    ∃ rule : Rule α 1, rule.weights.length = n ∧ rule.points.length = n ∧
      requestLobatto search n = Size.reserve (Stored.bytes α) n >>= fun _ => .ok rule := by
  rw [requestLobatto, insist_eq_ok.2 hn]
  refine ⟨_, ?_, ?_, rfl⟩
  · simp
    omega
  · simp
    omega

end Rule

namespace TensorRule

variable [Mul α] [Stored α] {dim n : Nat}

/-- The tensor rule of an interval rule is never refused. -/
theorem ofInterval_neverRefuses {rule : Rule α 1} (hw : rule.weights.length = n)
    (hp : rule.points.length = n) :
    NeverRefuses (ofInterval dim rule.abscissas.toArray rule.weights.toArray) := by
  refine .bind (.require _) fun _ hdim => .bind (.require _) fun _ _ => .bind (.fit _ _)
    fun count hcount => .bind (.reserve _ _) fun _ _ => ?_
  obtain ⟨-, rfl⟩ := Size.pow_eq_ok.1 hcount
  rw [List.size_toArray, hw, tabulate_weightAt hw hp (require_eq_ok.1 hdim)]
  exact .ok _

variable [OfDouble α]

omit [Mul α] [Stored α] in
/-- An interval rule in double precision, converted. -/
theorem exists_converted {rule : Rule Float 1} (hw : rule.weights.length = n)
    (hp : rule.points.length = n) :
    ∃ converted : Rule α 1, converted.weights.length = n ∧ converted.points.length = n ∧
      converted.abscissas.toArray = convert rule.abscissas ∧
      converted.weights.toArray = convert rule.weights := by
  refine ⟨⟨rule.weights.map OfDouble.ofDouble, rule.abscissas.map fun x => #v[OfDouble.ofDouble x]⟩,
    ?_, ?_, ?_, rfl⟩
  · rw [List.length_map, hw]
  · rw [Rule.abscissas, List.length_map, List.length_map, hp]
  · simp [Rule.abscissas, convert]

/-- Room for the points of an axis in double precision, and for the weights of all points. -/
def LobattoRoom (α : Type) [Stored α] (dim n : Nat) : Prop :=
  Stored.bytes Float * n < Size.bufferBound ∧ Stored.bytes α * n ^ dim < Size.bufferBound

/-- With both ends on every axis, a rule is made where there is room for it, and never refused. -/
theorem requestLobatto_of_le (dim : Nat) (hn : 2 ≤ n) :
    ((∃ rule : TensorRule α, requestLobatto dim n = .ok rule) ↔
      (1 ≤ dim ∧ dim ≤ 3) ∧ LobattoRoom α dim n) ∧
    NeverRefuses (requestLobatto dim n : Except Fault (TensorRule α)) := by
  obtain ⟨rule, hw, hp, hrule⟩ := Rule.requestLobatto_eq RootSearch.double hn
  obtain ⟨converted, hw', hp', hpoints, hweights⟩ := exists_converted (α := α) hw hp
  have hrun : (requestLobatto dim n : Except Fault (TensorRule α)) =
      Size.reserve (Stored.bytes Float) n >>= fun _ =>
        ofInterval dim converted.abscissas.toArray converted.weights.toArray := by
    rw [requestLobatto, hrule, bind_assoc, hpoints, hweights]
    rfl
  rw [hrun]
  refine ⟨?_, .bind (.reserve _ _) fun _ _ => ofInterval_neverRefuses hw' hp'⟩
  constructor
  · rintro ⟨t, ht⟩
    obtain ⟨_, hreserve, ht⟩ := bind_eq_ok.1 ht
    obtain ⟨hdim, hroom, -⟩ := (ofInterval_eq_ok hw' hp').1 ht
    exact ⟨hdim, Size.reserve_eq_ok.1 hreserve, hroom⟩
  · rintro ⟨hdim, hpoints, hroom⟩
    exact ⟨_, bind_eq_ok.2 ⟨(), Size.reserve_eq_ok.2 hpoints,
      (ofInterval_eq_ok hw' hp').2 ⟨hdim, hroom, rfl⟩⟩⟩

/-- Fewer than two points are refused, whatever the dimension. -/
theorem requestLobatto_of_lt (hn : n < 2) :
    (requestLobatto dim n : Except Fault (TensorRule α)) = .error (.refused .noRule) :=
  bind_eq_error.2 (.inl (Rule.requestLobatto_of_lt hn))

/-- **A tensor Gauss-Lobatto rule** of a dimension that tensor rules have is made from two points
on, if there is room for them. -/
theorem requestLobatto_settled (hdim : 1 ≤ dim ∧ dim ≤ 3) :
    Settled (requestLobatto dim n : Except Fault (TensorRule α))
      (2 ≤ n ∧ LobattoRoom α dim n) (2 ≤ n ∧ ¬ LobattoRoom α dim n) := by
  refine .of_ends ?_ ?_ ?_
  · rintro ⟨hn, hroom⟩
    exact (requestLobatto_of_le dim hn).1.2 ⟨hdim, hroom⟩
  · intro hmade hfits
    have hn : n < 2 := Nat.not_le.1 fun hn => hmade ⟨hn, by_contra fun hroom => hfits ⟨hn, hroom⟩⟩
    exact ⟨_, requestLobatto_of_lt hn⟩
  · rintro ⟨hn, hroom⟩
    obtain ⟨hok, hnever⟩ := requestLobatto_of_le (α := α) dim hn
    exact hnever.violated fun rule hrule => hroom (hok.1 ⟨rule, hrule⟩).2

end TensorRule

/-- **Requests are settled by their numbers.**  A space is made of nodes exactly if the dimensions
and the order are those of a space and the nodes are those of whole elements; samples exactly if
there is one value for each point; a tensor Gauss-Lobatto rule exactly if its dimension is 1, 2 or 3
and it has two points or more, for which there is room.  A space or samples break a precondition
only where the length that they ask for is no size, and are refused in all other cases.  Fewer than
two points are refused in any dimension; from two points on, in the dimensions 1, 2 and 3, only a
lack of room breaks a precondition. -/
theorem requests_settled :
    (∀ (α : Type) (dim sdim order : Nat) (nodes : Array α),
      Settled (Space.ofNodes dim sdim order nodes)
        (Space.Admissible dim sdim order ∧ (order + 1) ^ dim * sdim < Size.bound ∧
          (order + 1) ^ dim * sdim ∣ nodes.size)
        (Space.Admissible dim sdim order ∧ Size.bound ≤ (order + 1) ^ dim * sdim)) ∧
    (∀ (α : Type) (nq ne : Nat) (values : Array α),
      Settled (Samples.ofValues nq ne values)
        (nq * ne < Size.bound ∧ values.size = nq * ne) (Size.bound ≤ nq * ne)) ∧
    ∀ (α : Type) [Mul α] [Stored α] [OfDouble α] (dim n : Nat),
      ((∃ rule : TensorRule α, TensorRule.requestLobatto dim n = .ok rule) ↔
        (1 ≤ dim ∧ dim ≤ 3) ∧ 2 ≤ n ∧ TensorRule.LobattoRoom α dim n) ∧
      (n < 2 → (TensorRule.requestLobatto dim n : Except Fault (TensorRule α)) =
        .error (.refused .noRule)) ∧
      (1 ≤ dim ∧ dim ≤ 3 → Settled (TensorRule.requestLobatto dim n : Except Fault (TensorRule α))
        (2 ≤ n ∧ TensorRule.LobattoRoom α dim n) (2 ≤ n ∧ ¬ TensorRule.LobattoRoom α dim n)) := by
  refine ⟨fun α dim sdim order nodes => Space.ofNodes_settled,
    fun α nq ne values => Samples.ofValues_settled, fun α _ _ _ dim n => ⟨⟨?_, ?_⟩,
      TensorRule.requestLobatto_of_lt, TensorRule.requestLobatto_settled⟩⟩
  · rintro ⟨rule, hrule⟩
    rcases Nat.lt_or_ge n 2 with hn | hn
    · exact nomatch (TensorRule.requestLobatto_of_lt hn).symm.trans hrule
    · obtain ⟨hdim, hroom⟩ := (TensorRule.requestLobatto_of_le dim hn).1.1 ⟨rule, hrule⟩
      exact ⟨hdim, hn, hroom⟩
  · rintro ⟨hdim, hn, hroom⟩
    exact (TensorRule.requestLobatto_of_le dim hn).1.2 ⟨hdim, hroom⟩

/-- Five numbers are no nodes of quadrilaterals in space, six values are samples at two points of
three elements, one point is too few in any dimension, and three points on an axis make a rule. -/
theorem requests_settled_three_points :
    (∃ cause, Space.ofNodes 2 3 1 #[0, 1, 2, 3, 4] = .error (.refused cause)) ∧
    (∃ samples, Samples.ofValues 2 3 #[0, 1, 2, 3, 4, 5] = .ok samples) ∧
    (TensorRule.requestLobatto 7 1 : Except Fault (TensorRule Float)) =
      .error (.refused .noRule) ∧
    ∃ rule : TensorRule Float, TensorRule.requestLobatto 3 3 = .ok rule := by
  obtain ⟨hspace, hsamples, hlobatto⟩ := requests_settled
  refine ⟨(hspace Nat 2 3 1 _).refused_iff.2 ⟨?_, ?_⟩, (hsamples Nat 2 3 _).ok_iff.2 ?_,
    (hlobatto Float 7 1).2.1 (by decide), ((hlobatto Float 3 3).2.2 (by decide)).ok_iff.2 ?_⟩
  · rintro ⟨-, -, hwhole⟩
    exact absurd hwhole (by decide)
  · rintro ⟨-, hsize⟩
    exact absurd hsize (by decide)
  · decide
  · exact ⟨by decide, by decide, by decide⟩

/-- Not every request that cannot be met is refused.  No nodes are the nodes of whole elements of
any length, and one value is not one for each point; yet an element with more than `2 ^ 64` nodes
and samples at `2 ^ 64` points break a precondition, and so do points for which there is no room. -/
theorem oversized_requests_violate :
    ((2 ^ 32 - 1 + 1) ^ 2 * 2 ∣ (#[] : Array Nat).size ∧
      Space.ofNodes 2 2 (2 ^ 32 - 1) (#[] : Array Nat) = .error (.violated .powOverflow)) ∧
    ((#[0] : Array Nat).size ≠ 2 ^ 32 * 2 ^ 32 ∧
      Samples.ofValues (2 ^ 32) (2 ^ 32) #[0] = .error (.violated .mulOverflow)) ∧
    (TensorRule.requestLobatto 1 (2 ^ 60) : Except Fault (TensorRule Float)) =
      .error (.violated .capacityOverflow) :=
  ⟨⟨Nat.dvd_zero _, rfl⟩, ⟨by decide, rfl⟩, rfl⟩

end TensorDiffusion
