import TensorDiffusion.Proofs.PointData
import TensorDiffusion.Proofs.Rules

/-!
# Bases that are made

A basis is made on nodes of which no two are the same scalar, and on no others
(`LagrangeBasis.ofNodes_eq`, `LagrangeBasis.distinct_of_ofNodes`).  Its tables at the points of a
rule are made where there is room for them (`Tables.ofRule_ok`), and hold what it evaluates to
(`Tables.entry_of_ofRule`), which are its values and derivatives (`Tables.entries_of_ofRule`).
-/

namespace TensorDiffusion

variable {α : Type}

/-- A fold whose steps do not fail. -/
theorem foldlM_eq_ok {β σ : Type} {l : List β} {f : σ → β → Except Fault σ} {g : σ → β → σ}
    (h : ∀ a ∈ l, ∀ s, f s a = .ok (g s a)) (start : σ) :
    l.foldlM f start = .ok (l.foldl g start) := by
  induction l generalizing start with
  | nil => rfl
  | cons a l ih =>
    rw [List.foldlM_cons, h a List.mem_cons_self, ok_bind,
      ih fun b hb => h b (List.mem_cons_of_mem a hb), List.foldl_cons]

/-- A fold that returned has taken every step. -/
theorem foldlM_visits {β σ : Type} {l : List β} {f : σ → β → Except Fault σ} {start r : σ}
    (h : l.foldlM f start = .ok r) : ∀ a ∈ l, ∃ s s', f s a = .ok s' := by
  induction l generalizing start with
  | nil => exact fun a ha => absurd ha List.not_mem_nil
  | cons b l ih =>
    rw [List.foldlM_cons] at h
    obtain ⟨s, hstep, hrest⟩ := bind_eq_ok.1 h
    rintro a (_ | ⟨_, ha⟩)
    · exact ⟨start, s, hstep⟩
    · exact ih hrest a ha

/-- A list whose entries were mapped: every one of them was. -/
theorem mapM_visits {β γ : Type} {l : List β} {f : β → Except Fault γ} {r : List γ}
    (h : l.mapM f = .ok r) : ∀ a ∈ l, ∃ c, f a = .ok c := by
  induction l generalizing r with
  | nil => exact fun a ha => absurd ha List.not_mem_nil
  | cons b l ih =>
    rw [List.mapM_cons] at h
    obtain ⟨c, hstep, h⟩ := bind_eq_ok.1 h
    obtain ⟨_, hrest, -⟩ := bind_eq_ok.1 h
    rintro a (_ | ⟨_, ha⟩)
    · exact ⟨c, hstep⟩
    · exact ih hrest a ha

namespace Rule

variable [NatCast α] [Zero α] [One α] [Add α] [Sub α] [Mul α] [Div α] [Neg α] [Stored α]

theorem lobatto_ok (search : RootSearch α) {n : Nat} (hn : 2 ≤ n)
    (hroom : Stored.bytes α * n < Size.bufferBound) : ∃ rule, lobatto search n = .ok rule :=
  ⟨_, bind_eq_ok.2 ⟨(), require_eq_ok.2 hn, bind_eq_ok.2 ⟨(), insist_eq_ok.2 hn,
    bind_eq_ok.2 ⟨(), Size.reserve_eq_ok.2 hroom, rfl⟩⟩⟩⟩

end Rule

/-! ### Bases -/

namespace LagrangeBasis

/-- No two entries are the same scalar. -/
def Distinct [BEq α] (nodes : List α) : Prop :=
  ∀ i j (hi : i < nodes.length) (hj : j < nodes.length), i ≠ j → (nodes[i] == nodes[j]) = false

/-- The Gauss-Lobatto nodes of an order are distinct as scalars. -/
def DistinctLobatto (α : Type) [BEq α] [OfDouble α] (order : Nat) : Prop :=
  ∀ rule, Rule.lobatto RootSearch.double (order + 1) = .ok rule →
    Distinct (rule.abscissas.map (OfDouble.ofDouble : Float → α))

variable [Zero α] [One α] [Add α] [Sub α] [Mul α] [Div α]

/-- The product of the distances from `xj`, the node of number `j`, to the others. -/
def distanceProduct (nodes : List α) (j : Nat) (xj : α) : α :=
  nodes.zipIdx.foldl (fun product (xm, m) => if m = j then product else product * (xj - xm)) 1

section

variable [BEq α]

omit [Zero α] [Add α] [Div α] in
theorem distances_eq {nodes : List α} (h : Distinct nodes) {j : Nat} (hj : j < nodes.length) :
    distances nodes j nodes[j] = .ok (distanceProduct nodes j nodes[j]) := by
  refine foldlM_eq_ok ?_ 1
  rintro ⟨xm, m⟩ hm product
  obtain ⟨hlt, hxm⟩ := List.getElem?_eq_some_iff.1 (List.mk_mem_zipIdx_iff_getElem?.1 hm)
  dsimp only
  by_cases hmj : m = j
  · rw [if_pos hmj, if_pos hmj]
    rfl
  · have hdistinct : (nodes[j] == xm) = false := hxm ▸ h j m hj hlt (Ne.symm hmj)
    rw [if_neg hmj, if_neg hmj, require_eq_ok.2 hdistinct]
    rfl

omit [Zero α] [Add α] in
/-- **The basis on distinct nodes.** -/
theorem ofNodes_eq {nodes : List α} (hnonempty : nodes ≠ []) (h : Distinct nodes) :
    ofNodes nodes =
      .ok ⟨nodes, nodes.zipIdx.map fun (xj, j) => 1 / distanceProduct nodes j xj⟩ := by
  have hweights : (nodes.zipIdx.mapM fun (xj, j) => do return 1 / (← distances nodes j xj)) =
      Except.ok (nodes.zipIdx.map fun (xj, j) => 1 / distanceProduct nodes j xj) := by
    refine mapM_eq_ok ?_
    rintro ⟨xj, j⟩ hj
    obtain ⟨hlt, rfl⟩ := List.getElem?_eq_some_iff.1 (List.mk_mem_zipIdx_iff_getElem?.1 hj)
    dsimp only
    rw [distances_eq h hlt]
    rfl
  rw [ofNodes, require_eq_ok.2 hnonempty, ok_bind, hweights]
  rfl

omit [Zero α] [Add α] in
/-- Nodes of which two are the same make no basis. -/
theorem distinct_of_ofNodes {nodes : List α} {basis : LagrangeBasis α}
    (h : ofNodes nodes = .ok basis) : nodes ≠ [] ∧ Distinct nodes := by
  obtain ⟨_, hnonempty, h⟩ := bind_eq_ok.1 h
  obtain ⟨weights, hweights, -⟩ := bind_eq_ok.1 h
  refine ⟨require_eq_ok.1 hnonempty, fun i j hi hj hij => ?_⟩
  have hmem (k : Nat) (hk : k < nodes.length) : (nodes[k], k) ∈ nodes.zipIdx :=
    List.mk_mem_zipIdx_iff_getElem?.2 (List.getElem?_eq_getElem hk)
  -- The distances from node `i` were formed, and among them the one to node `j`.
  obtain ⟨_, hweight⟩ := mapM_visits hweights _ (hmem i hi)
  obtain ⟨product, hproduct, -⟩ := bind_eq_ok.1 hweight
  obtain ⟨s, s', hstep⟩ := foldlM_visits hproduct _ (hmem j hj)
  dsimp only at hstep
  rw [if_neg (Ne.symm hij)] at hstep
  obtain ⟨_, hrequire, -⟩ := bind_eq_ok.1 hstep
  exact require_eq_ok.1 hrequire

omit [Zero α] [Add α] in
theorem length_weights {nodes : List α} {basis : LagrangeBasis α} (h : ofNodes nodes = .ok basis) :
    basis.weights.length = basis.numNodes := by
  obtain ⟨hnonempty, hdistinct⟩ := distinct_of_ofNodes h
  rw [ofNodes_eq hnonempty hdistinct] at h
  obtain rfl := Except.ok.inj h
  rw [List.length_map, List.length_zipIdx, numNodes]

omit [Zero α] [Add α] in
/-- The basis of an order is made where its nodes are distinct and can be counted. -/
theorem gaussLobatto_ok [OfDouble α] {order : Nat} (horder : 1 ≤ order) (hfits : order + 1 < 2 ^ 56)
    (hnodes : DistinctLobatto α order) :
    ∃ basis : LagrangeBasis α, gaussLobatto order = .ok basis ∧
      basis.weights.length = basis.numNodes := by
  have hcount : Size.add order 1 = .ok (order + 1) :=
    Size.add_eq_ok.2 ⟨Nat.lt_trans hfits (by decide), rfl⟩
  obtain ⟨rule, hrule⟩ := Rule.lobatto_ok RootSearch.double
    (Nat.succ_le_succ horder) (Size.bytes_mul_lt (by decide) hfits)
  have hnonempty : rule.abscissas.map (OfDouble.ofDouble : Float → α) ≠ [] := by
    rw [← List.length_pos_iff, List.length_map, Rule.length_lobatto hrule]
    exact Nat.succ_pos order
  have hbasis := ofNodes_eq hnonempty (hnodes rule hrule)
  exact ⟨_, bind_eq_ok.2 ⟨(), require_eq_ok.2 horder, bind_eq_ok.2 ⟨_, hcount,
    bind_eq_ok.2 ⟨rule, hrule, hbasis⟩⟩⟩, length_weights hbasis⟩

end

omit [Div α] in
theorem length_evaluate (basis : LagrangeBasis α) (x : α) :
    (basis.evaluate x).length = basis.weights.length := by
  rw [evaluate, List.length_map, List.length_zipIdx]

omit [Div α] in
theorem evaluateInto_ok {basis : LagrangeBasis α} {values derivatives : Array α}
    (hvalues : values.size = basis.numNodes) (hderivatives : derivatives.size = basis.numNodes)
    (x : α) : basis.evaluateInto x values derivatives =
      .ok (((basis.evaluate x).map (·.1)).toArray, ((basis.evaluate x).map (·.2)).toArray) := by
  rw [evaluateInto, require_eq_ok.2 hvalues, ok_bind, require_eq_ok.2 hderivatives]
  rfl

end LagrangeBasis

/-! ### Tables -/

namespace Tables

variable [Zero α] [One α] [Add α] [Sub α] [Mul α] [Div α]

/-- The value and the derivative of basis function `k / nqpt` at point `k % nqpt`. -/
def entryAt (basis : LagrangeBasis α) (rule : TensorRule α) (k : Nat) : Except Fault (α × α) := do
  let rows := rule.points1d.map fun x => (basis.evaluate x).toArray
  slot (← slot rows (k % rule.numPoints1d)) (k / rule.numPoints1d)

omit [Div α] in
theorem entryAt_eq {basis : LagrangeBasis α} {rule : TensorRule α} {q : Nat}
    (hq : q < rule.points1d.size) (d : Nat) :
    entryAt basis rule (q + rule.numPoints1d * d) =
      slot (basis.evaluate rule.points1d[q]).toArray d := by
  have hmod : (q + rule.numPoints1d * d) % rule.numPoints1d = q := pair_mod d hq
  have hdiv : (q + rule.numPoints1d * d) / rule.numPoints1d = d := pair_div d hq
  have hrow : q < (rule.points1d.map fun x => (basis.evaluate x).toArray).size := by
    rwa [Array.size_map]
  rw [entryAt, hmod, hdiv, slot_eq hrow, ok_bind, Array.getElem_map]

omit [Div α] in
theorem entryAt_ok {basis : LagrangeBasis α} {rule : TensorRule α} {k : Nat}
    (hweights : basis.weights.length = basis.numNodes)
    (hk : k < rule.numPoints1d * basis.numNodes) : ∃ entry, entryAt basis rule k = .ok entry := by
  have hpoint : k % rule.numPoints1d < rule.points1d.size := mod_lt_left hk
  rw [← Nat.mod_add_div k rule.numPoints1d, entryAt_eq hpoint]
  refine ⟨_, slot_eq ?_⟩
  rw [List.size_toArray, basis.length_evaluate, hweights]
  exact div_lt_right hk

omit [Div α] in
/-- The tables of a basis are made where there is room for them, also at no point. -/
theorem ofRule_ok_of_fits [Stored α] {basis : LagrangeBasis α} {rule : TensorRule α}
    (hweights : basis.weights.length = basis.numNodes)
    (hfits : nonemptyVolume [rule.numPoints1d, basis.numNodes] < Size.bufferBound)
    (hroom : Stored.bytes α * (rule.numPoints1d * basis.numNodes) < Size.bufferBound) :
    ∃ tables, ofRule basis rule = .ok tables := by
  have htable (part : α × α → α) : ∃ table : Array α,
      (tabulate (rule.numPoints1d * basis.numNodes) fun k => do
        return part (← entryAt basis rule k)) = .ok table ∧
      table.size = rule.numPoints1d * basis.numNodes := by
    obtain ⟨table, htable, -⟩ := tabulate_forall (P := fun _ _ => True) fun k hk => by
      obtain ⟨entry, hentry⟩ := entryAt_ok hweights hk
      exact ⟨part entry, bind_eq_ok.2 ⟨entry, hentry, rfl⟩, trivial⟩
    exact ⟨table, htable, size_of_tabulate htable⟩
  obtain ⟨b, hb, hbsize⟩ := htable Prod.fst
  obtain ⟨g, hg, hgsize⟩ := htable Prod.snd
  exact ⟨_, bind_eq_ok.2 ⟨_, count_of_fits hfits, bind_eq_ok.2 ⟨(), Size.reserve_eq_ok.2 hroom,
    bind_eq_ok.2 ⟨b, hb, bind_eq_ok.2 ⟨g, hg, ofTables_eq hbsize hgsize hfits⟩⟩⟩⟩⟩

omit [Div α] in
/-- **The tables of a basis** are made where there is room for them. -/
theorem ofRule_ok [Stored α] {basis : LagrangeBasis α} {rule : TensorRule α}
    (hweights : basis.weights.length = basis.numNodes) (hd : 0 < basis.numNodes)
    (hq : 0 < rule.numPoints1d)
    (hroom : Stored.bytes α * (rule.numPoints1d * basis.numNodes) < Size.bufferBound) :
    ∃ tables, ofRule basis rule = .ok tables := by
  refine ofRule_ok_of_fits hweights ?_ hroom
  rw [nonemptyVolume_cons, nonemptyVolume_cons, nonemptyVolume_nil, Nat.mul_one,
    Nat.max_eq_right hq, Nat.max_eq_right hd]
  exact lt_of_bytes hroom

omit [Div α] in
/-- The entry of each table at a point and a node is what the basis evaluates to there. -/
theorem entry_of_ofRule [Stored α] {basis : LagrangeBasis α} {rule : TensorRule α}
    {tables : Tables α} (hweights : basis.weights.length = basis.numNodes)
    (h : ofRule basis rule = .ok tables) {q d : Nat} (hq : q < rule.points1d.size)
    (hd : d < basis.numNodes) :
    ∃ entry, (basis.evaluate rule.points1d[q])[d]? = some entry ∧
      tables.b[q + rule.numPoints1d * d]? = some entry.1 ∧
      tables.g[q + rule.numPoints1d * d]? = some entry.2 := by
  obtain ⟨len, hlen, h⟩ := bind_eq_ok.1 h
  obtain ⟨-, rfl⟩ := Size.mul_eq_ok.1 hlen
  obtain ⟨_, -, h⟩ := bind_eq_ok.1 h
  obtain ⟨b, hb, h⟩ := bind_eq_ok.1 h
  obtain ⟨g, hg, h⟩ := bind_eq_ok.1 h
  obtain ⟨-, -, -, rfl, rfl⟩ := paired_of_ofTables h
  have hnode : d < (basis.evaluate rule.points1d[q]).length := by
    rwa [basis.length_evaluate, hweights]
  have hentry : entryAt basis rule (q + rule.numPoints1d * d) =
      .ok (basis.evaluate rule.points1d[q])[d] :=
    (entryAt_eq hq d).trans (slot_eq (by rwa [List.size_toArray]))
  have hslot {part : α × α → α} {table : Array α}
      (htable : tabulate (rule.numPoints1d * basis.numNodes) (fun k => do
        return part (← entryAt basis rule k)) = .ok table) :
      table[q + rule.numPoints1d * d]? = some (part (basis.evaluate rule.points1d[q])[d]) := by
    refine slot_eq_ok.1 (((slot_of_tabulate htable).2 _ (pair_lt hq hd)).trans ?_)
    rw [hentry]
    rfl
  exact ⟨_, List.getElem?_eq_getElem hnode, hslot hb, hslot hg⟩

omit [Div α] in
/-- **The entries of the tables** are the values and the derivatives of the basis functions at the
points of the rule. -/
theorem entries_of_ofRule [Stored α] {basis : LagrangeBasis α} {rule : TensorRule α}
    {tables : Tables α} {values : α → Nat → α × α}
    (hbasis : ∀ x, basis.evaluate x = (List.range basis.numNodes).map (values x))
    (h : ofRule basis rule = .ok tables) {q : Nat} (hq : q < tables.nqpt) :
    ∀ d < tables.ndof,
      tables.b.getD (q + tables.nqpt * d) 0 = (values (rule.points1d.getD q 0) d).1 ∧
        tables.g.getD (q + tables.nqpt * d) 0 = (values (rule.points1d.getD q 0) d).2 := by
  obtain ⟨-, hndof, hnqpt⟩ := paired_of_ofRule h
  have hweights : basis.weights.length = basis.numNodes := by
    rw [← basis.length_evaluate 0, hbasis, List.length_map, List.length_range]
  have hq : q < rule.points1d.size := hq.trans_eq hnqpt
  have hpoint : rule.points1d.getD q 0 = rule.points1d[q] := (Array.getElem_eq_getD 0).symm
  intro d hd
  rw [hndof] at hd
  obtain ⟨entry, hentry, hb, hg⟩ := entry_of_ofRule hweights h hq hd
  rw [hbasis, List.getElem?_map, List.getElem?_range hd] at hentry
  obtain rfl := Option.some.inj hentry
  rw [hnqpt, hpoint, Array.getD_eq_getD_getElem?, Array.getD_eq_getD_getElem?, hb, hg]
  exact ⟨rfl, rfl⟩

end Tables

end TensorDiffusion
