import TensorDiffusion.Proofs.Bases
import TensorDiffusion.Proofs.Exact

/-!
# Tables and their transposes

Two tables are accepted when each has an entry for every point and node, and are reported otherwise.
Accepted tables come with their transposes, and with points and nodes exchanged the transposes are
accepted too and have the tables for their transposes (`Tables.Dual`).  The tables of a basis are of
this kind, and their entries at a point are what the basis evaluates to there
(`Tables.ofTables_transposes`).  Nothing is asked of the scalars.
-/

namespace TensorDiffusion.Tables

variable {α : Type} {ndof nqpt : Nat}

/-- The tables of `ndof` nodes at `nqpt` points go with their transposes, and these with them. -/
structure Dual (ndof nqpt : Nat) (tables : Tables α) : Prop where
  ndof_eq : tables.ndof = ndof
  nqpt_eq : tables.nqpt = nqpt
  b : IsTranspose nqpt ndof tables.b tables.bt
  g : IsTranspose nqpt ndof tables.g tables.gt
  exchanged : ofTables nqpt ndof tables.bt tables.gt =
    .ok ⟨nqpt, ndof, tables.bt, tables.gt, tables.b, tables.g⟩

theorem nonemptyVolume_comm (m n : Nat) : nonemptyVolume [m, n] = nonemptyVolume [n, m] := by
  simp only [nonemptyVolume_cons, nonemptyVolume_nil, Nat.mul_one]
  exact Nat.mul_comm _ _

theorem fits_of_lt (hd : ndof < 2 ^ 31) (hq : nqpt < 2 ^ 31) :
    nonemptyVolume [nqpt, ndof] < Size.bufferBound := by
  have hpoints : max 1 nqpt ≤ 2 ^ 31 := by omega
  have hnodes : max 1 ndof ≤ 2 ^ 31 := by omega
  rw [nonemptyVolume_cons, nonemptyVolume_cons, nonemptyVolume_nil, Nat.mul_one]
  exact Nat.lt_of_le_of_lt (Nat.mul_le_mul hpoints hnodes) (by decide)

variable [Zero α]

/-- **Tables that are paired with their transposes** are those of their transposes. -/
theorem Paired.dual {tables : Tables α} (h : tables.Paired)
    (hfits : nonemptyVolume [tables.nqpt, tables.ndof] < Size.bufferBound) :
    tables.Dual tables.ndof tables.nqpt := by
  have hb : IsTranspose tables.nqpt tables.ndof tables.b tables.bt :=
    h.transposedB ▸ isTranspose_transposed h.b
  have hg : IsTranspose tables.nqpt tables.ndof tables.g tables.gt :=
    h.transposedG ▸ isTranspose_transposed h.g
  have hbackB : transposed tables.ndof tables.nqpt tables.bt = tables.b := by
    rw [h.transposedB, transposed_transposed h.b]
  have hbackG : transposed tables.ndof tables.nqpt tables.gt = tables.g := by
    rw [h.transposedG, transposed_transposed h.g]
  have hfits : nonemptyVolume [tables.ndof, tables.nqpt] < Size.bufferBound :=
    nonemptyVolume_comm _ _ ▸ hfits
  refine ⟨rfl, rfl, hb, hg, ?_⟩
  rw [ofTables_eq hb.size_flipped hg.size_flipped hfits, hbackB, hbackG]

/-- Tables are reported when one of them has another size, and only then. -/
theorem ofTables_violates_iff {b g : Array α}
    (hfits : nonemptyVolume [nqpt, ndof] < Size.bufferBound) :
    (∃ violation, ofTables ndof nqpt b g = .error (.violated violation)) ↔
      b.size ≠ nqpt * ndof ∨ g.size ≠ nqpt * ndof := by
  simp only [ofTables_eq_error hfits]
  constructor
  · rintro ⟨_, ⟨hb, -⟩ | ⟨-, hg, -⟩⟩
    · exact .inl hb
    · exact .inr hg
  · intro h
    by_cases hb : b.size = nqpt * ndof
    · exact ⟨_, .inr ⟨hb, h.resolve_left (not_not_intro hb), rfl⟩⟩
    · exact ⟨_, .inl ⟨hb, rfl⟩⟩

/-- Tables of the right size are accepted with their transposes. -/
theorem ofTables_dual {b g : Array α} (hb : b.size = nqpt * ndof) (hg : g.size = nqpt * ndof)
    (hfits : nonemptyVolume [nqpt, ndof] < Size.bufferBound) :
    ∃ tables, ofTables ndof nqpt b g = .ok tables ∧ tables.b = b ∧ tables.g = g ∧
      tables.Dual ndof nqpt :=
  ⟨_, ofTables_eq hb hg hfits, rfl, rfl, (ofTables_paired hb hg).dual hfits⟩

variable [One α] [Add α] [Sub α] [Mul α]

/-- The tables hold what the basis evaluates to at the points of the rule. -/
def Tabulates (basis : LagrangeBasis α) (rule : TensorRule α) (tables : Tables α) : Prop :=
  ∀ q (hq : q < rule.points1d.size) (values derivatives : Array α),
    values.size = basis.numNodes → derivatives.size = basis.numNodes →
    ∃ v w, basis.evaluateInto rule.points1d[q] values derivatives = .ok (v, w) ∧
      v.size = basis.numNodes ∧ w.size = basis.numNodes ∧
      ∀ d < basis.numNodes, tables.b[q + rule.numPoints1d * d]? = v[d]? ∧
        tables.g[q + rule.numPoints1d * d]? = w[d]?

section

variable [Stored α] {basis : LagrangeBasis α} {rule : TensorRule α} {tables : Tables α}

theorem tabulates_of_ofRule (hweights : basis.weights.length = basis.numNodes)
    (h : ofRule basis rule = .ok tables) : tables.Tabulates basis rule := by
  intro q hq values derivatives hvalues hderivatives
  refine ⟨_, _, LagrangeBasis.evaluateInto_ok hvalues hderivatives _, ?_, ?_, fun d hd => ?_⟩
  · rw [List.size_toArray, List.length_map, basis.length_evaluate, hweights]
  · rw [List.size_toArray, List.length_map, basis.length_evaluate, hweights]
  · obtain ⟨entry, hentry, hb, hg⟩ := entry_of_ofRule hweights h hq hd
    rw [hb, hg, List.getElem?_toArray, List.getElem?_toArray, List.getElem?_map, List.getElem?_map,
      hentry]
    exact ⟨rfl, rfl⟩

/-- Tables for which there is no room are reported. -/
theorem ofRule_of_no_room
    (hfits : nonemptyVolume [rule.numPoints1d, basis.numNodes] < Size.bufferBound)
    (hroom : ¬ Stored.bytes α * (rule.numPoints1d * basis.numNodes) < Size.bufferBound) :
    ofRule basis rule = .error (.violated .capacityOverflow) := by
  rw [ofRule, count_of_fits hfits, ok_bind, Size.reserve_of_not_lt hroom]
  rfl

end

/-- **Tables keep their transposes.**  Tables that do not have an entry for every point and node are
reported, and no others.  What is accepted goes with its transposes, and these with it.  So do the
tables of a basis at the points of a rule, which are made exactly where a buffer has room for one of
them, and at a point and a node they hold the value and the derivative that the basis evaluates to
there. -/
theorem ofTables_transposes [Div α] [BEq α] [Stored α] (hd : ndof < 2 ^ 31) (hq : nqpt < 2 ^ 31) :
    (∀ b g : Array α,
      ((∃ violation, ofTables ndof nqpt b g = .error (.violated violation)) ↔
        b.size ≠ nqpt * ndof ∨ g.size ≠ nqpt * ndof) ∧
      (b.size = nqpt * ndof → g.size = nqpt * ndof →
        ∃ tables, ofTables ndof nqpt b g = .ok tables ∧ tables.b = b ∧ tables.g = g ∧
          tables.Dual ndof nqpt)) ∧
    ∀ (nodes : List α) (basis : LagrangeBasis α) (rule : TensorRule α),
      LagrangeBasis.ofNodes nodes = .ok basis → basis.numNodes = ndof → rule.numPoints1d = nqpt →
      (Stored.bytes α * (nqpt * ndof) < Size.bufferBound →
        ∃ tables, ofRule basis rule = .ok tables ∧ tables.Dual ndof nqpt ∧
          tables.Tabulates basis rule) ∧
      (¬ Stored.bytes α * (nqpt * ndof) < Size.bufferBound →
        ofRule basis rule = .error (.violated .capacityOverflow)) := by
  have hfits : nonemptyVolume [nqpt, ndof] < Size.bufferBound := fits_of_lt hd hq
  refine ⟨fun b g => ⟨ofTables_violates_iff hfits, fun hb hg => ofTables_dual hb hg hfits⟩, ?_⟩
  rintro nodes basis rule hbasis rfl rfl
  have hweights := LagrangeBasis.length_weights hbasis
  refine ⟨fun hroom => ?_, ofRule_of_no_room hfits⟩
  obtain ⟨tables, htables⟩ := ofRule_ok_of_fits hweights hfits hroom
  obtain ⟨hpaired, hndof, hnqpt⟩ := paired_of_ofRule htables
  have hdual := hpaired.dual (by rwa [hndof, hnqpt])
  rw [hndof, hnqpt] at hdual
  exact ⟨tables, htables, hdual, tabulates_of_ofRule hweights htables⟩

/-- Two nodes and three points: a table that is too short, a pair of tables with their transposes,
and the tables of the basis of order one. -/
theorem ofTables_transposes_two_by_three :
    (∃ violation, ofTables 2 3 #[(1 : ℝ), 2, 3, 4, 5] #[7, 8, 9, 10, 11, 12] =
      .error (.violated violation)) ∧
    (∃ tables, ofTables 2 3 #[(1 : ℝ), 2, 3, 4, 5, 6] #[7, 8, 9, 10, 11, 12] = .ok tables ∧
      tables.bt[1 + 2 * 0]? = some 4 ∧ tables.gt[0 + 2 * 2]? = some 9 ∧
      ofTables 3 2 tables.bt tables.gt =
        .ok ⟨3, 2, tables.bt, tables.gt, #[1, 2, 3, 4, 5, 6], #[7, 8, 9, 10, 11, 12]⟩) ∧
    ∃ basis tables, LagrangeBasis.ofNodes [(-1 : ℝ), 1] = .ok basis ∧
      ofRule basis ⟨1, #[-1, 0, 3], #[1, 1, 1], #[1, 1, 1]⟩ = .ok tables ∧
      tables.Dual 2 3 ∧ tables.b[2 + 3 * 1]? = some 2 ∧ tables.g[2 + 3 * 1]? = some (1 / 2) := by
  have htwo : 2 < 2 ^ 31 := by decide
  have hthree : 3 < 2 ^ 31 := by decide
  obtain ⟨htables, hbasis⟩ := ofTables_transposes (α := ℝ) htwo hthree
  refine ⟨(htables _ _).1.2 (.inl (by decide)), ?_, ?_⟩
  · obtain ⟨tables, hrun, hb, hg, hdual⟩ :=
      (htables #[1, 2, 3, 4, 5, 6] #[7, 8, 9, 10, 11, 12]).2 rfl rfl
    refine ⟨tables, hrun, ?_, ?_, ?_⟩
    · rw [hdual.b.entry 0 (by decide) 1 (by decide), hb]
      rfl
    · rw [hdual.g.entry 2 (by decide) 0 (by decide), hg]
      rfl
    · rw [hdual.exchanged, hb, hg]
  · have hnodes : LagrangeBasis.ofNodes [(-1 : ℝ), 1] = .ok ⟨[-1, 1], [-1 / 2, 1 / 2]⟩ := by
      rw [LagrangeBasis.ofNodes, require_eq_ok.2 (List.cons_ne_nil _ _), ok_bind]
      norm_num [LagrangeBasis.distances, require]
    obtain ⟨tables, hrun, hdual, hentries⟩ :=
      (hbasis _ _ ⟨1, #[-1, 0, 3], #[1, 1, 1], #[1, 1, 1]⟩ hnodes rfl rfl).1 (by decide)
    obtain ⟨v, w, hevaluate, -, -, hplaces⟩ :=
      hentries 2 (by decide) #[0, 0] #[0, 0] rfl rfl
    obtain ⟨hvalue, hderivative⟩ := hplaces 1 (by decide)
    obtain ⟨rfl, rfl⟩ := Prod.mk.inj (Except.ok.inj hevaluate)
    refine ⟨_, tables, hnodes, hrun, hdual, hvalue.trans ?_, hderivative.trans ?_⟩
    · change some (1 / 2 * (1 * (3 - -1)) : ℝ) = _
      norm_num
    · change some (1 / 2 * (0 * (3 - -1) + 1) : ℝ) = _
      norm_num

end TensorDiffusion.Tables
