/-
nDCG at most 1, and 1 only in the gold order (`evaluation/metrics.py`, `ndcg_at_k`), over the reals.

The gold list and the predictions are distinct up to normalisation. The gold model at place i has grade n - i, so the ideal
ranking is worth n, n - 1, ... discounted, and the first j predictions never have more than the first j grades of it.

Results:
- `gradeOf_gold`, `gradeOf_inj`: the grades of the gold list, and that a positive grade is that of one id.
- `sum_grades_le`: the grades of the first j predictions.
- `ideal_eq`: the ideal ranking.
- `ndcg_normalised`: nDCG is between 0 and 1, and 1 iff the first k predictions follow the gold order as far as it goes.
-/
import Mathlib.Data.List.GetD
import Mathlib.Tactic
import AgentPick.Evaluation.Metrics

namespace AgentPick.Metrics

open AgentPick.Extract

section Optimum

variable {u : Unicode} {gold predicted : List Str}

/-! ## Grades of a list without duplicates -/

/-- an id that is that of the gold model at place i has its grade -/
theorem gradeOf_gold (hgold : (gold.map (norm u)).Nodup) {i : ℕ} {g p : Str} (hi : gold[i]? = some g)
    (hp : norm u p = norm u g) : gradeOf u gold p = gold.length - i := by
  have hkeys : (gold.zipIdx.map fun e => norm u e.1).Nodup := by
    have hmap := List.map_map (f := Prod.fst) (g := norm u) (l := gold.zipIdx)
    rw [List.zipIdx_map_fst] at hmap
    exact hmap ▸ hgold
  have hget := Dict.get?_accumulate_of_mem (fun e => norm u e.1) (fun _ e => gold.length - e.2) hkeys Dict.empty
    (List.mem_zipIdx_iff_getElem?.2 hi : (g, i) ∈ gold.zipIdx)
  rw [gradeOf, hp]
  exact congrArg (Option.getD · 0) hget

theorem gradeOf_le (p : Str) : gradeOf u gold p ≤ gold.length := by
  rw [gradeOf]
  cases h : (grades u gold).get? (norm u p) with
  | none => exact Nat.zero_le _
  | some v =>
    obtain ⟨i, _, _, _, hv, _⟩ := of_get?_grades h
    simp only [Option.getD_some, hv]
    omega

/-- a positive grade is that of one id -/
theorem gradeOf_inj {p q : Str} (hpos : 0 < gradeOf u gold p) (h : gradeOf u gold p = gradeOf u gold q) :
    norm u p = norm u q := by
  have hplace {p : Str} (hpos : 0 < gradeOf u gold p) :
      ∃ i g, gold[i]? = some g ∧ norm u g = norm u p ∧ gradeOf u gold p = gold.length - i := by
    rw [gradeOf] at hpos ⊢
    cases hget : (grades u gold).get? (norm u p) with
    | none => simp [hget] at hpos
    | some v =>
      obtain ⟨i, g, hi, hg, hv, _⟩ := of_get?_grades hget
      exact ⟨i, g, hi, hg, hv⟩
  obtain ⟨i, g, hi, hg, hgrade⟩ := hplace hpos
  obtain ⟨j, g', hj, hg', hgrade'⟩ := hplace (h ▸ hpos)
  have hij : i = j := by omega
  rw [hij, hj] at hi
  rw [← hg, ← hg', Option.some.inj hi]

/-! ## The predictions -/

theorem sum_getD (gs : List ℕ) (j : ℕ) : ∑ r ∈ Finset.range j, gs.getD r 0 = (gs.take j).sum := by
  induction gs generalizing j with
  | nil => simp
  | cons g gs ih =>
    cases j with
    | zero => rfl
    | succ j =>
      rw [Finset.sum_range_succ', List.take_succ_cons, List.sum_cons, ← ih, Nat.add_comm]
      rfl

/-- **The first j predictions have at most the first j grades of the ideal ranking.** -/
theorem sum_grades_le (hpred : (predicted.map (norm u)).Nodup) (k : ℤ) (j : ℕ) :
    ∑ r ∈ Finset.range j, ((topK predicted k).map (gradeOf u gold)).getD r 0 ≤
      ∑ r ∈ Finset.range j, (gold.length - r) := by
  have htake : (topK predicted k).take j <+: predicted := (List.take_prefix _ _).trans (topK_isTake predicted k)
  have hdistinct : ((((topK predicted k).take j).map (gradeOf u gold)).filter (0 < ·)).Nodup := by
    have hnorm : (((topK predicted k).take j).map (norm u)).Nodup := hpred.sublist (htake.sublist.map _)
    rw [List.filter_map]
    apply List.Nodup.map_on
    · intro p hp q hq heq
      have hpos : 0 < gradeOf u gold p := by simpa using (List.mem_filter.1 hp).2
      exact List.inj_on_of_nodup_map hnorm (List.mem_of_mem_filter hp) (List.mem_of_mem_filter hq) (gradeOf_inj hpos heq)
    · exact (List.Nodup.of_map _ hnorm).filter _
  have hle : ∀ g ∈ ((topK predicted k).take j).map (gradeOf u gold), g ≤ gold.length := by
    intro g hg
    obtain ⟨p, _, rfl⟩ := List.mem_map.1 hg
    exact gradeOf_le p
  calc ∑ r ∈ Finset.range j, ((topK predicted k).map (gradeOf u gold)).getD r 0
      = (((topK predicted k).take j).map (gradeOf u gold)).sum := by rw [sum_getD, List.map_take]
    _ ≤ ∑ r ∈ Finset.range (((topK predicted k).take j).map (gradeOf u gold)).length, (gold.length - r) :=
        Discount.sum_le_top hle hdistinct
    _ ≤ ∑ r ∈ Finset.range j, (gold.length - r) := by
        apply Finset.sum_le_sum_of_subset
        rw [Finset.range_subset_range, List.length_map, List.length_take]
        omega

/-! ## The ideal ranking -/

/-- the grades, in the order of the gold list -/
theorem map_gradeOf_gold (hgold : (gold.map (norm u)).Nodup) :
    gold.map (gradeOf u gold) = (List.range gold.length).map (gold.length - ·) := by
  apply List.ext_getElem
  · simp
  · intro i hi _
    rw [List.length_map] at hi
    rw [List.getElem_map, List.getElem_map, List.getElem_range]
    exact gradeOf_gold hgold (List.getElem?_eq_getElem hi) rfl

theorem values_grades_perm (hgold : (gold.map (norm u)).Nodup) :
    (grades u gold).values.Perm ((List.range gold.length).map (gold.length - ·)) := by
  have hkeys : (grades u gold).keys.Perm (gold.map (norm u)) := by
    apply (List.perm_ext_iff_of_nodup (Dict.nodup_keys _) hgold).2
    intro key
    exact mem_keys_grades
  have hvalues : (grades u gold).values = (grades u gold).keys.map fun key => ((grades u gold).get? key).getD 0 := by
    rw [Dict.values, Dict.keys, List.map_map]
    apply List.map_congr_left
    intro e he
    rw [Function.comp_apply, Dict.get?_eq_some.2 he]
    rfl
  have hperm := hkeys.map fun key => ((grades u gold).get? key).getD 0
  rw [← hvalues, List.map_map] at hperm
  rw [← map_gradeOf_gold hgold]
  exact hperm

theorem sorted_grades (hgold : (gold.map (norm u)).Nodup) :
    (grades u gold).values.insertionSort (· ≥ ·) = (List.range gold.length).map (gold.length - ·) := by
  have hdesc : ((List.range gold.length).map (gold.length - ·)).Pairwise (· ≥ ·) := by
    apply List.Pairwise.map _ _ List.pairwise_lt_range
    intro i j hij
    omega
  exact ((List.perm_insertionSort _ _).trans (values_grades_perm hgold)).eq_of_pairwise'
    (List.pairwise_insertionSort _ _) hdesc

/-- the ideal ranking -/
theorem ideal_eq (hgold : (gold.map (norm u)).Nodup) {k : ℤ} (hk : 0 ≤ k) {r : ℕ} (hr : r < k.toNat) :
    (ideal u gold k).getD r 0 = gold.length - r := by
  rw [ideal, sorted_grades hgold, topK_of_nonneg _ hk, List.getD_eq_getElem?_getD, List.getElem?_take_of_lt hr]
  rcases Nat.lt_or_ge r gold.length with h | h
  · simp [h]
  · simp [h, Nat.sub_eq_zero_of_le h]

/-! ## The optimum -/

/-- the weights decrease -/
theorem weight_strictAnti : StrictAnti (weight realLog2) := by
  intro r s hrs
  apply one_div_lt_one_div_of_lt (realLog2_pos r)
  apply Real.logb_lt_logb one_lt_two
  · positivity
  · exact_mod_cast (by omega : r + 2 < s + 2)

theorem discounted_ideal (hgold : (gold.map (norm u)).Nodup) {k : ℤ} (hk : 0 ≤ k) :
    discounted realLog2 (ideal u gold k) =
      ∑ r ∈ Finset.range k.toNat, ((gold.length - r : ℕ) : ℝ) * weight realLog2 r := by
  have hlen : (ideal u gold k).length ≤ k.toNat := by
    rw [ideal, topK_of_nonneg _ hk]
    exact List.length_take_le _ _
  rw [discounted_eq realLog2 hlen]
  apply Finset.sum_congr rfl
  intro r hr
  rw [ideal_eq hgold hk (Finset.mem_range.1 hr)]

/-- **No ranking is worth more than the ideal one**, and only one with its grades is worth as much. -/
theorem discounted_le (hgold : (gold.map (norm u)).Nodup) (hpred : (predicted.map (norm u)).Nodup) {k : ℤ} (hk : 0 ≤ k) :
    discounted realLog2 ((topK predicted k).map (gradeOf u gold)) ≤ discounted realLog2 (ideal u gold k) ∧
      (discounted realLog2 ((topK predicted k).map (gradeOf u gold)) = discounted realLog2 (ideal u gold k) →
        ∀ r < k.toNat, ((topK predicted k).map (gradeOf u gold)).getD r 0 = gold.length - r) := by
  have hlen : ((topK predicted k).map (gradeOf u gold)).length ≤ k.toNat := by
    rw [List.length_map, topK_of_nonneg _ hk]
    exact List.length_take_le _ _
  have hsums : ∀ j ≤ k.toNat, ∑ r ∈ Finset.range j, ((((topK predicted k).map (gradeOf u gold)).getD r 0 : ℕ) : ℝ) ≤
      ∑ r ∈ Finset.range j, ((gold.length - r : ℕ) : ℝ) := by
    intro j _
    exact_mod_cast sum_grades_le hpred k j
  rw [discounted_eq realLog2 hlen, discounted_ideal hgold hk]
  refine ⟨Discount.sum_mul_le weight_strictAnti (weight_pos realLog2_pos) hsums, fun heq r hr => ?_⟩
  exact_mod_cast Discount.eq_of_sum_mul_eq weight_strictAnti (weight_pos realLog2_pos) hsums heq r hr

/-- the first k predictions follow the gold order as far as it goes -/
def FollowsGold (u : Unicode) (gold predicted : List Str) (k : ℤ) : Prop :=
  ∀ i : ℕ, (i : ℤ) < min k gold.length →
    ∃ p g, predicted[i]? = some p ∧ gold[i]? = some g ∧ norm u p = norm u g

theorem getD_gradeOf (predicted : List Str) {k : ℤ} (hk : 0 ≤ k) {r : ℕ} (hr : r < k.toNat) :
    ((topK predicted k).map (gradeOf u gold)).getD r 0 = (predicted[r]?.map (gradeOf u gold)).getD 0 := by
  rw [topK_of_nonneg _ hk, List.getD_eq_getElem?_getD, List.getElem?_map, List.getElem?_take_of_lt hr]

theorem follows_of_grades {k : ℤ} (hk : 0 ≤ k)
    (h : ∀ r < k.toNat, ((topK predicted k).map (gradeOf u gold)).getD r 0 = gold.length - r)
    (hgold : (gold.map (norm u)).Nodup) : FollowsGold u gold predicted k := by
  intro i hi
  have hgi : gold[i]? = some gold[i] := List.getElem?_eq_getElem (by omega)
  have hgrade := h i (by omega)
  rw [getD_gradeOf predicted hk (by omega)] at hgrade
  cases hp : predicted[i]? with
  | none =>
    -- no grade is missing before the end of the gold list
    rw [hp, Option.map_none, Option.getD_none] at hgrade
    omega
  | some p =>
    rw [hp, Option.map_some, Option.getD_some] at hgrade
    have hpos : 0 < gradeOf u gold p := by omega
    refine ⟨p, gold[i], rfl, hgi, gradeOf_inj hpos ?_⟩
    rw [hgrade, gradeOf_gold hgold hgi rfl]

theorem ideal_le_of_follows {k : ℤ} (hk : 0 ≤ k) (hgold : (gold.map (norm u)).Nodup) (h : FollowsGold u gold predicted k) :
    discounted realLog2 (ideal u gold k) ≤ discounted realLog2 ((topK predicted k).map (gradeOf u gold)) := by
  have hlen : ((topK predicted k).map (gradeOf u gold)).length ≤ k.toNat := by
    rw [List.length_map, topK_of_nonneg _ hk]
    exact List.length_take_le _ _
  rw [discounted_eq realLog2 hlen, discounted_ideal hgold hk]
  apply Finset.sum_le_sum
  intro r hr
  apply mul_le_mul_of_nonneg_right _ (weight_pos realLog2_pos r).le
  have hr' := Finset.mem_range.1 hr
  rcases Nat.lt_or_ge r gold.length with hlt | hge
  · obtain ⟨p, g, hp, hg, hnorm⟩ := h r (by omega)
    rw [getD_gradeOf predicted hk hr', hp, Option.map_some, Option.getD_some, gradeOf_gold hgold hg hnorm]
  · rw [Nat.sub_eq_zero_of_le hge, Nat.cast_zero]
    exact Nat.cast_nonneg _

end Optimum

/-- **nDCG is normalised, and maximal only in the gold order.** -/
theorem ndcg_normalised (u : Unicode) {gold predicted : List Str} (hne : gold ≠ []) (hgold : (gold.map (norm u)).Nodup)
    (hpred : (predicted.map (norm u)).Nodup) {k : ℤ} (hk : 1 ≤ k) :
    0 ≤ ndcgAtK realLog2 u predicted gold k ∧ ndcgAtK realLog2 u predicted gold k ≤ 1 ∧
      (ndcgAtK realLog2 u predicted gold k = 1 ↔ FollowsGold u gold predicted k) := by
  have hk0 : 0 ≤ k := by omega
  have hideal := (discounted_pos_iff realLog2_pos _).2 (ideal_pos (u := u) hne hk)
  obtain ⟨hle, heq⟩ := discounted_le hgold hpred hk0
  rw [ndcgAtK_eq predicted hne hk, div_le_one hideal, div_eq_one_iff_eq hideal.ne']
  refine ⟨div_nonneg (discounted_nonneg realLog2_pos _) hideal.le, hle, fun h => ?_, fun h => ?_⟩
  · exact follows_of_grades hk0 (heq h) hgold
  · exact le_antisymm hle (ideal_le_of_follows hk0 hgold h)

/-- three gold models, of which the second and the third are swapped -/
theorem ndcg_normalised_sample :
    let gold := ["org/m-1".toList, "org/m-2".toList, "org/m-3".toList]
    let predicted := ["org/m-1".toList, "org/m-3".toList, "org/m-2".toList]
    0 ≤ ndcgAtK realLog2 .ascii predicted gold 2 ∧ ndcgAtK realLog2 .ascii predicted gold 2 ≤ 1 ∧
      (ndcgAtK realLog2 .ascii predicted gold 2 = 1 ↔ FollowsGold .ascii gold predicted 2) :=
  ndcg_normalised .ascii (by decide) (by decide) (by decide) (by decide)

end AgentPick.Metrics
