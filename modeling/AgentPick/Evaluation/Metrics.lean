/-
Ranking metrics (`evaluation/metrics.py`, `precision_at_k` to `ndcg_at_k`) and the scores of an answer (`evaluation/run.py`,
`score_answer`), in exact arithmetic.

`discounted` and `ndcgAtK` are over any ordered field with a binary logarithm of the ranks; `realLog2` is the one of the
reals. A relevant prediction is one whose normalised id is in the normalised gold list, which may have duplicates and
aliases: the set of its ids counts each once, and the grade table keeps the last grade of an id.

Results:
- `hits_le_goldSet`: predictions that are distinct up to normalisation hit no gold id twice.
- `mrr_spec`: the reciprocal rank is that of the first relevant prediction.
- `ndcg_pos_iff`: nDCG is positive iff a relevant prediction is among the first k.
- `scores_reported`: which metrics the scores of an answer have, by its category.
- `metrics_agree`: the four metrics agree on what is extracted from every answer, and its scores are these metrics.
-/
import Mathlib.Analysis.SpecialFunctions.Log.Base
import Mathlib.Data.List.GetD
import Mathlib.Tactic
import AgentPick.Core.Discount
import AgentPick.Evaluation.Extract

namespace AgentPick.Metrics

open AgentPick.Extract

/-! ## The metrics -/

/-- `xs[:k]` -/
def topK {α : Type} (xs : List α) (k : ℤ) : List α :=
  if 0 ≤ k then xs.take k.toNat else xs.take (xs.length - k.natAbs)

/-- `gold_set` -/
def goldSet (u : Unicode) (gold : List Str) : List Str := (goldKeys u gold).dedup

/-- `_norm(p) in gold_set` -/
def relevant (u : Unicode) (gold : List Str) (p : Str) : Bool := norm u p ∈ goldSet u gold

/-- `hits` -/
def hitsAt (u : Unicode) (predicted gold : List Str) (k : ℤ) : ℕ := (topK predicted k).countP (relevant u gold)

/-- `precision_at_k` -/
def precisionAtK (u : Unicode) (predicted gold : List Str) (k : ℤ) : ℚ :=
  if k ≤ 0 then 0 else hitsAt u predicted gold k / k

/-- `recall_at_k` -/
def recallAtK (u : Unicode) (predicted gold : List Str) (k : ℤ) : ℚ :=
  if gold = [] then 0 else hitsAt u predicted gold k / (goldSet u gold).length

/-- the loop of `mrr` -/
def mrrFrom (u : Unicode) (gold : List Str) : ℕ → List Str → ℚ
  | _, [] => 0
  | rank, p :: ps => if relevant u gold p then 1 / rank else mrrFrom u gold (rank + 1) ps

/-- `mrr` -/
def mrr (u : Unicode) (predicted gold : List Str) : ℚ := mrrFrom u gold 1 predicted

/-- `grades`: the last grade of an id stays -/
def grades (u : Unicode) (gold : List Str) : Dict Str ℕ :=
  Dict.group (fun e => norm u e.1) (fun _ e => gold.length - e.2) gold.zipIdx

/-- `grades.get(_norm(p), 0)` -/
def gradeOf (u : Unicode) (gold : List Str) (p : Str) : ℕ := ((grades u gold).get? (norm u p)).getD 0

/-- `sum(g / math.log2(rank + 1) for rank, g in enumerate(gs, start=1))` -/
def discounted {K : Type} [Field K] (log2 : ℕ → K) (gs : List ℕ) : K :=
  ((gs.zipIdx 1).map fun e => (e.1 : K) / log2 (e.2 + 1)).sum

/-- `ideal` -/
def ideal (u : Unicode) (gold : List Str) (k : ℤ) : List ℕ := topK ((grades u gold).values.insertionSort (· ≥ ·)) k

/-- `ndcg_at_k` -/
def ndcgAtK {K : Type} [Field K] [LinearOrder K] (log2 : ℕ → K) (u : Unicode) (predicted gold : List Str) (k : ℤ) : K :=
  if gold = [] ∨ k ≤ 0 then 0
  else
    let dcg := discounted log2 ((topK predicted k).map (gradeOf u gold))
    let idcg := discounted log2 (ideal u gold k)
    if 0 < idcg then dcg / idcg else 0

/-- `math.log2` over the reals -/
noncomputable def realLog2 (n : ℕ) : ℝ := Real.logb 2 n

/-! ## The scores of an answer -/

/-- `CATEGORIES` -/
inductive Category where
  | deterministic
  | ranking
  | ambiguous
  | impossible
  | multiTurn
  | offTopic
deriving DecidableEq, Repr

/-- the fields of an `EvalQuestion` that are scored -/
structure Question where
  category : Category
  expectedModels : List Str

/-- what `score_answer` returns; `none` is a key that is not there -/
structure Scores (K : Type) where
  predictedModels : List Str
  precisionAtK : Option ℚ := none
  recallAtK : Option ℚ := none
  mrr : Option ℚ := none
  ndcgAtK : Option K := none
  mentionsExpected : Option ℚ := none

/-- `float(recall_at_k(predicted, gold, len(predicted) or 1) > 0)` -/
def mentionsExpected (u : Unicode) (predicted gold : List Str) : ℚ :=
  if 0 < recallAtK u predicted gold (if predicted = [] then 1 else predicted.length) then 1 else 0

/-- `score_answer` -/
def scoreAnswer {K : Type} [Field K] [LinearOrder K] (log2 : ℕ → K) (u : Unicode) (catalogIds : List Str) (q : Question)
    (answers : List Str) (k : ℤ) : Scores K :=
  let predicted := extractPredictions u catalogIds (answers.getLast?.getD []) q.expectedModels
  let gold := q.expectedModels
  match q.category with
  | .deterministic | .ranking | .multiTurn =>
    { predictedModels := predicted
      precisionAtK := some (precisionAtK u predicted gold k)
      recallAtK := some (recallAtK u predicted gold k)
      mrr := some (mrr u predicted gold)
      ndcgAtK := some (ndcgAtK log2 u predicted gold k) }
  | .ambiguous => { predictedModels := predicted, mentionsExpected := some (mentionsExpected u predicted gold) }
  | .impossible | .offTopic => { predictedModels := predicted }

/-! ## Hits -/

theorem mem_goldSet {u : Unicode} {gold : List Str} {key : Str} : key ∈ goldSet u gold ↔ key ∈ goldKeys u gold :=
  List.mem_dedup

theorem relevant_iff {u : Unicode} {gold : List Str} {p : Str} : relevant u gold p = true ↔ norm u p ∈ goldKeys u gold := by
  rw [relevant, decide_eq_true_iff, mem_goldSet]

theorem goldSet_length_pos (u : Unicode) {gold : List Str} (hgold : gold ≠ []) : 0 < (goldSet u gold).length := by
  obtain ⟨g, hg⟩ := List.exists_mem_of_ne_nil gold hgold
  exact List.length_pos_of_mem (mem_goldSet.2 (List.mem_map_of_mem hg))

theorem topK_isTake {α : Type} (xs : List α) (k : ℤ) : topK xs k <+: xs := by
  unfold topK
  split_ifs
  · exact List.take_prefix _ _
  · exact List.take_prefix _ _

theorem topK_of_nonneg {α : Type} (xs : List α) {k : ℤ} (hk : 0 ≤ k) : topK xs k = xs.take k.toNat := if_pos hk

/-- there are hits iff a relevant prediction is among the first k -/
theorem hitsAt_pos {u : Unicode} {predicted gold : List Str} {k : ℤ} :
    0 < hitsAt u predicted gold k ↔ ∃ p ∈ topK predicted k, relevant u gold p = true := List.countP_pos_iff

theorem hitsAt_le {u : Unicode} {predicted gold : List Str} {k : ℤ} (hk : 0 ≤ k) : (hitsAt u predicted gold k : ℤ) ≤ k := by
  have hcount : hitsAt u predicted gold k ≤ (topK predicted k).length := List.countP_le_length
  rw [topK_of_nonneg predicted hk, List.length_take] at hcount
  omega

/-- **Predictions that are distinct up to normalisation hit no gold id twice.** -/
theorem hits_le_goldSet {u : Unicode} {predicted gold : List Str} (hdistinct : (predicted.map (norm u)).Nodup) (k : ℤ) :
    hitsAt u predicted gold k ≤ (goldSet u gold).length := by
  have hnodup : (((topK predicted k).filter (relevant u gold)).map (norm u)).Nodup :=
    hdistinct.sublist ((List.filter_sublist.trans (topK_isTake predicted k).sublist).map (norm u))
  have hsub : ((topK predicted k).filter (relevant u gold)).map (norm u) ⊆ goldSet u gold := by
    intro key hkey
    obtain ⟨p, hp, rfl⟩ := List.mem_map.1 hkey
    exact of_decide_eq_true (List.mem_filter.1 hp).2
  calc hitsAt u predicted gold k
      = (((topK predicted k).filter (relevant u gold)).map (norm u)).length := by
        rw [hitsAt, List.countP_eq_length_filter, List.length_map]
    _ ≤ (goldSet u gold).length := (hnodup.subperm hsub).length_le

/-! ## Precision and recall -/

section Rates

variable {u : Unicode} {predicted gold : List Str} {k : ℤ}

theorem precisionAtK_eq (hk : 1 ≤ k) : precisionAtK u predicted gold k = hitsAt u predicted gold k / k :=
  if_neg (by omega)

theorem recallAtK_eq (hgold : gold ≠ []) :
    recallAtK u predicted gold k = hitsAt u predicted gold k / (goldSet u gold).length := if_neg hgold

theorem precision_pos_iff (hk : 1 ≤ k) : 0 < precisionAtK u predicted gold k ↔ 0 < hitsAt u predicted gold k := by
  have hk0 : (0 : ℚ) < k := by exact_mod_cast hk
  rw [precisionAtK_eq hk, div_pos_iff_of_pos_right hk0, Nat.cast_pos]

theorem recall_pos_iff (hgold : gold ≠ []) : 0 < recallAtK u predicted gold k ↔ 0 < hitsAt u predicted gold k := by
  have hlen : (0 : ℚ) < (goldSet u gold).length := by exact_mod_cast goldSet_length_pos u hgold
  rw [recallAtK_eq hgold, div_pos_iff_of_pos_right hlen, Nat.cast_pos]

theorem precision_bounds (hk : 1 ≤ k) : 0 ≤ precisionAtK u predicted gold k ∧ precisionAtK u predicted gold k ≤ 1 := by
  have hk0 : (0 : ℚ) < k := by exact_mod_cast hk
  have hle : (hitsAt u predicted gold k : ℚ) ≤ k := by exact_mod_cast hitsAt_le (by omega : 0 ≤ k)
  rw [precisionAtK_eq hk]
  exact ⟨by positivity, (div_le_one hk0).2 hle⟩

theorem recall_bounds (hgold : gold ≠ []) (hdistinct : (predicted.map (norm u)).Nodup) :
    0 ≤ recallAtK u predicted gold k ∧ recallAtK u predicted gold k ≤ 1 := by
  have hlen : (0 : ℚ) < (goldSet u gold).length := by exact_mod_cast goldSet_length_pos u hgold
  have hle : (hitsAt u predicted gold k : ℚ) ≤ (goldSet u gold).length := by
    exact_mod_cast hits_le_goldSet hdistinct k
  rw [recallAtK_eq hgold]
  exact ⟨by positivity, (div_le_one hlen).2 hle⟩

/-- both rates count the same hits -/
theorem precision_recall (hgold : gold ≠ []) (hk : 1 ≤ k) :
    k * precisionAtK u predicted gold k = (goldSet u gold).length * recallAtK u predicted gold k := by
  have hk0 : (k : ℚ) ≠ 0 := by exact_mod_cast (by omega : k ≠ 0)
  have hlen : ((goldSet u gold).length : ℚ) ≠ 0 := by exact_mod_cast (goldSet_length_pos u hgold).ne'
  rw [precisionAtK_eq hk, recallAtK_eq hgold, mul_div_cancel₀ _ hk0, mul_div_cancel₀ _ hlen]

end Rates

/-! ## The reciprocal rank -/

/-- the loop, from any rank on: no prediction is relevant, or the first that is has its rank inverted -/
theorem mrrFrom_spec (u : Unicode) (gold : List Str) (rank : ℕ) (predicted : List Str) :
    (mrrFrom u gold rank predicted = 0 ∧ ∀ p ∈ predicted, relevant u gold p = false) ∨
      ∃ r p, predicted[r]? = some p ∧ relevant u gold p = true ∧ (∀ q ∈ predicted.take r, relevant u gold q = false) ∧
        mrrFrom u gold rank predicted = 1 / ((rank + r : ℕ) : ℚ) := by
  induction predicted generalizing rank with
  | nil => exact .inl ⟨rfl, by simp⟩
  | cons p ps ih =>
    cases hp : relevant u gold p with
    | true =>
      refine .inr ⟨0, p, rfl, hp, by simp, ?_⟩
      rw [mrrFrom, if_pos hp]
      rfl
    | false =>
      have hstep : mrrFrom u gold rank (p :: ps) = mrrFrom u gold (rank + 1) ps := if_neg (by simp [hp])
      rw [hstep]
      rcases ih (rank + 1) with ⟨h0, hall⟩ | ⟨r, q, hq, hrel, hall, hval⟩
      · exact .inl ⟨h0, List.forall_mem_cons.2 ⟨hp, hall⟩⟩
      · refine .inr ⟨r + 1, q, hq, hrel, List.forall_mem_cons.2 ⟨hp, hall⟩, ?_⟩
        rw [hval, Nat.add_right_comm, Nat.add_assoc]

/-- **The reciprocal rank is 0, or that of the first relevant prediction.** -/
theorem mrr_spec (u : Unicode) (predicted gold : List Str) :
    (mrr u predicted gold = 0 ∧ ∀ p ∈ predicted, relevant u gold p = false) ∨
      ∃ r p, predicted[r]? = some p ∧ relevant u gold p = true ∧ (∀ q ∈ predicted.take r, relevant u gold q = false) ∧
        mrr u predicted gold = 1 / ((r + 1 : ℕ) : ℚ) := by
  rcases mrrFrom_spec u gold 1 predicted with h | ⟨r, p, hp, hrel, hall, hval⟩
  · exact .inl h
  · exact .inr ⟨r, p, hp, hrel, hall, by rw [mrr, hval, Nat.add_comm]⟩

/-- the reciprocal rank is at least 1/k iff a relevant prediction is among the first k -/
theorem mrr_ge_iff {u : Unicode} {predicted gold : List Str} {k : ℤ} (hk : 1 ≤ k) :
    1 / (k : ℚ) ≤ mrr u predicted gold ↔ 0 < hitsAt u predicted gold k := by
  have hk0 : (0 : ℚ) < k := by exact_mod_cast hk
  rw [hitsAt_pos, topK_of_nonneg predicted (by omega : 0 ≤ k)]
  rcases mrr_spec u predicted gold with ⟨h0, hall⟩ | ⟨r, p, hp, hrel, hall, hval⟩
  · rw [h0]
    refine iff_of_false (not_le.2 (by positivity)) ?_
    intro ⟨p, hp, hrel⟩
    rw [hall p (List.mem_of_mem_take hp)] at hrel
    cases hrel
  · rw [hval, one_div_le_one_div hk0 (by positivity)]
    have hcast : (((r + 1 : ℕ) : ℚ) ≤ k) ↔ r < k.toNat := by
      rw [← Int.cast_natCast, Int.cast_le]
      omega
    rw [hcast]
    refine ⟨fun hr => ?_, fun ⟨q, hq, hrelq⟩ => ?_⟩
    · exact ⟨p, List.mem_of_getElem? ((List.getElem?_take_of_lt hr).trans hp), hrel⟩
    · -- a relevant prediction does not come before the first one
      by_contra hr
      have hmem : q ∈ predicted.take r := (List.take_prefix_take_left (by omega)).subset hq
      rw [hall q hmem] at hrelq
      cases hrelq

/-! ## Discounted sums -/

section Sums

variable {K : Type} [Field K] [LinearOrder K] [IsStrictOrderedRing K] {log2 : ℕ → K}

/-- the weight of a place -/
def weight {K : Type} [Field K] (log2 : ℕ → K) (r : ℕ) : K := 1 / log2 (r + 2)

omit [LinearOrder K] [IsStrictOrderedRing K] in
/-- the places after the last grade count 0 -/
theorem discounted_eq (log2 : ℕ → K) {gs : List ℕ} {m : ℕ} (hm : gs.length ≤ m) :
    discounted log2 gs = ∑ r ∈ Finset.range m, ((gs.getD r 0 : ℕ) : K) * weight log2 r := by
  have hfrom (s : ℕ) {gs : List ℕ} {m : ℕ} (hm : gs.length ≤ m) :
      ((gs.zipIdx s).map fun e => (e.1 : K) / log2 (e.2 + 1)).sum =
        ∑ r ∈ Finset.range m, ((gs.getD r 0 : ℕ) : K) * (1 / log2 (s + r + 1)) := by
    induction gs generalizing s m with
    | nil => simp
    | cons g gs ih =>
      obtain ⟨m, rfl⟩ := Nat.exists_eq_succ_of_ne_zero (by simp at hm; omega : m ≠ 0)
      rw [List.zipIdx_cons, List.map_cons, List.sum_cons, ih (s + 1) (by simpa using hm), Finset.sum_range_succ', add_comm]
      congr 1
      · apply Finset.sum_congr rfl
        intro r _
        rw [List.getD_cons_succ, Nat.add_right_comm s 1 r, Nat.add_assoc s r 1]
      · rw [List.getD_cons_zero, div_eq_mul_one_div]
  rw [discounted, hfrom 1 hm]
  apply Finset.sum_congr rfl
  intro r _
  rw [weight, Nat.add_right_comm, Nat.add_comm]

theorem weight_pos (hlog : ∀ n, 0 < log2 (n + 2)) (r : ℕ) : 0 < weight log2 r :=
  one_div_pos.2 (hlog r)

theorem discounted_nonneg (hlog : ∀ n, 0 < log2 (n + 2)) (gs : List ℕ) : 0 ≤ discounted log2 gs := by
  rw [discounted_eq log2 le_rfl]
  apply Finset.sum_nonneg
  intro r _
  exact mul_nonneg (Nat.cast_nonneg _) (weight_pos hlog r).le

/-- a discounted sum is positive iff a grade is -/
theorem discounted_pos_iff (hlog : ∀ n, 0 < log2 (n + 2)) (gs : List ℕ) : 0 < discounted log2 gs ↔ ∃ g ∈ gs, 0 < g := by
  have hterm : ∀ r ∈ Finset.range gs.length, 0 ≤ ((gs.getD r 0 : ℕ) : K) * weight log2 r := by
    intro r _
    exact mul_nonneg (Nat.cast_nonneg _) (weight_pos hlog r).le
  rw [discounted_eq log2 le_rfl, Finset.sum_pos_iff_of_nonneg hterm]
  refine ⟨fun ⟨r, hr, hpos⟩ => ?_, fun ⟨g, hg, hpos⟩ => ?_⟩
  · have hr' := Finset.mem_range.1 hr
    rw [List.getD_eq_getElem _ _ hr', mul_pos_iff_of_pos_right (weight_pos hlog r), Nat.cast_pos] at hpos
    exact ⟨_, List.getElem_mem hr', hpos⟩
  · obtain ⟨r, hr, rfl⟩ := List.getElem_of_mem hg
    refine ⟨r, Finset.mem_range.2 hr, ?_⟩
    rw [List.getD_eq_getElem _ _ hr, mul_pos_iff_of_pos_right (weight_pos hlog r), Nat.cast_pos]
    exact hpos

end Sums

/-! ## Grades -/

/-- a grade is that of a place of the gold list -/
theorem of_get?_grades {u : Unicode} {gold : List Str} {key : Str} {v : ℕ} (h : (grades u gold).get? key = some v) :
    ∃ i g, gold[i]? = some g ∧ norm u g = key ∧ v = gold.length - i ∧ 0 < v := by
  obtain ⟨⟨g, i⟩, he, hkey, hv⟩ := Dict.of_get?_group _ h
  have hi := List.mem_zipIdx_iff_getElem?.1 he
  have hlt := (List.getElem?_eq_some_iff.1 hi).1
  refine ⟨i, g, hi, hkey, hv.symm, ?_⟩
  simp only at hv
  omega

theorem mem_keys_grades {u : Unicode} {gold : List Str} {key : Str} : key ∈ (grades u gold).keys ↔ key ∈ goldKeys u gold := by
  rw [grades, Dict.mem_keys_group, goldKeys, List.mem_map]
  refine ⟨fun ⟨e, he, hkey⟩ => ⟨e.1, ?_, hkey⟩, fun ⟨g, hg, hkey⟩ => ?_⟩
  · exact List.fst_mem_of_mem_zipIdx he
  · obtain ⟨i, hi⟩ := List.getElem?_of_mem hg
    exact ⟨(g, i), List.mem_zipIdx_iff_getElem?.2 hi, hkey⟩

/-- the grade of a prediction is positive iff it is relevant -/
theorem gradeOf_pos_iff {u : Unicode} {gold : List Str} {p : Str} : 0 < gradeOf u gold p ↔ relevant u gold p = true := by
  rw [relevant_iff, ← mem_keys_grades, ← Dict.get?_isSome, gradeOf]
  cases h : (grades u gold).get? (norm u p) with
  | none => simp
  | some v =>
    obtain ⟨_, _, _, _, _, hpos⟩ := of_get?_grades h
    simpa using hpos

/-! ## nDCG -/

/-- the logarithms of the ranks are positive -/
theorem realLog2_pos (n : ℕ) : 0 < realLog2 (n + 2) := by
  apply Real.logb_pos one_lt_two
  exact_mod_cast (by omega : 1 < n + 2)

section Ndcg

variable {u : Unicode} {gold : List Str} {k : ℤ}

theorem values_grades_ne_nil (hgold : gold ≠ []) : (grades u gold).values ≠ [] := by
  obtain ⟨g, hg⟩ := List.exists_mem_of_ne_nil gold hgold
  obtain ⟨v, hv⟩ := Dict.mem_keys.1 (mem_keys_grades.2 (List.mem_map_of_mem (f := norm u) hg))
  exact List.ne_nil_of_mem (List.mem_map_of_mem (f := Prod.snd) hv)

/-- the ideal ranking is worth something -/
theorem ideal_pos (hgold : gold ≠ []) (hk : 1 ≤ k) : ∃ g ∈ ideal u gold k, 0 < g := by
  have hsorted : (grades u gold).values.insertionSort (· ≥ ·) ≠ [] := by
    rw [Ne, ← List.length_eq_zero_iff, List.length_insertionSort, List.length_eq_zero_iff]
    exact values_grades_ne_nil hgold
  have hne : ideal u gold k ≠ [] := by
    rw [ideal, topK_of_nonneg _ (by omega), Ne, List.take_eq_nil_iff, not_or]
    exact ⟨by omega, hsorted⟩
  obtain ⟨g, hg⟩ := List.exists_mem_of_ne_nil _ hne
  refine ⟨g, hg, ?_⟩
  have hmem := (List.mem_insertionSort _).1 ((topK_isTake _ k).subset hg)
  obtain ⟨e, he, rfl⟩ := List.mem_map.1 hmem
  obtain ⟨_, _, _, _, _, hpos⟩ := of_get?_grades (Dict.get?_eq_some.2 he)
  exact hpos

theorem ndcgAtK_eq (predicted : List Str) (hgold : gold ≠ []) (hk : 1 ≤ k) :
    ndcgAtK realLog2 u predicted gold k =
      discounted realLog2 ((topK predicted k).map (gradeOf u gold)) / discounted realLog2 (ideal u gold k) := by
  have hideal := (discounted_pos_iff realLog2_pos _).2 (ideal_pos (u := u) hgold hk)
  have hno : ¬ (gold = [] ∨ k ≤ 0) := by
    rw [not_or]
    exact ⟨hgold, by omega⟩
  simp only [ndcgAtK, if_neg hno, if_pos hideal]

/-- nDCG is positive iff a relevant prediction is among the first k -/
theorem ndcg_pos_iff (predicted : List Str) (hgold : gold ≠ []) (hk : 1 ≤ k) :
    0 < ndcgAtK realLog2 u predicted gold k ↔ 0 < hitsAt u predicted gold k := by
  have hideal := (discounted_pos_iff realLog2_pos _).2 (ideal_pos (u := u) hgold hk)
  rw [ndcgAtK_eq predicted hgold hk, div_pos_iff_of_pos_right hideal, discounted_pos_iff realLog2_pos, hitsAt_pos]
  refine ⟨fun ⟨g, hg, hpos⟩ => ?_, fun ⟨p, hp, hrel⟩ => ?_⟩
  · obtain ⟨p, hp, rfl⟩ := List.mem_map.1 hg
    exact ⟨p, hp, gradeOf_pos_iff.1 hpos⟩
  · exact ⟨_, List.mem_map_of_mem hp, gradeOf_pos_iff.2 hrel⟩

end Ndcg

/-! ## The metrics of one answer -/

/-- the answer mentions an expected model iff some prediction, at any rank, is gold -/
theorem mentionsExpected_eq (u : Unicode) (predicted : List Str) {gold : List Str} (hgold : gold ≠ []) :
    mentionsExpected u predicted gold = if ∃ p ∈ predicted, norm u p ∈ goldKeys u gold then 1 else 0 := by
  have hall : topK predicted (if predicted = [] then 1 else predicted.length) = predicted := by
    split_ifs with hnil
    · rw [hnil]
      rfl
    · rw [topK_of_nonneg _ (by omega), Int.toNat_natCast, List.take_length]
  rw [mentionsExpected]
  simp only [recall_pos_iff hgold, hitsAt_pos, hall, relevant_iff]

/-- the metrics of a ranking agree with each other -/
structure Agree (u : Unicode) (gold predicted : List Str) (k : ℤ) : Prop where
  precision : 0 ≤ precisionAtK u predicted gold k ∧ precisionAtK u predicted gold k ≤ 1
  recallAt : 0 ≤ recallAtK u predicted gold k ∧ recallAtK u predicted gold k ≤ 1
  /-- both count the same hits -/
  balance : k * precisionAtK u predicted gold k = (goldSet u gold).length * recallAtK u predicted gold k
  /-- the reciprocal rank is 0, or that of the first relevant prediction -/
  reciprocal : (mrr u predicted gold = 0 ∧ ∀ p ∈ predicted, norm u p ∉ goldKeys u gold) ∨
    ∃ r p, predicted[r]? = some p ∧ norm u p ∈ goldKeys u gold ∧ (∀ q ∈ predicted.take r, norm u q ∉ goldKeys u gold) ∧
      mrr u predicted gold = 1 / ((r + 1 : ℕ) : ℚ)
  recall_iff : 0 < recallAtK u predicted gold k ↔ 0 < precisionAtK u predicted gold k
  mrr_iff : 1 / (k : ℚ) ≤ mrr u predicted gold ↔ 0 < precisionAtK u predicted gold k
  ndcg_iff : 0 < ndcgAtK realLog2 u predicted gold k ↔ 0 < precisionAtK u predicted gold k
  mentions : mentionsExpected u predicted gold = if ∃ p ∈ predicted, norm u p ∈ goldKeys u gold then 1 else 0

/-- the categories with a ranking -/
def Category.isRanked : Category → Prop
  | .deterministic | .ranking | .multiTurn => True
  | _ => False

/-- the scores report the metrics of the predictions: all four where there is a ranking, else none of them -/
structure Reported (u : Unicode) (gold predicted : List Str) (k : ℤ) (category : Category) (s : Scores ℝ) : Prop where
  predictions : s.predictedModels = predicted
  ranked : category.isRanked → s.precisionAtK = some (precisionAtK u predicted gold k) ∧
    s.recallAtK = some (recallAtK u predicted gold k) ∧ s.mrr = some (mrr u predicted gold) ∧
    s.ndcgAtK = some (ndcgAtK realLog2 u predicted gold k)
  unranked : ¬category.isRanked → s.precisionAtK = none ∧ s.recallAtK = none ∧ s.mrr = none ∧ s.ndcgAtK = none
  /-- 1 or 0 for an ambiguous question: whether some prediction, at any rank, is gold -/
  mentions : s.mentionsExpected = if category = .ambiguous then
    some (if ∃ p ∈ predicted, norm u p ∈ goldKeys u gold then 1 else 0) else none

/-- **The scores of an answer are the metrics of what is extracted from its last turn.** -/
theorem scores_reported (u : Unicode) (catalogIds : List Str) (q : Question) (answers : List Str)
    (hgold : q.expectedModels ≠ []) (k : ℤ) :
    Reported u q.expectedModels (extractPredictions u catalogIds (answers.getLast?.getD []) q.expectedModels) k q.category
      (scoreAnswer realLog2 u catalogIds q answers k) := by
  unfold scoreAnswer
  obtain ⟨category, gold⟩ := q
  cases category with
  | deterministic => exact ⟨rfl, fun _ => ⟨rfl, rfl, rfl, rfl⟩, fun h => absurd trivial h, rfl⟩
  | ranking => exact ⟨rfl, fun _ => ⟨rfl, rfl, rfl, rfl⟩, fun h => absurd trivial h, rfl⟩
  | multiTurn => exact ⟨rfl, fun _ => ⟨rfl, rfl, rfl, rfl⟩, fun h => absurd trivial h, rfl⟩
  | ambiguous =>
    refine ⟨rfl, fun h => h.elim, fun _ => ⟨rfl, rfl, rfl, rfl⟩, ?_⟩
    dsimp only
    rw [if_pos rfl, mentionsExpected_eq u _ hgold]
  | impossible => exact ⟨rfl, fun h => h.elim, fun _ => ⟨rfl, rfl, rfl, rfl⟩, rfl⟩
  | offTopic => exact ⟨rfl, fun h => h.elim, fun _ => ⟨rfl, rfl, rfl, rfl⟩, rfl⟩

/-- **The metrics agree on every scored answer**, and its scores are these metrics. -/
theorem metrics_agree (u : Unicode) (catalogIds : List Str) (q : Question) (answers : List Str)
    (hgold : q.expectedModels ≠ []) {k : ℤ} (hk : 1 ≤ k) :
    Agree u q.expectedModels (extractPredictions u catalogIds (answers.getLast?.getD []) q.expectedModels) k ∧
      Reported u q.expectedModels (extractPredictions u catalogIds (answers.getLast?.getD []) q.expectedModels) k q.category
        (scoreAnswer realLog2 u catalogIds q answers k) := by
  refine ⟨?_, scores_reported u catalogIds q answers hgold k⟩
  have hdistinct := (predictions_ok u q.expectedModels
    (entries_keyed u catalogIds (answers.getLast?.getD []) q.expectedModels)).distinct
  have hno (p : Str) : relevant u q.expectedModels p = false ↔ norm u p ∉ goldKeys u q.expectedModels := by
    rw [← Bool.not_eq_true, relevant_iff]
  constructor
  case precision => exact precision_bounds hk
  case recallAt => exact recall_bounds hgold hdistinct
  case balance => exact precision_recall hgold hk
  case reciprocal =>
    have hspec := mrr_spec u (extractPredictions u catalogIds (answers.getLast?.getD []) q.expectedModels) q.expectedModels
    simpa only [hno, relevant_iff] using hspec
  case recall_iff => rw [recall_pos_iff hgold, precision_pos_iff hk]
  case mrr_iff => rw [mrr_ge_iff hk, precision_pos_iff hk]
  case ndcg_iff => rw [ndcg_pos_iff _ hgold hk, precision_pos_iff hk]
  case mentions => exact mentionsExpected_eq u _ hgold

def twoGold : List Str := ["org/m-1".toList, "org/m-2".toList]

/-- the scores of an answer that mentions the second of two gold models -/
noncomputable def twoScores (category : Category) : Scores ℝ :=
  scoreAnswer realLog2 .ascii [] ⟨category, twoGold⟩ ["try org/m-2".toList] 3

theorem metrics_agree_two :
    (twoScores .ranking).precisionAtK = some (1 / 3) ∧ (twoScores .ranking).recallAtK = some (1 / 2) ∧
      (twoScores .ranking).mrr = some 1 ∧ (∃ x, (twoScores .ranking).ndcgAtK = some x ∧ 0 < x) ∧
      (twoScores .ranking).mentionsExpected = none ∧ (twoScores .ambiguous).mentionsExpected = some 1 := by
  have hgold : twoGold ≠ [] := List.cons_ne_nil _ _
  have hpredicted : extractPredictions .ascii [] "try org/m-2".toList twoGold = ["org/m-2".toList] := by decide +kernel
  obtain ⟨hagree, hranked⟩ := metrics_agree .ascii [] ⟨.ranking, twoGold⟩ ["try org/m-2".toList] hgold (k := 3) (by decide)
  obtain ⟨-, hambiguous⟩ := metrics_agree .ascii [] ⟨.ambiguous, twoGold⟩ ["try org/m-2".toList] hgold (k := 3) (by decide)
  dsimp only [List.getLast?_singleton, Option.getD_some] at hagree hranked hambiguous
  rw [hpredicted] at hagree hranked hambiguous
  obtain ⟨hprecision, hrecall, hmrr, hndcg⟩ := hranked.ranked trivial
  have hthird : precisionAtK .ascii ["org/m-2".toList] twoGold 3 = 1 / 3 := by decide +kernel
  have hhalf : recallAtK .ascii ["org/m-2".toList] twoGold 3 = 1 / 2 := by decide +kernel
  have hone : mrr .ascii ["org/m-2".toList] twoGold = 1 := by decide +kernel
  have hmentioned : ∃ p ∈ ["org/m-2".toList], norm .ascii p ∈ goldKeys .ascii twoGold := by decide +kernel
  refine ⟨hthird ▸ hprecision, hhalf ▸ hrecall, hone ▸ hmrr, ⟨_, hndcg, hagree.ndcg_iff.2 ?_⟩, hranked.mentions, ?_⟩
  · rw [hthird]
    norm_num
  · exact hambiguous.mentions.trans (by rw [if_pos rfl, if_pos hmentioned])

end AgentPick.Metrics
