/-
Paired comparison of two result files (`evaluation/compare.py`).

`compare` pairs the scores of two systems by question id and gives a row per metric: the means, the mean difference, a bootstrap
interval and the p-value of a sign-flip permutation test, all rounded to four decimals. The bootstrap and the test draw from
one generator per metric, seeded alike. The pairs stand in the order in which the set of the shared ids is iterated, and that
order is not fixed: it is an argument here (`ids`).

Numbers are rational and rounded as floats are. Infinite numbers and NaN do not occur.

Results:
- `get?_pairedScores`: the pairs of a metric are those of the shared questions that have it in both files, in that order.
- `compare_eq`: which metrics have a row, and the order of the rows, depends on the set of the ids only.
-/
import Mathlib.Tactic
import AgentPick.Core.Dict
import AgentPick.Core.Resampling
import AgentPick.Core.Rounding
import AgentPick.Core.Text

namespace AgentPick.Compare

/-! ## The code -/

/-- a value in a result file: ints, floats and booleans are numbers -/
inductive Score where
  | number (value : ℚ)
  | other
deriving DecidableEq, Repr

structure Result where
  id : Str
  scores : Dict Str Score
  latencyS : Score

structure Report where
  results : List Result

section Code

variable (R : Rounding) {S : Type} (g : Generator S)

/-- `float(value)` of a number -/
def Score.float? : Score → Option ℚ
  | .number value => some (R.fl value)
  | .other => none

def rowsById (report : Report) : Dict Str Result := Dict.group Result.id (fun _ r => r) report.results

/-- the ids of both files, in the order of the first -/
def sharedIds (a b : Report) : List Str := (rowsById a).keys.filter fun qid => qid ∈ (rowsById b).keys

/-- the scores of a row, with its latency among them -/
def scoresOf (r : Result) : Dict Str Score := r.scores.set "latency_s".toList r.latencyS

/-- the pairs of a question, metric by metric -/
def pairsOf (a b : Report) (qid : Str) : List (Str × ℚ × ℚ) :=
  match (rowsById a).get? qid, (rowsById b).get? qid with
  | some rowA, some rowB =>
    (scoresOf rowA).entries.filterMap fun e =>
      match e.2.float? R, ((scoresOf rowB).get? e.1).bind (Score.float? R) with
      | some valueA, some valueB => some (e.1, valueA, valueB)
      | _, _ => none
  | _, _ => []

/-- `paired_scores`, with the order in which the shared ids are iterated -/
def pairedScores (a b : Report) (ids : List Str) : Dict Str (List (ℚ × ℚ)) :=
  Dict.group Prod.fst (fun pairs e => pairs.getD [] ++ [e.2]) (ids.flatMap (pairsOf R a b))

/-- a mean at least as far from 0 as the observed one, up to the tolerance -/
def Reaches (diffs signed : List ℚ) : Prop := R.fl (|R.mean diffs| - R.fl (1 / 10 ^ 12)) ≤ |R.mean signed|

instance (diffs signed : List ℚ) : Decidable (Reaches R diffs signed) := inferInstanceAs (Decidable (_ ≤ _))

/-- a resample of the permutation test: does it reach the observed mean? -/
def signResample (diffs : List ℚ) (s : S) : Bool × S :=
  (decide (Reaches R diffs (g.signed diffs s).1), (g.signed diffs s).2)

/-- `permutation_p_value` -/
def permutationPValue (diffs : List ℚ) (nResamples : ℤ) (s : S) : ℚ :=
  let hits := (repeated (signResample R g diffs) nResamples.toNat s).1.count true
  R.fl ((hits + 1) / (nResamples + 1))

/-- `xs[i]`: an index below 0 counts from the end -/
def item? (xs : List ℚ) (i : ℤ) : Option ℚ :=
  if 0 ≤ i then xs[i.toNat]? else if 0 ≤ xs.length + i then xs[(xs.length + i).toNat]? else none

/-- `round(share * (n - 1))` -/
def position (share : ℚ) (n : ℤ) : ℤ := roundHalfEven (R.fl (R.fl share * R.fl (n - 1)))

/-- a resample of the bootstrap -/
def meanResample (diffs : List ℚ) (s : S) : ℚ × S :=
  (R.mean (g.choices diffs diffs.length s).1, (g.choices diffs diffs.length s).2)

/-- `bootstrap_diff_ci`; `none` is the IndexError -/
def bootstrapDiffCi (diffs : List ℚ) (nResamples : ℤ) (s : S) : Option ((ℚ × ℚ) × S) := do
  let resamples := repeated (meanResample R g diffs) nResamples.toNat s
  let means := resamples.1.insertionSort (· ≤ ·)
  let lo ← item? means (position R (25 / 1000) nResamples)
  let hi ← item? means (position R (975 / 1000) nResamples)
  some ((lo, hi), resamples.2)

structure Row where
  metric : Str
  n : ℕ
  meanA : ℚ
  meanB : ℚ
  diff : ℚ
  diffCi95 : ℚ × ℚ
  pValue : ℚ
deriving DecidableEq, Repr

/-- the differences of the pairs -/
def diffsOf (pairs : List (ℚ × ℚ)) : List ℚ := pairs.map fun p => R.fl (p.1 - p.2)

/-- the row of a metric -/
def row (nResamples seed : ℤ) (e : Str × List (ℚ × ℚ)) : Option Row := do
  let diffs := diffsOf R e.2
  let (ci, s) ← bootstrapDiffCi R g diffs nResamples (g.seeded seed)
  some {
    metric := e.1
    n := e.2.length
    meanA := R.round4 (R.mean (e.2.map Prod.fst))
    meanB := R.round4 (R.mean (e.2.map Prod.snd))
    diff := R.round4 (R.mean diffs)
    diffCi95 := (R.round4 ci.1, R.round4 ci.2)
    pValue := R.round4 (permutationPValue R g diffs nResamples s) }

/-- the metrics that the filter lets through: none given, or an empty one, lets all through -/
def Selected (metricsFilter : Option (List Str)) (metric : Str) : Prop :=
  metricsFilter.getD [] = [] ∨ metric ∈ metricsFilter.getD []

instance (metricsFilter : Option (List Str)) (metric : Str) : Decidable (Selected metricsFilter metric) :=
  inferInstanceAs (Decidable (_ ∨ _))

/-- `compare`, with the order in which the shared ids are iterated; `none` is the IndexError -/
def compare (a b : Report) (metricsFilter : Option (List Str)) (nResamples seed : ℤ) (ids : List Str) :
    Option (List Row) :=
  (((pairedScores R a b ids).entries.insertionSort fun e e' => e.1 ≤ e'.1).filter fun e =>
    Selected metricsFilter e.1).mapM (row R g nResamples seed)

end Code

/-! ## The pairs of a metric -/

section Pairs

variable (R : Rounding) (a b : Report)

/-- the pair of a question, if both files have the metric -/
def pairOf (metric qid : Str) : Option (ℚ × ℚ) := do
  let rowA ← (rowsById a).get? qid
  let rowB ← (rowsById b).get? qid
  let valueA ← ((scoresOf rowA).get? metric).bind (Score.float? R)
  let valueB ← ((scoresOf rowB).get? metric).bind (Score.float? R)
  some (valueA, valueB)

/-- what a comprehension over a dictionary makes of one key -/
theorem filter_filterMap_entries {ν β : Type} (d : Dict Str ν) (f : Str × ν → Option (Str × β))
    (hf : ∀ e p, f e = some p → p.1 = e.1) (k : Str) :
    (d.entries.filterMap f).filter (fun p => p.1 = k) = ((d.get? k).bind fun v => f (k, v)).toList := by
  have hother {l : List (Str × ν)} (hk : k ∉ l.map Prod.fst) : (l.filterMap f).filter (fun p => p.1 = k) = [] := by
    refine List.filter_eq_nil_iff.2 fun p hp hpk => hk ?_
    obtain ⟨e, he, hfe⟩ := List.mem_filterMap.1 hp
    rw [← of_decide_eq_true hpk, hf e p hfe]
    exact List.mem_map_of_mem he
  cases hget : d.get? k with
  | none => exact hother (Dict.get?_eq_none.1 hget)
  | some v =>
    obtain ⟨l, r, hlr⟩ := List.append_of_mem (Dict.get?_eq_some.1 hget)
    have hn := d.nodup
    rw [hlr, List.map_append, List.map_cons, List.nodup_middle, List.nodup_cons, List.mem_append, not_or] at hn
    rw [hlr, List.filterMap_append, List.filter_append, hother hn.1.1, List.nil_append, Option.bind_some]
    cases hfe : f (k, v) with
    | none =>
      rw [List.filterMap_cons_none hfe, hother hn.1.2]
      rfl
    | some p =>
      have hp : decide (p.1 = k) = true := decide_eq_true (hf _ p hfe)
      rw [List.filterMap_cons_some hfe, List.filter_cons, if_pos hp, hother hn.1.2]
      rfl

theorem filter_pairsOf (metric qid : Str) :
    ((pairsOf R a b qid).filter fun p => p.1 = metric).map Prod.snd = (pairOf R a b metric qid).toList := by
  unfold pairsOf pairOf
  cases (rowsById a).get? qid with
  | none => rfl
  | some rowA =>
    cases (rowsById b).get? qid with
    | none => rfl
    | some rowB =>
      simp only
      rw [filter_filterMap_entries]
      · cases hA : (scoresOf rowA).get? metric with
        | none => simp [hA]
        | some scoreA =>
          cases hfloat : scoreA.float? R <;>
            cases hB : ((scoresOf rowB).get? metric).bind (Score.float? R) <;> simp [hA, hfloat, hB]
      · intro e p h
        split at h
        · rw [← Option.some.inj h]
        · cases h

theorem pairs_of_metric (metric : Str) (ids : List Str) :
    ((ids.flatMap (pairsOf R a b)).filter fun p => p.1 = metric).map Prod.snd = ids.filterMap (pairOf R a b metric) := by
  induction ids with
  | nil => rfl
  | cons qid ids ih =>
    rw [List.flatMap_cons, List.filter_append, List.map_append, ih, filter_pairsOf]
    cases h : pairOf R a b metric qid with
    | none => rw [List.filterMap_cons_none h, Option.toList_none, List.nil_append]
    | some p => rw [List.filterMap_cons_some h, Option.toList_some, List.singleton_append]

/-- the pairs of a metric, in the order of the ids -/
theorem get?_pairedScores (ids : List Str) (metric : Str) :
    (pairedScores R a b ids).get? metric =
      if ids.filterMap (pairOf R a b metric) = [] then none else some (ids.filterMap (pairOf R a b metric)) := by
  have happend (xs : List (Str × ℚ × ℚ)) (o : Option (List (ℚ × ℚ))) :
      xs.foldl (fun o e => some (o.getD [] ++ [e.2])) o = if xs = [] then o else some (o.getD [] ++ xs.map Prod.snd) := by
    induction xs generalizing o with
    | nil => rfl
    | cons e xs ih =>
      rw [List.foldl_cons, ih]
      cases xs with
      | nil => rfl
      | cons e' xs => simp
  rw [pairedScores, Dict.get?_group, happend, ← pairs_of_metric]
  simp only [List.map_eq_nil_iff, Option.getD_none, List.nil_append]

theorem mem_keys_pairedScores (ids : List Str) (metric : Str) :
    metric ∈ (pairedScores R a b ids).keys ↔ ids.filterMap (pairOf R a b metric) ≠ [] := by
  rw [← Dict.get?_isSome, get?_pairedScores]
  by_cases h : ids.filterMap (pairOf R a b metric) = [] <;> simp [h]

theorem entries_pairedScores (ids : List Str) :
    (pairedScores R a b ids).entries =
      (pairedScores R a b ids).keys.map fun metric => (metric, ids.filterMap (pairOf R a b metric)) := by
  rw [Dict.keys, List.map_map]
  refine (List.map_id _).symm.trans (List.map_congr_left fun e he => ?_)
  have hget := Dict.get?_eq_some.2 he
  rw [get?_pairedScores] at hget
  split at hget
  · cases hget
  · exact Prod.ext rfl (Option.some.inj hget).symm

/-! ## The rows -/

/-- the metrics that have a row, in their order -/
def metricsOf (metricsFilter : Option (List Str)) (ids : List Str) : List Str :=
  ((pairedScores R a b ids).keys.insertionSort (· ≤ ·)).filter fun metric => Selected metricsFilter metric

theorem mem_metricsOf (metricsFilter : Option (List Str)) (ids : List Str) (metric : Str) :
    metric ∈ metricsOf R a b metricsFilter ids ↔
      ids.filterMap (pairOf R a b metric) ≠ [] ∧ Selected metricsFilter metric := by
  rw [metricsOf, List.mem_filter, List.mem_insertionSort, mem_keys_pairedScores, decide_eq_true_iff]

/-- they depend on the set of the ids only -/
theorem metricsOf_perm (metricsFilter : Option (List Str)) {ids ids' : List Str} (h : ids.Perm ids') :
    metricsOf R a b metricsFilter ids = metricsOf R a b metricsFilter ids' := by
  have hkeys : (pairedScores R a b ids).keys.Perm (pairedScores R a b ids').keys := by
    refine (List.perm_ext_iff_of_nodup (Dict.nodup_keys _) (Dict.nodup_keys _)).2 fun metric => ?_
    have hlen := (h.filterMap (pairOf R a b metric)).length_eq
    rw [mem_keys_pairedScores, mem_keys_pairedScores, ← List.length_pos_iff, hlen, List.length_pos_iff]
  have hsorted := (((List.perm_insertionSort (· ≤ ·) _).trans hkeys).trans
    (List.perm_insertionSort (· ≤ ·) _).symm).eq_of_pairwise' (List.pairwise_insertionSort _ _)
    (List.pairwise_insertionSort _ _)
  rw [metricsOf, metricsOf, hsorted]

/-- a row per metric, made from its pairs in the order of the ids -/
theorem compare_eq {S : Type} (g : Generator S) (metricsFilter : Option (List Str)) (nResamples seed : ℤ) (ids : List Str) :
    compare R g a b metricsFilter nResamples seed ids =
      (metricsOf R a b metricsFilter ids).mapM fun metric =>
        row R g nResamples seed (metric, ids.filterMap (pairOf R a b metric)) := by
  have hsort := List.map_insertionSort (r := fun m m' : Str => m ≤ m') (s := fun e e' : Str × List (ℚ × ℚ) => e.1 ≤ e'.1)
    (fun metric => (metric, ids.filterMap (pairOf R a b metric))) (pairedScores R a b ids).keys
    (fun _ _ _ _ => Iff.rfl)
  rw [compare, entries_pairedScores, ← hsort, metricsOf, List.filter_map, List.mapM_map]
  rfl

end Pairs

end AgentPick.Compare
