/-
Symmetries of the pooled comparison, in exact arithmetic.

Results:
- `interval_neg`: the percentile positions 250 and 9749 of 10000 sorted means are mirror images, so negating the differences
  turns the interval round.
- `exactSignFlipP_neg`: flipping all signs is one of the assignments of the sign-flip test, so its p-value stays.
- `comparePooled_symmetric`: if every run carries the metric for every listed question, swapping the systems mirrors the row, and
  the order of the runs and of the questions does not matter; wins, ties and losses add up, the difference is that of the
  means, and the interval lies between the least and the greatest difference. There is a row iff two questions are shared.
-/
import Mathlib.Tactic
import AgentPick.Core.Rank
import AgentPick.Evaluation.Pooled

namespace AgentPick.Pooled

open Compare (means item? bootstrapDiffCi_eq le_of_mem_means mem_means_le mem_of_item? position)
open SignFlip (exactSignFlipP statistic tolerance exactSignFlipP_eq)

/-! ## The interval -/

section Interval

theorem insertionSort_neg (xs : List ℚ) :
    (xs.map Neg.neg).insertionSort (· ≤ ·) = ((xs.insertionSort (· ≤ ·)).map Neg.neg).reverse := by
  have hsorted : ((xs.insertionSort (· ≤ ·)).map Neg.neg).reverse.Pairwise (· ≤ ·) := by
    rw [List.pairwise_reverse, List.pairwise_map]
    exact (List.pairwise_insertionSort _ xs).imp fun h => neg_le_neg h
  have hperm : ((xs.map Neg.neg).insertionSort (· ≤ ·)).Perm ((xs.insertionSort (· ≤ ·)).map Neg.neg).reverse := by
    refine (List.perm_insertionSort _ _).trans ?_
    exact (((List.perm_insertionSort _ xs).map Neg.neg).symm).trans (List.reverse_perm _).symm
  exact hperm.eq_of_pairwise' (List.pairwise_insertionSort _ _) hsorted

/-- in the reversed list of the negated values, position i has the value of the mirror position -/
theorem getD_mirror {l : List ℚ} {i j : ℕ} (h : i + j + 1 = l.length) :
    (l.map Neg.neg).reverse.getD i 0 = -l.getD j 0 := by
  have hi : i < (l.map Neg.neg).length := by
    rw [List.length_map]
    omega
  have hj : l.length - 1 - i = j := by omega
  rw [List.getD_eq_getElem?_getD, List.getD_eq_getElem?_getD, List.getElem?_reverse hi, List.length_map, hj,
    List.getElem?_map, List.getElem?_eq_getElem (show j < l.length by omega)]
  rfl

theorem mean_neg (xs : List ℚ) : Rounding.exact.mean (xs.map Neg.neg) = -Rounding.exact.mean xs := by
  have hsum : (xs.map Neg.neg).sum = -xs.sum := by
    induction xs with
    | nil => simp
    | cons x xs ih => rw [List.map_cons, List.sum_cons, List.sum_cons, ih, neg_add]
  simp only [Rounding.mean, Rounding.exact, id, hsum, List.length_map, neg_div]

variable {S : Type} (g : Generator S) {diffs : List ℚ} (seed : ℤ)

/-- the sorted resampled means -/
def sortedMeans (diffs : List ℚ) (seed : ℤ) : List ℚ :=
  (means .exact g defaultResamples diffs (g.seeded seed)).1.insertionSort (· ≤ ·)

theorem length_sortedMeans (diffs : List ℚ) : (sortedMeans g diffs seed).length = 10000 := by
  rw [sortedMeans, List.length_insertionSort, means, length_repeated]
  rfl

/-- the percentiles stand at positions 250 and 9749 -/
theorem interval_eq (diffs : List ℚ) :
    interval .exact g diffs seed = .ok ((sortedMeans g diffs seed).getD 250 0, (sortedMeans g diffs seed).getD 9749 0) := by
  have hlow : position .exact (25 / 1000) defaultResamples = (250 : ℕ) := by decide +kernel
  have hhigh : position .exact (975 / 1000) defaultResamples = (9749 : ℕ) := by decide +kernel
  have hitem {i : ℕ} (hi : i < 10000) : item? (sortedMeans g diffs seed) i = some ((sortedMeans g diffs seed).getD i 0) := by
    rw [← length_sortedMeans g seed diffs] at hi
    rw [item?, if_pos (Int.natCast_nonneg i), Int.toNat_natCast, List.getD_eq_getElem?_getD, List.getElem?_eq_getElem hi,
      Option.getD_some]
  have hlo := hitem (show 250 < 10000 by norm_num)
  have hhi := hitem (show 9749 < 10000 by norm_num)
  rw [interval, bootstrapDiffCi_eq, hlow, hhigh]
  rw [sortedMeans] at hlo hhi ⊢
  rw [hlo, hhi]
  rfl

/-- the resampled means of negated differences are the negated means -/
theorem means_neg (hne : diffs ≠ []) (n : ℤ) (s : S) :
    (means .exact g n (diffs.map Neg.neg) s).1 = (means .exact g n diffs s).1.map Neg.neg := by
  have hstep (s : S) : Compare.meanResample .exact g (diffs.map Neg.neg) s =
      (-(Compare.meanResample .exact g diffs s).1, (Compare.meanResample .exact g diffs s).2) := by
    rw [Compare.meanResample, List.length_map, g.choices_map _ hne, mean_neg]
    rfl
  rw [means, repeated_map Neg.neg hstep]
  rfl

/-- negating the differences turns the interval round -/
theorem interval_neg (hne : diffs ≠ []) :
    interval .exact g (diffs.map Neg.neg) seed = (interval .exact g diffs seed).map fun ci => (-ci.2, -ci.1) := by
  have hmirror : sortedMeans g (diffs.map Neg.neg) seed = ((sortedMeans g diffs seed).map Neg.neg).reverse := by
    rw [sortedMeans, means_neg g hne, insertionSort_neg]
    rfl
  have hlo := getD_mirror (l := sortedMeans g diffs seed) (i := 250) (j := 9749) (by rw [length_sortedMeans])
  have hhi := getD_mirror (l := sortedMeans g diffs seed) (i := 9749) (j := 250) (by rw [length_sortedMeans])
  rw [interval_eq, interval_eq, hmirror, hlo, hhi, Except.map]

/-- the interval lies between the least and the greatest difference -/
theorem interval_bounds (hne : diffs ≠ []) {lo hi least most : ℚ} (h : interval .exact g diffs seed = .ok (lo, hi))
    (hleast : ∀ d ∈ diffs, least ≤ d) (hmost : ∀ d ∈ diffs, d ≤ most) : least ≤ lo ∧ lo ≤ hi ∧ hi ≤ most := by
  have hlen := length_sortedMeans g seed diffs
  have hat {i : ℕ} (hi : i < (sortedMeans g diffs seed).length) :
      (sortedMeans g diffs seed).getD i 0 = (sortedMeans g diffs seed)[i] := by
    rw [List.getD_eq_getElem?_getD, List.getElem?_eq_getElem hi, Option.getD_some]
  have hlow : 250 < (sortedMeans g diffs seed).length := by omega
  have hhigh : 9749 < (sortedMeans g diffs seed).length := by omega
  have hmem {m : ℚ} (hm : m ∈ sortedMeans g diffs seed) : least ≤ m ∧ m ≤ most := by
    have hm' := (List.mem_insertionSort _).1 hm
    exact ⟨le_of_mem_means hm' hne rfl hleast, mem_means_le hm' hne rfl hmost⟩
  have hsorted : (sortedMeans g diffs seed).Pairwise (· ≤ ·) := List.pairwise_insertionSort _ _
  rw [interval_eq, hat hlow, hat hhigh] at h
  obtain ⟨rfl, rfl⟩ := Prod.mk.inj (Except.ok.inj h)
  refine ⟨(hmem (List.getElem_mem hlow)).1, ?_, (hmem (List.getElem_mem hhigh)).2⟩
  exact List.pairwise_iff_getElem.1 hsorted 250 9749 hlow hhigh (by norm_num)

end Interval

/-! ## The p-value and the counts -/

section Values

/-- flipping all signs is an element of the sign group -/
theorem exactSignFlipP_neg (diffs : List ℚ) : exactSignFlipP (diffs.map Neg.neg) = exactSignFlipP diffs := by
  have hneg (d : Fin diffs.length → ℚ) : (fun _ => -1 : Fin diffs.length → ℤˣ) • d = fun i => -d i := by
    funext i
    simp [Units.smul_def]
  have hstat (d : Fin diffs.length → ℚ) : statistic (fun i => -d i) = statistic d := by
    rw [statistic, statistic, Finset.sum_neg_distrib, abs_neg]
  have hlist : diffs.map Neg.neg = List.ofFn fun i => -diffs.get i := by
    refine List.ext_getElem (by simp) fun i hi hi' => ?_
    simp
  calc exactSignFlipP (diffs.map Neg.neg)
      = Randomisation.pValue (Fin diffs.length → ℤˣ) statistic tolerance (fun i => -diffs.get i) := by
        rw [hlist, exactSignFlipP_eq]
    _ = Randomisation.pValue (Fin diffs.length → ℤˣ) statistic tolerance diffs.get := by
        rw [← hneg, Randomisation.pValue_smul, hneg, hstat, Randomisation.pValue]
    _ = exactSignFlipP diffs := by rw [← exactSignFlipP_eq, List.ofFn_get]

theorem wins_neg (diffs : List ℚ) : wins .exact (diffs.map Neg.neg) = losses .exact diffs := by
  rw [wins, losses, List.countP_map]
  refine List.countP_congr fun d _ => ?_
  simp [lt_neg]

theorem losses_neg (diffs : List ℚ) : losses .exact (diffs.map Neg.neg) = wins .exact diffs := by
  rw [wins, losses, List.countP_map]
  refine List.countP_congr fun d _ => ?_
  simp

theorem ties_neg (diffs : List ℚ) : ties .exact (diffs.map Neg.neg) = ties .exact diffs := by
  rw [ties, ties, List.countP_map]
  refine List.countP_congr fun d _ => ?_
  simp

/-- every difference is a win, a tie or a loss, and one of them only -/
theorem wins_ties_losses (diffs : List ℚ) :
    wins .exact diffs + ties .exact diffs + losses .exact diffs = diffs.length := by
  have hsmall : (0 : ℚ) < Rounding.exact.fl (1 / 10 ^ 9) := by norm_num [Rounding.exact]
  unfold wins ties losses
  induction diffs with
  | nil => rfl
  | cons d diffs ih =>
    simp only [List.countP_cons, List.length_cons, decide_eq_true_eq]
    rcases lt_or_ge (Rounding.exact.fl (1 / 10 ^ 9)) d with hwin | hle
    · have htie : ¬ |d| ≤ Rounding.exact.fl (1 / 10 ^ 9) := fun h => absurd (le_of_abs_le h) (not_le.2 hwin)
      have hloss : ¬ d < -Rounding.exact.fl (1 / 10 ^ 9) := by linarith
      simp only [hwin, htie, hloss, if_true, if_false]
      omega
    · rcases lt_or_ge d (-Rounding.exact.fl (1 / 10 ^ 9)) with hloss | hge
      · have htie : ¬ |d| ≤ Rounding.exact.fl (1 / 10 ^ 9) := fun h => absurd (neg_le_of_abs_le h) (not_le.2 hloss)
        simp only [not_lt.2 hle, htie, hloss, if_true, if_false]
        omega
      · have htie : |d| ≤ Rounding.exact.fl (1 / 10 ^ 9) := abs_le.2 ⟨hge, hle⟩
        simp only [not_lt.2 hle, htie, not_lt.2 hge, if_true, if_false]
        omega

theorem sum_map_sub (f f' : Str → ℚ) (ids : List Str) :
    (ids.map fun qid => f qid - f' qid).sum = (ids.map f).sum - (ids.map f').sum := by
  induction ids with
  | nil => simp
  | cons qid ids ih =>
    simp only [List.map_cons, List.sum_cons, ih]
    ring

theorem extremes_perm {xs ys : List ℚ} (h : xs.Perm ys) : extremes xs = extremes ys := by
  have hmin : xs.min? = ys.min? := by
    cases hx : xs.min? with
    | none =>
      obtain rfl := List.min?_eq_none_iff.1 hx
      rw [← h.nil_eq]
      rfl
    | some a =>
      obtain ⟨hmem, hle⟩ := List.min?_eq_some_iff.1 hx
      exact (List.min?_eq_some_iff.2 ⟨h.mem_iff.1 hmem, fun b hb => hle b (h.mem_iff.2 hb)⟩).symm
  have hmax : xs.max? = ys.max? := by
    cases hx : xs.max? with
    | none =>
      obtain rfl := List.max?_eq_none_iff.1 hx
      rw [← h.nil_eq]
      rfl
    | some a =>
      obtain ⟨hmem, hle⟩ := List.max?_eq_some_iff.1 hx
      exact (List.max?_eq_some_iff.2 ⟨h.mem_iff.1 hmem, fun b hb => hle b (h.mem_iff.2 hb)⟩).symm
  rw [extremes, extremes, hmin, hmax]

end Values

/-! ## Complete runs -/

/-- every run carries the metric for every listed question -/
def Complete (runs : List Run) (qids : List Str) (metric : Str) : Prop :=
  ∀ run ∈ runs, ∀ qid ∈ qids, Carries metric qid run

instance (runs : List Run) (qids : List Str) (metric : Str) : Decidable (Complete runs qids metric) :=
  inferInstanceAs (Decidable (∀ run ∈ runs, ∀ qid ∈ qids, Carries metric qid run))

/-- the runs in another order of their positions -/
def reorder (runs : List Run) (positions : List ℕ) : List Run := positions.map fun i => runs.getD i Dict.empty

/-- the row with the two systems swapped -/
def Row.swap (row : Row) : Row :=
  { row with
    meanA := row.meanB
    meanB := row.meanA
    diff := -row.diff
    diffCi95 := (-row.diffCi95.2, -row.diffCi95.1)
    wins := row.losses
    losses := row.wins }

/-- the pass that leaves out a run, where nothing can be lost -/
def looOf (runsA runsB : List Run) (metric : Str) (ids : List Str) : Except Exc (Option (ℚ × ℚ)) :=
  if 3 ≤ runsA.length ∧ runsA.length = runsB.length then
    (extremes ((List.range runsA.length).map (pWithout .exact runsA runsB metric ids))).map some
  else .ok none

section Compare

variable {S : Type} {g : Generator S} {runs runs' runsA runsB : List Run} {qids : List Str} {metric : Str} {seed : ℤ}

theorem Complete.carried_eraseIdx (h : Complete runs qids metric) (hlen : 3 ≤ runs.length) (i : ℕ) {qid : Str}
    (hqid : qid ∈ qids) : Carried (runs.eraseIdx i) metric qid := by
  have hne : runs.eraseIdx i ≠ [] := by
    rw [← List.length_pos_iff, List.length_eraseIdx]
    split_ifs <;> omega
  obtain ⟨run, hrun⟩ := List.exists_mem_of_ne_nil _ hne
  exact ⟨run, hrun, h run (List.mem_of_mem_eraseIdx hrun) qid hqid⟩

theorem looRange_complete (hA : Complete runsA qids metric) (hB : Complete runsB qids metric) {ids : List Str}
    (hids : ∀ qid ∈ ids, qid ∈ qids) : looRange .exact runsA runsB qids metric ids = looOf runsA runsB metric ids := by
  rw [looOf]
  split_ifs with hlen
  · refine looRange_eq .exact hlen fun i _ qid hqid => ⟨hids qid hqid, ?_, ?_⟩
    · exact hA.carried_eraseIdx hlen.1 i (hids qid hqid)
    · exact hB.carried_eraseIdx (hlen.2 ▸ hlen.1) i (hids qid hqid)
  · rw [looRange, if_neg hlen]
    rfl

theorem comparePooled_complete (hA : Complete runsA qids metric) (hB : Complete runsB qids metric) {ci : ℚ × ℚ}
    (hci : interval .exact g (sharedDiffs .exact runsA runsB qids metric) seed = .ok ci) :
    comparePooled .exact g runsA runsB qids metric seed =
      if (shared .exact runsA runsB qids metric).length < 2 then .ok none
      else (looOf runsA runsB metric (shared .exact runsA runsB qids metric)).map fun loo =>
        some (rowOf .exact runsA runsB metric (shared .exact runsA runsB qids metric) ci loo) := by
  rw [comparePooled_eq .exact g hci, looRange_complete hA hB fun qid hqid => (carried_of_mem_shared .exact hqid).1]

/-- the order of the shared questions is that of their ids -/
theorem shared_eq {runsA' runsB' : List Run} {qids' : List Str}
    (h : sharedQuestions runsA' runsB' qids' metric = sharedQuestions runsA runsB qids metric) :
    shared .exact runsA' runsB' qids' metric = shared .exact runsA runsB qids metric := by
  have hperm : (shared .exact runsA' runsB' qids' metric).Perm (shared .exact runsA runsB qids metric) := by
    refine (List.perm_ext_iff_of_nodup (nodup_shared .exact) (nodup_shared .exact)).2 fun qid => ?_
    rw [mem_shared, mem_shared, h]
  exact hperm.eq_of_pairwise' (sorted_shared .exact) (sorted_shared .exact)

/-- what a comparison depends on: the shared questions, the means and the leave-one-out values -/
theorem comparePooled_congr {runsA' runsB' : List Run} {qids' : List Str} (hA : Complete runsA qids metric)
    (hB : Complete runsB qids metric) (hA' : Complete runsA' qids' metric) (hB' : Complete runsB' qids' metric)
    (hshared : sharedQuestions runsA' runsB' qids' metric = sharedQuestions runsA runsB qids metric)
    (hmeanA : meanOf .exact runsA' metric = meanOf .exact runsA metric)
    (hmeanB : meanOf .exact runsB' metric = meanOf .exact runsB metric)
    (hloo : ∀ ids, looOf runsA' runsB' metric ids = looOf runsA runsB metric ids) :
    comparePooled .exact g runsA' runsB' qids' metric seed = comparePooled .exact g runsA runsB qids metric seed := by
  have hdiff : diffOf .exact runsA' runsB' metric = diffOf .exact runsA runsB metric := by
    funext qid
    rw [diffOf, diffOf, hmeanA, hmeanB]
  have hdiffs : sharedDiffs .exact runsA' runsB' qids' metric = sharedDiffs .exact runsA runsB qids metric := by
    rw [sharedDiffs, sharedDiffs, shared_eq hshared, hdiff]
  obtain ⟨ci, hci⟩ := exists_interval .exact g (sharedDiffs .exact runsA runsB qids metric) seed
  rw [comparePooled_complete hA hB hci, comparePooled_complete hA' hB' (hdiffs ▸ hci), shared_eq hshared, hloo]
  simp only [rowOf, hmeanA, hmeanB, hdiff]

/-! ## Swapping the systems -/

theorem diffOf_swap (runsA runsB : List Run) (ids : List Str) :
    ids.map (diffOf .exact runsB runsA metric) = (ids.map (diffOf .exact runsA runsB metric)).map Neg.neg := by
  rw [List.map_map]
  refine List.map_congr_left fun qid _ => ?_
  exact (neg_sub _ _).symm

theorem looOf_swap (runsA runsB : List Run) (ids : List Str) : looOf runsB runsA metric ids = looOf runsA runsB metric ids := by
  have hp : pWithout .exact runsB runsA metric ids = pWithout .exact runsA runsB metric ids := by
    funext i
    rw [pWithout, pWithout, diffOf_swap, exactSignFlipP_neg]
  rw [looOf, looOf, hp]
  by_cases hlen : runsA.length = runsB.length
  · rw [hlen]
  · rw [if_neg fun h => hlen h.2.symm, if_neg fun h => hlen h.2]

theorem rowOf_swap (runsA runsB : List Run) (ids : List Str) (ci : ℚ × ℚ) (loo : Option (ℚ × ℚ)) :
    rowOf .exact runsB runsA metric ids (-ci.2, -ci.1) loo = (rowOf .exact runsA runsB metric ids ci loo).swap := by
  simp only [rowOf, Row.swap, diffOf_swap runsA runsB, mean_neg, exactSignFlipP_neg, wins_neg, losses_neg, ties_neg]

theorem comparePooled_swap (hA : Complete runsA qids metric) (hB : Complete runsB qids metric) :
    comparePooled .exact g runsB runsA qids metric seed =
      (comparePooled .exact g runsA runsB qids metric seed).map (Option.map Row.swap) := by
  have hshared : shared .exact runsB runsA qids metric = shared .exact runsA runsB qids metric := by
    refine shared_eq ?_
    simp only [sharedQuestions, and_comm]
  have hdiffs : sharedDiffs .exact runsB runsA qids metric = (sharedDiffs .exact runsA runsB qids metric).map Neg.neg := by
    rw [sharedDiffs, hshared, diffOf_swap]
    rfl
  obtain ⟨ci, hci⟩ := exists_interval .exact g (sharedDiffs .exact runsA runsB qids metric) seed
  obtain ⟨ci', hci'⟩ := exists_interval .exact g (sharedDiffs .exact runsB runsA qids metric) seed
  rw [comparePooled_complete hA hB hci, comparePooled_complete hB hA hci', hshared, looOf_swap]
  split_ifs with hfew
  · rfl
  · have hne : sharedDiffs .exact runsA runsB qids metric ≠ [] := by
      rw [← List.length_pos_iff, sharedDiffs, List.length_map]
      omega
    rw [hdiffs, interval_neg g seed hne, hci] at hci'
    rw [← Except.ok.inj hci']
    cases looOf runsA runsB metric (shared .exact runsA runsB qids metric) with
    | error e => rfl
    | ok loo => simp [Except.map, rowOf_swap]

/-! ## Other orders -/

theorem reorder_perm {positions : List ℕ} (h : positions.Perm (List.range runs.length)) : (reorder runs positions).Perm runs := by
  have hmap := h.map fun i => runs.getD i Dict.empty
  rwa [Rank.map_getD_range] at hmap

theorem Complete.perm (h : Complete runs qids metric) (hperm : runs'.Perm runs) : Complete runs' qids metric :=
  fun run hrun => h run (hperm.mem_iff.1 hrun)

theorem carried_perm (h : runs'.Perm runs) (qid : Str) : Carried runs' metric qid ↔ Carried runs metric qid := by
  simp only [Carried, h.mem_iff]

theorem meanOf_perm (h : runs'.Perm runs) : meanOf .exact runs' metric = meanOf .exact runs metric := by
  funext qid
  exact Rounding.exact.mean_perm (h.filterMap _)

/-- leaving out the run at position i of the reordered list leaves out the one that stands there -/
theorem reorder_eraseIdx {positions : List ℕ} (h : positions.Perm (List.range runs.length)) {i : ℕ}
    (hi : i < positions.length) : ((reorder runs positions).eraseIdx i).Perm (runs.eraseIdx positions[i]) := by
  have hlt : positions[i] < runs.length := by
    rw [← List.mem_range, ← h.mem_iff]
    exact List.getElem_mem hi
  have hi' : i < (reorder runs positions).length := by rwa [reorder, List.length_map]
  have hget : (reorder runs positions)[i] = runs[positions[i]] := by
    simp only [reorder, List.getElem_map]
    rw [List.getD_eq_getElem?_getD, List.getElem?_eq_getElem hlt, Option.getD_some]
  have hcons := ((getElem_cons_eraseIdx hi').trans (reorder_perm h)).trans (getElem_cons_eraseIdx hlt).symm
  rw [hget] at hcons
  exact hcons.cons_inv

theorem pWithout_reorder {positions : List ℕ} (hA : positions.Perm (List.range runsA.length))
    (hB : positions.Perm (List.range runsB.length)) (ids : List Str) {i : ℕ} (hi : i < positions.length) :
    pWithout .exact (reorder runsA positions) (reorder runsB positions) metric ids i =
      pWithout .exact runsA runsB metric ids positions[i] := by
  have hdiff : diffOf .exact ((reorder runsA positions).eraseIdx i) ((reorder runsB positions).eraseIdx i) metric =
      diffOf .exact (runsA.eraseIdx positions[i]) (runsB.eraseIdx positions[i]) metric := by
    funext qid
    rw [diffOf, diffOf, meanOf_perm (reorder_eraseIdx hA hi), meanOf_perm (reorder_eraseIdx hB hi)]
  rw [pWithout, pWithout, hdiff]

theorem looOf_reorder {posA posB : List ℕ} (hA : posA.Perm (List.range runsA.length))
    (hB : posB.Perm (List.range runsB.length)) (hsame : runsA.length = runsB.length → posA = posB) (ids : List Str) :
    looOf (reorder runsA posA) (reorder runsB posB) metric ids = looOf runsA runsB metric ids := by
  rw [looOf, looOf, (reorder_perm hA).length_eq, (reorder_perm hB).length_eq]
  split_ifs with hlen
  · obtain rfl := hsame hlen.2
    have hlength : posA.length = runsA.length := by rw [hA.length_eq, List.length_range]
    have hlist : (List.range runsA.length).map (pWithout .exact (reorder runsA posA) (reorder runsB posA) metric ids) =
        posA.map (pWithout .exact runsA runsB metric ids) := by
      refine List.ext_getElem (by simp [hlength]) fun i hi hi' => ?_
      rw [List.length_map] at hi'
      rw [List.getElem_map, List.getElem_map, List.getElem_range, pWithout_reorder hA hB ids hi']
    rw [hlist, extremes_perm (hA.map _)]
  · rfl

/-! ## The row -/

theorem Complete.carriers_eq (h : Complete runs qids metric) {qid : Str} (hqid : qid ∈ qids) :
    carriers runs metric qid = runs.length :=
  List.countP_eq_length.2 fun run hrun => decide_eq_true (h run hrun qid hqid)

theorem completes_complete (hA : Complete runsA qids metric) (hB : Complete runsB qids metric) :
    Completes (comparePooled .exact g runsA runsB qids metric seed) := by
  refine completes_comparePooled .exact g seed fun h3 heq qid hqid => ?_
  have hq := (carried_of_mem_shared .exact ((mem_shared .exact).2 hqid)).1
  rw [Kept, hA.carriers_eq hq, hB.carriers_eq hq]
  omega

/-- a row is that of the shared questions, of which there are two or more -/
theorem row_eq (hA : Complete runsA qids metric) (hB : Complete runsB qids metric) {row : Row}
    (h : comparePooled .exact g runsA runsB qids metric seed = .ok (some row)) :
    sharedDiffs .exact runsA runsB qids metric ≠ [] ∧
      interval .exact g (sharedDiffs .exact runsA runsB qids metric) seed = .ok row.diffCi95 ∧
      row = rowOf .exact runsA runsB metric (shared .exact runsA runsB qids metric) row.diffCi95 row.looP := by
  obtain ⟨ci, hci⟩ := exists_interval .exact g (sharedDiffs .exact runsA runsB qids metric) seed
  rw [comparePooled_complete hA hB hci] at h
  by_cases hfew : (shared .exact runsA runsB qids metric).length < 2
  · rw [if_pos hfew] at h
    cases h
  rw [if_neg hfew] at h
  cases hloo : looOf runsA runsB metric (shared .exact runsA runsB qids metric) with
  | error e =>
    rw [hloo] at h
    cases h
  | ok loo =>
    rw [hloo] at h
    obtain rfl := Option.some.inj (Except.ok.inj h)
    refine ⟨?_, hci, rfl⟩
    rw [← List.length_pos_iff, sharedDiffs, List.length_map]
    omega

/-- there is a row iff two questions are shared -/
theorem exists_row_iff (hA : Complete runsA qids metric) (hB : Complete runsB qids metric) :
    (∃ row, comparePooled .exact g runsA runsB qids metric seed = .ok (some row)) ↔
      2 ≤ (sharedQuestions runsA runsB qids metric).card := by
  obtain ⟨ci, hci⟩ := exists_interval .exact g (sharedDiffs .exact runsA runsB qids metric) seed
  obtain ⟨result, hresult⟩ := (completes_complete hA hB : Completes (comparePooled .exact g runsA runsB qids metric seed))
  rw [comparePooled_complete hA hB hci] at hresult ⊢
  rw [← length_shared .exact]
  by_cases hfew : (shared .exact runsA runsB qids metric).length < 2
  · rw [if_pos hfew]
    refine iff_of_false ?_ (not_le.2 hfew)
    rintro ⟨row, hrow⟩
    cases hrow
  · rw [if_neg hfew] at hresult ⊢
    refine iff_of_true ?_ (not_lt.1 hfew)
    cases hloo : looOf runsA runsB metric (shared .exact runsA runsB qids metric) with
    | error e =>
      rw [hloo] at hresult
      cases hresult
    | ok loo => exact ⟨_, rfl⟩

theorem diff_eq (runsA runsB : List Run) (ids : List Str) (ci : ℚ × ℚ) (loo : Option (ℚ × ℚ)) :
    (rowOf .exact runsA runsB metric ids ci loo).diff =
      (rowOf .exact runsA runsB metric ids ci loo).meanA - (rowOf .exact runsA runsB metric ids ci loo).meanB := by
  simp only [rowOf, Rounding.mean, Rounding.exact, id, List.length_map, ← sub_div]
  rw [← sum_map_sub]
  rfl

/-- **compare_pooled is symmetric.** In exact arithmetic, for runs that all carry the metric for every listed question, and for
every stream of draws: swapping the systems mirrors the row; reordering the runs of both systems alike, or the questions,
changes nothing; there is always a result, a row iff two questions are shared; and in a row the counts add up to their number, the
difference is that of the means, and the interval lies between the least and the greatest difference. -/
theorem comparePooled_symmetric (g : Generator S) (runsA runsB : List Run) (qids : List Str) (metric : Str) (seed : ℤ)
    (hA : Complete runsA qids metric) (hB : Complete runsB qids metric) :
    comparePooled .exact g runsB runsA qids metric seed =
      (comparePooled .exact g runsA runsB qids metric seed).map (Option.map Row.swap) ∧
    (∀ posA posB : List ℕ, posA.Perm (List.range runsA.length) → posB.Perm (List.range runsB.length) →
      (runsA.length = runsB.length → posA = posB) →
      comparePooled .exact g (reorder runsA posA) (reorder runsB posB) qids metric seed =
        comparePooled .exact g runsA runsB qids metric seed) ∧
    (∀ qids' : List Str, qids'.Perm qids →
      comparePooled .exact g runsA runsB qids' metric seed = comparePooled .exact g runsA runsB qids metric seed) ∧
    Completes (comparePooled .exact g runsA runsB qids metric seed) ∧
    ((∃ row, comparePooled .exact g runsA runsB qids metric seed = .ok (some row)) ↔
      2 ≤ (sharedQuestions runsA runsB qids metric).card) ∧
    (∀ row, comparePooled .exact g runsA runsB qids metric seed = .ok (some row) →
      row.n = (sharedQuestions runsA runsB qids metric).card ∧ row.wins + row.ties + row.losses = row.n ∧
      row.diff = row.meanA - row.meanB ∧
      ∃ least ∈ sharedDiffs .exact runsA runsB qids metric, ∃ most ∈ sharedDiffs .exact runsA runsB qids metric,
        (∀ d ∈ sharedDiffs .exact runsA runsB qids metric, least ≤ d ∧ d ≤ most) ∧
        least ≤ row.diffCi95.1 ∧ row.diffCi95.1 ≤ row.diffCi95.2 ∧ row.diffCi95.2 ≤ most) := by
  refine ⟨comparePooled_swap hA hB, fun posA posB hposA hposB hsame => ?_, fun qids' hperm => ?_, completes_complete hA hB,
    exists_row_iff hA hB, fun row hrow => ?_⟩
  · have hpermA := reorder_perm hposA
    have hpermB := reorder_perm hposB
    refine comparePooled_congr hA hB (hA.perm hpermA) (hB.perm hpermB) ?_ (meanOf_perm hpermA) (meanOf_perm hpermB)
      (looOf_reorder hposA hposB hsame)
    simp only [sharedQuestions, carried_perm hpermA, carried_perm hpermB]
  · refine comparePooled_congr hA hB (fun run hrun qid hqid => hA run hrun qid (hperm.mem_iff.1 hqid))
      (fun run hrun qid hqid => hB run hrun qid (hperm.mem_iff.1 hqid)) ?_ rfl rfl fun _ => rfl
    rw [sharedQuestions, sharedQuestions, List.toFinset_eq_of_perm _ _ hperm]
  · obtain ⟨hne, hci, hrow'⟩ := row_eq hA hB hrow
    refine ⟨?_, ?_, ?_, ?_⟩
    · rw [hrow', ← length_shared .exact]
      rfl
    · rw [hrow']
      exact (wins_ties_losses _).trans (List.length_map _)
    · rw [hrow']
      exact diff_eq _ _ _ _ _
    · obtain ⟨x, hx⟩ := List.exists_mem_of_ne_nil _ hne
      obtain ⟨least, hleast, hmin⟩ := (sharedDiffs .exact runsA runsB qids metric).toFinset.exists_min_image id
        ⟨x, List.mem_toFinset.2 hx⟩
      obtain ⟨most, hmost, hmax⟩ := (sharedDiffs .exact runsA runsB qids metric).toFinset.exists_max_image id
        ⟨x, List.mem_toFinset.2 hx⟩
      have hlow : ∀ d ∈ sharedDiffs .exact runsA runsB qids metric, least ≤ d :=
        fun d hd => hmin d (List.mem_toFinset.2 hd)
      have hhigh : ∀ d ∈ sharedDiffs .exact runsA runsB qids metric, d ≤ most :=
        fun d hd => hmax d (List.mem_toFinset.2 hd)
      exact ⟨least, List.mem_toFinset.1 hleast, most, List.mem_toFinset.1 hmost, fun d hd => ⟨hlow d hd, hhigh d hd⟩,
        interval_bounds g seed hne hci hlow hhigh⟩

end Compare

/-- three runs a side -/
theorem comparePooled_symmetric_plain :
    comparePooled .exact Compare.first (List.replicate 3 (twoQuestions "ndcg@5".toList 1 1)) plainRuns
        ["Q1".toList, "Q2".toList] "ndcg@5".toList 0 =
      (comparePooled .exact Compare.first plainRuns (List.replicate 3 (twoQuestions "ndcg@5".toList 1 1))
        ["Q1".toList, "Q2".toList] "ndcg@5".toList 0).map (Option.map Row.swap) ∧
    comparePooled .exact Compare.first (List.replicate 3 (twoQuestions "ndcg@5".toList 1 1)) plainRuns
        ["Q2".toList, "Q1".toList] "ndcg@5".toList 0 =
      comparePooled .exact Compare.first (List.replicate 3 (twoQuestions "ndcg@5".toList 1 1)) plainRuns
        ["Q1".toList, "Q2".toList] "ndcg@5".toList 0 ∧
    ∃ row, comparePooled .exact Compare.first plainRuns (List.replicate 3 (twoQuestions "ndcg@5".toList 1 1))
        ["Q1".toList, "Q2".toList] "ndcg@5".toList 0 = .ok (some row) ∧
      row.n = 2 ∧ row.wins + row.ties + row.losses = 2 ∧ row.diff = row.meanA - row.meanB := by
  obtain ⟨hswap, -, -, -, hexists, hrow⟩ := comparePooled_symmetric Compare.first plainRuns
    (List.replicate 3 (twoQuestions "ndcg@5".toList 1 1)) ["Q1".toList, "Q2".toList] "ndcg@5".toList 0 (by decide) (by decide)
  obtain ⟨-, -, hquestions, -⟩ := comparePooled_symmetric Compare.first (List.replicate 3 (twoQuestions "ndcg@5".toList 1 1))
    plainRuns ["Q1".toList, "Q2".toList] "ndcg@5".toList 0 (by decide) (by decide)
  have hcard : (sharedQuestions plainRuns (List.replicate 3 (twoQuestions "ndcg@5".toList 1 1)) ["Q1".toList, "Q2".toList]
      "ndcg@5".toList).card = 2 := by decide
  obtain ⟨row, heq⟩ := hexists.2 hcard.ge
  obtain ⟨hn, hsum, hdiff, -⟩ := hrow row heq
  rw [hcard] at hn
  exact ⟨hswap, hquestions _ (List.Perm.swap _ _ []), row, heq, hn, hsum.trans hn, hdiff⟩

end AgentPick.Pooled
