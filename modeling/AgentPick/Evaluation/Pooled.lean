/-
Pooled comparison of two systems over several runs (`evaluation/pooled.py`, `pooled_means` and `compare_pooled`).

A run maps question ids to the metrics that the question carries in it. The means of a question are taken over the runs that
carry the metric; a comparison pairs the questions that have a mean in both systems. With three or more runs, as many on both
sides, the p-value is computed again without each run in turn.

Numbers are rational; means, differences and the interval are rounded as floats are, the p-values are exact. Infinite numbers
and NaN do not occur. An exception is a value here (`Exc`).

Results:
- `get?_pooledMeans`: a listed question has a mean exactly if some run carries the metric.
- `comparePooled_eq`: a comparison can only fail in the pass that leaves out a run.
- `comparePooled_total_iff`: it returns a row or None, as it should, exactly if that pass is skipped or every shared question
  carries the metric in two runs of each system.
-/
import Mathlib.Tactic
import AgentPick.Core.Raise
import AgentPick.Evaluation.OrderFree
import AgentPick.Evaluation.SignFlip

namespace AgentPick.Pooled

open Compare (bootstrapDiffCi Indexed bootstrapDiffCi_of_indexed inRange_position)
open SignFlip (exactSignFlipP)

/-! ## The code -/

/-- a run: question id to metric to score -/
abbrev Run := Dict Str (Dict Str ℚ)

structure Row where
  metric : Str
  n : ℕ
  meanA : ℚ
  meanB : ℚ
  diff : ℚ
  diffCi95 : ℚ × ℚ
  pValue : ℚ
  wins : ℕ
  ties : ℕ
  losses : ℕ
  looP : Option (ℚ × ℚ)
deriving DecidableEq, Repr

/-- `DEFAULT_RESAMPLES` -/
def defaultResamples : ℤ := 10000

section Code

variable (R : Rounding) {S : Type} (g : Generator S)

/-- `run[qid][metric]`, if the run has it -/
def score? (metric qid : Str) (run : Run) : Option ℚ := (run.get? qid).bind fun scores => scores.get? metric

/-- the values of a question, over the runs that carry the metric -/
def valuesOf (runs : List Run) (metric qid : Str) : List ℚ := runs.filterMap (score? metric qid)

/-- `pooled_means` -/
def pooledMeans (runs : List Run) (qids : List Str) (metric : Str) : Dict Str ℚ :=
  qids.foldl (fun pooled qid =>
    if valuesOf runs metric qid = [] then pooled else pooled.set qid (R.mean (valuesOf runs metric qid))) Dict.empty

/-- `means[qid]` -/
def item (means : Dict Str ℚ) (qid : Str) : Except Exc ℚ :=
  match means.get? qid with
  | some mean => .ok mean
  | none => .error (.keyError qid)

/-- `sorted(means_a.keys() & means_b.keys())` -/
def sharedIds (meansA meansB : Dict Str ℚ) : List Str :=
  (meansA.keys.filter fun qid => qid ∈ meansB.keys).insertionSort (· ≤ ·)

/-- `[means_a[qid] - means_b[qid] for qid in shared]` -/
def differences (meansA meansB : Dict Str ℚ) (shared : List Str) : Except Exc (List ℚ) :=
  shared.mapM fun qid => do
    let a ← item meansA qid
    let b ← item meansB qid
    return R.fl (a - b)

/-- the p-value without run i -/
def withoutRun (runsA runsB : List Run) (qids : List Str) (metric : Str) (shared : List Str) (i : ℕ) : Except Exc ℚ := do
  let diffs ← differences R (pooledMeans R (runsA.eraseIdx i) qids metric) (pooledMeans R (runsB.eraseIdx i) qids metric)
    shared
  return exactSignFlipP diffs

/-- `(min(loo), max(loo))` -/
def extremes (loo : List ℚ) : Except Exc (ℚ × ℚ) :=
  match loo.min?, loo.max? with
  | some least, some most => .ok (least, most)
  | _, _ => .error .valueError

/-- the range of the p-value when any run is left out -/
def looRange (runsA runsB : List Run) (qids : List Str) (metric : Str) (shared : List Str) :
    Except Exc (Option (ℚ × ℚ)) :=
  if 3 ≤ runsA.length ∧ runsA.length = runsB.length then do
    let loo ← (List.range runsA.length).mapM (withoutRun R runsA runsB qids metric shared)
    let range ← extremes loo
    return some range
  else return none

def wins (diffs : List ℚ) : ℕ := diffs.countP fun d => R.fl (1 / 10 ^ 9) < d

def ties (diffs : List ℚ) : ℕ := diffs.countP fun d => |d| ≤ R.fl (1 / 10 ^ 9)

def losses (diffs : List ℚ) : ℕ := diffs.countP fun d => d < -R.fl (1 / 10 ^ 9)

/-- the interval of `bootstrap_diff_ci` with the default resamples -/
def interval (diffs : List ℚ) (seed : ℤ) : Except Exc (ℚ × ℚ) :=
  match bootstrapDiffCi R g diffs defaultResamples (g.seeded seed) with
  | some r => .ok r.1
  | none => .error .indexError

/-- `compare_pooled` -/
def comparePooled (runsA runsB : List Run) (qids : List Str) (metric : Str) (seed : ℤ) : Except Exc (Option Row) :=
  let meansA := pooledMeans R runsA qids metric
  let meansB := pooledMeans R runsB qids metric
  let shared := sharedIds meansA meansB
  if shared.length < 2 then return none
  else do
    let diffs ← differences R meansA meansB shared
    let ci ← interval R g diffs seed
    let valuesA ← shared.mapM (item meansA)
    let valuesB ← shared.mapM (item meansB)
    let loo ← looRange R runsA runsB qids metric shared
    return some {
      metric := metric
      n := shared.length
      meanA := R.mean valuesA
      meanB := R.mean valuesB
      diff := R.mean diffs
      diffCi95 := ci
      pValue := exactSignFlipP diffs
      wins := wins R diffs
      ties := ties R diffs
      losses := losses R diffs
      looP := loo }

end Code

/-! ## Pooled means -/

/-- the run carries the metric for the question -/
def Carries (metric qid : Str) (run : Run) : Prop := (score? metric qid run).isSome

instance (metric qid : Str) (run : Run) : Decidable (Carries metric qid run) := inferInstanceAs (Decidable (_ = true))

/-- some run carries it -/
def Carried (runs : List Run) (metric qid : Str) : Prop := ∃ run ∈ runs, Carries metric qid run

instance (runs : List Run) (metric qid : Str) : Decidable (Carried runs metric qid) :=
  inferInstanceAs (Decidable (∃ run ∈ runs, Carries metric qid run))

/-- the mean of a question over the runs that carry the metric -/
def meanOf (R : Rounding) (runs : List Run) (metric qid : Str) : ℚ := R.mean (valuesOf runs metric qid)

section Means

variable (R : Rounding) (runs : List Run) (metric : Str)

theorem valuesOf_ne_nil {qid : Str} : valuesOf runs metric qid ≠ [] ↔ Carried runs metric qid := by
  rw [valuesOf, Ne, List.filterMap_eq_nil_iff]
  simp only [Carried, Carries, Option.isSome_iff_ne_none, not_forall, exists_prop, ne_eq]

/-- a listed question has a mean exactly if some run carries the metric -/
theorem get?_pooledMeans (qids : List Str) (qid : Str) :
    (pooledMeans R runs qids metric).get? qid =
      if qid ∈ qids ∧ Carried runs metric qid then some (meanOf R runs metric qid) else none := by
  have hfold (d : Dict Str ℚ) : (qids.foldl (fun pooled qid =>
      if valuesOf runs metric qid = [] then pooled else pooled.set qid (R.mean (valuesOf runs metric qid))) d).get? qid =
        if qid ∈ qids ∧ Carried runs metric qid then some (meanOf R runs metric qid) else d.get? qid := by
    induction qids generalizing d with
    | nil => simp
    | cons q qids ih =>
      rw [List.foldl_cons, ih]
      by_cases hmem : qid ∈ qids ∧ Carried runs metric qid
      · rw [if_pos hmem, if_pos ⟨List.mem_cons_of_mem _ hmem.1, hmem.2⟩]
      · rw [if_neg hmem]
        by_cases hq : valuesOf runs metric q = []
        · have hno : ¬ Carried runs metric q := fun h => (valuesOf_ne_nil runs metric).2 h hq
          rw [if_pos hq, if_neg]
          rintro ⟨h, hc⟩
          rcases List.mem_cons.1 h with rfl | h
          · exact hno hc
          · exact hmem ⟨h, hc⟩
        · have hc : Carried runs metric q := (valuesOf_ne_nil runs metric).1 hq
          rw [if_neg hq, Dict.get?_set]
          by_cases heq : qid = q
          · subst heq
            rw [if_pos rfl, if_pos ⟨List.mem_cons_self, hc⟩]
            rfl
          · rw [if_neg heq, if_neg]
            rintro ⟨h, hc'⟩
            exact hmem ⟨(List.mem_cons.1 h).resolve_left heq, hc'⟩
  exact hfold Dict.empty

theorem mem_keys_pooledMeans {qids : List Str} {qid : Str} :
    qid ∈ (pooledMeans R runs qids metric).keys ↔ qid ∈ qids ∧ Carried runs metric qid := by
  rw [← Dict.get?_isSome, get?_pooledMeans]
  split_ifs with h
  · exact iff_of_true rfl h
  · exact iff_of_false (by simp) h

end Means

/-! ## The shared questions -/

/-- the listed questions that carry the metric in some run of each system -/
def sharedQuestions (runsA runsB : List Run) (qids : List Str) (metric : Str) : Finset Str :=
  qids.toFinset.filter fun qid => Carried runsA metric qid ∧ Carried runsB metric qid

/-- the shared questions in their order -/
def shared (R : Rounding) (runsA runsB : List Run) (qids : List Str) (metric : Str) : List Str :=
  sharedIds (pooledMeans R runsA qids metric) (pooledMeans R runsB qids metric)

section Shared

variable (R : Rounding) {runsA runsB : List Run} {qids : List Str} {metric : Str}

theorem mem_shared {qid : Str} :
    qid ∈ shared R runsA runsB qids metric ↔ qid ∈ sharedQuestions runsA runsB qids metric := by
  simp only [shared, sharedIds, sharedQuestions, List.mem_insertionSort, List.mem_filter, decide_eq_true_eq,
    mem_keys_pooledMeans, Finset.mem_filter, List.mem_toFinset]
  tauto

theorem nodup_shared : (shared R runsA runsB qids metric).Nodup :=
  (List.perm_insertionSort _ _).nodup_iff.2 ((Dict.nodup_keys _).filter _)

theorem sorted_shared : (shared R runsA runsB qids metric).Pairwise (· ≤ ·) := List.pairwise_insertionSort _ _

theorem length_shared : (shared R runsA runsB qids metric).length = (sharedQuestions runsA runsB qids metric).card := by
  rw [← List.toFinset_card_of_nodup (nodup_shared R)]
  congr 1
  ext qid
  rw [List.mem_toFinset, mem_shared]

theorem carried_of_mem_shared {qid : Str} (h : qid ∈ shared R runsA runsB qids metric) :
    qid ∈ qids ∧ Carried runsA metric qid ∧ Carried runsB metric qid := by
  simpa [sharedQuestions] using (mem_shared R).1 h

end Shared

/-! ## What can fail -/

section Failure

variable (R : Rounding) {runs runsA runsB : List Run} {qids : List Str} {metric : Str}

theorem item_pooledMeans {qid : Str} (hq : qid ∈ qids) :
    item (pooledMeans R runs qids metric) qid =
      if Carried runs metric qid then .ok (meanOf R runs metric qid) else .error (.keyError qid) := by
  rw [item, get?_pooledMeans]
  by_cases h : Carried runs metric qid <;> simp [h, hq]

/-- the difference of the means of a question -/
def diffOf (R : Rounding) (runsA runsB : List Run) (metric qid : Str) : ℚ :=
  R.fl (meanOf R runsA metric qid - meanOf R runsB metric qid)

theorem differences_ok {ids : List Str}
    (h : ∀ qid ∈ ids, qid ∈ qids ∧ Carried runsA metric qid ∧ Carried runsB metric qid) :
    differences R (pooledMeans R runsA qids metric) (pooledMeans R runsB qids metric) ids =
      .ok (ids.map (diffOf R runsA runsB metric)) := by
  refine Raise.mapM_eq_ok fun qid hqid => ?_
  obtain ⟨hq, hA, hB⟩ := h qid hqid
  rw [item_pooledMeans R hq, item_pooledMeans R hq, if_pos hA, if_pos hB]
  rfl

theorem carried_of_differences {ids : List Str} {diffs : List ℚ} (hids : ∀ qid ∈ ids, qid ∈ qids)
    (h : differences R (pooledMeans R runsA qids metric) (pooledMeans R runsB qids metric) ids = .ok diffs) :
    ∀ qid ∈ ids, Carried runsA metric qid ∧ Carried runsB metric qid := by
  intro qid hqid
  obtain ⟨d, hd⟩ := Raise.completes_mapM.1 ⟨diffs, h⟩ qid hqid
  rw [item_pooledMeans R (hids qid hqid), item_pooledMeans R (hids qid hqid)] at hd
  by_cases hA : Carried runsA metric qid
  · by_cases hB : Carried runsB metric qid
    · exact ⟨hA, hB⟩
    · rw [if_pos hA, if_neg hB] at hd
      cases hd
  · rw [if_neg hA] at hd
    cases hd

/-- the interval of the default resamples is there -/
theorem indexed_default : Indexed R defaultResamples :=
  ⟨inRange_position (by norm_num) (by norm_num) (by decide) (by decide),
    inRange_position (by norm_num) (by norm_num) (by decide) (by decide)⟩

theorem exists_interval {S : Type} (g : Generator S) (diffs : List ℚ) (seed : ℤ) :
    ∃ ci, interval R g diffs seed = .ok ci := by
  obtain ⟨lo, -, hi, -, h⟩ := bootstrapDiffCi_of_indexed (g := g) (indexed_default R) diffs (g.seeded seed)
  exact ⟨(lo, hi), by rw [interval, h]⟩

/-- the differences of the shared questions -/
def sharedDiffs (R : Rounding) (runsA runsB : List Run) (qids : List Str) (metric : Str) : List ℚ :=
  (shared R runsA runsB qids metric).map (diffOf R runsA runsB metric)

/-- the row of the given questions -/
def rowOf (R : Rounding) (runsA runsB : List Run) (metric : Str) (ids : List Str) (ci : ℚ × ℚ) (loo : Option (ℚ × ℚ)) :
    Row where
  metric := metric
  n := ids.length
  meanA := R.mean (ids.map (meanOf R runsA metric))
  meanB := R.mean (ids.map (meanOf R runsB metric))
  diff := R.mean (ids.map (diffOf R runsA runsB metric))
  diffCi95 := ci
  pValue := exactSignFlipP (ids.map (diffOf R runsA runsB metric))
  wins := wins R (ids.map (diffOf R runsA runsB metric))
  ties := ties R (ids.map (diffOf R runsA runsB metric))
  losses := losses R (ids.map (diffOf R runsA runsB metric))
  looP := loo

/-- **A comparison of two or more questions can only fail in the pass that leaves out a run.** -/
theorem comparePooled_eq {S : Type} (g : Generator S) {seed : ℤ} {ci : ℚ × ℚ}
    (hci : interval R g (sharedDiffs R runsA runsB qids metric) seed = .ok ci) :
    comparePooled R g runsA runsB qids metric seed =
      if (shared R runsA runsB qids metric).length < 2 then .ok none
      else (looRange R runsA runsB qids metric (shared R runsA runsB qids metric)).map fun loo =>
        some (rowOf R runsA runsB metric (shared R runsA runsB qids metric) ci loo) := by
  have hcarried : ∀ qid ∈ shared R runsA runsB qids metric,
      qid ∈ qids ∧ Carried runsA metric qid ∧ Carried runsB metric qid := fun _ h => carried_of_mem_shared R h
  have hA : (shared R runsA runsB qids metric).mapM (item (pooledMeans R runsA qids metric)) =
      .ok ((shared R runsA runsB qids metric).map (meanOf R runsA metric)) :=
    Raise.mapM_eq_ok fun qid hqid => by rw [item_pooledMeans R (hcarried qid hqid).1, if_pos (hcarried qid hqid).2.1]
  have hB : (shared R runsA runsB qids metric).mapM (item (pooledMeans R runsB qids metric)) =
      .ok ((shared R runsA runsB qids metric).map (meanOf R runsB metric)) :=
    Raise.mapM_eq_ok fun qid hqid => by rw [item_pooledMeans R (hcarried qid hqid).1, if_pos (hcarried qid hqid).2.2]
  have hdiffs := differences_ok R hcarried
  unfold comparePooled
  simp only [show sharedIds (pooledMeans R runsA qids metric) (pooledMeans R runsB qids metric) =
    shared R runsA runsB qids metric from rfl]
  split_ifs
  · rfl
  · rw [hdiffs, hA, hB]
    rw [sharedDiffs] at hci
    simp only [bind, Except.bind, hci]
    cases looRange R runsA runsB qids metric (shared R runsA runsB qids metric) <;> rfl

end Failure

/-! ## Leaving out a run -/

section LeaveOneOut

variable (R : Rounding) {runs runsA runsB : List Run} {qids : List Str} {metric : Str}

theorem getElem_cons_eraseIdx {α : Type} {l : List α} {i : ℕ} (h : i < l.length) : (l[i] :: l.eraseIdx i).Perm l := by
  rw [List.eraseIdx_eq_take_drop_succ]
  refine List.perm_middle.symm.trans ?_
  rw [List.getElem_cons_drop, List.take_append_drop]

/-- the number of runs that carry it -/
def carriers (runs : List Run) (metric qid : Str) : ℕ := runs.countP fun run => decide (Carries metric qid run)

theorem carried_iff_carriers {qid : Str} : Carried runs metric qid ↔ 0 < carriers runs metric qid := by
  simp [Carried, carriers, List.countP_pos_iff]

/-- a question that is carried stays carried without any one run exactly if two runs carry it -/
theorem carried_eraseIdx_iff {qid : Str} (h : Carried runs metric qid) :
    (∀ i < runs.length, Carried (runs.eraseIdx i) metric qid) ↔ 2 ≤ carriers runs metric qid := by
  have hcount {i : ℕ} (hi : i < runs.length) : carriers (runs.eraseIdx i) metric qid +
      (if Carries metric qid runs[i] then 1 else 0) = carriers runs metric qid := by
    have hperm := (getElem_cons_eraseIdx hi).countP_eq fun run => decide (Carries metric qid run)
    simpa only [carriers, List.countP_cons, decide_eq_true_eq] using hperm
  refine ⟨fun hall => ?_, fun htwo i hi => ?_⟩
  · obtain ⟨run, hrun, hcarries⟩ := h
    obtain ⟨i, hi, rfl⟩ := List.getElem_of_mem hrun
    have hrest := carried_iff_carriers.1 (hall i hi)
    have hi' := hcount hi
    rw [if_pos hcarries] at hi'
    omega
  · have hi' := hcount hi
    rw [carried_iff_carriers]
    split_ifs at hi' <;> omega

theorem exists_extremes {loo : List ℚ} (h : loo ≠ []) : ∃ range, extremes loo = .ok range := by
  obtain ⟨least, hleast⟩ := Option.ne_none_iff_exists'.1 (mt List.min?_eq_none_iff.1 h)
  obtain ⟨most, hmost⟩ := Option.ne_none_iff_exists'.1 (mt List.max?_eq_none_iff.1 h)
  exact ⟨(least, most), by rw [extremes, hleast, hmost]⟩

/-- the p-value without run i, of given questions -/
def pWithout (R : Rounding) (runsA runsB : List Run) (metric : Str) (ids : List Str) (i : ℕ) : ℚ :=
  exactSignFlipP (ids.map (diffOf R (runsA.eraseIdx i) (runsB.eraseIdx i) metric))

theorem withoutRun_ok {ids : List Str} {i : ℕ} (hids : ∀ qid ∈ ids, qid ∈ qids ∧
    Carried (runsA.eraseIdx i) metric qid ∧ Carried (runsB.eraseIdx i) metric qid) :
    withoutRun R runsA runsB qids metric ids i = .ok (pWithout R runsA runsB metric ids i) := by
  rw [withoutRun, differences_ok R hids]
  rfl

/-- the pass succeeds where every question stays carried -/
theorem looRange_eq {ids : List Str} (hlen : 3 ≤ runsA.length ∧ runsA.length = runsB.length)
    (hids : ∀ i < runsA.length, ∀ qid ∈ ids, qid ∈ qids ∧
      Carried (runsA.eraseIdx i) metric qid ∧ Carried (runsB.eraseIdx i) metric qid) :
    looRange R runsA runsB qids metric ids =
      (extremes ((List.range runsA.length).map (pWithout R runsA runsB metric ids))).map some := by
  have hpass : (List.range runsA.length).mapM (withoutRun R runsA runsB qids metric ids) =
      .ok ((List.range runsA.length).map (pWithout R runsA runsB metric ids)) :=
    Raise.mapM_eq_ok fun i hi => withoutRun_ok R (hids i (List.mem_range.1 hi))
  rw [looRange, if_pos hlen, hpass]
  rfl

/-- and only there -/
theorem carried_of_looRange {ids : List Str} (hids : ∀ qid ∈ ids, qid ∈ qids)
    (hlen : 3 ≤ runsA.length ∧ runsA.length = runsB.length) (h : Completes (looRange R runsA runsB qids metric ids)) :
    ∀ i < runsA.length, ∀ qid ∈ ids, Carried (runsA.eraseIdx i) metric qid ∧ Carried (runsB.eraseIdx i) metric qid := by
  intro i hi
  rw [looRange, if_pos hlen, Raise.completes_bind] at h
  obtain ⟨ps, hps, -⟩ := h
  have hi' := Raise.completes_mapM.1 ⟨ps, hps⟩ i (List.mem_range.2 hi)
  rw [withoutRun, Raise.completes_bind] at hi'
  obtain ⟨diffs, hdiffs, -⟩ := hi'
  exact carried_of_differences R hids hdiffs

/-- the questions that stay carried without any one run, where runs are left out -/
def Kept (runsA runsB : List Run) (metric qid : Str) : Prop := 2 ≤ carriers runsA metric qid ∧ 2 ≤ carriers runsB metric qid

theorem completes_looRange (h : 3 ≤ runsA.length → runsA.length = runsB.length →
    ∀ qid ∈ sharedQuestions runsA runsB qids metric, Kept runsA runsB metric qid) :
    Completes (looRange R runsA runsB qids metric (shared R runsA runsB qids metric)) := by
  by_cases hlen : 3 ≤ runsA.length ∧ runsA.length = runsB.length
  · have hids : ∀ i < runsA.length, ∀ qid ∈ shared R runsA runsB qids metric, qid ∈ qids ∧
        Carried (runsA.eraseIdx i) metric qid ∧ Carried (runsB.eraseIdx i) metric qid := by
      intro i hi qid hqid
      obtain ⟨hq, hA, hB⟩ := carried_of_mem_shared R hqid
      obtain ⟨hA2, hB2⟩ := h hlen.1 hlen.2 qid ((mem_shared R).1 hqid)
      exact ⟨hq, (carried_eraseIdx_iff hA).2 hA2 i hi, (carried_eraseIdx_iff hB).2 hB2 i (hlen.2 ▸ hi)⟩
    have hne : (List.range runsA.length).map
        (pWithout R runsA runsB metric (shared R runsA runsB qids metric)) ≠ [] := by
      rw [Ne, List.map_eq_nil_iff, List.range_eq_nil]
      omega
    obtain ⟨range, hrange⟩ := exists_extremes hne
    rw [looRange_eq R hlen hids, hrange]
    exact ⟨_, rfl⟩
  · rw [looRange, if_neg hlen]
    exact ⟨_, rfl⟩

/-- a comparison completes if the pass that leaves out a run loses no question -/
theorem completes_comparePooled {S : Type} (g : Generator S) (seed : ℤ) (h : 3 ≤ runsA.length →
    runsA.length = runsB.length → ∀ qid ∈ sharedQuestions runsA runsB qids metric, Kept runsA runsB metric qid) :
    Completes (comparePooled R g runsA runsB qids metric seed) := by
  obtain ⟨ci, hci⟩ := exists_interval R g (sharedDiffs R runsA runsB qids metric) seed
  rw [comparePooled_eq R g hci]
  split_ifs
  · exact ⟨none, rfl⟩
  · exact Raise.completes_map.2 (completes_looRange R h)

/-- **A comparison fails exactly if leaving out a run loses a question.** It returns a row or None, with None exactly when
fewer than two questions are shared, exactly if the pass that leaves out a run is skipped or every shared question carries the
metric in two runs of each system. -/
theorem comparePooled_total_iff {S : Type} (g : Generator S) (runsA runsB : List Run) (qids : List Str) (metric : Str)
    (seed : ℤ) :
    (Completes (comparePooled R g runsA runsB qids metric seed) ∧
        (comparePooled R g runsA runsB qids metric seed = .ok none ↔ (sharedQuestions runsA runsB qids metric).card < 2)) ↔
      (sharedQuestions runsA runsB qids metric).card < 2 ∨ runsA.length < 3 ∨ runsA.length ≠ runsB.length ∨
        ∀ qid ∈ sharedQuestions runsA runsB qids metric,
          2 ≤ carriers runsA metric qid ∧ 2 ≤ carriers runsB metric qid := by
  obtain ⟨ci, hci⟩ := exists_interval R g (sharedDiffs R runsA runsB qids metric) seed
  rw [comparePooled_eq R g hci, length_shared]
  by_cases hfew : (sharedQuestions runsA runsB qids metric).card < 2
  · simp [hfew]
  rw [if_neg hfew, iff_false_right hfew, or_iff_right hfew, Raise.completes_map]
  have hrow (x : Except Exc (Option (ℚ × ℚ))) (f : Option (ℚ × ℚ) → Row) :
      ¬ x.map (fun loo => some (f loo)) = .ok none := by
    cases x <;> simp [Except.map]
  rw [and_iff_left (hrow _ _)]
  refine ⟨fun h => ?_, fun h => completes_looRange R fun h3 heq => ?_⟩
  · by_contra hno
    rw [not_or, not_or, not_lt, not_not] at hno
    obtain ⟨h3, heq, hno⟩ := hno
    refine hno fun qid hqid => ?_
    have hqid' := (mem_shared R).2 hqid
    obtain ⟨-, hA, hB⟩ := carried_of_mem_shared R hqid'
    have hall := carried_of_looRange R (fun q hq => (carried_of_mem_shared R hq).1) ⟨h3, heq⟩ h
    rw [← carried_eraseIdx_iff hA, ← carried_eraseIdx_iff hB]
    exact ⟨fun i hi => (hall i hi qid hqid').1, fun i hi => (hall i (heq ▸ hi) qid hqid').2⟩
  · exact (h.resolve_left (not_lt.2 h3)).resolve_left (not_not.2 heq)

end LeaveOneOut

/-! ## A run rescored with another k -/

/-- a run with one metric for two questions -/
def twoQuestions (metric : Str) (x y : ℚ) : Run :=
  ⟨[("Q1".toList, ⟨[(metric, x)], List.nodup_singleton _⟩), ("Q2".toList, ⟨[(metric, y)], List.nodup_singleton _⟩)],
    show ["Q1".toList, "Q2".toList].Nodup from by decide⟩

/-- three runs, the last two of them rescored with k = 10 -/
def rescoredRuns : List Run :=
  [twoQuestions "ndcg@5".toList 1 1, twoQuestions "ndcg@10".toList 1 1, twoQuestions "ndcg@10".toList 1 1]

/-- three runs with k = 5 -/
def plainRuns : List Run := List.replicate 3 (twoQuestions "ndcg@5".toList 0 1)

/-- **Without its first run a system has no mean left**: both questions are shared, and the comparison is a KeyError. -/
theorem rescored_key_error :
    sharedQuestions rescoredRuns plainRuns ["Q1".toList, "Q2".toList] "ndcg@5".toList = {"Q1".toList, "Q2".toList} ∧
      comparePooled .exact Compare.first rescoredRuns plainRuns ["Q1".toList, "Q2".toList] "ndcg@5".toList 0 =
        .error (.keyError "Q1".toList) := by
  obtain ⟨ci, hci⟩ := exists_interval .exact Compare.first
    (sharedDiffs .exact rescoredRuns plainRuns ["Q1".toList, "Q2".toList] "ndcg@5".toList) 0
  have hshared : sharedQuestions rescoredRuns plainRuns ["Q1".toList, "Q2".toList] "ndcg@5".toList =
      {"Q1".toList, "Q2".toList} := by decide
  have hids : shared .exact rescoredRuns plainRuns ["Q1".toList, "Q2".toList] "ndcg@5".toList =
      ["Q1".toList, "Q2".toList] := by decide +kernel
  have hloo : looRange .exact rescoredRuns plainRuns ["Q1".toList, "Q2".toList] "ndcg@5".toList ["Q1".toList, "Q2".toList] =
      .error (.keyError "Q1".toList) := by decide +kernel
  refine ⟨hshared, ?_⟩
  rw [comparePooled_eq .exact Compare.first hci, hids, hloo]
  rfl

end AgentPick.Pooled
