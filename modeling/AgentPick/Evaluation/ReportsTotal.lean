/-
When the reports over a partial evaluation complete.

Every table takes means, ratios and extremes over the questions that carry something: a metric, an abstention, a score. Which
of these are left without a question depends on the categories that were evaluated, and on nothing else.

Results:
- `mem_keys_runScores`: which metrics an entry has depends on its category only.
- `completes_systemRow`, `completes_spreadRow`: the tables that can fail, and what they need.
- `reports_total_iff`: both reports complete exactly if the evaluated questions have one that is to be refused and one that is
  ranked.
- `one_question_division`: a batch of one deterministic question divides by zero.
-/
import Mathlib.Tactic
import AgentPick.Evaluation.Reports

namespace AgentPick.Reports

open Metrics (Category Question Scores scoreAnswer)
open Pooled (Run Row score? pooledMeans comparePooled Carries Carried carriers extremes exists_extremes)

/-! ## What an entry carries -/

/-- the metrics of an entry of a category -/
def metricsOf (k : ℤ) (category : Category) : List Str :=
  if isRanked category then
    [atK "precision" k, atK "recall" k, "mrr".toList, atK "ndcg" k, "latency_s".toList, "composite".toList]
  else if category = .ambiguous then ["mentions_expected".toList, "latency_s".toList, "composite".toList]
  else ["latency_s".toList]

theorem mem_keys_set {d : Dict Str ℚ} {key key' : Str} {v : ℚ} :
    key' ∈ (d.set key v).keys ↔ key' = key ∨ key' ∈ d.keys := by
  rw [Dict.keys_set]
  split_ifs with h
  · refine ⟨Or.inr, fun h' => h'.elim (fun e => e ▸ h) id⟩
  · simp [or_comm]

theorem mem_keys_setIf {d : Dict Str ℚ} {key key' : Str} {v : Option ℚ} :
    key' ∈ (setIf d key v).keys ↔ (key' = key ∧ v.isSome) ∨ key' ∈ d.keys := by
  cases v with
  | none => simp [setIf]
  | some v => simp [setIf, mem_keys_set]

section Entries

variable {R : Rounding} {log2 : ℕ → ℚ} {u : Unicode} {catalogIds : List Str} {k : ℤ}

/-- which metrics an entry has depends on its category only -/
theorem mem_keys_runScores (q : EvalQuestion) (a : Answered) (metric : Str) :
    metric ∈ (runScores k (resultOf log2 u catalogIds k q a)).keys ↔ metric ∈ metricsOf k q.category := by
  have hempty : (Dict.empty : Dict Str ℚ).keys = [] := rfl
  rw [runScores, mem_keys_setIf, mem_keys_set]
  cases hc : q.category <;>
    simp [resultOf, numbers, mem_keys_setIf, hempty, scoreAnswer, hc, composite, isRanked, metricsOf] <;> tauto

theorem ndcg_mem_metricsOf {category : Category} : atK "ndcg" k ∈ metricsOf k category ↔ isRanked category := by
  have hne (c : Char) (s : Str) (hc : 'n' ≠ c) : atK "ndcg" k ≠ c :: s := fun h => hc (List.cons.inj h).1
  have hlatency := hne 'l' "atency_s".toList (by decide)
  have hcomposite := hne 'c' "omposite".toList (by decide)
  have hmentions := hne 'm' "entions_expected".toList (by decide)
  cases category <;> simp [metricsOf, isRanked] <;> simp_all

theorem composite_mem_metricsOf {category : Category} :
    "composite".toList ∈ metricsOf k category ↔ isRanked category ∨ category = .ambiguous := by
  cases category <;> simp [metricsOf, isRanked] 

theorem latency_mem_metricsOf (category : Category) : "latency_s".toList ∈ metricsOf k category := by
  cases category <;> simp [metricsOf, isRanked]

end Entries

/-! ## Evaluated batches -/

/-- a loaded run of the questions -/
structure IsRun (questions : Questions) (k : ℤ) (run : Run) : Prop where
  keys : ∀ qid, qid ∈ run.keys ↔ ∃ q ∈ questions.list, q.id = qid
  carries : ∀ q ∈ questions.list, ∀ metric, Carries metric q.id run ↔ metric ∈ metricsOf k q.category

/-- the batch holds one or more runs of the questions for every system -/
def Evaluated (R : Rounding) (log2 : ℕ → ℚ) (u : Unicode) (catalogIds : List Str) (questions : Questions) (k : ℤ)
    (batch : System → List Report) : Prop :=
  ∀ system, batch system ≠ [] ∧ ∀ report ∈ batch system, ∃ chatModel answered,
    report = evaluateSystem R log2 u catalogIds chatModel questions.list k answered

section Batches

variable {R : Rounding} {log2 : ℕ → ℚ} {u : Unicode} {catalogIds : List Str} {questions : Questions} {k : ℤ}
  {batch : System → List Report}

theorem mem_results {chatModel : Str} {answered : EvalQuestion → Answered} {r : Result} :
    r ∈ (evaluateSystem R log2 u catalogIds chatModel questions.list k answered).results ↔
      ∃ q ∈ questions.list, resultOf log2 u catalogIds k q (answered q) = r := List.mem_map

theorem nodup_results (chatModel : Str) (answered : EvalQuestion → Answered) :
    ((evaluateSystem R log2 u catalogIds chatModel questions.list k answered).results.map Result.id).Nodup := by
  rw [evaluateSystem, List.map_map]
  exact questions.nodup

/-- a dictionary by id has the entry of every question -/
theorem get?_group_id {ν : Type} (f : Result → ν) (chatModel : Str) (answered : EvalQuestion → Answered) {q : EvalQuestion}
    (hq : q ∈ questions.list) :
    (Dict.group Result.id (fun _ r => f r)
      (evaluateSystem R log2 u catalogIds chatModel questions.list k answered).results).get? q.id =
        some (f (resultOf log2 u catalogIds k q (answered q))) :=
  Dict.get?_accumulate_of_mem Result.id (fun _ r => f r) (nodup_results chatModel answered) Dict.empty
    (mem_results.2 ⟨q, hq, rfl⟩)

theorem isRun_loadRun (chatModel : Str) (answered : EvalQuestion → Answered) :
    IsRun questions k (loadRun k (evaluateSystem R log2 u catalogIds chatModel questions.list k answered)) := by
  refine ⟨fun qid => ?_, fun q hq metric => ?_⟩
  · rw [loadRun, Dict.mem_keys_group]
    refine ⟨fun ⟨r, hr, hid⟩ => ?_, fun ⟨q, hq, hid⟩ => ⟨_, mem_results.2 ⟨q, hq, rfl⟩, hid⟩⟩
    obtain ⟨q, hq, rfl⟩ := mem_results.1 hr
    exact ⟨q, hq, hid⟩
  · rw [Carries, score?, loadRun, get?_group_id _ _ _ hq, Option.bind_some, Dict.get?_isSome, mem_keys_runScores]

theorem Evaluated.isRun (h : Evaluated R log2 u catalogIds questions k batch) (system : System) :
    ∀ run ∈ (loadRuns u k (batch system)).1, IsRun questions k run := by
  intro run hrun
  obtain ⟨report, hreport, rfl⟩ := List.mem_map.1 hrun
  obtain ⟨chatModel, answered, rfl⟩ := (h system).2 report hreport
  exact isRun_loadRun chatModel answered

theorem Evaluated.runs_ne_nil (h : Evaluated R log2 u catalogIds questions k batch) (system : System) :
    (loadRuns u k (batch system)).1 ≠ [] := by
  simpa [loadRuns] using (h system).1

/-- the first file of a system -/
theorem Evaluated.head (h : Evaluated R log2 u catalogIds questions k batch) (system : System) :
    ∃ chatModel answered, (batch system).head? =
      some (evaluateSystem R log2 u catalogIds chatModel questions.list k answered) := by
  cases hbatch : batch system with
  | nil => exact absurd hbatch (h system).1
  | cons report reports =>
    obtain ⟨chatModel, answered, rfl⟩ := (h system).2 report (hbatch ▸ List.mem_cons_self)
    exact ⟨chatModel, answered, rfl⟩

end Batches

/-! ## Runs of the questions -/

section Runs

variable {questions : Questions} {k : ℤ} {runs : List Run} {qids : List Str} {metric : Str}

/-- the ids of the questions -/
def IdsOf (questions : Questions) (qids : List Str) : Prop := ∀ qid, qid ∈ qids ↔ ∃ q ∈ questions.list, q.id = qid

theorem exists_commonIds (hne : runs ≠ []) (h : ∀ run ∈ runs, IsRun questions k run) :
    ∃ qids, commonIds runs = .ok qids ∧ IdsOf questions qids := by
  obtain ⟨run, rest, rfl⟩ := List.exists_cons_of_ne_nil hne
  obtain ⟨hrun, hrest⟩ := List.forall_mem_cons.1 h
  refine ⟨_, rfl, fun qid => ?_⟩
  rw [List.mem_insertionSort, List.mem_filter, hrun.keys, decide_eq_true_iff]
  refine and_iff_left_of_imp fun hq r hr => ?_
  exact ((hrest r hr).keys qid).2 hq

theorem carried_iff (hne : runs ≠ []) (h : ∀ run ∈ runs, IsRun questions k run) {q : EvalQuestion}
    (hq : q ∈ questions.list) : Carried runs metric q.id ↔ metric ∈ metricsOf k q.category := by
  refine ⟨fun ⟨run, hrun, hc⟩ => ((h run hrun).carries q hq metric).1 hc, fun hm => ?_⟩
  obtain ⟨run, hrun⟩ := List.exists_mem_of_ne_nil runs hne
  exact ⟨run, hrun, ((h run hrun).carries q hq metric).2 hm⟩

/-- there are pooled means exactly if some question carries the metric -/
theorem values_pooledMeans_ne_nil (R : Rounding) (hids : IdsOf questions qids) (hne : runs ≠ [])
    (h : ∀ run ∈ runs, IsRun questions k run) :
    (pooledMeans R runs qids metric).values ≠ [] ↔ ∃ q ∈ questions.list, metric ∈ metricsOf k q.category := by
  have hkeys : (pooledMeans R runs qids metric).values ≠ [] ↔ ∃ qid, qid ∈ (pooledMeans R runs qids metric).keys := by
    rw [← List.length_pos_iff, Dict.values, List.length_map, ← List.length_map (f := Prod.fst)]
    exact List.length_pos_iff_exists_mem
  rw [hkeys]
  simp only [Pooled.mem_keys_pooledMeans]
  refine ⟨fun hcarried => ?_, fun hq => ?_⟩
  · obtain ⟨qid, hqid, hc⟩ := hcarried
    obtain ⟨q, hq, rfl⟩ := (hids qid).1 hqid
    exact ⟨q, hq, (carried_iff hne h hq).1 hc⟩
  · obtain ⟨q, hq, hm⟩ := hq
    exact ⟨q.id, (hids q.id).2 ⟨q, hq, rfl⟩, (carried_iff hne h hq).2 hm⟩

end Runs

/-! ## The tables -/

section Tables

variable {R : Rounding} {log2 : ℕ → ℚ} {u : Unicode} {catalogIds : List Str} {questions : Questions} {k : ℤ}
  {batch : System → List Report} {qids : List Str} {runs : List Run} {metric : Str}

theorem completes_mean {xs : List ℚ} : Completes (mean R xs) ↔ xs ≠ [] := by
  unfold mean
  split_ifs with h <;> simp [h]

theorem completes_divide {a b : ℚ} : Completes (divide R a b) ↔ b ≠ 0 := by
  unfold divide
  split_ifs with h <;> simp [h]

theorem completes_lookup {ν : Type} {d : Dict Str ν} {key : Str} : Completes (lookup d key) ↔ (d.get? key).isSome := by
  unfold lookup
  cases d.get? key <;> simp

theorem completes_extremes {xs : List ℚ} (h : xs ≠ []) : Completes (extremes xs) := exists_extremes h

/-- a system has items to abstain on exactly if a question is to be refused -/
theorem Evaluated.abstention_pos (h : Evaluated R log2 u catalogIds questions k batch) (system : System) :
    ((abstention u (batch system)).2 : ℚ) ≠ 0 ↔ ∃ q ∈ questions.list, isAbstention q.category := by
  rw [Nat.cast_ne_zero, ← Nat.pos_iff_ne_zero, abstention, List.length_pos_iff_exists_mem]
  simp only [List.mem_filter, List.mem_flatMap]
  refine ⟨fun ⟨r, ⟨report, hreport, hr⟩, habst⟩ => ?_, fun ⟨q, hq, habst⟩ => ?_⟩
  · obtain ⟨chatModel, answered, rfl⟩ := (h system).2 report hreport
    obtain ⟨q, hq, rfl⟩ := mem_results.1 hr
    exact ⟨q, hq, habst⟩
  · obtain ⟨report, hreport⟩ := List.exists_mem_of_ne_nil _ (h system).1
    obtain ⟨chatModel, answered, rfl⟩ := (h system).2 report hreport
    exact ⟨_, ⟨_, hreport, mem_results.2 ⟨q, hq, rfl⟩⟩, habst⟩

/-- a row of the system means divides by the number of items to abstain on -/
theorem completes_systemRow (h : Evaluated R log2 u catalogIds questions k batch) (hids : IdsOf questions qids)
    (metrics : List Str) (system : System) :
    Completes (systemRow R u catalogIds (batch system) k qids metrics system) ↔
      ∃ q ∈ questions.list, isAbstention q.category := by
  have hlatency : (pooledMeans R (loadRuns u k (batch system)).1 qids "latency_s".toList).values ≠ [] ↔
      ∃ q ∈ questions.list, "latency_s".toList ∈ metricsOf k q.category :=
    values_pooledMeans_ne_nil R hids (h.runs_ne_nil system) (h.isRun system)
  rw [systemRow, Raise.completes_bind_iff fun _ _ => Raise.completes_bind_iff fun _ _ => iff_true_intro (by simp),
    completes_mean, completes_divide, hlatency, h.abstention_pos system, and_true]
  exact and_iff_right_of_imp fun ⟨q, hq, _⟩ => ⟨q, hq, latency_mem_metricsOf q.category⟩

/-- a row of the spread takes the mean of every run -/
theorem completes_spreadRow (hids : IdsOf questions qids) (hne : runs ≠ []) (h : ∀ run ∈ runs, IsRun questions k run)
    (system : System) :
    Completes (spreadRow R qids metric runs system) ↔ ∃ q ∈ questions.list, metric ∈ metricsOf k q.category := by
  have hrun : ∀ run ∈ runs, (Completes (mean R (qids.filterMap fun qid => score? metric qid run)) ↔
      ∃ q ∈ questions.list, metric ∈ metricsOf k q.category) := by
    intro run hrun
    rw [completes_mean, Ne, List.filterMap_eq_nil_iff, not_forall]
    refine ⟨fun ⟨qid, hqid⟩ => ?_, fun ⟨q, hq, hm⟩ => ⟨q.id, fun hno => ?_⟩⟩
    · rw [Classical.not_imp, ← ne_eq, Option.ne_none_iff_isSome] at hqid
      obtain ⟨q, hq, rfl⟩ := (hids qid).1 hqid.1
      exact ⟨q, hq, ((h run hrun).carries q hq metric).1 hqid.2⟩
    · have hc := ((h run hrun).carries q hq metric).2 hm
      rw [Carries, hno ((hids q.id).2 ⟨q, hq, rfl⟩)] at hc
      cases hc
  rw [spreadRow, Raise.completes_bind_iff (P := True), and_true, Raise.completes_mapM]
  · obtain ⟨run, hmem⟩ := List.exists_mem_of_ne_nil runs hne
    exact ⟨fun hall => (hrun run hmem).1 (hall run hmem), fun hex run hmem => (hrun run hmem).2 hex⟩
  · -- as many means as runs
    intro perRun hperRun
    have hperRun' : perRun ≠ [] := by
      rw [← List.length_pos_iff, ← (Raise.forall₂_of_mapM hperRun).length_eq, List.length_pos_iff]
      exact hne
    rw [Raise.completes_bind_iff fun _ _ => Raise.completes_bind_iff fun _ _ => iff_true_intro (by simp)]
    simp [completes_mean, completes_extremes, hperRun']

/-- comparisons lose no question: every run carries the same ones -/
theorem completes_comparisonTable {S : Type} (g : Generator S) {runsOf : System → List Run}
    (h : ∀ system, ∀ run ∈ runsOf system, IsRun questions k run) (hids : IdsOf questions qids) (reference : System)
    (baselines : List System) : Completes (comparisonTable R g runsOf reference baselines qids metric) := by
  have hcarriers (system : System) {qid : Str} (hqid : qid ∈ qids) (hc : Carried (runsOf system) metric qid) :
      carriers (runsOf system) metric qid = (runsOf system).length := by
    obtain ⟨q, hq, rfl⟩ := (hids qid).1 hqid
    obtain ⟨run, hrun, hc⟩ := hc
    refine List.countP_eq_length.2 fun run' hrun' => decide_eq_true ?_
    exact ((h system run' hrun').carries q hq metric).2 (((h system run hrun).carries q hq metric).1 hc)
  rw [comparisonTable, Raise.completes_bind_iff (P := True), and_true, Raise.completes_mapM]
  · intro baseline _
    refine (Raise.completes_bind_iff fun _ _ => iff_true_intro (by simp)).2 ⟨?_, trivial⟩
    refine Pooled.completes_comparePooled R g 0 fun h3 heq qid hqid => ?_
    obtain ⟨hmem, hA, hB⟩ := Pooled.carried_of_mem_shared R ((Pooled.mem_shared R).2 hqid)
    rw [Pooled.Kept, hcarriers reference hmem hA, hcarriers baseline hmem hB]
    omega
  · intro rows _
    cases rows.reduceOption <;> simp

theorem completes_categoryRow {categories : Dict Str Category} (hcat : ∀ qid ∈ qids, (categories.get? qid).isSome)
    (composites : List (Dict Str ℚ)) (category : Category) : Completes (categoryRow R categories composites qids category) := by
  rw [categoryRow, Raise.completes_bind_iff fun _ _ => iff_true_intro (by simp), and_true, Raise.completes_mapM]
  intro qid hqid
  rw [Raise.completes_bind_iff fun _ _ => iff_true_intro (by simp), and_true, completes_lookup]
  exact hcat qid hqid

/-- the number of an id of letters and digits -/
theorem completes_intOf {id : Str} (h : IdShape id) : Completes (intOf (id.dropWhile Char.isUpper)) := by
  obtain ⟨letters, digits, rfl, hletters, hdigits⟩ := h
  have hall : ∀ c ∈ (letters ++ digits).dropWhile Char.isUpper, c.isDigit := by
    induction letters with
    | nil => exact fun c hc => hdigits c ((List.dropWhile_suffix _).subset hc)
    | cons c letters ih =>
      obtain ⟨hc, hletters⟩ := List.forall_mem_cons.1 hletters
      rw [List.cons_append, List.dropWhile_cons_of_pos hc]
      exact ih hletters
  rw [intOf, if_pos (List.all_eq_true.2 hall)]
  exact Raise.completes_ok _

theorem completes_sortKey {names : List Category} {categories : Dict Str Category} {q : EvalQuestion}
    (hcat : categories.get? q.id = some q.category) (hnames : q.category ∈ names) (hshape : IdShape q.id) :
    Completes (sortKey names categories q.id) := by
  have hindex : indexOf names q.category = .ok (names.idxOf q.category) := if_pos hnames
  refine Raise.completes_bind.2 ⟨q.category, by rw [lookup, hcat], Raise.completes_bind.2 ⟨_, hindex, ?_⟩⟩
  rw [Raise.completes_bind_iff fun _ _ => iff_true_intro (by simp), and_true]
  exact completes_intOf hshape

theorem completes_questionRows {names : List Category} {categories : Dict Str Category}
    (hcat : ∀ q ∈ questions.list, categories.get? q.id = some q.category) (hnames : ∀ q ∈ questions.list, q.category ∈ names)
    (hids : IdsOf questions qids) (composites : List (Dict Str ℚ)) :
    Completes (questionRows names categories composites qids) := by
  have hkey : ∀ qid ∈ qids, Completes (sortKey names categories qid) := by
    intro qid hqid
    obtain ⟨q, hq, rfl⟩ := (hids qid).1 hqid
    exact completes_sortKey (hcat q hq) (hnames q hq) (questions.shape q hq)
  rw [questionRows, Raise.completes_bind_iff (P := True), and_true, Raise.completes_mapM]
  · intro qid hqid
    exact (Raise.completes_bind_iff fun _ _ => iff_true_intro (by simp)).2 ⟨hkey qid hqid, trivial⟩
  · intro keyed hkeyed
    refine iff_true_intro (Raise.completes_mapM.2 fun e he => ?_)
    -- a keyed id is one of the ids
    obtain ⟨qid, hqid, hpair⟩ := Raise.exists_of_mem_mapM hkeyed ((List.mem_insertionSort _).1 he)
    obtain ⟨key, hkey⟩ := hkey qid hqid
    rw [hkey] at hpair
    obtain rfl := Except.ok.inj hpair
    obtain ⟨q, hq, rfl⟩ := (hids qid).1 hqid
    rw [Raise.completes_bind_iff fun _ _ => iff_true_intro (by simp), and_true, completes_lookup, hcat q hq]
    rfl

end Tables

/-! ## The statistics of a batch -/

section Render

variable {R : Rounding} {log2 : ℕ → ℚ} {u : Unicode} {catalogIds : List Str} {questions : Questions} {k : ℤ}
  {batch : System → List Report}

theorem mem_distinct {α : Type} [DecidableEq α] {xs : List α} {x : α} : x ∈ distinct xs ↔ x ∈ xs := by
  simp [distinct, Dict.mem_keys_group]

/-- the statistics need a question that is to be refused and one that is ranked -/
theorem completes_renderBatch {S : Type} (g : Generator S) (h : Evaluated R log2 u catalogIds questions k batch)
    (reference : System) :
    Completes (renderBatch R u catalogIds g batch reference) ↔
      (∃ q ∈ questions.list, isAbstention q.category) ∧ ∃ q ∈ questions.list, isRanked q.category := by
  obtain ⟨chatModel, answered, hhead⟩ := h.head reference
  have hfirst : firstOf (batch reference) = .ok (evaluateSystem R log2 u catalogIds chatModel questions.list k answered) := by
    rw [firstOf, hhead]
  have hruns : ∀ run ∈ (reference :: systems.filter (· ≠ reference)).flatMap fun system =>
      (loadRuns u k (batch system)).1, IsRun questions k run := by
    intro run hrun
    obtain ⟨system, -, hrun⟩ := List.mem_flatMap.1 hrun
    exact h.isRun system run hrun
  have hne : ((reference :: systems.filter (· ≠ reference)).flatMap fun system => (loadRuns u k (batch system)).1) ≠ [] := by
    obtain ⟨run, hrun⟩ := List.exists_mem_of_ne_nil _ (h.runs_ne_nil reference)
    exact List.ne_nil_of_mem (List.mem_flatMap.2 ⟨reference, List.mem_cons_self, hrun⟩)
  obtain ⟨qids, hqids, hids⟩ := exists_commonIds hne hruns
  have hcat : ∀ q ∈ questions.list, (Dict.group Result.id (fun _ (r : Result) => r.category)
      (evaluateSystem R log2 u catalogIds chatModel questions.list k answered).results).get? q.id = some q.category :=
    fun q hq => get?_group_id Result.category chatModel answered hq
  refine ⟨fun hc => ?_, fun ⟨habst, hranked⟩ => ?_⟩
  · rw [renderBatch] at hc
    obtain ⟨first, hfirst', hc⟩ := Raise.completes_bind.1 hc
    rw [hfirst] at hfirst'
    obtain rfl := Except.ok.inj hfirst'
    obtain ⟨qids', hqids', hc⟩ := Raise.completes_bind.1 hc
    obtain rfl := Except.ok.inj (hqids.symm.trans hqids')
    obtain ⟨systemRows, hsystem, hc⟩ := Raise.completes_bind.1 hc
    obtain ⟨categoryRows, -, hc⟩ := Raise.completes_bind.1 hc
    obtain ⟨spreadRows, hspread, -⟩ := Raise.completes_bind.1 hc
    refine ⟨?_, ?_⟩
    · have hrow := Raise.completes_mapM.1 ⟨_, hsystem⟩ reference List.mem_cons_self
      exact (completes_systemRow h hids _ reference).1 hrow
    · have hmetric := Raise.completes_mapM.1 ⟨_, hspread⟩ (atK "ndcg" k) List.mem_cons_self
      have hrow := Raise.completes_mapM.1 hmetric reference List.mem_cons_self
      obtain ⟨q, hq, hm⟩ := (completes_spreadRow hids (h.runs_ne_nil reference) (h.isRun reference) reference).1 hrow
      exact ⟨q, hq, ndcg_mem_metricsOf.1 hm⟩
  · obtain ⟨q, hq, hrank⟩ := hranked
    refine Raise.completes_bind.2 ⟨_, hfirst, Raise.completes_bind.2 ⟨_, hqids, ?_⟩⟩
    refine Raise.completes_bind_of (Raise.completes_mapM.2 fun system _ => ?_) fun _ _ => ?_
    · exact (completes_systemRow h hids _ system).2 habst
    refine Raise.completes_bind_of (Raise.completes_mapM.2 fun category _ => ?_) fun _ _ => ?_
    · refine completes_categoryRow (fun qid hqid => ?_) _ category
      obtain ⟨q', hq', rfl⟩ := (hids qid).1 hqid
      rw [hcat q' hq']
      rfl
    refine Raise.completes_bind_of (Raise.completes_mapM.2 fun metric hmetric => ?_) fun _ _ => ?_
    · refine Raise.completes_mapM.2 fun system _ => ?_
      refine (completes_spreadRow hids (h.runs_ne_nil system) (h.isRun system) system).2 ⟨q, hq, ?_⟩
      rcases List.mem_pair.1 hmetric with rfl | rfl
      · exact ndcg_mem_metricsOf.2 hrank
      · exact composite_mem_metricsOf.2 (Or.inl hrank)
    refine Raise.completes_bind_of (Raise.completes_mapM.2 fun metric _ => ?_) fun _ _ => ?_
    · exact completes_comparisonTable g h.isRun hids reference _
    refine Raise.completes_bind_of ?_ fun _ _ => Raise.completes_pure _
    refine completes_questionRows hcat (fun q' hq' => mem_distinct.2 ?_) hids _
    exact List.mem_map.2 ⟨_, Dict.get?_eq_some.1 (hcat q' hq'), rfl⟩

end Render

/-! ## The comparison of a round -/

section Round

variable {R : Rounding} {log2 : ℕ → ℚ} {u : Unicode} {catalogIds : List Str} {questions : Questions} {k : ℤ}
  {files : System → Report}

theorem isSome_primaryScore {q : EvalQuestion} (hq : isRanked q.category) (a : Answered) :
    (primaryScore k (resultOf log2 u catalogIds k q a)).isSome := by
  have hcategory : (resultOf log2 u catalogIds k q a).category = q.category := rfl
  rw [primaryScore, hcategory, if_pos hq, Dict.get?_isSome]
  cases hc : q.category <;> simp_all [resultOf, numbers, mem_keys_setIf, scoreAnswer, isRanked]

/-- the step of `rows` -/
def addScore (k : ℤ) (old : Option QuestionScores) (e : System × Result) : QuestionScores :=
  let row := old.getD ⟨e.2.category, Dict.empty⟩
  { row with scores := row.scores.set e.1 (primaryScore k e.2) }

theorem get_addScore (old : Option QuestionScores) (e : System × Result) (system : System) :
    (addScore k old e).get system =
      if system = e.1 then primaryScore k e.2 else old.bind fun row => row.get system := by
  have hempty : (Dict.empty : Dict System (Option ℚ)).get? system = none := rfl
  unfold addScore QuestionScores.get
  rw [Dict.get?_set]
  split_ifs
  · rfl
  · cases old <;> simp [hempty]

/-- a system that scored an entry of a question has a score in its row -/
theorem get_foldl_addScore {entries : List (System × Result)} {system : System}
    (hall : ∀ e ∈ entries, e.1 = system → (primaryScore k e.2).isSome) (old : Option QuestionScores)
    (h : (∃ row, old = some row ∧ (row.get system).isSome) ∨ ∃ e ∈ entries, e.1 = system) :
    ∃ row, entries.foldl (fun o e => some (addScore k o e)) old = some row ∧ (row.get system).isSome := by
  induction entries generalizing old with
  | nil => exact h.resolve_right (by simp)
  | cons e entries ih =>
    obtain ⟨he, hall⟩ := List.forall_mem_cons.1 hall
    refine ih hall _ ?_
    by_cases hsystem : e.1 = system
    · exact .inl ⟨_, rfl, by rw [get_addScore, if_pos hsystem.symm]; exact he hsystem⟩
    · rcases h with ⟨row, rfl, hrow⟩ | ⟨e', he', hsystem'⟩
      · exact .inl ⟨_, rfl, by rw [get_addScore, if_neg (Ne.symm hsystem)]; exact hrow⟩
      · rcases List.mem_cons.1 he' with rfl | he'
        · exact absurd hsystem' hsystem
        · exact .inr ⟨e', he', hsystem'⟩

theorem completes_cell (row : QuestionScores) {system : System} (hsystem : system ∈ systems) : Completes (cell row system) := by
  unfold cell
  cases hvalue : row.get system with
  | none => simp
  | some value =>
    have hne : systems.filterMap row.get ≠ [] := List.ne_nil_of_mem (List.mem_filterMap.2 ⟨system, hsystem, hvalue⟩)
    obtain ⟨best, hbest⟩ := Option.ne_none_iff_exists'.1 (mt List.max?_eq_none_iff.1 hne)
    simp [hbest]

/-- every system has a mean over all questions if one of them is ranked -/
theorem completes_overallMean {chatModel : System → Str} {answered : System → EvalQuestion → Answered}
    (hfiles : ∀ system, files system =
      evaluateSystem R log2 u catalogIds (chatModel system) questions.list k (answered system))
    {q : EvalQuestion} (hq : q ∈ questions.list) (hrank : isRanked q.category) (system : System) :
    Completes (overallMean R (scoreRows k files) system) := by
  have hmem (system : System) : system ∈ systems := by cases system <;> decide
  -- the entries of the question are its results, one of each system
  have hall : ∀ e ∈ (systems.flatMap fun system => (files system).results.map fun r => (system, r)).filter fun e =>
      e.2.id = q.id, e.1 = system → (primaryScore k e.2).isSome := by
    intro e he _
    rw [List.mem_filter, List.mem_flatMap] at he
    obtain ⟨⟨s, -, he⟩, hid⟩ := he
    obtain ⟨r, hr, rfl⟩ := List.mem_map.1 he
    rw [hfiles] at hr
    obtain ⟨q', hq', rfl⟩ := mem_results.1 hr
    obtain rfl := List.inj_on_of_nodup_map questions.nodup hq' hq (of_decide_eq_true hid)
    exact isSome_primaryScore hrank _
  have hex : ∃ e ∈ (systems.flatMap fun system => (files system).results.map fun r => (system, r)).filter fun e =>
      e.2.id = q.id, e.1 = system := by
    refine ⟨(system, resultOf log2 u catalogIds k q (answered system q)), List.mem_filter.2 ⟨List.mem_flatMap.2 ?_, ?_⟩, rfl⟩
    · exact ⟨system, hmem system, List.mem_map.2 ⟨_, by rw [hfiles]; exact mem_results.2 ⟨q, hq, rfl⟩, rfl⟩⟩
    · exact decide_eq_true rfl
  obtain ⟨row, hrow, hvalue⟩ := get_foldl_addScore hall none (.inr hex)
  obtain ⟨value, hvalue⟩ := Option.isSome_iff_exists.1 hvalue
  have hget : (scoreRows k files).get? q.id = some row := by
    rw [scoreRows, Dict.get?_group]
    exact hrow
  have hentry := Dict.get?_eq_some.1 hget
  rw [overallMean, completes_mean]
  exact List.ne_nil_of_mem (List.mem_filterMap.2 ⟨row, List.mem_map.2 ⟨_, hentry, rfl⟩, hvalue⟩)

/-- the comparison of a round needs a scored question -/
theorem completes_buildReport {chatModel : System → Str} {answered : System → EvalQuestion → Answered}
    (hfiles : ∀ system, files system =
      evaluateSystem R log2 u catalogIds (chatModel system) questions.list k (answered system))
    (hranked : ∃ q ∈ questions.list, isRanked q.category) : Completes (buildReport R files) := by
  obtain ⟨q, hq, hrank⟩ := hranked
  have hk : (files .agent).k = k := by rw [hfiles]; rfl
  rw [buildReport, hk]
  refine Raise.completes_bind_of (Raise.completes_mapM.2 fun e _ => ?_) fun _ _ => ?_
  · exact Raise.completes_bind_of (Raise.completes_mapM.2 fun system hs => completes_cell e.2 hs) fun _ _ =>
      Raise.completes_pure _
  refine Raise.completes_bind_of (Raise.completes_mapM.2 fun system _ => ?_) fun _ _ => ?_
  · exact completes_overallMean hfiles hq hrank system
  refine Raise.completes_bind_of (Raise.completes_mapM.2 fun system _ => ?_) fun _ _ => Raise.completes_pure _
  have hresults : (questions.list.map fun q => resultOf log2 u catalogIds k q (answered system q)) ≠ [] := by
    rw [Ne, List.map_eq_nil_iff]
    exact List.ne_nil_of_mem hq
  rw [latencyOf, hfiles, evaluateSystem, latencyMean, if_neg hresults]
  exact Raise.completes_ok _

end Round

/-! ## Both reports -/

/-- **The reports are total exactly on evaluations with a question that is to be refused and one that is ranked**, whatever the
other questions, the answers, the cutoff, the runs and the reference system. -/
theorem reports_total_iff (R : Rounding) (log2 : ℕ → ℚ) (u : Unicode) (catalogIds : List Str) {S : Type} (g : Generator S)
    (questions : Questions) (k : ℤ) (batch : System → List Report)
    (h : Evaluated R log2 u catalogIds questions k batch) (reference : System) :
    (Completes (renderBatch R u catalogIds g batch reference) ∧
      ∀ files : System → Report, (∀ system, files system ∈ batch system) → Completes (buildReport R files)) ↔
      (∃ q ∈ questions.list, isAbstention q.category) ∧ ∃ q ∈ questions.list, isRanked q.category := by
  rw [completes_renderBatch g h reference]
  refine and_iff_left_of_imp fun ⟨_, hranked⟩ files hfiles => ?_
  choose chatModel answered heq using fun system => (h system).2 (files system) (hfiles system)
  exact completes_buildReport heq hranked

/-- one deterministic question and one that is off topic -/
def twoCategories : Questions where
  list := [⟨"D1".toList, .deterministic, [], ["org/m-1".toList]⟩, ⟨"N7".toList, .offTopic, [], []⟩]
  nodup := by decide
  shape := by
    refine List.forall_mem_cons.2 ⟨⟨"D".toList, "1".toList, rfl, List.all_eq_true.1 (by decide), List.all_eq_true.1 (by decide)⟩, List.forall_mem_singleton.2 ?_⟩
    exact ⟨"N".toList, "7".toList, rfl, List.all_eq_true.1 (by decide), List.all_eq_true.1 (by decide)⟩

/-- the first of them alone -/
def oneCategory : Questions where
  list := [⟨"D1".toList, .deterministic, [], ["org/m-1".toList]⟩]
  nodup := by decide
  shape := List.forall_mem_singleton.2 ⟨"D".toList, "1".toList, rfl, List.all_eq_true.1 (by decide), List.all_eq_true.1 (by decide)⟩

/-- one run of every system, with empty answers -/
def silentBatch (questions : Questions) (_ : System) : List Report :=
  [evaluateSystem .exact (fun _ => 1) .ascii [] [] questions.list 3 fun _ => ⟨[[]], 1⟩]

theorem evaluated_silentBatch (questions : Questions) :
    Evaluated .exact (fun _ => 1) .ascii [] questions 3 (silentBatch questions) := by
  intro system
  exact ⟨List.cons_ne_nil _ _, fun report hreport => ⟨[], _, List.mem_singleton.1 hreport⟩⟩

theorem reports_total_two :
    (Completes (renderBatch .exact .ascii [] Compare.first (silentBatch twoCategories) .agent) ∧
      ∀ files : System → Report, (∀ system, files system ∈ silentBatch twoCategories system) →
        Completes (buildReport .exact files)) ↔
      (∃ q ∈ twoCategories.list, isAbstention q.category) ∧ ∃ q ∈ twoCategories.list, isRanked q.category :=
  reports_total_iff .exact (fun _ => 1) .ascii [] Compare.first twoCategories 3 (silentBatch twoCategories)
    (evaluated_silentBatch twoCategories) .agent

/-- **A batch of one deterministic question divides by zero**: no question is there to be refused. -/
theorem one_question_division : Evaluated .exact (fun _ => 1) .ascii [] oneCategory 3 (silentBatch oneCategory) ∧
    oneCategory.list ≠ [] ∧
    renderBatch .exact .ascii [] Compare.first (silentBatch oneCategory) .agent = .error .zeroDivisionError := by
  refine ⟨evaluated_silentBatch oneCategory, List.cons_ne_nil _ _, ?_⟩
  decide +kernel

end AgentPick.Reports
