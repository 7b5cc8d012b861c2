/-
The reports over result files (`evaluation/run.py`, `evaluate_system`; `evaluation/pooled.py`, `load_runs`;
`evaluation/thesis_stats.py`, `render_batch`; `evaluation/report.py`, `build_report`).

`evaluate_system` writes a result file for a system: an entry per question, with the scores of its category. `render_batch` reads
the files of a batch, some runs of each of the four systems, and `build_report` reads one file of each. Both make tables; the
tables are modelled with their numbers, the text around them is not. A file is what it holds as JSON.

Numbers are rational and rounded as floats are; the binary logarithm is a parameter. The table of the spread has the variance in
place of its root.

Results:
- `get?_loadRun`: a loaded run has the entry of every question.
-/
import Mathlib.Tactic
import Mathlib.Data.Prod.Lex
import AgentPick.Evaluation.Holm
import AgentPick.Evaluation.Metrics
import AgentPick.Evaluation.Pooled

namespace AgentPick.Reports

open Extract (norm catalogKeys)
open Metrics (Category Question Scores scoreAnswer)
open Pooled (Run Row score? pooledMeans comparePooled extremes)

/-! ## Result files -/

/-- `SYSTEMS` -/
inductive System where
  | agent
  | llmOnly
  | singleRound
  | qdrantOnly
deriving DecidableEq, Repr

def systems : List System := [.agent, .llmOnly, .singleRound, .qdrantOnly]

/-- capital letters, then digits -/
def IdShape (id : Str) : Prop :=
  ∃ letters digits : Str, id = letters ++ digits ∧ (∀ c ∈ letters, c.isUpper) ∧ ∀ c ∈ digits, c.isDigit

structure EvalQuestion where
  id : Str
  category : Category
  question : Str
  expectedModels : List Str

/-- questions of the dataset: their ids are distinct, letters and digits -/
structure Questions where
  list : List EvalQuestion
  nodup : (list.map EvalQuestion.id).Nodup
  shape : ∀ q ∈ list, IdShape q.id

/-- an entry of `results` -/
structure Result where
  id : Str
  category : Category
  question : Str
  predictedModels : List Str
  /-- the numbers among the scores -/
  scores : Dict Str ℚ
  latencyS : ℚ

/-- a result file -/
structure Report where
  chatModel : Str
  k : ℤ
  results : List Result
  /-- `summary["latency_s"]["mean"]` -/
  meanLatency : Option ℚ

/-- what came back for a question: the answers of its turns, and the latency -/
structure Answered where
  answers : List Str
  latencyS : ℚ

/-- `f"{name}@{k}"` -/
def atK (name : String) (k : ℤ) : Str := name.toList ++ '@' :: (toString k).toList

/-- `d[key] = value`, where there is a value -/
def setIf (d : Dict Str ℚ) (key : Str) : Option ℚ → Dict Str ℚ
  | none => d
  | some value => d.set key value

/-- the numbers that `score_answer` returns, under their keys -/
def numbers (k : ℤ) (s : Scores ℚ) : Dict Str ℚ :=
  let d := setIf Dict.empty (atK "precision" k) s.precisionAtK
  let d := setIf d (atK "recall" k) s.recallAtK
  let d := setIf d "mrr".toList s.mrr
  let d := setIf d (atK "ndcg" k) s.ndcgAtK
  setIf d "mentions_expected".toList s.mentionsExpected

section Evaluate

variable (R : Rounding) (log2 : ℕ → ℚ) (u : Unicode) (catalogIds : List Str)

/-- the entry of a question -/
def resultOf (k : ℤ) (q : EvalQuestion) (a : Answered) : Result :=
  let scores := scoreAnswer log2 u catalogIds ⟨q.category, q.expectedModels⟩ a.answers k
  { id := q.id
    category := q.category
    question := q.question
    predictedModels := scores.predictedModels
    scores := numbers k scores
    latencyS := a.latencyS }

/-- `round(statistics.mean(...), 2)`, where there are results -/
def latencyMean (results : List Result) : Option ℚ :=
  if results = [] then none
  else some (R.fl ((roundHalfEven (R.mean (results.map Result.latencyS) * 100) : ℚ) / 100))

/-- `evaluate_system` -/
def evaluateSystem (chatModel : Str) (questions : List EvalQuestion) (k : ℤ) (answered : EvalQuestion → Answered) : Report where
  chatModel := chatModel
  k := k
  results := questions.map fun q => resultOf log2 u catalogIds k q (answered q)
  meanLatency := latencyMean R (questions.map fun q => resultOf log2 u catalogIds k q (answered q))

end Evaluate

/-! ## Loading -/

/-- `RANKED_CATEGORIES` -/
def isRanked : Category → Bool
  | .deterministic | .ranking | .multiTurn => true
  | _ => false

/-- `ABSTENTION_CATEGORIES` -/
def isAbstention : Category → Bool
  | .impossible | .offTopic => true
  | _ => false

/-- `_composite` -/
def composite (k : ℤ) (r : Result) : Option ℚ :=
  if isRanked r.category then some ((r.scores.get? (atK "ndcg" k)).getD 0)
  else if r.category = .ambiguous then some ((r.scores.get? "mentions_expected".toList).getD 0)
  else none

/-- the metrics of an entry -/
def runScores (k : ℤ) (r : Result) : Dict Str ℚ :=
  setIf (r.scores.set "latency_s".toList r.latencyS) "composite".toList (composite k r)

def loadRun (k : ℤ) (report : Report) : Run := Dict.group Result.id (fun _ r => runScores k r) report.results

section Load

variable (u : Unicode) (catalogIds : List Str)

/-- `_system_picks`: the ids that do not occur in the question -/
def systemPicks (r : Result) : List Str := r.predictedModels.filter fun m => ¬ u.fold m <:+: u.fold r.question

/-- `load_runs` -/
def loadRuns (k : ℤ) (reports : List Report) : List Run × List Str :=
  (reports.map (loadRun k), (reports.flatMap Report.results).flatMap (systemPicks u))

/-- `out_of_catalog_rate` -/
def outOfCatalogRate (R : Rounding) (predictions : List Str) : ℚ × ℕ × ℕ :=
  let misses := predictions.countP fun p => norm u p ∉ catalogKeys u catalogIds
  let total := predictions.length
  (if total = 0 then 0 else R.fl (misses / total), misses, total)

/-- `_abstention`: the items with a pick, and all items -/
def abstention (reports : List Report) : ℕ × ℕ :=
  let items := (reports.flatMap Report.results).filter fun r => isAbstention r.category
  (items.countP fun r => systemPicks u r ≠ [], items.length)

end Load

/-! ## What can raise -/

section Raising

variable (R : Rounding)

/-- `statistics.mean(xs)` -/
def mean (xs : List ℚ) : Except Exc ℚ := if xs = [] then .error .statisticsError else .ok (R.mean xs)

/-- `statistics.mean(xs) if xs else None` -/
def meanOrNone (xs : List ℚ) : Option ℚ := if xs = [] then none else some (R.mean xs)

/-- `a / b` -/
def divide (a b : ℚ) : Except Exc ℚ := if b = 0 then .error .zeroDivisionError else .ok (R.fl (a / b))

/-- `d[key]` -/
def lookup {ν : Type} (d : Dict Str ν) (key : Str) : Except Exc ν :=
  match d.get? key with
  | some value => .ok value
  | none => .error (.keyError key)

/-- `int(text or 0)`, of a text of digits -/
def intOf (text : Str) : Except Exc ℕ :=
  if text.all Char.isDigit then .ok (text.foldl (fun n c => 10 * n + (c.toNat - '0'.toNat)) 0) else .error .valueError

/-- `sorted(set.intersection(*runs))` -/
def commonIds : List Run → Except Exc (List Str)
  | [] => .error .typeError
  | run :: runs => .ok ((run.keys.filter fun qid => ∀ r ∈ runs, qid ∈ r.keys).insertionSort (· ≤ ·))

/-- `list(dict.fromkeys(xs))` -/
def distinct {α : Type} [DecidableEq α] (xs : List α) : List α := (Dict.group (fun x : α => x) (fun _ _ => ()) xs).keys

end Raising

/-! ## The statistics of a batch -/

structure SystemRow where
  system : System
  means : List (Option ℚ)
  latency : ℚ
  outOfCatalog : ℚ × ℕ × ℕ
  /-- the share of the silent items, their number, all items -/
  silent : ℚ × ℕ × ℕ
deriving DecidableEq, Repr

structure CategoryRow where
  category : Category
  n : ℕ
  means : List (Option ℚ)
deriving DecidableEq, Repr

structure SpreadRow where
  metric : Str
  system : System
  mean : ℚ
  /-- of more than one run -/
  variance : Option ℚ
  range : ℚ × ℚ
deriving DecidableEq, Repr

structure ComparisonTable where
  metric : Str
  n : ℕ
  /-- baseline, comparison, adjusted p-value -/
  rows : List (System × Row × ℚ)
deriving DecidableEq, Repr

structure QuestionRow where
  id : Str
  category : Category
  composites : List (Option ℚ)
deriving DecidableEq, Repr

structure Section where
  chatModel : Str
  runs : List ℕ
  scoredAnswers : ℕ
  k : ℤ
  /-- the questions with an nDCG, with a composite, and all -/
  counts : ℕ × ℕ × ℕ
  systemRows : List SystemRow
  categoryRows : List CategoryRow
  spreadRows : List SpreadRow
  comparisons : List (Option ComparisonTable)
  questionRows : List QuestionRow
deriving DecidableEq, Repr

section Render

variable (R : Rounding) (u : Unicode) (catalogIds : List Str) {S : Type} (g : Generator S)

/-- a row of the system means -/
def systemRow (reports : List Report) (k : ℤ) (qids metrics : List Str) (system : System) : Except Exc SystemRow := do
  let (runs, predictions) := loadRuns u k reports
  let means := metrics.map fun metric => meanOrNone R (pooledMeans R runs qids metric).values
  let (named, nAbs) := abstention u reports
  let latency ← mean R (pooledMeans R runs qids "latency_s".toList).values
  let share ← divide R named nAbs
  return {
    system := system
    means := means
    latency := latency
    outOfCatalog := outOfCatalogRate u catalogIds R predictions
    silent := (R.fl (1 - share), nAbs - named, nAbs) }

/-- a row of the per-category means -/
def categoryRow (categories : Dict Str Category) (composites : List (Dict Str ℚ)) (qids : List Str) (category : Category) :
    Except Exc CategoryRow := do
  let pairs ← qids.mapM fun qid => do return (qid, ← lookup categories qid)
  let members := (pairs.filter fun e => e.2 = category).map Prod.fst
  return {
    category := category
    n := members.length
    means := composites.map fun composite => meanOrNone R (members.filterMap composite.get?) }

/-- the squares that `statistics.stdev` takes the root of -/
def variance (xs : List ℚ) : ℚ := (xs.map fun x => (x - xs.sum / xs.length) ^ 2).sum / (xs.length - 1)

/-- a row of the run-to-run spread -/
def spreadRow (qids : List Str) (metric : Str) (runs : List Run) (system : System) : Except Exc SpreadRow := do
  let perRun ← runs.mapM fun run => mean R (qids.filterMap fun qid => score? metric qid run)
  let average ← mean R perRun
  let range ← extremes perRun
  return {
    metric := metric
    system := system
    mean := average
    variance := if 1 < perRun.length then some (variance perRun) else none
    range := range }

/-- the comparisons of a metric with every baseline, `none` where there is none -/
def comparisonTable (runs : System → List Run) (reference : System) (baselines : List System) (qids : List Str)
    (metric : Str) : Except Exc (Option ComparisonTable) := do
  let rows ← baselines.mapM fun baseline => do
    let row ← comparePooled R g (runs reference) (runs baseline) qids metric 0
    return row.map fun row => (baseline, row)
  match rows.reduceOption with
  | [] => return none
  | first :: rest =>
    let comparisons := first :: rest
    let adjusted := Holm.holm (comparisons.map fun e => e.2.pValue)
    return some {
      metric := metric
      n := first.2.n
      rows := List.zipWith (fun e holmP => (e.1, e.2, holmP)) comparisons adjusted }

/-- `names.index(category)` -/
def indexOf (names : List Category) (category : Category) : Except Exc ℕ :=
  if category ∈ names then .ok (names.idxOf category) else .error .valueError

/-- `names.index(categories[q])`, the letters of q, the number of q -/
def sortKey (names : List Category) (categories : Dict Str Category) (qid : Str) : Except Exc (ℕ ×ₗ Str ×ₗ ℕ) := do
  let category ← lookup categories qid
  let index ← indexOf names category
  let number ← intOf (qid.dropWhile Char.isUpper)
  return toLex (index, toLex (qid.rdropWhile Char.isDigit, number))

/-- the rows of the pooled composites, in their order -/
def questionRows (names : List Category) (categories : Dict Str Category) (composites : List (Dict Str ℚ))
    (qids : List Str) : Except Exc (List QuestionRow) := do
  let keyed ← qids.mapM fun qid => do return (← sortKey names categories qid, qid)
  (keyed.insertionSort fun e e' => e.1 ≤ e'.1).mapM fun e => do
    let category ← lookup categories e.2
    return { id := e.2, category := category, composites := composites.map fun composite => composite.get? e.2 }

/-- `paths[reference][0]` -/
def firstOf (reports : List Report) : Except Exc Report :=
  match reports.head? with
  | some report => .ok report
  | none => .error .indexError

/-- `render_batch` -/
def renderBatch (batch : System → List Report) (reference : System) : Except Exc Section := do
  let order := reference :: systems.filter (· ≠ reference)
  let first ← firstOf (batch reference)
  let k := first.k
  let categories := Dict.group Result.id (fun _ (r : Result) => r.category) first.results
  let runs := fun system => (loadRuns u k (batch system)).1
  let qids ← commonIds (order.flatMap runs)
  let metrics := [atK "precision" k, atK "recall" k, "mrr".toList, atK "ndcg" k, "composite".toList]
  let systemRows ← order.mapM fun system => systemRow R u catalogIds (batch system) k qids metrics system
  let names := distinct categories.values
  let composites := order.map fun system => pooledMeans R (runs system) qids "composite".toList
  let categoryRows ← names.mapM (categoryRow R categories composites qids)
  let spreadRows ← [atK "ndcg" k, "composite".toList].mapM fun metric =>
    order.mapM fun system => spreadRow R qids metric (runs system) system
  let comparisons ← metrics.mapM (comparisonTable R g runs reference (order.filter (· ≠ reference)) qids)
  let questionRows ← questionRows names categories composites qids
  return {
    chatModel := first.chatModel
    runs := (distinct (order.map fun system => (runs system).length)).insertionSort (· ≤ ·)
    scoredAnswers := (systems.map fun system => (batch system).length).sum * qids.length
    k := k
    counts := ((pooledMeans R (runs reference) qids (atK "ndcg" k)).keys.length,
      (pooledMeans R (runs reference) qids "composite".toList).keys.length, qids.length)
    systemRows := systemRows
    categoryRows := categoryRows
    spreadRows := spreadRows.flatten
    comparisons := comparisons
    questionRows := questionRows }

end Render

/-! ## The comparison of a round -/

/-- a row of `rows`: the category of the question, and what each system scored -/
structure QuestionScores where
  category : Category
  scores : Dict System (Option ℚ)

structure CategoryMeans where
  category : Category
  means : List (Option ℚ)
  n : ℕ
deriving DecidableEq, Repr

structure RoundReport where
  chatModel : Str
  k : ℤ
  /-- per question: its category, and of each system the score and whether it stands in bold -/
  questions : List (Str × Category × List (Option (ℚ × Bool)))
  categories : List CategoryMeans
  overall : List ℚ
  scored : ℕ
  latency : List ℚ
deriving DecidableEq, Repr

/-- `primary_score` -/
def primaryScore (k : ℤ) (r : Result) : Option ℚ :=
  if isRanked r.category then r.scores.get? (atK "ndcg" k)
  else if r.category = .ambiguous then r.scores.get? "mentions_expected".toList
  else none

/-- `row.get(system)`; a score that is None is as good as none -/
def QuestionScores.get (row : QuestionScores) (system : System) : Option ℚ := (row.scores.get? system).join

/-- `rows`: the score of every system, question by question -/
def scoreRows (k : ℤ) (files : System → Report) : Dict Str QuestionScores :=
  Dict.group (fun e : System × Result => e.2.id)
    (fun old e =>
      let row := old.getD ⟨e.2.category, Dict.empty⟩
      { row with scores := row.scores.set e.1 (primaryScore k e.2) })
    (systems.flatMap fun system => (files system).results.map fun r => (system, r))

/-- `fmt`: the score, and whether it is the best one and positive -/
def cell (row : QuestionScores) (system : System) : Except Exc (Option (ℚ × Bool)) :=
  match row.get system with
  | none => .ok none
  | some value =>
    match (systems.filterMap row.get).max? with
    | none => .error .valueError
    | some best => .ok (some (value, decide (value = best ∧ 0 < best)))

/-- the mean of a system over all questions that it has a score for -/
def overallMean (R : Rounding) (rows : Dict Str QuestionScores) (system : System) : Except Exc ℚ :=
  mean R (rows.values.filterMap fun row => row.get system)

/-- `summary["latency_s"]["mean"]` -/
def latencyOf (report : Report) : Except Exc ℚ :=
  match report.meanLatency with
  | some latency => .ok latency
  | none => .error (.keyError "latency_s".toList)

/-- `build_report` -/
def buildReport (R : Rounding) (files : System → Report) : Except Exc RoundReport := do
  let k := (files .agent).k
  let rows := scoreRows k files
  let questions ← rows.entries.mapM fun e => do
    let cells ← systems.mapM (cell e.2)
    return (e.1, e.2.category, cells)
  let categories := (distinct (rows.values.map QuestionScores.category)).map fun category =>
    let members := rows.values.filter fun row => row.category = category
    { category := category
      means := systems.map fun system => meanOrNone R (members.filterMap fun row => row.get system)
      n := members.length : CategoryMeans }
  let overall ← systems.mapM (overallMean R rows)
  let latency ← systems.mapM fun system => latencyOf (files system)
  return {
    chatModel := (files .agent).chatModel
    k := k
    questions := questions
    categories := categories
    overall := overall
    scored := rows.values.countP fun row => systems.any fun system => (row.get system).isSome
    latency := latency }

end AgentPick.Reports
