/-
Scoring a system and rescoring its report (`evaluation/run.py`, `score_answer` to `rescore_report`).

`evaluate_system` feeds the turns of every question to a system, scores the answers and writes a report; `rescore_report` scores
the answers that the report holds once more. A system is a state machine: a call reads the dialogue so far and returns an answer or
raises (what it raises is an Exception), and the state has the clock. A question has a turn, as `load_dataset` demands.

What is written and read back as JSON is the report itself. The interval of the bootstrap is drawn by a seeded generator; numbers
are rational and rounded as floats are. The ids and the log of a dialogue are left out.

Results:
- `runTurns_length`: a dialogue that returns has an answer to each turn.
- `storedAnswers_resultOf`: the answers can be read back from an entry.
- `rescore_resultOf`, `rescore_evaluate`: rescoring with k is scoring with k.
- `rescore_rescore`: the last rescoring counts.
- `rescoring_agrees`: rescoring with the k of a report gives its scores and summary, with another k the report of that k.
-/
import Mathlib.Tactic
import AgentPick.Evaluation.Reports

namespace AgentPick.Rescore

open Metrics (Category Scores scoreAnswer)
open Compare (bootstrapDiffCi)
open Reports (numbers distinct)

/-! ## Data -/

/-- an `EvalQuestion` -/
structure Dialogue where
  id : Str
  category : Category
  turns : List Str
  expectedModels : List Str
  turns_ne : turns ≠ []

/-- the full question text -/
def Dialogue.question (q : Dialogue) : Str := ['\n'].intercalate q.turns

inductive Role where
  | user
  | assistant
deriving DecidableEq, Repr

structure Message where
  role : Role
  content : Str
deriving DecidableEq, Repr

/-- the dictionary that `score_answer` returns: the predictions, and the numbers under their keys -/
@[ext]
structure ScoreEntry where
  predictedModels : List Str
  numbers : Dict Str ℚ

/-- an entry of `results`; `none` is a key that is not there -/
structure Result where
  id : Str
  category : Category
  question : Str
  expectedModels : List Str
  answer : Option Str
  latencyS : ℚ
  scores : ScoreEntry
  turnAnswers : Option (List Str)
  error : Option Str

structure CategorySummary where
  n : ℕ
  means : Dict Str ℚ
  ci95 : Dict Str (ℚ × ℚ)

structure Summary where
  categories : List (Category × CategorySummary)
  /-- mean and maximum, where there are results -/
  latencyS : Option (ℚ × ℚ)

structure Report where
  system : Str
  chatModel : Str
  k : ℤ
  timestamp : Str
  rescoredAt : Option Str
  summary : Summary
  results : List Result

/-! ## Scoring -/

section Scoring

variable (R : Rounding) (log2 : ℕ → ℚ) (u : Unicode) (catalogIds : List Str) {S : Type} (g : Generator S)

/-- `score_answer`, of the category and the expected models of a question -/
def scoresOf (category : Category) (expectedModels answers : List Str) (k : ℤ) : ScoreEntry :=
  let scores := scoreAnswer log2 u catalogIds ⟨category, expectedModels⟩ answers k
  ⟨scores.predictedModels, numbers k scores⟩

/-- `n_boot` -/
def nBoot : ℤ := 10000

theorem isSome_bootstrap (values : List ℚ) : (bootstrapDiffCi R g values nBoot (g.seeded 0)).isSome := by
  obtain ⟨lo, -, hi, -, h⟩ := Compare.bootstrapDiffCi_of_indexed (g := g) (Pooled.indexed_default R) values (g.seeded 0)
  exact Option.isSome_of_eq_some h

/-- `bootstrap_ci` -/
def bootstrapCi (values : List ℚ) : ℚ × ℚ :=
  let ci := ((bootstrapDiffCi R g values nBoot (g.seeded 0)).get (isSome_bootstrap R g values)).1
  (R.round4 ci.1, R.round4 ci.2)

/-- `round(x, 2)` -/
def round2 (x : ℚ) : ℚ := R.fl ((roundHalfEven (x * 100) : ℚ) / 100)

/-- the numeric keys of the rows, sorted and once each -/
def numericKeys (rows : List Result) : List Str :=
  distinct ((rows.flatMap fun r => r.scores.numbers.keys).insertionSort (· ≤ ·))

/-- `[r["scores"].get(key, 0.0) for r in rows]` -/
def valuesOf (rows : List Result) (key : Str) : List ℚ := rows.map fun r => (r.scores.numbers.get? key).getD 0

def categorySummary (rows : List Result) : CategorySummary where
  n := rows.length
  means := Dict.group (fun key : Str => key) (fun _ key => R.round4 (R.mean (valuesOf rows key))) (numericKeys rows)
  ci95 := if 2 ≤ rows.length then
      Dict.group (fun key : Str => key) (fun _ key => bootstrapCi R g (valuesOf rows key)) (numericKeys rows)
    else Dict.empty

/-- `CATEGORIES` -/
def categories : List Category := [.deterministic, .ranking, .ambiguous, .impossible, .multiTurn, .offTopic]

/-- `summary["latency_s"]` -/
def latency : List Result → Option (ℚ × ℚ)
  | [] => none
  | r :: rest => some
    (round2 R (R.mean ((r :: rest).map Result.latencyS)), round2 R (rest.foldl (fun m r' => max m r'.latencyS) r.latencyS))

/-- `aggregate` -/
def aggregate (results : List Result) : Summary where
  categories := categories.filterMap fun category =>
    match results.filter fun r => r.category = category with
    | [] => none
    | r :: rest => some (category, categorySummary R g (r :: rest))
  latencyS := latency R results

/-! ## Running a system -/

/-- a call of the system under evaluation, and the clock -/
structure System (σ : Type) where
  name : Str
  chatModel : Str
  call : σ → List Message → Except Str Str × σ
  now : σ → ℚ

section Run

variable {σ : Type} (sys : System σ)

/-- the loop of `run_dialogue` -/
def runTurns (messages : List Message) (answers : List Str) : List Str → σ → Except Str (List Str) × σ
  | [], s => (.ok answers, s)
  | turn :: rest, s =>
    match sys.call s (messages ++ [⟨.user, turn⟩]) with
    | (.error e, s') => (.error e, s')
    | (.ok answer, s') =>
      runTurns (messages ++ [⟨.user, turn⟩] ++ [⟨.assistant, answer⟩]) (answers ++ [answer]) rest s'

/-- `run_dialogue` -/
def runDialogue (turns : List Str) (s : σ) : Except Str (List Str) × σ := runTurns sys [] [] turns s

/-- the entry of a question -/
def resultOf (k : ℤ) (q : Dialogue) (answers : List Str) (error : Option Str) (latency : ℚ) : Result where
  id := q.id
  category := q.category
  question := q.question
  expectedModels := q.expectedModels
  answer := some (answers.getLast?.getD [])
  latencyS := latency
  scores := scoresOf log2 u catalogIds q.category q.expectedModels answers k
  turnAnswers := if 1 < q.turns.length then some answers else none
  error := error.filter fun e => !e.isEmpty

/-- one turn of the loop of `evaluate_system`: a failed call is scored as an empty answer -/
def evaluateQuestion (k : ℤ) (q : Dialogue) (s : σ) : Result × σ :=
  match runDialogue sys q.turns s with
  | (.ok answers, s') => (resultOf log2 u catalogIds k q answers none (round2 R (R.fl (sys.now s' - sys.now s))), s')
  | (.error e, s') => (resultOf log2 u catalogIds k q [[]] (some e) (round2 R (R.fl (sys.now s' - sys.now s))), s')

def evaluateQuestions (k : ℤ) : List Dialogue → σ → List Result
  | [], _ => []
  | q :: rest, s =>
    (evaluateQuestion R log2 u catalogIds sys k q s).1 ::
      evaluateQuestions k rest (evaluateQuestion R log2 u catalogIds sys k q s).2

/-- `evaluate_system` -/
def evaluateSystem (timestamp : Str) (questions : List Dialogue) (k : ℤ) (s : σ) : Report where
  system := sys.name
  chatModel := sys.chatModel
  k := k
  timestamp := timestamp
  rescoredAt := none
  summary := aggregate R g (evaluateQuestions R log2 u catalogIds sys k questions s)
  results := evaluateQuestions R log2 u catalogIds sys k questions s

end Run

/-! ## Rescoring -/

/-- `result.get("turn_answers") or [result.get("answer", "")]` -/
def storedAnswers (r : Result) : List Str :=
  match r.turnAnswers with
  | some (answer :: rest) => answer :: rest
  | _ => [r.answer.getD []]

def rescoreResult (k : ℤ) (r : Result) : Result :=
  { r with scores := scoresOf log2 u catalogIds r.category r.expectedModels (storedAnswers r) k }

/-- `rescore_report` -/
def rescoreReport (k : ℤ) (now : Str) (report : Report) : Report :=
  { report with
    results := report.results.map (rescoreResult log2 u catalogIds k)
    k := k
    rescoredAt := some now
    summary := aggregate R g (report.results.map (rescoreResult log2 u catalogIds k)) }

/-! ## What is stored -/

section Stored

variable {σ : Type} (sys : System σ)

/-- an answer to each turn, after those that were there -/
theorem runTurns_length {messages : List Message} {answers as turns : List Str} {s s' : σ}
    (h : runTurns sys messages answers turns s = (.ok as, s')) : as.length = answers.length + turns.length := by
  induction turns generalizing messages answers s with
  | nil =>
    rw [runTurns] at h
    cases h
    rfl
  | cons turn rest ih =>
    rw [runTurns] at h
    split at h
    · cases h
    · have hlength := ih h
      rw [List.length_append, List.length_singleton] at hlength
      rw [hlength, List.length_cons]
      omega

theorem runDialogue_length {turns answers : List Str} {s s' : σ} (h : runDialogue sys turns s = (.ok answers, s')) :
    answers.length = turns.length := by
  rw [runTurns_length sys h, List.length_nil, Nat.zero_add]

variable {log2 u catalogIds}

/-- **The answers can be read back**: those of a dialogue are stored, and that to a single turn is the last one. -/
theorem storedAnswers_resultOf (k : ℤ) {q : Dialogue} {answers : List Str} (hne : answers ≠ [])
    (hsingle : q.turns.length = 1 → answers.length = 1) (error : Option Str) (latency : ℚ) :
    storedAnswers (resultOf log2 u catalogIds k q answers error latency) = answers := by
  unfold storedAnswers resultOf
  by_cases hturns : 1 < q.turns.length
  · obtain ⟨answer, rest, rfl⟩ := List.exists_cons_of_ne_nil hne
    rw [if_pos hturns]
  · have hone : q.turns.length = 1 := by
      have := List.length_pos_iff.2 q.turns_ne
      omega
    obtain ⟨answer, rfl⟩ := List.length_eq_one_iff.1 (hsingle hone)
    rw [if_neg hturns]
    rfl

/-- **Rescoring an entry with k' is scoring with k'.** -/
theorem rescore_resultOf (k k' : ℤ) {q : Dialogue} {answers : List Str} (hne : answers ≠ [])
    (hsingle : q.turns.length = 1 → answers.length = 1) (error : Option Str) (latency : ℚ) :
    rescoreResult log2 u catalogIds k' (resultOf log2 u catalogIds k q answers error latency) =
      resultOf log2 u catalogIds k' q answers error latency := by
  rw [rescoreResult, storedAnswers_resultOf k hne hsingle]
  rfl

variable (log2 u catalogIds)

/-- a question that was answered or failed; the state after it does not depend on k -/
theorem rescore_evaluateQuestion (k k' : ℤ) (q : Dialogue) (s : σ) :
    rescoreResult log2 u catalogIds k' (evaluateQuestion R log2 u catalogIds sys k q s).1 =
        (evaluateQuestion R log2 u catalogIds sys k' q s).1 ∧
      (evaluateQuestion R log2 u catalogIds sys k q s).2 = (evaluateQuestion R log2 u catalogIds sys k' q s).2 := by
  unfold evaluateQuestion
  rcases hrun : runDialogue sys q.turns s with ⟨e | answers, s'⟩
  · -- the empty answer of a failed call
    exact ⟨rescore_resultOf k k' (by simp) (fun _ => rfl) _ _, rfl⟩
  · have hlength := runDialogue_length sys hrun
    have hne : answers ≠ [] := by
      rw [← List.length_pos_iff, hlength]
      exact List.length_pos_iff.2 q.turns_ne
    exact ⟨rescore_resultOf k k' hne (fun hone => hlength.trans hone) _ _, rfl⟩

theorem rescore_evaluateQuestions (k k' : ℤ) (questions : List Dialogue) (s : σ) :
    (evaluateQuestions R log2 u catalogIds sys k questions s).map (rescoreResult log2 u catalogIds k') =
      evaluateQuestions R log2 u catalogIds sys k' questions s := by
  induction questions generalizing s with
  | nil => rfl
  | cons q rest ih =>
    obtain ⟨hresult, hstate⟩ := rescore_evaluateQuestion R log2 u catalogIds sys k k' q s
    rw [evaluateQuestions, evaluateQuestions, List.map_cons, hresult, hstate, ih]

/-- **Rescoring a report with k' makes it the report of k'.** -/
theorem rescore_evaluate (k k' : ℤ) (now timestamp : Str) (questions : List Dialogue) (s : σ) :
    rescoreReport R log2 u catalogIds g k' now (evaluateSystem R log2 u catalogIds g sys timestamp questions k s) =
      { evaluateSystem R log2 u catalogIds g sys timestamp questions k' s with rescoredAt := some now } := by
  rw [rescoreReport, evaluateSystem, rescore_evaluateQuestions]
  rfl

end Stored

/-! ## Rescoring twice -/

/-- scores leave the answers as they are -/
theorem rescoreResult_rescoreResult (k₁ k₂ : ℤ) (r : Result) :
    rescoreResult log2 u catalogIds k₂ (rescoreResult log2 u catalogIds k₁ r) = rescoreResult log2 u catalogIds k₂ r := rfl

/-- **The last rescoring counts.** -/
theorem rescore_rescore (k₁ k₂ : ℤ) (now₁ now₂ : Str) (report : Report) :
    rescoreReport R log2 u catalogIds g k₂ now₂ (rescoreReport R log2 u catalogIds g k₁ now₁ report) =
      rescoreReport R log2 u catalogIds g k₂ now₂ report := by
  have hresults : (report.results.map (rescoreResult log2 u catalogIds k₁)).map (rescoreResult log2 u catalogIds k₂) =
      report.results.map (rescoreResult log2 u catalogIds k₂) := by
    rw [List.map_map]
    exact List.map_congr_left fun r _ => rescoreResult_rescoreResult log2 u catalogIds k₁ k₂ r
  unfold rescoreReport
  rw [hresults]

/-- the entries with their scores, the summary and the cutoff of a report -/
structure Agree (a b : Report) : Prop where
  results : a.results = b.results
  summary : a.summary = b.summary
  k : a.k = b.k

/-- **Rescoring agrees with scoring**: with the same k it reproduces the scores and the summary that were written, with any k' it
gives the report that an evaluation with k' writes, and after two rescorings the report is as after the last one alone. -/
theorem rescoring_agrees {σ : Type} (sys : System σ) (timestamp : Str) (questions : List Dialogue) (k : ℤ) (s : σ) :
    let report := evaluateSystem R log2 u catalogIds g sys timestamp questions k s
    (∀ now, Agree (rescoreReport R log2 u catalogIds g k now report) report) ∧
      (∀ k' now, rescoreReport R log2 u catalogIds g k' now report =
        { evaluateSystem R log2 u catalogIds g sys timestamp questions k' s with rescoredAt := some now }) ∧
      ∀ k₁ k₂ now₁ now₂ now, Agree
        (rescoreReport R log2 u catalogIds g k₂ now₂ (rescoreReport R log2 u catalogIds g k₁ now₁ report))
        (rescoreReport R log2 u catalogIds g k₂ now report) := by
  refine ⟨fun now => ?_, fun k' now => ?_, fun k₁ k₂ now₁ now₂ now => ?_⟩
  · rw [rescore_evaluate]
    exact ⟨rfl, rfl, rfl⟩
  · exact rescore_evaluate R log2 u catalogIds g sys k k' now timestamp questions s
  · rw [rescore_rescore]
    exact ⟨rfl, rfl, rfl⟩

end Scoring

end AgentPick.Rescore
