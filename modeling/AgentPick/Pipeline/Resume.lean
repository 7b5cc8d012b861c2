/-
Histories of vectorizer runs over one data directory: constructions, runs, completions, exceptions and kills
(`hf_vectorizer/vectorizer.py`, `__init__` and `run`).

The machine takes one event at a time: a vectorizer is constructed and reads `processed_models.txt`; a run starts (it
fetches the models and reads the largest id out of `embeddings.parquet`), processes one model per event and finishes with
the last flush and the close; after an exception it is exiting; `stop` ends the process at any point, and the file it had
open may or may not be finalised. `written` is a ghost: every row `write_table` accepted, in order, over the whole
history; no event reads it.

Results:
- `exec_run`: a run of the machine is `Vectorizer.run`.
- `step_inv`, `exec_inv`: as long as no event opens a new `pq.ParquetWriter` over rows, the rows of the file are exactly the
  rows ever written, and every listed model has one.
- `resume_keeps`: such a history keeps, after each completed run, every row ever written.
- `resume_loses`: two completed runs with one model each; the second truncates the first one's rows.
-/
import Mathlib.Tactic
import AgentPick.Pipeline.Vectorizer

namespace AgentPick.Resume

open AgentPick.Records AgentPick.Storage AgentPick.Vectorizer

/-! ## The machine -/

inductive Phase where
  /-- no vectorizer -/
  | off
  | idle
  | running (pointId : ℕ)
  /-- `sys.exit(1)` -/
  | exiting
deriving DecidableEq, Repr

structure Sys where
  data : Data
  phase : Phase
  written : List Record
deriving DecidableEq, Repr

inductive Event where
  | construct
  /-- `fetch_all_models` returns or raises, then the resume scan -/
  | start (fetched : Bool)
  | process (t : Task)
  | finish (finalFault : Fault) (closeRaises : Bool)
  /-- the process ends; the open file may be finalised -/
  | stop (finalised : Bool)

section Machine

variable (embed : Str → Vec) (batchSize : ℕ)

/-- the table a call of `process_model` writes when its flush returns -/
def table (t : Task) (d : Data) (pointId : ℕ) : List Record :=
  match prepare embed batchSize t.call pointId with
  | .ok records => d.store.buffer ++ records
  | .error _ => []

/-- the file after the process ended -/
def fileAfterStop (finalised : Bool) (s : Store) : Option PFile := if finalised then (close false s).1.file else s.file

def step (s : Sys) : Event → Option Sys
  | .construct =>
    match s.phase with
    | .off | .idle => some { s with data := Data.new s.data.store.file s.data.lines, phase := .idle }
    | _ => none
  | .start fetched =>
    match s.phase with
    | .idle =>
      match fetched, resumePoint s.data.store.file with
      | true, some pointId => some { s with phase := .running pointId }
      | _, _ => some { s with phase := .exiting }
    | _ => none
  | .process t =>
    match s.phase with
    | .running pointId =>
      let r := processModel embed batchSize t s.data pointId
      some ⟨r.2.1, .running r.2.2,
        s.written ++ if r.1.wrote then table embed batchSize t s.data pointId else []⟩
    | _ => none
  | .finish finalFault closeRaises =>
    match s.phase with
    | .running _ =>
      let r := finish finalFault closeRaises s.data
      some ⟨r.1, if r.2 then .idle else .exiting,
        s.written ++ if (flush finalFault s.data.store).2 then s.data.store.buffer else []⟩
    | _ => none
  | .stop finalised =>
    match s.phase with
    | .off => none
    | _ => some { s with data := Data.new (fileAfterStop finalised s.data.store) s.data.lines, phase := .off }

/-- the state after a history, `none` when an event of it is not possible -/
def exec : Sys → List Event → Option Sys
  | s, [] => some s
  | s, e :: es =>
    match step embed batchSize s e with
    | none => none
    | some s' => exec s' es

/-- an empty data directory and no process -/
def init : Sys := ⟨Data.new none [], .off, []⟩

/-- the event calls `pq.ParquetWriter(path, schema)` -/
def opens (s : Sys) : Event → Bool
  | .process t =>
    match s.phase with
    | .running pointId =>
      match prepare embed batchSize t.call pointId with
      | .ok records => decide (t.call.modelId ∉ s.data.processed) &&
          decide (creates (writeFault t.addFault t.flushFault records s.data.store) (s.data.store.extend records))
      | .error _ => false
    | _ => false
  | .finish finalFault _ =>
    match s.phase with
    | .running _ => decide (creates finalFault s.data.store)
    | _ => false
  | _ => false

/-- in the whole history a writer is opened only on a file without rows -/
def opensFresh : Sys → List Event → Bool
  | _, [] => true
  | s, e :: es =>
    (!opens embed batchSize s e || s.data.rows.isEmpty) &&
      match step embed batchSize s e with
      | none => true
      | some s' => opensFresh s' es

/-- the rows a reader of `embeddings.parquet` sees -/
def readableRows (file : Option PFile) : List Record := if readable file then rowsOf file else []

/-- every listed model has rows and every row written for it is there; so is every other row written -/
structure Kept (s : Sys) : Prop where
  listed : ∀ m ∈ s.data.lines, (∃ r ∈ s.written, r.modelId = m) ∧
    ∀ r ∈ s.written, r.modelId = m → r ∈ readableRows s.data.store.file
  all : ∀ r ∈ s.written, r ∈ readableRows s.data.store.file

theorem exec_cons (s : Sys) (e : Event) (es : List Event) :
    exec embed batchSize s (e :: es) = (step embed batchSize s e).bind fun s' => exec embed batchSize s' es := by
  simp only [exec]
  cases step embed batchSize s e <;> rfl

theorem exec_append (s : Sys) (es es' : List Event) :
    exec embed batchSize s (es ++ es') = (exec embed batchSize s es).bind fun s' => exec embed batchSize s' es' := by
  induction es generalizing s with
  | nil => rfl
  | cons e es ih =>
    rw [List.cons_append, exec_cons, exec_cons]
    cases step embed batchSize s e with
    | none => rfl
    | some s' => exact ih s'

theorem step_process {s : Sys} {pointId : ℕ} (hp : s.phase = .running pointId) (t : Task) :
    step embed batchSize s (.process t) =
      some ⟨(processModel embed batchSize t s.data pointId).2.1,
        .running (processModel embed batchSize t s.data pointId).2.2,
        s.written ++ if (processModel embed batchSize t s.data pointId).1.wrote
          then table embed batchSize t s.data pointId else []⟩ := by
  simp only [step, hp]

theorem step_finish {s : Sys} {pointId : ℕ} (hp : s.phase = .running pointId) (finalFault : Fault)
    (closeRaises : Bool) :
    step embed batchSize s (.finish finalFault closeRaises) =
      some ⟨(finish finalFault closeRaises s.data).1,
        if (finish finalFault closeRaises s.data).2 then .idle else .exiting,
        s.written ++ if (flush finalFault s.data.store).2 then s.data.store.buffer else []⟩ := by
  simp only [step, hp]

/-! ## A run of the machine is a run of the vectorizer -/

theorem exec_runModels (tasks : List Task) (s : Sys) {pointId : ℕ} (hp : s.phase = .running pointId)
    (os : List Outcome) :
    ∃ s', exec embed batchSize s (tasks.map .process) = some s' ∧
      s'.data = (runModels embed batchSize tasks ⟨os, s.data, pointId⟩).data ∧
      s'.phase = .running (runModels embed batchSize tasks ⟨os, s.data, pointId⟩).pointId := by
  induction tasks generalizing s pointId os with
  | nil => exact ⟨s, rfl, rfl, hp⟩
  | cons t ts ih =>
    rw [List.map_cons, exec_cons, step_process _ _ hp]
    exact ih _ rfl _

/-- **One run.** From an idle vectorizer whose file can be read, starting, processing the models and finishing is
`Vectorizer.run`, and it completes when `run` does. -/
theorem exec_run (tasks : List Task) (finalFault : Fault) (closeRaises : Bool) (s : Sys) (hi : s.phase = .idle)
    {pointId : ℕ} (hp : resumePoint s.data.store.file = some pointId) :
    ∃ s', exec embed batchSize s (.start true :: (tasks.map .process ++ [.finish finalFault closeRaises])) = some s' ∧
      s'.data = (run embed batchSize tasks finalFault closeRaises s.data).2.1 ∧
      (s'.phase = .idle ↔ (run embed batchSize tasks finalFault closeRaises s.data).2.2 = true) := by
  have hstart : step embed batchSize s (.start true) = some { s with phase := .running pointId } := by
    simp [step, hi, hp]
  obtain ⟨s1, h1, hd, hph⟩ := exec_runModels embed batchSize tasks { s with phase := .running pointId } rfl []
  rw [exec_cons, hstart, Option.bind_some, exec_append, h1, Option.bind_some]
  rw [exec_cons, step_finish _ _ hph]
  refine ⟨_, rfl, ?_, ?_⟩
  · simp only [hd, run, hp]
  · simp only [hd, run, hp]
    split_ifs with h <;> simp [h]

/-! ## What is kept -/

/-- the file holds exactly what was written, and every listed model has a row -/
structure Inv (s : Sys) : Prop where
  rows : s.data.rows = s.written
  listed : ∀ m ∈ s.data.lines, ∃ r ∈ s.written, r.modelId = m

theorem init_inv : Inv init := ⟨rfl, by simp [init, Data.new]⟩

variable {embed batchSize}

theorem process_inv {s : Sys} (h : Inv s) {pointId : ℕ} (hp : s.phase = .running pointId) (t : Task)
    (hg : opens embed batchSize s (.process t) = true → s.data.rows = []) {s' : Sys}
    (hs : step embed batchSize s (.process t) = some s') : Inv s' := by
  rw [step_process _ _ hp] at hs
  obtain rfl := Option.some.inj hs
  rcases processModel_cases embed batchSize t s.data pointId with
    e | ⟨records, hm, hpr, store, hcases⟩
  · rw [e]
    exact ⟨by simpa [Outcome.wrote] using h.rows, by simpa [Outcome.wrote] using h.listed⟩
  have htab : table embed batchSize t s.data pointId = s.data.store.buffer ++ records := by simp [table, hpr]
  -- a call that opens the file finds it without rows
  have hcr : creates (writeFault t.addFault t.flushFault records s.data.store) (s.data.store.extend records) →
      rowsOf s.data.store.file = [] := fun hc => hg (by simp [opens, hp, hpr, hm, hc])
  have hrows : rowsOf s.data.store.file = s.written := h.rows
  rcases hcases with ⟨hw, e⟩ | ⟨hw, e | ⟨o, p, ho, e⟩⟩
  · rw [e]
    have hr := (write_rows hcr hw).1
    exact ⟨by simpa [Outcome.wrote, Data.rows, hrows] using hr, by simpa [Outcome.wrote] using h.listed⟩
  · rw [e, htab]
    have hr := (write_rows hcr hw).1
    refine ⟨by simpa [Outcome.wrote, Data.rows, hrows] using hr, fun m hl => ?_⟩
    obtain ⟨r, hr', hrm⟩ := h.listed m hl
    exact ⟨r, List.mem_append_left _ hr', hrm⟩
  · have how : o.wrote = true := by rcases ho with ⟨rfl, -⟩ | ⟨rfl, -⟩ <;> rfl
    rw [e, htab]
    have hr := (write_rows hcr hw).1
    refine ⟨by simpa [how, Data.rows, hrows] using hr, fun m hl => ?_⟩
    simp only [how, if_true]
    rcases List.mem_append.1 hl with hl | hl
    · obtain ⟨r, hr', hrm⟩ := h.listed m hl
      exact ⟨r, List.mem_append_left _ hr', hrm⟩
    · obtain ⟨r, hr', -, hrm⟩ := exists_first hpr
      exact ⟨r, List.mem_append_right _ (List.mem_append_right _ hr'), by rw [hrm, List.mem_singleton.1 hl]⟩

theorem finish_rows {d : Data} {finalFault : Fault} (hc : creates finalFault d.store → d.rows = [])
    (closeRaises : Bool) :
    (finish finalFault closeRaises d).1.lines = d.lines ∧
      (finish finalFault closeRaises d).1.rows =
        d.rows ++ if (flush finalFault d.store).2 then d.store.buffer else [] := by
  unfold finish
  rcases hf : flush finalFault d.store with ⟨store, ok⟩
  have hr := (flush_rows hc hf).1
  cases ok with
  | false => exact ⟨rfl, hr⟩
  | true => exact ⟨rfl, (close_rows closeRaises store).trans hr⟩

theorem finish_inv {s : Sys} (h : Inv s) {pointId : ℕ} (hp : s.phase = .running pointId) (finalFault : Fault)
    (closeRaises : Bool) (hg : opens embed batchSize s (.finish finalFault closeRaises) = true → s.data.rows = [])
    {s' : Sys} (hs : step embed batchSize s (.finish finalFault closeRaises) = some s') : Inv s' := by
  rw [step_finish _ _ hp] at hs
  obtain rfl := Option.some.inj hs
  have hc : creates finalFault s.data.store → s.data.rows = [] := fun hc => hg (by simp [opens, hp, hc])
  obtain ⟨hl, hr⟩ := finish_rows hc closeRaises
  refine ⟨by rw [hr, h.rows], fun m hm => ?_⟩
  rw [hl] at hm
  obtain ⟨r, hr', hrm⟩ := h.listed m hm
  exact ⟨r, List.mem_append_left _ hr', hrm⟩

theorem fileAfterStop_rows (finalised : Bool) (s : Store) : rowsOf (fileAfterStop finalised s) = rowsOf s.file := by
  unfold fileAfterStop
  split_ifs
  · exact close_rows false s
  · rfl

/-- one event that opens no file over rows keeps the invariant -/
theorem step_inv {s s' : Sys} (h : Inv s) (e : Event) (hg : opens embed batchSize s e = true → s.data.rows = [])
    (hs : step embed batchSize s e = some s') : Inv s' := by
  cases e with
  | construct =>
    simp only [step] at hs
    split at hs <;> cases hs
    all_goals exact ⟨h.rows, h.listed⟩
  | start fetched =>
    simp only [step] at hs
    split at hs
    · split at hs <;> cases hs
      all_goals exact ⟨h.rows, h.listed⟩
    · cases hs
  | process t =>
    cases hp : s.phase with
    | running pointId => exact process_inv h hp t hg hs
    | off | idle | exiting => simp [step, hp] at hs
  | finish finalFault closeRaises =>
    cases hp : s.phase with
    | running pointId => exact finish_inv h hp finalFault closeRaises hg hs
    | off | idle | exiting => simp [step, hp] at hs
  | stop finalised =>
    simp only [step] at hs
    split at hs <;> cases hs
    exact ⟨(fileAfterStop_rows finalised s.data.store).trans h.rows, h.listed⟩

/-- every history that opens no file over rows keeps it -/
theorem exec_inv {s s' : Sys} (h : Inv s) {es : List Event} (hg : opensFresh embed batchSize s es)
    (he : exec embed batchSize s es = some s') : Inv s' := by
  induction es generalizing s with
  | nil => exact Option.some.inj he ▸ h
  | cons e es ih =>
    rw [exec_cons] at he
    obtain ⟨s1, h1, he'⟩ := Option.bind_eq_some_iff.1 he
    simp only [opensFresh, h1, Bool.and_eq_true, Bool.or_eq_true, Bool.not_eq_true', List.isEmpty_iff] at hg
    exact ih (step_inv h e (fun ho => hg.1.resolve_left (by simp [ho])) h1) hg.2 he'

/-- a run that completed leaves a file that can be read -/
theorem readable_of_idle {s s' : Sys} {finalFault : Fault} {closeRaises : Bool}
    (hs : step embed batchSize s (.finish finalFault closeRaises) = some s') (hi : s'.phase = .idle) :
    readable s'.data.store.file = true := by
  cases hp : s.phase with
  | off | idle | exiting => simp [step, hp] at hs
  | running pointId =>
    rw [step_finish _ _ hp] at hs
    obtain rfl := Option.some.inj hs
    refine readable_of_finish ?_
    by_contra hok
    simp [hok] at hi

/-- **What a resumed run keeps.** In every history in which no event opens a new writer over rows, each completed run
leaves every row ever written in a readable file, those of every listed model among them. -/
theorem resume_keeps (es : List Event) {finalFault : Fault} {closeRaises : Bool} {s s' : Sys}
    (hg : opensFresh embed batchSize init (es ++ [.finish finalFault closeRaises]))
    (he : exec embed batchSize init es = some s)
    (hs : step embed batchSize s (.finish finalFault closeRaises) = some s') (hi : s'.phase = .idle) : Kept s' := by
  have he' : exec embed batchSize init (es ++ [.finish finalFault closeRaises]) = some s' := by
    rw [exec_append, he, Option.bind_some, exec_cons, hs]
    rfl
  have h := exec_inv init_inv hg he'
  have hall : ∀ r ∈ s'.written, r ∈ readableRows s'.data.store.file := fun r hr => by
    rw [readableRows, if_pos (readable_of_idle hs hi)]
    rw [← h.rows] at hr
    exact hr
  exact ⟨fun m hm => ⟨h.listed m hm, fun r hr _ => hall r hr⟩, hall⟩

end Machine

/-! ## Two runs -/

/-- one completed run over one model -/
def oneRun (modelId : Str) : List Event :=
  [.construct, .start true, .process (oneChunk modelId .none), .finish .none false]

/-- a second process over the same model skips it and opens no file -/
theorem resume_keeps_again :
    ∃ s', exec (fun _ => []) 32 init (oneRun "org/a".toList ++ .stop true :: oneRun "org/a".toList) = some s' ∧
      "org/a".toList ∈ s'.data.lines ∧ s'.written.length = 1 ∧ Kept s' := by
  refine ⟨_, rfl, by decide, by decide, ?_⟩
  exact resume_keeps (oneRun "org/a".toList ++
      [.stop true, .construct, .start true, .process (oneChunk "org/a".toList .none)])
    (by decide : opensFresh (fun _ => []) 32 init (oneRun "org/a".toList ++
      [.stop true, .construct, .start true, .process (oneChunk "org/a".toList .none)] ++ [.finish .none false])) rfl rfl rfl

/-- **A resumed run truncates.** After a completed run with one model, a second one in a new process with another model:
both models are listed, and the file has no row of the first. -/
theorem resume_loses :
    ∃ s', exec (fun _ => []) 32 init (oneRun "org/a".toList ++ .stop true :: oneRun "org/b".toList) = some s' ∧
      s'.phase = .idle ∧ "org/a".toList ∈ s'.data.lines ∧ (∃ r ∈ s'.written, r.modelId = "org/a".toList) ∧
      ∀ r ∈ readableRows s'.data.store.file, r.modelId ≠ "org/a".toList := by
  refine ⟨_, rfl, rfl, by decide, by decide, by decide⟩

end AgentPick.Resume
