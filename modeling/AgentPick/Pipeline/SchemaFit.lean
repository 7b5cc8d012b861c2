/-
Which records a writer can write (`hf_vectorizer/storage.py`, `normalize_record`, `ParquetWriter`; its callers
`process_model` and `run` in `hf_vectorizer/vectorizer.py`).

Every model hands over its normalised records by `add` and `flush`; a flush that raises is handled by `process_model`, which goes
on to the next model. No call of pyarrow fails here but the conversion that the schema refuses.

The schema is inferred from the records of the first model that has any. A field that they all lack (None, or no tags) gets the
null type, and a later record that has it is refused.

Results:
- `accepts_infer_iff`: a schema accepts the records that lack what the records it was inferred from all lack.
- `write_empty`, `write_first`, `write_next`: one model.
- `feed_next`, `feed_new`: a run over models.
- `all_written_iff`: every flush returns, and the file holds all records in order, iff no later record has a field that the
  records of the first model all lack.
- `second_model_refused`: a second model with a pipeline tag after a first without.
-/
import Mathlib.Tactic
import AgentPick.Pipeline.Storage

namespace AgentPick.SchemaFit

open AgentPick.Records AgentPick.Storage

/-! ## Fields -/

/-- the fields that a record may lack -/
inductive Field where
  | downloads
  | likes
  | tags
  | pipelineTag
  | libraryName
  | createdAt
  | lastModified
deriving DecidableEq, Repr

/-- the record has no value there -/
def Field.lacks : Field → Record → Bool
  | .downloads, r => r.downloads.isNone
  | .likes, r => r.likes.isNone
  | .tags, r => r.tags.isEmpty
  | .pipelineTag, r => r.pipelineTag.isNone
  | .libraryName, r => r.libraryName.isNone
  | .createdAt, r => r.createdAt.isNone
  | .lastModified, r => r.lastModified.isNone

/-- the column of the field is typed -/
def Field.typed : Field → Schema → Bool
  | .downloads, s => s.downloads
  | .likes, s => s.likes
  | .tags, s => s.tags
  | .pipelineTag, s => s.pipelineTag
  | .libraryName, s => s.libraryName
  | .createdAt, s => s.createdAt
  | .lastModified, s => s.lastModified

theorem accepts_iff (s : Schema) (r : Record) : s.accepts r = true ↔ ∀ f : Field, f.typed s = true ∨ f.lacks r = true := by
  simp only [Schema.accepts, Bool.and_eq_true, Bool.or_eq_true]
  refine ⟨fun h f => ?_, fun h => ?_⟩
  · obtain ⟨⟨⟨⟨⟨⟨hdownloads, hlikes⟩, htags⟩, hpipelineTag⟩, hlibraryName⟩, hcreatedAt⟩, hlastModified⟩ := h
    cases f with
    | downloads => exact hdownloads
    | likes => exact hlikes
    | tags => exact htags
    | pipelineTag => exact hpipelineTag
    | libraryName => exact hlibraryName
    | createdAt => exact hcreatedAt
    | lastModified => exact hlastModified
  · exact ⟨⟨⟨⟨⟨⟨h .downloads, h .likes⟩, h .tags⟩, h .pipelineTag⟩, h .libraryName⟩, h .createdAt⟩, h .lastModified⟩

theorem typed_infer (rows : List Record) (f : Field) : f.typed (Schema.infer rows) = true ↔ ∃ r ∈ rows, f.lacks r = false := by
  cases f <;> simp [Field.typed, Field.lacks, Schema.infer, List.any_eq_true, Option.isSome_iff_ne_none]

/-- **A schema accepts what lacks all that its first records lack.** -/
theorem accepts_infer_iff (rows : List Record) (r : Record) :
    (Schema.infer rows).accepts r = true ↔ ∀ f : Field, (∀ r' ∈ rows, f.lacks r' = true) → f.lacks r = true := by
  rw [accepts_iff]
  refine forall_congr' fun f => ?_
  rw [typed_infer, imp_iff_not_or, not_forall]
  simp

theorem accepts_infer_self {rows : List Record} {r : Record} (hr : r ∈ rows) : (Schema.infer rows).accepts r = true :=
  (accepts_infer_iff rows r).2 fun _ h => h r hr

/-! ## Models one after the other -/

/-- the calls of `add` and `flush` for each model, and which of them returned -/
def feed (s : Store) : List (List Record) → Store × List Bool
  | [] => (s, [])
  | records :: rest =>
    ((feed (write .none .none records s).1 rest).1, (write .none .none records s).2 :: (feed (write .none .none records s).1 rest).2)

/-- the final `flush` and `close` of `run`, and whether the flush returned -/
def finish (s : Store) : Store × Bool :=
  match flush .none s with
  | (s1, false) => (s1, false)
  | (s1, true) => ((close false s1).1, true)

/-- every flush returned, and a file that had to be written holds the records of all models, in order, and can be read -/
structure AllWritten (file : Option PFile) (models : List (List Record)) : Prop where
  flushed : ∀ ok ∈ (feed (Store.new file) models).2, ok = true
  finished : (finish (feed (Store.new file) models).1).2 = true
  holds : models.flatten ≠ [] → (finish (feed (Store.new file) models).1).1.file = some ⟨models.flatten, true⟩

/-- no record has a field that the records of the first model with records all lack -/
def Fits (models : List (List Record)) : Prop :=
  ∀ first ∈ models.find? (fun records => decide (records ≠ [])),
    ∀ f : Field, (∀ r ∈ first, f.lacks r = true) → ∀ r ∈ models.flatten, f.lacks r = true

/-! ## One model -/

/-- an open writer with nothing in the buffer -/
def opened (schema : Schema) (rows : List Record) : Store := ⟨[], true, some schema, some ⟨rows, false⟩⟩

theorem write_empty {s : Store} (hs : s.buffer = []) : write .none .none [] s = (s, true) := by
  have hext : s.extend [] = s := by
    cases s
    simp [Store.extend]
  rw [write_eq, hext, flush_nil hs]

theorem writeFault_none (records : List Record) (s : Store) : writeFault .none .none records s = .none := by
  unfold writeFault
  split_ifs <;> rfl

/-- the first records that are written -/
theorem write_first (file : Option PFile) {records : List Record} (h : records ≠ []) :
    write .none .none records (Store.new file) = (opened (Schema.infer records) records, true) := by
  have hfit : ∀ r ∈ records, (Schema.infer records).accepts r = true := fun r hr => accepts_infer_self hr
  rw [write_eq, writeFault_none]
  simpa [flush, Store.new, Store.extend, Store.inferred, writeTable, opened, rowsOf, h] using hfit

/-- later records return iff the schema accepts them -/
theorem write_next (schema : Schema) (rows : List Record) {records : List Record} (h : records ≠ []) :
    write .none .none records (opened schema rows) =
      if ∀ r ∈ records, schema.accepts r = true then (opened schema (rows ++ records), true)
      else ((opened schema rows).extend records, false) := by
  rw [write_eq, writeFault_none]
  by_cases hfit : ∀ r ∈ records, schema.accepts r = true
  · rw [if_pos hfit]
    simpa [flush, Store.extend, Store.inferred, writeTable, opened, rowsOf, h] using hfit
  · rw [if_neg hfit]
    have hbuffer : ((opened schema rows).extend records).buffer ≠ [] := h
    have hrefused : Fault.none = .convert ∨ ∃ r ∈ records, ¬schema.accepts r = true := Or.inr (by simpa using hfit)
    exact (if_neg hbuffer).trans ((if_neg fun hnone => by cases hnone.2).trans (if_pos hrefused))

/-! ## All models -/

theorem feed_skip {s : Store} (hs : s.buffer = []) (models : List (List Record)) :
    feed s ([] :: models) = ((feed s models).1, true :: (feed s models).2) := by
  rw [feed, write_empty hs]

/-- **A run with an open writer**: all flushes return iff the schema accepts all records, and then they are all written. -/
theorem feed_next (schema : Schema) (rows : List Record) (models : List (List Record)) :
    ((∀ ok ∈ (feed (opened schema rows) models).2, ok = true) ↔ ∀ r ∈ models.flatten, schema.accepts r = true) ∧
      ((∀ r ∈ models.flatten, schema.accepts r = true) →
        (feed (opened schema rows) models).1 = opened schema (rows ++ models.flatten)) := by
  induction models generalizing rows with
  | nil => simp [feed]
  | cons records rest ih =>
    rcases eq_or_ne records [] with rfl | hne
    · rw [feed_skip rfl, List.flatten_cons, List.nil_append, List.forall_mem_cons]
      exact ⟨(and_iff_right rfl).trans (ih rows).1, (ih rows).2⟩
    rw [feed, write_next schema rows hne, List.flatten_cons, List.forall_mem_append]
    by_cases hfit : ∀ r ∈ records, schema.accepts r = true
    · rw [if_pos hfit, List.forall_mem_cons, ← List.append_assoc]
      refine ⟨?_, fun h => (ih (rows ++ records)).2 h.2⟩
      rw [and_iff_right rfl, and_iff_right hfit]
      exact (ih (rows ++ records)).1
    · rw [if_neg hfit, List.forall_mem_cons]
      exact ⟨⟨fun h => absurd h.1 (by simp), fun h => absurd h.1 hfit⟩, fun h => absurd h.1 hfit⟩

theorem finish_opened (schema : Schema) (rows : List Record) :
    finish (opened schema rows) = (⟨[], false, some schema, some ⟨rows, true⟩⟩, true) := rfl

/-- the records of the first model with records -/
theorem fits_cons {records : List Record} (h : records ≠ []) (rest : List (List Record)) :
    Fits (records :: rest) ↔ ∀ r ∈ rest.flatten, (Schema.infer records).accepts r = true := by
  unfold Fits
  rw [List.find?_cons_of_pos (by simpa using h)]
  simp only [Option.mem_def, Option.some.injEq, forall_eq', accepts_infer_iff, List.flatten_cons, List.forall_mem_append]
  refine ⟨fun hall r hr f hlacks => (hall f hlacks).2 r hr, fun hall f hlacks => ⟨hlacks, fun r hr => hall r hr f hlacks⟩⟩

/-- **Everything is written iff no later record has what the first records all lack.** -/
theorem allWritten_iff_fits (file : Option PFile) (models : List (List Record)) : AllWritten file models ↔ Fits models := by
  induction models with
  | nil =>
    have hfits : Fits [] := fun first hfirst => by cases hfirst
    have hwritten : AllWritten file [] := ⟨fun ok hok => absurd hok List.not_mem_nil, rfl, fun h => absurd rfl h⟩
    exact iff_of_true hwritten hfits
  | cons records rest ih =>
    rcases eq_or_ne records [] with rfl | hne
    · -- a model without records changes nothing
      have hfits : Fits ([] :: rest) ↔ Fits rest := by simp [Fits]
      have hskip := feed_skip (s := Store.new file) rfl rest
      rw [hfits, ← ih]
      refine ⟨fun h => ?_, fun h => ?_⟩
      · have hflushed := h.flushed
        have hfinished := h.finished
        have hholds := h.holds
        rw [hskip] at hflushed hfinished hholds
        exact ⟨fun ok hok => hflushed ok (List.mem_cons_of_mem _ hok), hfinished, hholds⟩
      · refine ⟨?_, ?_, ?_⟩
        · rw [hskip]
          exact List.forall_mem_cons.2 ⟨rfl, h.flushed⟩
        · rw [hskip]
          exact h.finished
        · rw [hskip]
          exact h.holds
    · have hfeed : feed (Store.new file) (records :: rest) =
          ((feed (opened (Schema.infer records) records) rest).1, true :: (feed (opened (Schema.infer records) records) rest).2) := by
        rw [feed, write_first file hne]
      obtain ⟨hiff, hrows⟩ := feed_next (Schema.infer records) records rest
      rw [fits_cons hne]
      refine ⟨fun h => ?_, fun h => ?_⟩
      · have hflushed := h.flushed
        rw [hfeed] at hflushed
        exact hiff.1 fun ok hok => hflushed ok (List.mem_cons_of_mem _ hok)
      · refine ⟨?_, ?_, fun _ => ?_⟩
        · rw [hfeed]
          exact List.forall_mem_cons.2 ⟨rfl, hiff.2 h⟩
        · rw [hfeed, hrows h, finish_opened]
        · rw [hfeed, hrows h, finish_opened]
          rfl

/-- the records of each model after `normalize_record` -/
def normalized (models : List (List RawRecord)) : List (List Record) := models.map fun records => records.map normalizeRecord

/-- **Normalised records are written iff no later one has what the records of the first model all lack.** -/
theorem all_written_iff (file : Option PFile) (models : List (List RawRecord)) :
    AllWritten file (normalized models) ↔ Fits (normalized models) := allWritten_iff_fits file (normalized models)

/-- one chunk of a model, with or without a pipeline tag -/
def rawRecord (id : ℕ) (modelId : Str) (pipelineTag : Option Str) : RawRecord where
  id := id
  vector := []
  modelId := modelId
  sectionHeader := "Intro".toList
  sectionIndex := 0
  numSections := 1
  text := "text".toList
  chunkIndex := some 0
  downloads := some (some 5)
  likes := some (some 1)
  tags := some ["pytorch".toList]
  pipelineTag := some pipelineTag
  libraryName := some none
  createdAt := some none
  lastModified := some none

def twoModels : List (List RawRecord) :=
  [[rawRecord 0 "a/x".toList none], [rawRecord 1 "b/y".toList (some "text-generation".toList)]]

/-- **The second model is refused**, and the file holds the first only. -/
theorem second_model_refused :
    (feed (Store.new none) (normalized twoModels)).2 = [true, false] ∧
      rowsOf (finish (feed (Store.new none) (normalized twoModels)).1).1.file = [normalizeRecord (rawRecord 0 "a/x".toList none)] ∧
      ¬AllWritten none (normalized twoModels) := by
  have hrefused : (feed (Store.new none) (normalized twoModels)).2 = [true, false] := by decide +kernel
  refine ⟨hrefused, by decide +kernel, fun h => ?_⟩
  have hflushed := h.flushed
  rw [hrefused] at hflushed
  exact absurd (hflushed false (by simp)) (by simp)

end AgentPick.SchemaFit
