/-
The streaming writer of `embeddings.parquet` (`hf_vectorizer/storage.py`, `ParquetWriter`).

A `Store` is the writer object and the file at its path. `flush` infers the schema from the first buffer it writes,
converts the buffer to that schema, opens the file at the first write, writes and only then empties the buffer: when one
of these calls raises, what was done before it stays done and the buffer keeps its records.

ASSUMED OF PYARROW:
- a column whose values are all None gets the null type (an all-empty list column, lists of null), and a value is refused
  by a null column (`Schema.infer`, `Schema.accepts`);
- `pq.ParquetWriter(path, schema)` creates the file anew; when it raises, the old file may be gone or not;
- `write_table` writes the whole table or raises and writes nothing;
- a file can be read only after its writer has been closed (`PFile.closed`).

Results:
- `flush_cases`, `flush_raised`, `flush_returned`: all that one flush can do.
- `write_eq`: `add` and then `flush` amount to one flush of the extended buffer.
- `flush_rows`, `write_rows`: the rows of the file only grow, by what was buffered, unless the file is created over rows.
- `flush_attached`, `write_attached`: a writer that has the file open whenever it holds rows stays so.
-/
import Mathlib.Tactic
import AgentPick.Pipeline.Records

namespace AgentPick.Storage

open AgentPick.Records

/-! ## Schemas -/

/-- which columns are typed; `false` is the null type -/
structure Schema where
  downloads : Bool
  likes : Bool
  tags : Bool
  pipelineTag : Bool
  libraryName : Bool
  createdAt : Bool
  lastModified : Bool
deriving DecidableEq, Repr

/-- the schema of `pa.Table.from_pylist(rows)` -/
def Schema.infer (rows : List Record) : Schema where
  downloads := rows.any (·.downloads.isSome)
  likes := rows.any (·.likes.isSome)
  tags := rows.any fun r => !r.tags.isEmpty
  pipelineTag := rows.any (·.pipelineTag.isSome)
  libraryName := rows.any (·.libraryName.isSome)
  createdAt := rows.any (·.createdAt.isSome)
  lastModified := rows.any (·.lastModified.isSome)

/-- `pa.Table.from_pylist(..., schema)` converts the row -/
def Schema.accepts (s : Schema) (r : Record) : Bool :=
  (s.downloads || r.downloads.isNone) && (s.likes || r.likes.isNone) && (s.tags || r.tags.isEmpty) &&
    (s.pipelineTag || r.pipelineTag.isNone) && (s.libraryName || r.libraryName.isNone) &&
    (s.createdAt || r.createdAt.isNone) && (s.lastModified || r.lastModified.isNone)

/-! ## The writer -/

/-- a Parquet file on disk -/
structure PFile where
  rows : List Record
  closed : Bool
deriving DecidableEq, Repr

/-- `ParquetWriter`, and the file at its path -/
structure Store where
  buffer : List Record
  /-- `self.writer is not None` -/
  isOpen : Bool
  schema : Option Schema
  file : Option PFile
deriving DecidableEq, Repr

/-- `ParquetWriter.__init__` -/
def Store.new (file : Option PFile) : Store := ⟨[], false, none, file⟩

/-- the rows in the file, readable or not -/
def rowsOf (file : Option PFile) : List Record := (file.map PFile.rows).getD []

/-- which call of a flush raises, besides a conversion the schema refuses -/
inductive Fault where
  | none
  | infer
  | convert
  /-- the file may have been created anew before the exception -/
  | create (truncated : Bool)
  | write
deriving DecidableEq, Repr

/-- `self.schema`, inferred from the buffer at the first flush -/
def Store.inferred (s : Store) : Schema := s.schema.getD (Schema.infer s.buffer)

/-- `self.writer.write_table(table)`, and the buffer emptied after it -/
def writeTable (fault : Fault) (s : Store) : Store × Bool :=
  if fault = .write then (s, false)
  else ({ s with file := some ⟨rowsOf s.file ++ s.buffer, false⟩, buffer := [] }, true)

/-- `flush`; the Boolean is whether it returned -/
def flush (fault : Fault) (s : Store) : Store × Bool :=
  if s.buffer = [] then (s, true)
  else if s.schema = none ∧ fault = .infer then (s, false)
  else
    let s1 := { s with schema := some s.inferred }
    if fault = .convert ∨ ∃ r ∈ s.buffer, ¬ s.inferred.accepts r then (s1, false)
    else if s.isOpen then writeTable fault s1
    else
      match fault with
      | .create false => (s1, false)
      | .create true => ({ s1 with file := some ⟨[], false⟩ }, false)
      | _ => writeTable fault { s1 with isOpen := true, file := some ⟨[], false⟩ }

/-- `add` -/
def add (fault : Fault) (records : List Record) (s : Store) : Store × Bool :=
  let s1 := { s with buffer := s.buffer ++ records }
  if 1000 ≤ s1.buffer.length then flush fault s1 else (s1, true)

/-- `close`; the flag is whether pyarrow's close raises -/
def close (raises : Bool) (s : Store) : Store × Bool :=
  if s.isOpen then
    if raises then (s, false)
    else ({ s with isOpen := false, file := s.file.map fun f => { f with closed := true } }, true)
  else (s, true)

/-- `self.writer.add(records)` and then `self.writer.flush()` -/
def write (addFault flushFault : Fault) (records : List Record) (s : Store) : Store × Bool :=
  match add addFault records s with
  | (s1, false) => (s1, false)
  | (s1, true) => flush flushFault s1

/-! ## What a flush can do -/

theorem flush_nil {fault : Fault} {s : Store} (h : s.buffer = []) : flush fault s = (s, true) := by
  simp [flush, h]

theorem writeTable_returned {fault : Fault} {s s' : Store} (h : writeTable fault s = (s', true)) :
    s' = { s with file := some ⟨rowsOf s.file ++ s.buffer, false⟩, buffer := [] } := by
  unfold writeTable at h
  split_ifs at h with hf
  · cases h
  · cases h; rfl

theorem writeTable_raised {fault : Fault} {s s' : Store} (h : writeTable fault s = (s', false)) : s' = s := by
  unfold writeTable at h
  split_ifs at h with hf
  · cases h; rfl
  · cases h

/-- the flush gets as far as `pq.ParquetWriter(...)` -/
def creates (fault : Fault) (s : Store) : Prop :=
  s.buffer ≠ [] ∧ ¬ (s.schema = none ∧ fault = .infer) ∧
    ¬ (fault = .convert ∨ ∃ r ∈ s.buffer, ¬ s.inferred.accepts r) ∧ s.isOpen = false

instance (fault : Fault) (s : Store) : Decidable (creates fault s) := by
  unfold creates
  infer_instance

/-- the four ways through a flush of a buffer that is not empty -/
theorem flush_cases (fault : Fault) {s : Store} (hb : s.buffer ≠ []) :
    (∃ schema, flush fault s = ({ s with schema := schema }, false)) ∨
    (s.isOpen = true ∧ ∃ schema, flush fault s = writeTable fault { s with schema := schema }) ∨
    (creates fault s ∧ ∃ schema, flush fault s = ({ s with schema := schema, file := some ⟨[], false⟩ }, false)) ∨
    (creates fault s ∧ ∃ schema, flush fault s =
      writeTable fault { s with schema := schema, isOpen := true, file := some ⟨[], false⟩ }) := by
  by_cases h1 : s.schema = none ∧ fault = .infer
  · exact Or.inl ⟨s.schema, by unfold flush; rw [if_neg hb, if_pos h1]⟩
  by_cases h2 : fault = .convert ∨ ∃ r ∈ s.buffer, ¬ s.inferred.accepts r
  · exact Or.inl ⟨some s.inferred, by unfold flush; rw [if_neg hb, if_neg h1, if_pos h2]⟩
  by_cases h3 : s.isOpen
  · exact Or.inr (Or.inl ⟨h3, some s.inferred, by unfold flush; rw [if_neg hb, if_neg h1, if_neg h2, if_pos h3]⟩)
  have hc : creates fault s := ⟨hb, h1, h2, by simpa using h3⟩
  unfold flush
  rw [if_neg hb, if_neg h1, if_neg h2, if_neg h3]
  cases fault with
  | create truncated =>
    cases truncated with
    | false => exact Or.inl ⟨_, rfl⟩
    | true => exact Or.inr (Or.inr (Or.inl ⟨hc, _, rfl⟩))
  | none | infer | convert | write => exact Or.inr (Or.inr (Or.inr ⟨hc, _, rfl⟩))

/-- a flush that returned wrote the buffer after the rows of the file it had open, or into a new file -/
theorem flush_returned {fault : Fault} {s s' : Store} (hb : s.buffer ≠ []) (h : flush fault s = (s', true)) :
    s'.buffer = [] ∧ s'.isOpen = true ∧
      s'.file = some ⟨(if s.isOpen then rowsOf s.file else []) ++ s.buffer, false⟩ ∧
      (s.isOpen = false → creates fault s) := by
  rcases flush_cases fault hb with ⟨sc, e⟩ | ⟨ho, sc, e⟩ | ⟨hc, sc, e⟩ | ⟨hc, sc, e⟩ <;> rw [h] at e
  · cases e
  · obtain rfl := writeTable_returned e.symm
    simp [ho]
  · cases e
  · obtain rfl := writeTable_returned e.symm
    simp [hc, hc.2.2.2, rowsOf]

/-- a flush that raised kept the buffer, and the file unless it got as far as creating it anew -/
theorem flush_raised {fault : Fault} {s s' : Store} (h : flush fault s = (s', false)) :
    s.buffer ≠ [] ∧ s'.buffer = s.buffer ∧
      (s'.isOpen = s.isOpen ∧ s'.file = s.file ∨ creates fault s ∧ s'.file = some ⟨[], false⟩) := by
  have hb : s.buffer ≠ [] := by
    intro hb
    rw [flush_nil hb] at h
    cases h
  refine ⟨hb, ?_⟩
  rcases flush_cases fault hb with ⟨sc, e⟩ | ⟨ho, sc, e⟩ | ⟨hc, sc, e⟩ | ⟨hc, sc, e⟩ <;> rw [h] at e
  · cases e
    exact ⟨rfl, Or.inl ⟨rfl, rfl⟩⟩
  · obtain rfl := writeTable_raised e.symm
    exact ⟨rfl, Or.inl ⟨rfl, rfl⟩⟩
  · cases e
    exact ⟨rfl, Or.inr ⟨hc, rfl⟩⟩
  · obtain rfl := writeTable_raised e.symm
    exact ⟨rfl, Or.inr ⟨hc, rfl⟩⟩

/-! ## What handing over records can do -/

/-- the fault of the one flush that has something to write -/
def writeFault (addFault flushFault : Fault) (records : List Record) (s : Store) : Fault :=
  if 1000 ≤ (s.buffer ++ records).length then addFault else flushFault

/-- `self.buffer.extend(records)` -/
def Store.extend (s : Store) (records : List Record) : Store := { s with buffer := s.buffer ++ records }

/-- the second flush finds the buffer empty when `add` flushed -/
theorem write_eq (addFault flushFault : Fault) (records : List Record) (s : Store) :
    write addFault flushFault records s = flush (writeFault addFault flushFault records s) (s.extend records) := by
  unfold write add writeFault
  by_cases h : 1000 ≤ (s.buffer ++ records).length
  · simp only [if_pos h]
    rcases hf : flush addFault (s.extend records) with ⟨s1, ok⟩
    have hf' : flush addFault { s with buffer := s.buffer ++ records } = (s1, ok) := hf
    rw [hf']
    cases ok with
    | false => rfl
    | true =>
      have hb : (s.extend records).buffer ≠ [] := by
        intro e
        rw [show s.buffer ++ records = [] from e] at h
        simp at h
      exact flush_nil (flush_returned hb hf).1
  · simp only [if_neg h]
    rfl

/-- a flush leaves the rows of the file and, when it returns, appends the buffer to them, provided it creates no file
over rows -/
theorem flush_rows {fault : Fault} {s s' : Store} {ok : Bool} (hc : creates fault s → rowsOf s.file = [])
    (h : flush fault s = (s', ok)) :
    rowsOf s'.file = rowsOf s.file ++ (if ok then s.buffer else []) ∧ s'.buffer = if ok then [] else s.buffer := by
  cases ok with
  | false =>
    obtain ⟨-, h1, ⟨-, h2⟩ | ⟨hcr, h2⟩⟩ := flush_raised h
    · exact ⟨by rw [h2]; simp, h1⟩
    · exact ⟨by rw [h2, hc hcr]; rfl, h1⟩
  | true =>
    by_cases hb : s.buffer = []
    · rw [flush_nil hb] at h
      cases h
      simp [hb]
    obtain ⟨h1, -, h3, h4⟩ := flush_returned hb h
    refine ⟨?_, h1⟩
    rw [h3]
    cases ho : s.isOpen with
    | true => rfl
    | false => rw [hc (h4 ho)]; rfl

/-- handing over records, likewise -/
theorem write_rows {addFault flushFault : Fault} {records : List Record} {s s' : Store} {ok : Bool}
    (hc : creates (writeFault addFault flushFault records s) (s.extend records) → rowsOf s.file = [])
    (h : write addFault flushFault records s = (s', ok)) :
    rowsOf s'.file = rowsOf s.file ++ (if ok then s.buffer ++ records else []) ∧
      s'.buffer = if ok then [] else s.buffer ++ records := by
  rw [write_eq] at h
  exact flush_rows (s := s.extend records) hc h

theorem close_rows (raises : Bool) (s : Store) : rowsOf (close raises s).1.file = rowsOf s.file := by
  unfold close
  split_ifs
  · rfl
  · cases s.file <;> rfl
  · rfl

/-! ## One writer on one file -/

/-- the writer has the file open whenever the file holds rows -/
def Store.Attached (s : Store) : Prop := s.isOpen = false → rowsOf s.file = []

theorem new_attached {file : Option PFile} (h : rowsOf file = []) : (Store.new file).Attached := fun _ => h

/-- an attached writer never creates the file over rows -/
theorem Store.Attached.creates {s : Store} (ha : s.Attached) (fault : Fault) (records : List Record) :
    creates fault (s.extend records) → rowsOf s.file = [] := fun hc => ha hc.2.2.2

theorem flush_attached {fault : Fault} {s s' : Store} {ok : Bool} (ha : s.Attached) (h : flush fault s = (s', ok)) :
    s'.Attached := by
  cases ok with
  | false =>
    obtain ⟨-, -, ⟨h1, h2⟩ | ⟨-, h2⟩⟩ := flush_raised h
    · exact fun hf => by rw [h2]; exact ha (h1 ▸ hf)
    · exact fun _ => by rw [h2]; rfl
  | true =>
    by_cases hb : s.buffer = []
    · rw [flush_nil hb] at h
      cases h
      exact ha
    · exact fun hf => by rw [(flush_returned hb h).2.1] at hf; cases hf

theorem write_attached {addFault flushFault : Fault} {records : List Record} {s s' : Store} {ok : Bool}
    (ha : s.Attached) (h : write addFault flushFault records s = (s', ok)) : s'.Attached := by
  rw [write_eq] at h
  exact flush_attached (s := s.extend records) ha h

end AgentPick.Storage
