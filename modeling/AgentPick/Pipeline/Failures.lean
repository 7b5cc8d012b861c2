/-
What a failing model leaves behind, read off the calls alone (`hf_vectorizer/vectorizer.py`, `process_model` and `run`).

`Vectorizer.intact_iff` says it by how the calls of a run end. Here the condition is on what each call meets: the records that it has
for the writer (`Offer`), which of the writer's calls raise, and how the line is appended. Whether a flush raises depends on little
of what came before it (`Gate`): the schema, whether the file is open, the columns that the waiting rows fill and their number.

Results:
- `flush_matches`: a flush raises iff the gate says so.
- `advance_offer`: how a call ends, by its offer.
- `contained_iff`: a run leaves no trace of a failing model, and its ids are unique, iff each line that has rows is appended, and from
  the first call on that fails later than its records no flush writes anything, the last one included.
-/
import Mathlib.Tactic
import AgentPick.Pipeline.Vectorizer

namespace AgentPick.Failures

open AgentPick.Records AgentPick.Storage AgentPick.Vectorizer

/-! ## Columns -/

/-- the columns of both -/
def union (a b : Schema) : Schema where
  downloads := a.downloads || b.downloads
  likes := a.likes || b.likes
  tags := a.tags || b.tags
  pipelineTag := a.pipelineTag || b.pipelineTag
  libraryName := a.libraryName || b.libraryName
  createdAt := a.createdAt || b.createdAt
  lastModified := a.lastModified || b.lastModified

/-- every column that a has is typed by b -/
def within (a b : Schema) : Bool :=
  (b.downloads || !a.downloads) && (b.likes || !a.likes) && (b.tags || !a.tags) && (b.pipelineTag || !a.pipelineTag) &&
    (b.libraryName || !a.libraryName) && (b.createdAt || !a.createdAt) && (b.lastModified || !a.lastModified)

/-- no column is filled -/
def blank : Schema := ⟨false, false, false, false, false, false, false⟩

theorem infer_append (xs ys : List Record) : Schema.infer (xs ++ ys) = union (Schema.infer xs) (Schema.infer ys) := by
  simp [Schema.infer, union, List.any_append]

theorem within_union (a b s : Schema) : within (union a b) s = (within a s && within b s) := by
  simp only [within, union, Bool.not_or, Bool.or_and_distrib_left]
  ac_rfl

theorem within_self (s : Schema) : within s s = true := by
  simp [within]

/-- rows are refused iff they fill a column that the schema types as null -/
theorem all_accepts (s : Schema) (rows : List Record) : rows.all s.accepts = within (Schema.infer rows) s := by
  induction rows with
  | nil => simp [within, Schema.infer]
  | cons r rows ih =>
    have hone : s.accepts r = within (Schema.infer [r]) s := by
      simp [Schema.accepts, within, Schema.infer]
    rw [List.all_cons, ih, hone, ← within_union, ← infer_append]
    rfl

/-! ## What a call brings -/

/-- a call that has records for the writer: the columns that they fill, their number, and what the call meets after them -/
structure Offer where
  modelId : Str
  columns : Schema
  count : ℕ
  addFault : Fault
  flushFault : Fault
  mark : Mark

/-- what a call brings if its model was not written before -/
def offer (embed : Str → Vec) (batchSize : ℕ) (t : Task) : Option Offer :=
  (prepare embed batchSize t.call 0).toOption.map fun records =>
    ⟨t.call.modelId, Schema.infer records, records.length, t.addFault, t.flushFault, t.mark⟩

/-- what the next flush depends on -/
structure Gate where
  schema : Option Schema
  isOpen : Bool
  /-- the columns that the waiting rows fill -/
  columns : Schema
  /-- the number of the waiting rows -/
  rows : ℕ

/-- a new writer -/
def Gate.new : Gate := ⟨none, false, blank, 0⟩

/-- the records of a call join the waiting rows -/
def Gate.join (g : Gate) (o : Offer) : Gate :=
  { g with columns := union g.columns o.columns, rows := g.rows + o.count }

/-- the fault of the flush that has something to write: that of `add` from 1000 rows on -/
def Gate.faultOf (g : Gate) (o : Offer) : Fault := if 1000 ≤ g.rows + o.count then o.addFault else o.flushFault

/-- the schema, inferred from the waiting rows if there is none -/
def Gate.inferred (g : Gate) : Schema := g.schema.getD g.columns

/-- no waiting row fills a column that is typed as null -/
def Gate.fits (g : Gate) : Bool := within g.columns g.inferred

/-- the flush of the waiting rows raises -/
def Gate.raises (g : Gate) : Fault → Bool
  | .none => !g.fits
  | .infer => g.schema.isNone || !g.fits
  | .convert => true
  | .create _ => !g.isOpen || !g.fits
  | .write => true

/-- after a flush that raised; the schema is fixed once it is inferred, and the file is open once it is created -/
def Gate.raised (g : Gate) : Fault → Gate
  | .infer => g
  | .write => { g with schema := some g.inferred, isOpen := g.isOpen || g.fits }
  | _ => { g with schema := some g.inferred }

/-- after a flush that returned -/
def Gate.flushed (g : Gate) : Gate := ⟨some g.inferred, true, blank, 0⟩

/-- after a failure: every flush raises, and the last one too if rows are waiting -/
def Stuck (finalFault : Fault) : Gate → List Str → List Offer → Prop
  | g, _, [] => g.rows = 0 ∨ g.raises finalFault
  | g, written, o :: os =>
    if o.modelId ∈ written then Stuck finalFault g written os
    else (g.join o).raises (g.faultOf o) ∧ Stuck finalFault ((g.join o).raised (g.faultOf o)) written os

/-- every line that has rows is appended, and from the first failure on no flush writes -/
def Contained (finalFault : Fault) : Gate → List Str → List Offer → Prop
  | _, _, [] => True
  | g, written, o :: os =>
    if o.modelId ∈ written then Contained finalFault g written os
    else if (g.join o).raises (g.faultOf o) then Stuck finalFault ((g.join o).raised (g.faultOf o)) written os
    else
      match o.mark with
      | .done => Contained finalFault (g.join o).flushed (o.modelId :: written) os
      | .failsBefore => False
      | .failsAfter => Stuck finalFault (g.join o).flushed (o.modelId :: written) os

/-! ## The writer behind the gate -/

/-- the gate of a writer -/
structure Matches (s : Store) (g : Gate) : Prop where
  schema : s.schema = g.schema
  isOpen : s.isOpen = g.isOpen
  columns : Schema.infer s.buffer = g.columns
  rows : s.buffer.length = g.rows

theorem new_matches (file : Option PFile) : Matches (Store.new file) Gate.new := ⟨rfl, rfl, rfl, rfl⟩

theorem Matches.inferred {s : Store} {g : Gate} (h : Matches s g) : s.inferred = g.inferred := by
  rw [Store.inferred, Gate.inferred, h.schema, h.columns]

theorem Matches.refused {s : Store} {g : Gate} (h : Matches s g) :
    (∃ r ∈ s.buffer, ¬ s.inferred.accepts r) ↔ g.fits = false := by
  rw [Gate.fits, ← h.columns, ← h.inferred, ← all_accepts]
  simp

/-- without a schema the waiting rows fit -/
theorem Matches.schema_ne {s : Store} {g : Gate} (h : Matches s g) (hfits : g.fits = false) : s.schema ≠ none := by
  intro hnone
  rw [Gate.fits, Gate.inferred, ← h.schema, hnone, Option.getD_none, within_self] at hfits
  cases hfits

/-- a flush of rows that the schema refuses -/
theorem flush_refused {s : Store} {g : Gate} (h : Matches s g) (hb : s.buffer ≠ []) (hfits : g.fits = false) (fault : Fault) :
    flush fault s = ({ s with schema := some s.inferred }, false) := by
  unfold flush
  rw [if_neg hb, if_neg fun hno => h.schema_ne hfits hno.1, if_pos (Or.inr (h.refused.2 hfits))]

/-- a table that is written leaves no row waiting -/
theorem writeTable_matches {s : Store} {g : Gate} (h : Matches s g) (fault : Fault) (hfault : fault ≠ .write)
    (file : Option PFile) :
    (writeTable fault ⟨s.buffer, true, some s.inferred, file⟩).2 = true ∧
      Matches (writeTable fault ⟨s.buffer, true, some s.inferred, file⟩).1 g.flushed := by
  rw [writeTable, if_neg hfault]
  exact ⟨rfl, congrArg some h.inferred, rfl, rfl, rfl⟩

/-- **A flush raises iff the gate says so.** -/
theorem flush_matches {s : Store} {g : Gate} (h : Matches s g) (hb : s.buffer ≠ []) (fault : Fault) :
    (flush fault s).2 = !g.raises fault ∧
      Matches (flush fault s).1 (if g.raises fault then g.raised fault else g.flushed) := by
  have hinferred : some s.inferred = some g.inferred := congrArg some h.inferred
  cases hfits : g.fits with
  | false =>
    have hraises : g.raises fault = true := by
      cases fault <;> simp [Gate.raises, hfits]
    rw [flush_refused h hb hfits, hraises]
    refine ⟨rfl, ?_⟩
    cases fault with
    | infer =>
      -- there is a schema, which stays
      obtain ⟨σ, hσ⟩ := Option.ne_none_iff_exists'.1 (h.schema_ne hfits)
      have hstays : some s.inferred = g.schema := by rw [← h.schema, Store.inferred, hσ, Option.getD_some]
      exact ⟨hstays, h.isOpen, h.columns, h.rows⟩
    | write => exact ⟨hinferred, by simp [Gate.raised, hfits, h.isOpen], h.columns, h.rows⟩
    | none | convert | create => exact ⟨hinferred, h.isOpen, h.columns, h.rows⟩
  | true =>
    have hrefused : ¬∃ r ∈ s.buffer, ¬ s.inferred.accepts r := by
      rw [h.refused, hfits]
      exact Bool.noConfusion
    unfold flush
    rw [if_neg hb]
    simp only [or_iff_left hrefused]
    cases fault with
    | none =>
      have hraises : g.raises .none = false := by simp [Gate.raises, hfits]
      simp only [reduceCtorEq, and_false, if_false, hraises]
      change _ = true ∧ Matches _ g.flushed
      cases s.isOpen with
      | true => exact writeTable_matches h .none (by decide) _
      | false => exact writeTable_matches h .none (by decide) _
    | infer =>
      cases hschema : s.schema with
      | none =>
        have hraises : g.raises .infer = true := by simp [Gate.raises, ← h.schema, hschema]
        rw [if_pos ⟨rfl, rfl⟩, hraises]
        exact ⟨rfl, h⟩
      | some σ =>
        have hraises : g.raises .infer = false := by simp [Gate.raises, ← h.schema, hschema, hfits]
        simp only [reduceCtorEq, false_and, if_false, hraises]
        change _ = true ∧ Matches _ g.flushed
        cases s.isOpen with
        | true => exact writeTable_matches h .infer (by decide) _
        | false => exact writeTable_matches h .infer (by decide) _
    | convert =>
      simp only [reduceCtorEq, and_false, if_false, if_true]
      exact ⟨rfl, hinferred, h.isOpen, h.columns, h.rows⟩
    | create truncated =>
      simp only [reduceCtorEq, and_false, if_false]
      cases ho : s.isOpen with
      | true =>
        have hraises : g.raises (.create truncated) = false := by simp [Gate.raises, ← h.isOpen, ho, hfits]
        rw [if_pos rfl, hraises]
        change _ = true ∧ Matches _ g.flushed
        exact writeTable_matches h (.create truncated) (by simp) _
      | false =>
        have hraises : g.raises (.create truncated) = true := by simp [Gate.raises, ← h.isOpen, ho]
        rw [if_neg (by simp), hraises]
        cases truncated with
        | false => exact ⟨rfl, hinferred, ho.symm.trans h.isOpen, h.columns, h.rows⟩
        | true => exact ⟨rfl, hinferred, ho.symm.trans h.isOpen, h.columns, h.rows⟩
    | write =>
      have hopen : true = (g.isOpen || g.fits) := by rw [hfits, Bool.or_true]
      simp only [reduceCtorEq, and_false, if_false]
      change _ = false ∧ Matches _ (g.raised .write)
      cases s.isOpen with
      | true => exact ⟨rfl, hinferred, hopen, h.columns, h.rows⟩
      | false => exact ⟨rfl, hinferred, hopen, h.columns, h.rows⟩

/-- so does handing records to the writer -/
theorem write_matches {s : Store} {g : Gate} (h : Matches s g) {o : Offer} {records : List Record} (hne : records ≠ [])
    (hcolumns : o.columns = Schema.infer records) (hcount : o.count = records.length) :
    (write o.addFault o.flushFault records s).2 = !(g.join o).raises (g.faultOf o) ∧
      Matches (write o.addFault o.flushFault records s).1
        (if (g.join o).raises (g.faultOf o) then (g.join o).raised (g.faultOf o) else (g.join o).flushed) := by
  have hrows : (s.buffer ++ records).length = g.rows + o.count := by rw [List.length_append, h.rows, hcount]
  have hjoin : Matches (s.extend records) (g.join o) :=
    ⟨h.schema, h.isOpen, by rw [Store.extend, infer_append, h.columns, ← hcolumns]; rfl, hrows⟩
  have hfault : writeFault o.addFault o.flushFault records s = g.faultOf o := by rw [writeFault, Gate.faultOf, hrows]
  rw [write_eq, hfault]
  exact flush_matches hjoin (by simp [Store.extend, hne]) _

/-! ## One call -/

section Model

variable {embed : Str → Vec} {batchSize : ℕ}

/-- the counter only shifts the ids -/
theorem prepare_start (c : Call) (start : ℕ) : prepare embed batchSize c start =
    (prepare embed batchSize c 0).map (List.map fun r => { r with id := start + r.id }) := by
  unfold prepare
  cases chunked c with
  | error e => rfl
  | ok p =>
    simp only [embedded]
    split_ifs
    · rfl
    · rfl
    · simp [Except.map, records, normalizeRecord, Function.comp_def]

/-- what a call has for the writer does not depend on the counter -/
theorem offer_of_prepare {t : Task} {start : ℕ} {records : List Record} (h : prepare embed batchSize t.call start = .ok records) :
    offer embed batchSize t =
      some ⟨t.call.modelId, Schema.infer records, records.length, t.addFault, t.flushFault, t.mark⟩ := by
  rw [prepare_start] at h
  rw [offer]
  cases hzero : prepare embed batchSize t.call 0 with
  | error e =>
    rw [hzero] at h
    cases h
  | ok first =>
    rw [hzero] at h
    obtain rfl := Except.ok.inj h
    simp [Except.toOption, Schema.infer, List.any_map, Function.comp_def]

theorem offer_of_error {t : Task} {start : ℕ} {e : Skip} (h : prepare embed batchSize t.call start = .error e) :
    offer embed batchSize t = none := by
  rw [prepare_start] at h
  rw [offer]
  cases hzero : prepare embed batchSize t.call 0 with
  | error e' => rfl
  | ok first =>
    rw [hzero] at h
    cases h

/-- an offer is that of the records, which are not none -/
theorem exists_records {t : Task} {o : Offer} (h : offer embed batchSize t = some o) (start : ℕ) :
    ∃ records, prepare embed batchSize t.call start = .ok records ∧ records ≠ [] ∧
      o = ⟨t.call.modelId, Schema.infer records, records.length, t.addFault, t.flushFault, t.mark⟩ := by
  cases hprepare : prepare embed batchSize t.call start with
  | error e =>
    rw [offer_of_error hprepare] at h
    cases h
  | ok records =>
    rw [offer_of_prepare hprepare] at h
    exact ⟨records, rfl, prepare_ne_nil hprepare, (Option.some.inj h).symm⟩

/-- the gate and the written models of a run so far -/
structure At (st : Progress) (g : Gate) (written : List Str) : Prop where
  gate : Matches st.data.store g
  written : ∀ m, m ∈ st.data.processed ↔ m ∈ written

/-- how a call ends that wrote its rows -/
def endOf : Mark → Outcome
  | .done => .recorded
  | .failsBefore => .unlisted
  | .failsAfter => .unfinished

variable {st : Progress} {g : Gate} {written : List Str} {t : Task}

theorem advance_skipped (h : At st g written) (hskip : ∀ o, offer embed batchSize t = some o → o.modelId ∈ written) :
    advance embed batchSize st t = ⟨st.outcomes ++ [.skipped], st.data, st.pointId⟩ := by
  have hcall : processModel embed batchSize t st.data st.pointId = (.skipped, st.data, st.pointId) := by
    unfold processModel
    split_ifs with hm
    · rfl
    · cases hprepare : prepare embed batchSize t.call st.pointId with
      | error e => rfl
      | ok records => exact absurd ((h.written _).2 (hskip _ (offer_of_prepare hprepare))) hm
  rw [advance, hcall]

theorem advance_none (h : At st g written) (ho : offer embed batchSize t = none) :
    advance embed batchSize st t = ⟨st.outcomes ++ [.skipped], st.data, st.pointId⟩ := by
  refine advance_skipped h fun o ho' => ?_
  rw [ho] at ho'
  cases ho'

variable {o : Offer}

theorem advance_old (h : At st g written) (ho : offer embed batchSize t = some o) (hold : o.modelId ∈ written) :
    advance embed batchSize st t = ⟨st.outcomes ++ [.skipped], st.data, st.pointId⟩ := by
  refine advance_skipped h fun o' ho' => ?_
  rw [ho] at ho'
  obtain rfl := Option.some.inj ho'
  exact hold

/-- what a call hands to the writer that has records of a model not yet written -/
theorem exists_write (h : At st g written) (ho : offer embed batchSize t = some o) (hnew : o.modelId ∉ written) :
    ∃ records store, t.call.modelId = o.modelId ∧ t.mark = o.mark ∧ t.call.modelId ∉ st.data.processed ∧
      prepare embed batchSize t.call st.pointId = .ok records ∧
      write t.addFault t.flushFault records st.data.store = (store, !(g.join o).raises (g.faultOf o)) ∧
      Matches store (if (g.join o).raises (g.faultOf o) then (g.join o).raised (g.faultOf o) else (g.join o).flushed) := by
  obtain ⟨records, hprepare, hne, rfl⟩ := exists_records ho st.pointId
  obtain ⟨hok, hgate⟩ := write_matches h.gate (o := ⟨t.call.modelId, Schema.infer records, records.length, t.addFault,
    t.flushFault, t.mark⟩) hne rfl rfl
  exact ⟨records, _, rfl, rfl, fun hm => hnew ((h.written _).1 hm), hprepare, Prod.ext rfl hok, hgate⟩

/-- **How a call ends** that has records of a model not yet written, when their flush raises -/
theorem advance_kept (h : At st g written) (ho : offer embed batchSize t = some o) (hnew : o.modelId ∉ written)
    (hraises : (g.join o).raises (g.faultOf o) = true) :
    (advance embed batchSize st t).outcomes = st.outcomes ++ [.kept] ∧
      At (advance embed batchSize st t) ((g.join o).raised (g.faultOf o)) written := by
  obtain ⟨records, store, -, -, hm, hprepare, hwrite, hgate⟩ := exists_write h ho hnew
  rw [hraises] at hwrite hgate
  have hcall : processModel embed batchSize t st.data st.pointId = (.kept, { st.data with store := store }, st.pointId) := by
    simp only [processModel, if_neg hm, hprepare, hwrite, Bool.not_true]
  rw [advance, hcall]
  exact ⟨rfl, hgate, h.written⟩

/-- and when it writes them -/
theorem advance_written (h : At st g written) (ho : offer embed batchSize t = some o) (hnew : o.modelId ∉ written)
    (hraises : (g.join o).raises (g.faultOf o) = false) :
    (advance embed batchSize st t).outcomes = st.outcomes ++ [endOf o.mark] ∧
      At (advance embed batchSize st t) (g.join o).flushed (o.modelId :: written) := by
  obtain ⟨records, store, hid, hmark, hm, hprepare, hwrite, hgate⟩ := exists_write h ho hnew
  rw [hraises] at hwrite hgate
  have hlisted : ∀ m, m ∈ st.data.processed ++ [t.call.modelId] ↔ m ∈ o.modelId :: written := fun m => by
    rw [List.mem_append, List.mem_singleton, List.mem_cons, h.written, hid, or_comm]
  rw [← hmark]
  simp only [advance, processModel, if_neg hm, hprepare, hwrite, Bool.not_false]
  cases t.mark with
  | done => exact ⟨rfl, hgate, hlisted⟩
  | failsBefore => exact ⟨rfl, hgate, hlisted⟩
  | failsAfter => exact ⟨rfl, hgate, hlisted⟩

/-! ## A run -/

variable (embed batchSize) in
theorem exists_outcomes (ts : List Task) (st : Progress) :
    ∃ more, (runModels embed batchSize ts st).outcomes = st.outcomes ++ more := by
  induction ts generalizing st with
  | nil => exact ⟨[], (List.append_nil _).symm⟩
  | cons t ts ih =>
    obtain ⟨more, hmore⟩ := ih (advance embed batchSize st t)
    exact ⟨_ :: more, by rw [runModels, List.foldl_cons, ← runModels, hmore, advance, List.append_assoc]; rfl⟩

theorem clean_of_run {ts : List Task} (h : Clean (runModels embed batchSize ts st).outcomes) : Clean st.outcomes := by
  obtain ⟨more, hmore⟩ := exists_outcomes embed batchSize ts st
  rw [hmore] at h
  exact ⟨fun hmem => h.1 (List.mem_append_left _ hmem), (List.pairwise_append.1 h.2).1⟩

variable (embed batchSize) in
/-- the condition of `intact_iff`, at the end of a run that goes on from here -/
def EndsIntact (finalFault : Fault) (ts : List Task) (st : Progress) : Prop :=
  Clean (runModels embed batchSize ts st).outcomes ∧
    (.kept ∈ (runModels embed batchSize ts st).outcomes →
      (flush finalFault (runModels embed batchSize ts st).data.store).2 = false)

theorem endsIntact_cons (finalFault : Fault) (t : Task) (ts : List Task) (st : Progress) :
    EndsIntact embed batchSize finalFault (t :: ts) st ↔
      EndsIntact embed batchSize finalFault ts (advance embed batchSize st t) := Iff.rfl

theorem At.skip (h : At st g written) : At ⟨st.outcomes ++ [.skipped], st.data, st.pointId⟩ g written := ⟨h.gate, h.written⟩

theorem count_ne_zero (ho : offer embed batchSize t = some o) : o.count ≠ 0 := by
  obtain ⟨records, -, hne, rfl⟩ := exists_records ho 0
  exact fun hzero => hne (List.eq_nil_of_length_eq_zero hzero)

/-- a flush that raised leaves its rows behind -/
theorem rows_raised_ne (ho : offer embed batchSize t = some o) (fault : Fault) : ((g.join o).raised fault).rows ≠ 0 := by
  have hrows : ((g.join o).raised fault).rows = g.rows + o.count := by
    cases fault <;> rfl
  rw [hrows]
  exact fun hzero => count_ne_zero ho (Nat.eq_zero_of_add_eq_zero_left hzero)

/-- after a failure -/
theorem endsIntact_iff_stuck (finalFault : Fault) (ts : List Task) (h : At st g written)
    (hfailed : ∃ a ∈ st.outcomes, a.failed) (hclean : Clean st.outcomes) (hkept : .kept ∈ st.outcomes ↔ g.rows ≠ 0) :
    EndsIntact embed batchSize finalFault ts st ↔ Stuck finalFault g written (ts.filterMap (offer embed batchSize)) := by
  induction ts generalizing st g with
  | nil =>
    change (Clean st.outcomes ∧ (.kept ∈ st.outcomes → (flush finalFault st.data.store).2 = false)) ↔ _
    rw [List.filterMap_nil, Stuck, and_iff_right hclean, hkept]
    by_cases hrows : g.rows = 0
    · exact iff_of_true (fun hne => absurd hrows hne) (Or.inl hrows)
    · have hb : st.data.store.buffer ≠ [] := fun hb => hrows (by rw [← h.gate.rows, hb]; rfl)
      rw [or_iff_right hrows, forall_prop_of_true hrows, (flush_matches h.gate hb finalFault).1, Bool.not_eq_false']
  | cons t ts ih =>
    have hskip : Clean (st.outcomes ++ [.skipped]) := (clean_snoc _ _).2 ⟨hclean, by decide, fun _ => rfl⟩
    have hlater {a : Outcome} : ∃ b ∈ st.outcomes ++ [a], b.failed := by
      obtain ⟨b, hb, hf⟩ := hfailed
      exact ⟨b, List.mem_append_left _ hb, hf⟩
    rw [endsIntact_cons]
    cases ho : offer embed batchSize t with
    | none =>
      rw [List.filterMap_cons_none ho, advance_none h ho]
      exact ih h.skip hlater hskip (by simpa using hkept)
    | some o =>
      rw [List.filterMap_cons_some ho, Stuck]
      by_cases hold : o.modelId ∈ written
      · rw [if_pos hold, advance_old h ho hold]
        exact ih h.skip hlater hskip (by simpa using hkept)
      · rw [if_neg hold]
        cases hraises : (g.join o).raises (g.faultOf o) with
        | true =>
          obtain ⟨houtcomes, hat⟩ := advance_kept h ho hold hraises
          rw [and_iff_right rfl]
          refine ih hat (houtcomes ▸ hlater) ?_ ?_
          · rw [houtcomes]
            exact (clean_snoc _ _).2 ⟨hclean, by decide, fun _ => rfl⟩
          · rw [houtcomes]
            exact iff_of_true (List.mem_append_right _ (List.mem_singleton_self _)) (rows_raised_ne ho _)
        | false =>
          -- something is written after a failure
          obtain ⟨houtcomes, -⟩ := advance_written h ho hold hraises
          refine iff_of_false (fun hends => ?_) (fun hstuck => Bool.false_ne_true hstuck.1)
          have hwrote := clean_of_run hends.1
          rw [houtcomes, clean_snoc] at hwrote
          have hno := hwrote.2.2 hfailed
          cases hmark : o.mark <;> rw [hmark] at hno <;> cases hno

/-- before any failure -/
theorem endsIntact_iff_contained (finalFault : Fault) (ts : List Task) (h : At st g written)
    (hok : ∀ a ∈ st.outcomes, a.failed = false) (hclean : Clean st.outcomes) (hrows : g.rows = 0) :
    EndsIntact embed batchSize finalFault ts st ↔ Contained finalFault g written (ts.filterMap (offer embed batchSize)) := by
  have hnot : .kept ∉ st.outcomes := fun hmem => absurd (hok _ hmem) (by decide)
  induction ts generalizing st g written with
  | nil => exact iff_of_true ⟨hclean, fun hmem => absurd hmem hnot⟩ trivial
  | cons t ts ih =>
    have hskip : Clean (st.outcomes ++ [.skipped]) := (clean_snoc _ _).2 ⟨hclean, by decide, fun _ => rfl⟩
    have hskipped : ∀ a ∈ st.outcomes ++ [.skipped], a.failed = false := by
      simpa [or_imp, forall_and] using ⟨hok, rfl⟩
    rw [endsIntact_cons]
    cases ho : offer embed batchSize t with
    | none =>
      rw [List.filterMap_cons_none ho, advance_none h ho]
      exact ih h.skip hskipped hskip hrows (by simpa using hnot)
    | some o =>
      rw [List.filterMap_cons_some ho, Contained]
      by_cases hold : o.modelId ∈ written
      · rw [if_pos hold, advance_old h ho hold]
        exact ih h.skip hskipped hskip hrows (by simpa using hnot)
      · rw [if_neg hold]
        cases hraises : (g.join o).raises (g.faultOf o) with
        | true =>
          obtain ⟨houtcomes, hat⟩ := advance_kept h ho hold hraises
          rw [if_pos rfl]
          refine endsIntact_iff_stuck finalFault ts hat ?_ ?_ ?_
          · exact ⟨.kept, by rw [houtcomes]; simp, rfl⟩
          · rw [houtcomes]
            exact (clean_snoc _ _).2 ⟨hclean, by decide, fun _ => rfl⟩
          · rw [houtcomes]
            exact iff_of_true (List.mem_append_right _ (List.mem_singleton_self _)) (rows_raised_ne ho _)
        | false =>
          obtain ⟨houtcomes, hat⟩ := advance_written h ho hold hraises
          rw [if_neg Bool.false_ne_true]
          have hnone : ¬∃ a ∈ st.outcomes, a.failed := fun hf => by
            obtain ⟨a, ha, hfailed⟩ := hf
            rw [hok a ha] at hfailed
            cases hfailed
          cases hmark : o.mark with
          | done =>
            rw [hmark] at houtcomes
            refine ih hat ?_ ?_ rfl ?_
            · rw [houtcomes]
              simpa [or_imp, forall_and] using ⟨hok, rfl⟩
            · rw [houtcomes]
              exact (clean_snoc _ _).2 ⟨hclean, by decide, fun hf => absurd hf hnone⟩
            · rw [houtcomes]
              simpa [endOf] using hnot
          | failsBefore =>
            rw [hmark] at houtcomes
            refine iff_of_false (fun hends => ?_) not_false
            have hunlisted := clean_of_run hends.1
            rw [houtcomes, clean_snoc] at hunlisted
            exact hunlisted.2.1 rfl
          | failsAfter =>
            rw [hmark] at houtcomes
            refine endsIntact_iff_stuck finalFault ts hat ?_ ?_ ?_
            · exact ⟨.unfinished, by rw [houtcomes]; simp [endOf], rfl⟩
            · rw [houtcomes]
              exact (clean_snoc _ _).2 ⟨hclean, by decide, fun hf => absurd hf hnone⟩
            · rw [houtcomes]
              exact iff_of_false (by simpa [endOf] using hnot) (not_not.2 rfl)

end Model

/-- **What a failing model leaves, by what each call meets.** After a run from an empty data directory the ids are distinct, every row
belongs to a listed model and each listed model has exactly the records of one call, if and only if no call raises between its rows
and its line, and from the first call on that fails in the writer or after its line every flush raises that has something to write,
the final one included. -/
theorem contained_iff (embed : Str → Vec) (batchSize : ℕ) (tasks : List Task) (finalFault : Fault) (closeRaises : Bool) :
    Intact embed batchSize tasks (run embed batchSize tasks finalFault closeRaises (Data.new none [])).2.1 ↔
      Contained finalFault Gate.new [] (tasks.filterMap (offer embed batchSize)) := by
  rw [intact_iff]
  have hstart : At ⟨[], Data.new none [], 0⟩ Gate.new [] := ⟨new_matches none, fun m => Iff.rfl⟩
  exact endsIntact_iff_contained finalFault tasks hstart (by simp) ⟨List.not_mem_nil, List.Pairwise.nil⟩ rfl

end AgentPick.Failures
