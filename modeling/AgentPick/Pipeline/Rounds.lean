/-
Rounds of the pipeline: a vectorizer run over the data directory, then both loaders, again and again.

Before a run `processed_models.txt` may be removed, "re-process models (keeps existing Parquet)". A run that writes creates
the file anew with ids above those of the old file; the loaders upsert: a point stays in the collection until its id comes
again, and a row of the table is replaced as a whole. A run is successful if it returned and none of its calls raised after
it had records for the writer. The ids of the models come from the Hub and have no whitespace around them.

`Fresh` is the condition on a round: a model that the run vectorises has no point in the collection.

Results:
- `run_file`: what a successful run leaves in the file.
- `Step.cases`: all that a round can do.
- `step_inv`, `agree_iff_fresh`: a fresh round keeps the invariant, and the stores agree after a round exactly if it is fresh.
- `rounds_agree`: after every sequence of fresh rounds the rows of the table list exactly the points of their models.
- `removed_leaves_stale`: a model processed twice; its first point is in no row.
-/
import Mathlib.Tactic
import AgentPick.Pipeline.Loaders
import AgentPick.Pipeline.Vectorizer

namespace AgentPick.Rounds

open AgentPick.Records AgentPick.Storage AgentPick.Vectorizer AgentPick.Models AgentPick.Loaders

/-! ## Rounds -/

/-- the data directory and the two stores -/
structure World where
  file : Option PFile
  lines : List Str
  collection : Option (Collection Vec)
  table : Models

/-- the vectorizer run of a round -/
structure Round where
  /-- `rm data/processed_models.txt` before it -/
  removed : Bool
  tasks : List Task
  finalFault : Fault
  closeRaises : Bool

def World.points (w : World) : Collection Vec := w.collection.getD Dict.empty

/-- the rows that the loaders read -/
def fileRows (file : Option PFile) : List (Row Vec) := (rowsOf file).map ofRecord

/-- the processed models that the run reads -/
def Round.listed (r : Round) (w : World) : List Str := if r.removed then [] else w.lines

section Model

variable (embed : Str → Vec) (batchSize : ℕ)

/-- the vectorizer run of a round: its outcomes, the data directory after it, and whether it completed -/
def vectorize (r : Round) (w : World) : List Outcome × Data × Bool :=
  run embed batchSize r.tasks r.finalFault r.closeRaises (Data.new w.file (r.listed w))

structure Successful (r : Round) (w : World) : Prop where
  completed : (vectorize embed batchSize r w).2.2 = true
  unfailed : ∀ o ∈ (vectorize embed batchSize r w).1, o.failed = false

/-- both loaders on the file that the run leaves -/
def World.next (w : World) (r : Round) (b : Batches (fileRows (vectorize embed batchSize r w).2.1.store.file)) : World where
  file := (vectorize embed batchSize r w).2.1.store.file
  lines := (vectorize embed batchSize r w).2.1.lines
  collection := (loadParquetToQdrant b w.collection).1
  table := insertModelsBatch w.table (aggregateByModel (fileRows (vectorize embed batchSize r w).2.1.store.file))

/-- a round -/
inductive Step (w : World) (r : Round) : World → Prop where
  | round (successful : Successful embed batchSize r w)
      (trimmed : ∀ t ∈ r.tasks, Text.strip t.call.modelId = t.call.modelId)
      (b : Batches (fileRows (vectorize embed batchSize r w).2.1.store.file)) : Step w r (w.next embed batchSize r b)

/-- the call has records for the writer, if its model is not listed -/
def Vectorises (t : Task) : Prop := ∃ pointId records, prepare embed batchSize t.call pointId = .ok records

/-- no model that the run vectorises has a point -/
def Fresh (w : World) (r : Round) : Prop :=
  ∀ t ∈ r.tasks, t.call.modelId ∉ r.listed w → Vectorises embed batchSize t →
    ∀ i p, w.points.get? i = some p → p.payload.modelId ≠ some t.call.modelId

/-- an empty data directory and empty stores -/
def start : World := ⟨none, [], none, Dict.empty⟩

/-- the states after rounds that satisfy a condition -/
inductive Reached (cond : World → Round → Prop) : World → Prop where
  | start : Reached cond start
  | step {w w' : World} {r : Round} (reached : Reached cond w) (step : Step embed batchSize w r w') (meets : cond w r) :
      Reached cond w'

/-! ## A successful run -/

/-- the rows of the calls so far, after the file, the lines and the counter that the run started from -/
structure Written (tasks : List Task) (listed : List Str) (pointId : ℕ) (rows : List Record) : Prop where
  ids : rows.map Record.id = List.range' pointId rows.length
  models : ∀ r ∈ rows, ∃ t ∈ tasks, t.call.modelId = r.modelId ∧ t.call.modelId ∉ listed ∧ Vectorises embed batchSize t

/-- the state of a run in which no call has failed -/
structure Unfailed (tasks : List Task) (file : Option PFile) (listed : List Str) (pointId : ℕ) (st : Progress) : Prop where
  buffer : st.data.store.buffer = []
  processed : ∀ m ∈ listed, m ∈ st.data.processed
  store : (st.data.store.isOpen = false ∧ st.data.store.file = file ∧ st.pointId = pointId ∧ st.data.processed = listed) ∨
    ∃ rows, rows ≠ [] ∧ st.data.store.isOpen = true ∧ st.data.store.file = some ⟨rows, false⟩ ∧
      st.pointId = pointId + rows.length ∧ Written embed batchSize tasks listed pointId rows ∧
      ∀ m ∈ st.data.processed, m ∈ listed ∨ ∃ r ∈ rows, r.modelId = m

variable {embed batchSize}

/-- the records of a call, after those of the calls before -/
theorem Written.append {tasks : List Task} {listed : List Str} {pointId : ℕ} {rows records : List Record}
    (h : Written embed batchSize tasks listed pointId rows) {t : Task} (ht : t ∈ tasks) (hlisted : t.call.modelId ∉ listed)
    (hprepare : prepare embed batchSize t.call (pointId + rows.length) = .ok records) :
    Written embed batchSize tasks listed pointId (rows ++ records) := by
  refine ⟨?_, ?_⟩
  · rw [List.map_append, h.ids, prepare_ids hprepare, List.length_append]
    exact List.range'_append_1
  · intro r hr
    rcases List.mem_append.1 hr with hr | hr
    · exact h.models r hr
    · exact ⟨t, ht, (prepare_modelId hprepare r hr).symm, hlisted, _, _, hprepare⟩

theorem Written.nil (tasks : List Task) (listed : List Str) (pointId : ℕ) :
    Written embed batchSize tasks listed pointId [] :=
  ⟨rfl, fun r hr => by cases hr⟩

/-- a call that writes, in a state that no call has failed before -/
theorem written_unfailed {tasks : List Task} {file : Option PFile} {listed : List Str} {pointId : ℕ} {st : Progress}
    (h : Unfailed embed batchSize tasks file listed pointId st) {t : Task} (ht : t ∈ tasks)
    (hm : t.call.modelId ∉ st.data.processed) {records : List Record}
    (hprepare : prepare embed batchSize t.call st.pointId = .ok records) {store : Store}
    (hw : write t.addFault t.flushFault records st.data.store = (store, true)) (outcomes : List Outcome) :
    Unfailed embed batchSize tasks file listed pointId ⟨outcomes,
      ⟨store, st.data.processed ++ [t.call.modelId], st.data.lines ++ [t.call.modelId]⟩, st.pointId + records.length⟩ := by
  have hlisted : t.call.modelId ∉ listed := fun hl => hm (h.processed _ hl)
  have hne : (st.data.store.extend records).buffer ≠ [] := by
    rw [Store.extend, h.buffer]
    exact prepare_ne_nil hprepare
  rw [write_eq] at hw
  obtain ⟨hbuffer, hopen, hfile, -⟩ := flush_returned hne hw
  rw [Store.extend, h.buffer, List.nil_append] at hfile
  refine ⟨hbuffer, fun m hl => List.mem_append_left _ (h.processed m hl), .inr ?_⟩
  obtain ⟨x, hx, -, hxm⟩ := exists_first hprepare
  have hmodel {m : Str} {rows : List Record} (hrows : records ⊆ rows) (hm' : m ∈ [t.call.modelId]) :
      ∃ r ∈ rows, r.modelId = m := ⟨x, hrows hx, hxm.trans (List.mem_singleton.1 hm').symm⟩
  rcases h.store with ⟨hclosed, -, hpoint, hnone⟩ | ⟨rows, hrows, hattached, hold, hpoint, hwritten, hknown⟩
  · -- the first rows of the run
    rw [hclosed, if_neg Bool.false_ne_true, List.nil_append] at hfile
    rw [hpoint] at hprepare
    refine ⟨records, prepare_ne_nil hprepare, hopen, hfile, by rw [hpoint],
      (Written.nil tasks listed pointId).append ht hlisted hprepare, fun m hm' => ?_⟩
    rw [hnone] at hm'
    exact (List.mem_append.1 hm').imp_right (hmodel (List.Subset.refl _))
  · rw [hattached, if_pos rfl, hold] at hfile
    rw [hpoint] at hprepare
    refine ⟨rows ++ records, List.append_ne_nil_of_left_ne_nil hrows _, hopen, hfile, ?_,
      hwritten.append ht hlisted hprepare, fun m hm' => ?_⟩
    · rw [hpoint, List.length_append, Nat.add_assoc]
    · rcases List.mem_append.1 hm' with hm' | hm'
      · refine (hknown m hm').imp_right fun hr => ?_
        obtain ⟨r, hr, hrm⟩ := hr
        exact ⟨r, List.mem_append_left _ hr, hrm⟩
      · exact .inr (hmodel (List.subset_append_right _ _) hm')

/-- a call that does not fail -/
theorem advance_unfailed {tasks : List Task} {file : Option PFile} {listed : List Str} {pointId : ℕ} {st : Progress}
    (h : Unfailed embed batchSize tasks file listed pointId st) {t : Task} (ht : t ∈ tasks)
    (hok : ∀ o ∈ (advance embed batchSize st t).outcomes, o.failed = false) :
    Unfailed embed batchSize tasks file listed pointId (advance embed batchSize st t) := by
  have hlast : (processModel embed batchSize t st.data st.pointId).1.failed = false :=
    hok _ (List.mem_append_right _ (List.mem_singleton_self _))
  unfold advance
  rcases processModel_cases embed batchSize t st.data st.pointId with
    e | ⟨records, hm, hprepare, store, ⟨-, e⟩ | ⟨hw, e | ⟨o, p, ho, e⟩⟩⟩
  · rw [e]
    exact ⟨h.buffer, h.processed, h.store⟩
  · rw [e] at hlast
    cases hlast
  · rw [e] at hlast
    cases hlast
  · rw [e] at hlast ⊢
    rcases ho with ⟨rfl, -⟩ | ⟨rfl, rfl⟩
    · cases hlast
    · exact written_unfailed h ht hm hprepare hw _

theorem runModels_snoc (ts : List Task) (t : Task) (st : Progress) :
    runModels embed batchSize (ts ++ [t]) st = advance embed batchSize (runModels embed batchSize ts st) t := by
  rw [runModels, List.foldl_append]
  rfl

theorem runModels_unfailed {tasks ts : List Task} (hts : ∀ t ∈ ts, t ∈ tasks) {file : Option PFile} {listed : List Str}
    {pointId : ℕ} (hok : ∀ o ∈ (runModels embed batchSize ts ⟨[], Data.new file listed, pointId⟩).outcomes, o.failed = false) :
    Unfailed embed batchSize tasks file listed pointId (runModels embed batchSize ts ⟨[], Data.new file listed, pointId⟩) := by
  induction ts using List.reverseRecOn with
  | nil => exact ⟨rfl, fun _ hm => hm, .inl ⟨rfl, rfl, rfl, rfl⟩⟩
  | append_singleton ts t ih =>
    rw [runModels_snoc] at hok ⊢
    refine advance_unfailed (ih (fun t' ht' => hts t' (List.mem_append_left _ ht')) fun o ho => ?_) (hts t (by simp)) hok
    exact hok o (List.mem_append_left _ ho)

/-- a call has records or not, whatever the counter -/
theorem Vectorises.prepare {t : Task} (h : Vectorises embed batchSize t) (pointId : ℕ) :
    ∃ records, prepare embed batchSize t.call pointId = .ok records := by
  obtain ⟨_, _, hp⟩ := h
  obtain ⟨p, hc, he⟩ := prepare_ok.1 hp
  obtain ⟨h0, hne, -⟩ := embedded_ok.1 he
  exact ⟨_, prepare_ok.2 ⟨p, hc, embedded_ok.2 ⟨h0, hne, rfl⟩⟩⟩

/-- a model is processed after a call that has records and does not fail -/
theorem advance_processed {st : Progress} {t : Task}
    (hok : ∀ o ∈ (advance embed batchSize st t).outcomes, o.failed = false) :
    (∀ m ∈ st.data.processed, m ∈ (advance embed batchSize st t).data.processed) ∧
      (Vectorises embed batchSize t → t.call.modelId ∈ (advance embed batchSize st t).data.processed) := by
  have hlast : (processModel embed batchSize t st.data st.pointId).1.failed = false :=
    hok _ (List.mem_append_right _ (List.mem_singleton_self _))
  unfold advance processModel at *
  by_cases hm : t.call.modelId ∈ st.data.processed
  · rw [if_pos hm]
    exact ⟨fun _ hm' => hm', fun _ => hm⟩
  rw [if_neg hm] at hlast ⊢
  cases hprepare : prepare embed batchSize t.call st.pointId with
  | error e =>
    refine ⟨fun _ hm' => hm', fun hv => ?_⟩
    obtain ⟨records, hrecords⟩ := hv.prepare st.pointId
    rw [hprepare] at hrecords
    cases hrecords
  | ok records =>
    simp only [hprepare] at hlast
    rcases hw : write t.addFault t.flushFault records st.data.store with ⟨store, _ | _⟩
    · simp only [hw] at hlast
      cases hlast
    · simp only [hw]
      cases t.mark <;> exact ⟨fun _ hm' => List.mem_append_left _ hm', fun _ => List.mem_append_right _ (by simp)⟩

theorem runModels_processed {ts : List Task} {st : Progress}
    (hok : ∀ o ∈ (runModels embed batchSize ts st).outcomes, o.failed = false) :
    ∀ t ∈ ts, Vectorises embed batchSize t → t.call.modelId ∈ (runModels embed batchSize ts st).data.processed := by
  induction ts using List.reverseRecOn with
  | nil =>
    intro t ht
    cases ht
  | append_singleton ts t ih =>
    rw [runModels_snoc] at hok ⊢
    obtain ⟨hold, hnew⟩ := advance_processed hok
    intro t' ht' hv
    rcases List.mem_append.1 ht' with ht' | ht'
    · exact hold _ (ih (fun o ho => hok o (List.mem_append_left _ ho)) t' ht' hv)
    · obtain rfl := List.mem_singleton.1 ht'
      exact hnew hv

/-- what a successful run leaves in the file: what was there, or the records of its calls under ids from the resume point on -/
theorem run_file {r : Round} {w : World} (h : Successful embed batchSize r w) :
    ∃ pointId, resumePoint w.file = some pointId ∧
      (((vectorize embed batchSize r w).2.1.store.file = w.file ∧
          ∀ t ∈ r.tasks, Vectorises embed batchSize t → t.call.modelId ∈ r.listed w) ∨
        ∃ rows, rows ≠ [] ∧ (vectorize embed batchSize r w).2.1.store.file = some ⟨rows, true⟩ ∧
          Written embed batchSize r.tasks (r.listed w) pointId rows ∧
          ∀ t ∈ r.tasks, Vectorises embed batchSize t → t.call.modelId ∈ r.listed w ∨
            ∃ x ∈ rows, x.modelId = t.call.modelId) := by
  obtain ⟨hcompleted, hunfailed⟩ := h
  unfold vectorize run at *
  cases hresume : resumePoint w.file with
  | none =>
    rw [show (Data.new w.file (r.listed w)).store.file = w.file from rfl, hresume] at hcompleted
    cases hcompleted
  | some pointId =>
    rw [show (Data.new w.file (r.listed w)).store.file = w.file from rfl, hresume] at hcompleted hunfailed ⊢
    refine ⟨pointId, rfl, ?_⟩
    obtain ⟨hbuffer, -, hstore⟩ := runModels_unfailed (fun t ht => ht) hunfailed
    have hprocessed := runModels_processed hunfailed
    simp only [finish, flush_nil hbuffer] at hcompleted ⊢
    rcases hstore with ⟨hclosed, hfile, -, hnone⟩ | ⟨rows, hne, hopen, hfile, -, hwritten, hknown⟩
    · left
      rw [hnone] at hprocessed
      rw [close, hclosed]
      exact ⟨hfile, hprocessed⟩
    · right
      cases hraises : r.closeRaises with
      | true =>
        rw [hraises, close, hopen] at hcompleted
        cases hcompleted
      | false =>
        refine ⟨rows, hne, ?_, hwritten, fun t ht hv => hknown _ (hprocessed t ht hv)⟩
        rw [close, hopen, hfile]
        rfl

/-! ## The invariant -/

/-- what the stores hold after a round -/
structure Inv (w : World) : Prop where
  agree : Agree w.points w.table
  /-- the next run gives out ids that no point has -/
  below : ∀ pointId, resumePoint w.file = some pointId → ∀ i p, w.points.get? i = some p → i < pointId
  ids : ((rowsOf w.file).map Record.id).Nodup
  trimmed : ∀ r ∈ rowsOf w.file, Text.strip r.modelId = r.modelId
  /-- the file is loaded: loading it again changes nothing -/
  loaded : upsert w.points ((fileRows w.file).filterMap toPoint) = w.points
  inserted : insertModelsBatch w.table (aggregateByModel (fileRows w.file)) = w.table

theorem le_foldl_max {l : List ℕ} {x : ℕ} (hx : x ∈ l) : x ≤ l.foldl max 0 := by
  rw [List.foldl_max_eq_max (List.ne_nil_of_mem hx)]
  exact (List.le_max_of_mem hx).trans (le_max_right _ _)

theorem resumePoint_closed {rows : List Record} (hne : rows ≠ []) :
    resumePoint (some ⟨rows, true⟩) = some ((rows.map Record.id).foldl max 0 + 1) := by
  rw [resumePoint, if_pos rfl, if_neg hne]

theorem Written.nodup {tasks : List Task} {listed : List Str} {pointId : ℕ} {rows : List Record}
    (h : Written embed batchSize tasks listed pointId rows) : (rows.map Record.id).Nodup := by
  rw [h.ids]
  exact List.nodup_range'

theorem Written.trimmed {tasks : List Task} {listed : List Str} {pointId : ℕ} {rows : List Record}
    (h : Written embed batchSize tasks listed pointId rows)
    (htrimmed : ∀ t ∈ tasks, Text.strip t.call.modelId = t.call.modelId) :
    ∀ x ∈ rows, Text.strip x.modelId = x.modelId := by
  intro x hx
  obtain ⟨t, ht, hm, -, -⟩ := h.models x hx
  rw [← hm]
  exact htrimmed t ht

/-- the new ids start at the resume point -/
theorem Written.le {tasks : List Task} {listed : List Str} {pointId : ℕ} {rows : List Record}
    (h : Written embed batchSize tasks listed pointId rows) {x : Row Vec} (hx : x ∈ rows.map ofRecord) {i : ℤ}
    (hi : x.id = some i) : (pointId : ℤ) ≤ i := by
  obtain ⟨y, hy, rfl⟩ := List.mem_map.1 hx
  have hrange : y.id ∈ List.range' pointId rows.length := h.ids ▸ List.mem_map_of_mem hy
  rw [← Option.some.inj hi]
  exact_mod_cast (List.mem_range'_1.1 hrange).1

section Rewritten

variable {w : World} (h : Inv w) {r : Round} {pointId : ℕ} (hresume : resumePoint w.file = some pointId)
  {rows : List Record} (hne : rows ≠ []) (hwritten : Written embed batchSize r.tasks (r.listed w) pointId rows)
  (hwell : Wellformed (rows.map ofRecord))

include h hresume hwritten hwell

/-- the points after a load of new rows: theirs, and all that were there -/
theorem get?_rewritten (i : ℤ) (p : Point Vec) :
    (upsert w.points ((rows.map ofRecord).filterMap toPoint)).get? i = some p ↔
      (∃ x ∈ rows.map ofRecord, x.id = some i ∧ p = ⟨x.vector, x.payload⟩) ∨ w.points.get? i = some p := by
  rw [get?_upsert (ids_nodup hwell.ids), mem_points]
  refine or_congr_right ⟨And.right, fun hp => ⟨fun hi => ?_, hp⟩⟩
  obtain ⟨q, hq, rfl⟩ := List.mem_map.1 hi
  obtain ⟨x, hx, hxi, -⟩ := mem_points.1 hq
  exact absurd (h.below pointId hresume _ _ hp) (not_lt.2 (hwritten.le hx hxi))

/-- new rows, all of models without points -/
theorem agree_rewritten (hfresh : Fresh embed batchSize w r) :
    Agree (upsert w.points ((rows.map ofRecord).filterMap toPoint))
      (insertModelsBatch w.table (aggregateByModel (rows.map ofRecord))) := by
  have hget := get?_rewritten h hresume hwritten hwell
  have hother : ∀ x ∈ rows.map ofRecord, ∀ i p, w.points.get? i = some p → p.payload.modelId ≠ x.payload.modelId := by
    intro x hx i p hp
    obtain ⟨y, hy, rfl⟩ := List.mem_map.1 hx
    obtain ⟨t, ht, hm, hlisted, hvectorises⟩ := hwritten.models y hy
    have hne' := hfresh t ht hlisted hvectorises i p hp
    rwa [hm] at hne'
  refine agree_of_rows (fun m row hrow => ?_) fun i p hp => ?_
  · rcases row_of_insert hrow with ⟨hnone, hrow⟩ | ⟨hsome, hc, hn⟩
    · -- a row that the insert left alone: no new point has its model
      obtain ⟨ids, hc, hsorted, hn, hiff⟩ := h.agree.chunkIds m row hrow
      refine ⟨ids, hc, hsorted, hn, fun i => (hiff i).trans ⟨fun hp => ?_, fun hp => ?_⟩⟩
      · obtain ⟨p, hp, hm⟩ := hp
        exact ⟨p, (hget i p).2 (.inr hp), hm⟩
      · obtain ⟨p, hp, hm⟩ := hp
        rcases (hget i p).1 hp with ⟨x, hx, -, rfl⟩ | hp
        · have hmem := (mem_rowsOfModel hwell).2 ⟨hx, hm⟩
          rw [hnone] at hmem
          cases hmem
        · exact ⟨p, hp, hm⟩
    · -- a row of new rows: no old point has its model
      refine ⟨_, hc, validateChunkIds_pairwise _, hn, fun i => (mem_chunkIds hwell).trans ⟨fun hx => ?_, fun hp => ?_⟩⟩
      · obtain ⟨x, hx, hm, hi⟩ := hx
        exact ⟨_, (hget i _).2 (.inl ⟨x, hx, hi, rfl⟩), hm⟩
      · obtain ⟨p, hp, hm⟩ := hp
        rcases (hget i p).1 hp with ⟨x, hx, hi, rfl⟩ | hp
        · exact ⟨x, hx, hm, hi⟩
        · obtain ⟨x, hx⟩ := List.exists_mem_of_ne_nil _ hsome
          obtain ⟨hx, hxm⟩ := (mem_rowsOfModel hwell).1 hx
          exact absurd (hm.trans hxm.symm) (hother x hx i p hp)
  · rcases (hget i p).1 hp with ⟨x, hx, -, rfl⟩ | hp
    · obtain ⟨m, hm, -⟩ := hwell.modelIds x hx
      obtain ⟨row, hrow⟩ := exists_row_of_insert hwell w.table hx hm
      exact ⟨m, row, hm, hrow⟩
    · obtain ⟨m, row, ids, hrow, hc, hi⟩ := h.agree.cover i p hp
      obtain ⟨_, hc', -, -, hiff⟩ := h.agree.chunkIds m row hrow
      obtain rfl := Option.some.inj (hc.symm.trans hc')
      obtain ⟨p', hp', hm⟩ := (hiff i).1 hi
      obtain rfl := Option.some.inj (hp.symm.trans hp')
      obtain ⟨row', hrow'⟩ := exists_row_of_old (rows.map ofRecord) hrow
      exact ⟨m, row', hm, hrow'⟩

/-- a point of a model that comes again is in no row: the row has the new ids only -/
theorem not_agree_rewritten {x : Record} (hx : x ∈ rows) {i : ℤ} {p : Point Vec} (hp : w.points.get? i = some p)
    (hm : p.payload.modelId = some x.modelId) :
    ¬ Agree (upsert w.points ((rows.map ofRecord).filterMap toPoint))
      (insertModelsBatch w.table (aggregateByModel (rows.map ofRecord))) := by
  intro hagree
  have hx' : ofRecord x ∈ rows.map ofRecord := List.mem_map_of_mem hx
  obtain ⟨row, hrow⟩ := exists_row_of_insert hwell w.table hx' rfl
  obtain ⟨ids, hc, -, -, hiff⟩ := hagree.chunkIds _ row hrow
  have hi : i ∈ ids := (hiff i).2 ⟨p, (get?_rewritten h hresume hwritten hwell i p).2 (.inr hp), hm⟩
  obtain ⟨hnone, -⟩ | ⟨-, hc', -⟩ := row_of_insert hrow
  · exact List.ne_nil_of_mem ((mem_rowsOfModel hwell).2 ⟨hx', rfl⟩) hnone
  · obtain rfl := Option.some.inj (hc.symm.trans hc')
    obtain ⟨y, hy, -, hyi⟩ := (mem_chunkIds hwell).1 hi
    exact absurd (h.below pointId hresume i p hp) (not_lt.2 (hwritten.le hy hyi))

include hne

/-- the ids of all points stay below those of the next run -/
theorem below_rewritten {pointId' : ℕ} (hresume' : resumePoint (some ⟨rows, true⟩) = some pointId') {i : ℤ} {p : Point Vec}
    (hp : (upsert w.points ((rows.map ofRecord).filterMap toPoint)).get? i = some p) : i < pointId' := by
  rw [resumePoint_closed hne] at hresume'
  obtain rfl := Option.some.inj hresume'
  have hmax : ∀ y ∈ rows, (y.id : ℤ) ≤ ((rows.map Record.id).foldl max 0 : ℕ) := by
    intro y hy
    exact_mod_cast le_foldl_max (List.mem_map_of_mem hy)
  refine lt_of_le_of_lt ?_ (Int.ofNat_lt.2 (Nat.lt_succ_self _))
  rcases (get?_rewritten h hresume hwritten hwell i p).1 hp with ⟨x, hx, hi, -⟩ | hp
  · obtain ⟨y, hy, rfl⟩ := List.mem_map.1 hx
    rw [← Option.some.inj hi]
    exact hmax y hy
  · obtain ⟨y, hy⟩ := List.exists_mem_of_ne_nil _ hne
    have hold : i < pointId := h.below pointId hresume i p hp
    have hnew : (pointId : ℤ) ≤ y.id := hwritten.le (List.mem_map_of_mem hy) rfl
    exact (hold.le.trans hnew).trans (hmax y hy)

end Rewritten

/-- a load into Qdrant is an upsert of all rows; one of no rows changes nothing -/
theorem points_of_load {rows : List (Row Vec)} (hwell : Wellformed rows) (b : Batches rows)
    (collection : Option (Collection Vec)) :
    (loadParquetToQdrant b collection).1.getD Dict.empty =
      upsert (collection.getD Dict.empty) (rows.filterMap toPoint) := by
  rw [load_eq b hwell.idSome]
  split_ifs with hrows
  · rw [hrows]
    rfl
  · rfl

/-- all that a round can do: nothing, when every model with records is listed, or new rows -/
theorem Step.cases {w w' : World} {r : Round} (h : Inv w) (hstep : Step embed batchSize w r w') :
    (w'.file = w.file ∧ w'.points = w.points ∧ w'.table = w.table ∧
        ∀ t ∈ r.tasks, Vectorises embed batchSize t → t.call.modelId ∈ r.listed w) ∨
      ∃ pointId rows, resumePoint w.file = some pointId ∧ rows ≠ [] ∧
        Written embed batchSize r.tasks (r.listed w) pointId rows ∧ (∀ x ∈ rows, Text.strip x.modelId = x.modelId) ∧
        w'.file = some ⟨rows, true⟩ ∧ w'.points = upsert w.points ((rows.map ofRecord).filterMap toPoint) ∧
        w'.table = insertModelsBatch w.table (aggregateByModel (rows.map ofRecord)) ∧
        ∀ t ∈ r.tasks, Vectorises embed batchSize t → t.call.modelId ∈ r.listed w ∨
          ∃ x ∈ rows, x.modelId = t.call.modelId := by
  obtain ⟨hsuccessful, htrimmed, b⟩ := hstep
  have hload := fun hwell => points_of_load hwell b w.collection
  unfold World.next
  generalize (loadParquetToQdrant b w.collection).1 = collection at hload ⊢
  obtain ⟨pointId, hresume, ⟨hfile, hlisted⟩ | ⟨rows, hne, hfile, hwritten, hlisted⟩⟩ := run_file hsuccessful
  · left
    rw [hfile] at hload ⊢
    exact ⟨rfl, (hload (wellformed_ofRecord h.ids h.trimmed)).trans h.loaded, h.inserted, hlisted⟩
  · right
    rw [hfile] at hload ⊢
    have htrim := hwritten.trimmed htrimmed
    exact ⟨pointId, rows, hresume, hne, hwritten, htrim, rfl,
      hload (wellformed_ofRecord hwritten.nodup htrim), rfl, hlisted⟩

theorem inv_start : Inv start where
  agree := agree_of_rows (fun _ _ hrow => by cases hrow) fun _ _ hp => by cases hp
  below := fun _ _ _ _ hp => by cases hp
  ids := List.nodup_nil
  trimmed := fun _ hr => by cases hr
  loaded := rfl
  inserted := rfl

/-- a fresh round keeps the invariant -/
theorem step_inv {w w' : World} {r : Round} (h : Inv w) (hstep : Step embed batchSize w r w')
    (hfresh : Fresh embed batchSize w r) : Inv w' := by
  rcases hstep.cases h with ⟨hfile, hpoints, htable, -⟩ |
    ⟨pointId, rows, hresume, hne, hwritten, htrim, hfile, hpoints, htable, -⟩
  · refine ⟨?_, ?_, ?_, ?_, ?_, ?_⟩ <;> simp only [hfile, hpoints, htable]
    · exact h.agree
    · exact h.below
    · exact h.ids
    · exact h.trimmed
    · exact h.loaded
    · exact h.inserted
  · have hwell := wellformed_ofRecord hwritten.nodup htrim
    refine ⟨?_, ?_, ?_, ?_, ?_, ?_⟩ <;> simp only [hfile, hpoints, htable]
    · exact agree_rewritten h hresume hwritten hwell hfresh
    · exact fun _ hresume' _ _ hp => below_rewritten h hresume hne hwritten hwell hresume' hp
    · exact hwritten.nodup
    · exact htrim
    · exact upsert_twice hwell.ids _
    · exact insert_twice _ _

/-- the stores agree after a round exactly if it is fresh -/
theorem agree_iff_fresh {w w' : World} {r : Round} (h : Inv w) (hstep : Step embed batchSize w r w') :
    Agree w'.points w'.table ↔ Fresh embed batchSize w r := by
  refine ⟨fun hagree t ht hlisted hv i p hp hm => ?_, fun hfresh => (step_inv h hstep hfresh).agree⟩
  rcases hstep.cases h with ⟨-, -, -, hall⟩ | ⟨pointId, rows, hresume, -, hwritten, htrim, -, hpoints, htable, hall⟩
  · exact hlisted (hall t ht hv)
  · obtain ⟨x, hx, hxm⟩ := (hall t ht hv).resolve_left hlisted
    have hwell := wellformed_ofRecord hwritten.nodup htrim
    rw [hpoints, htable] at hagree
    exact not_agree_rewritten h hresume hwritten hwell hx hp (by rw [hm, hxm]) hagree

theorem reached_inv {w : World} (h : Reached embed batchSize (Fresh embed batchSize) w) : Inv w := by
  induction h with
  | start => exact inv_start
  | step _ hstep hfresh ih => exact step_inv ih hstep hfresh

/-- **The stores agree after fresh rounds.** After every sequence of rounds that are all fresh, each model's row lists
exactly the ids of the points of that model and every point is in a row; and one more round leaves them so exactly if it
is fresh. -/
theorem rounds_agree {w : World} (h : Reached embed batchSize (Fresh embed batchSize) w) :
    Agree w.points w.table ∧
      ∀ r w', Step embed batchSize w r w' → (Agree w'.points w'.table ↔ Fresh embed batchSize w r) :=
  ⟨(reached_inv h).agree, fun _ _ hstep => agree_iff_fresh (reached_inv h) hstep⟩

end Model

/-! ## A model processed twice -/

/-- a run over one model with one chunk -/
def oneModel (removed : Bool) : Round := ⟨removed, [oneChunk "org/a".toList .none], .none, false⟩

/-- every row in a batch of its own -/
def single (rows : List (Row Vec)) : Batches rows :=
  ⟨rows.map fun r => [r], by simp [← List.flatMap_def], by simp⟩

/-- after the model's first round -/
def first : World := start.next (fun _ => []) 32 (oneModel false) (single _)

/-- and after `processed_models.txt` was removed and the model processed again -/
def second : World := first.next (fun _ => []) 32 (oneModel true) (single _)

theorem oneModel_trimmed (removed : Bool) : ∀ t ∈ (oneModel removed).tasks, Text.strip t.call.modelId = t.call.modelId := by
  intro t ht
  rw [List.mem_singleton.1 ht]
  decide

theorem step_first : Step (fun _ => []) 32 start (oneModel false) first :=
  .round ⟨by decide, by decide⟩ (oneModel_trimmed false) _

theorem step_second : Step (fun _ => []) 32 first (oneModel true) second :=
  .round ⟨by decide, by decide⟩ (oneModel_trimmed true) _

theorem fresh_first : Fresh (fun _ => []) 32 start (oneModel false) := fun _ _ _ _ _ _ hp => by cases hp

theorem rounds_agree_twice : Agree first.points first.table ∧
    (Agree second.points second.table ↔ Fresh (fun _ => []) 32 first (oneModel true)) :=
  have h := rounds_agree (.step .start step_first fresh_first)
  ⟨h.1, h.2 _ _ step_second⟩

/-- **A removed list leaves stale points.** The model's row has the id of the second run; its point of the first run is
still in the collection. -/
theorem removed_leaves_stale :
    Reached (fun _ => []) 32 (fun _ _ => True) second ∧
      (second.points.get? 0).map (fun p => p.payload.modelId) = some (some "org/a".toList) ∧
      (second.table.get? "org/a".toList).map ModelRow.chunkIds = some (some [1]) ∧
      ¬ Agree second.points second.table := by
  have hpoint : (second.points.get? 0).map (fun p => p.payload.modelId) = some (some "org/a".toList) := by decide
  have hids : (second.table.get? "org/a".toList).map ModelRow.chunkIds = some (some [1]) := by decide
  refine ⟨.step (.step .start step_first trivial) step_second trivial, hpoint, hids, fun hagree => ?_⟩
  obtain ⟨p, hp, hm⟩ := Option.map_eq_some_iff.1 hpoint
  obtain ⟨row, hrow, hc⟩ := Option.map_eq_some_iff.1 hids
  obtain ⟨ids, hc', -, -, hiff⟩ := hagree.chunkIds _ row hrow
  obtain rfl := Option.some.inj (hc.symm.trans hc')
  have hstale : (0 : ℤ) ∈ [1] := (hiff 0).2 ⟨p, hp, hm⟩
  simp at hstale

end AgentPick.Rounds
