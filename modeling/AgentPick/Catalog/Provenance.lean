/-
Where what the tools show comes from: the vectorizer, both loaders, enrichment and backfill in any order, and the tools between
any two steps of them.

A history is a list of operations. A run of the vectorizer has any outcome; a load into Qdrant can end after any batch; the other
load is one transaction; an enrichment goes row by row, whatever its SELECT said before; a backfill has any answer to its SELECT.
An UPDATE that the database refuses ends its program: an enrichment between two rows, a backfill without a trace.
The table has all its columns.
A search reads Qdrant first and PostgreSQL later, maybe after more operations, or PostgreSQL fails.

Results:
- `run_holds`: every record that a run leaves in the file is one of its calls, or was there before.
- `runs_inv`: after any history each point and each row comes from an answer of the Hub about its own model.
- `shown_sourced`: so does whatever a tool shows about a model, but for a count that the backfill reads off the id. Nothing is mixed
  up between models or between two answers, and no model with fewer downloads than the threshold is shown with its downloads.
-/
import Mathlib.Tactic
import AgentPick.Catalog.Details
import AgentPick.Pipeline.Backfill
import AgentPick.Pipeline.Overlap
import AgentPick.Pipeline.Rounds

namespace AgentPick.Provenance

open AgentPick.Text AgentPick.Records AgentPick.Storage AgentPick.Vectorizer AgentPick.Models AgentPick.Loaders
open AgentPick.Rounds (World Round fileRows start)
open AgentPick.Enrich (Hub Selection enrichRow updatesFor fetchModelCard fetchParameterCount enrichRow_fst)
open AgentPick.Backfill (Numerals parseParamsFromId setCount writeCounts updatesOf_spec mem_sizes)

/-! ## Histories -/

/-- an operation of the offline pipeline -/
inductive Op where
  | vectorize (r : Round)
  | loadCollection
  | loadTable
  /-- one row of an enrichment -/
  | enrich (hub : Hub)
  | backfill

section Model

variable (embed : Str → Vec) (batchSize : ℕ) (nums : Numerals)

inductive Step (w : World) : Op → World → Prop where
  | vectorize (r : Round) : Step w (.vectorize r)
      { w with
        file := (Rounds.vectorize embed batchSize r w).2.1.store.file
        lines := (Rounds.vectorize embed batchSize r w).2.1.lines }
  /-- the first n batches -/
  | loadCollection (b : Batches (fileRows w.file)) (n : ℕ) :
      Step w .loadCollection { w with collection := some (upload (b.batches.take n) w.points).1 }
  | loadTable : Step w .loadTable { w with table := insertModelsBatch w.table (aggregateByModel (fileRows w.file)) }
  | enrich (hub : Hub) (force dryRun : Bool) (stats : Enrich.Stats) (r : Selection) :
      Step w (.enrich hub) { w with table := (enrichRow hub force dryRun (w.table, stats) r).1 }
  | backfill (dryRun : Bool) {missing : List Str} {r : Models × Backfill.Stats}
      (completed : Backfill.backfill nums dryRun missing w.table = some r) : Step w .backfill { w with table := r.1 }

/-- the states that a history leads to -/
inductive Runs (w : World) : List Op → World → Prop where
  | refl : Runs w [] w
  | step {ops : List Op} {op : Op} {w' w'' : World} (runs : Runs w ops w') (step : Step embed batchSize nums w' op w'') :
      Runs w (ops ++ [op]) w''

end Model

/-- the models that a history asked about, with the answers -/
def callsOf (ops : List Op) : List Call :=
  ops.flatMap fun
    | .vectorize r => r.tasks.map Task.call
    | _ => []

/-- the Hub as the enrichments of a history found it -/
def hubsOf (ops : List Op) : List Hub :=
  ops.filterMap fun
    | .enrich hub => some hub
    | _ => none

theorem callsOf_snoc (ops : List Op) (op : Op) : callsOf ops ⊆ callsOf (ops ++ [op]) := by
  intro c hc
  rw [callsOf, List.flatMap_append]
  exact List.mem_append_left _ hc

theorem hubsOf_snoc (ops : List Op) (op : Op) : hubsOf ops ⊆ hubsOf (ops ++ [op]) := by
  intro hub hh
  rw [hubsOf, List.filterMap_append]
  exact List.mem_append_left _ hh

/-! ## Sources -/

/-- the metadata in a record -/
def infoOf (x : Record) : ModelInfo where
  downloads := x.downloads
  likes := x.likes
  tags := x.tags
  pipelineTag := x.pipelineTag
  libraryName := x.libraryName
  createdAt := x.createdAt
  lastModified := x.lastModified

/-- a record of a call: its model, its metadata, one of its chunks -/
def FromCall (c : Call) (x : Record) : Prop :=
  ∃ q, chunked c = .ok q ∧ x.modelId = c.modelId ∧ x.text ∈ q.texts ∧ infoOf x = q.info

/-- a row tells what an answer of the Hub says -/
structure Tells (info : ModelInfo) (row : ModelRow) : Prop where
  downloads : row.downloads = info.downloads
  likes : row.likes = info.likes
  pipelineTag : row.pipelineTag = info.pipelineTag
  libraryName : row.libraryName = info.libraryName
  createdAt : row.createdAt = info.createdAt
  lastModified : row.lastModified = info.lastModified
  tags : row.tags = some ((info.tags.filter (· ≠ [])).map strip)

/-- where the columns of a model's row come from -/
structure Sourced (nums : Numerals) (ops : List Op) (id : Str) (row : ModelRow) : Prop where
  answer : ∃ c ∈ callsOf ops, ∃ q, chunked c = .ok q ∧ strip c.modelId = id ∧ Tells q.info row
  card : ∀ card, row.modelCard = some card → ∃ hub ∈ hubsOf ops, fetchModelCard hub id 3 = some card
  count : ∀ n, row.parameterCount = some n →
    (∃ hub ∈ hubsOf ops, fetchParameterCount hub id 3 = some n) ∨ parseParamsFromId nums id = some (some n)

/-- what the data directory and the stores hold -/
structure Inv (nums : Numerals) (ops : List Op) (w : World) : Prop where
  file : ∀ x ∈ rowsOf w.file, ∃ c ∈ callsOf ops, FromCall c x
  points : ∀ i p, w.points.get? i = some p → ∃ c ∈ callsOf ops, ∃ x, FromCall c x ∧ p.payload = (ofRecord x).payload
  table : ∀ id row, w.table.get? id = some row → Sourced nums ops id row

theorem Sourced.snoc {nums : Numerals} {ops : List Op} {id : Str} {row : ModelRow} (h : Sourced nums ops id row) (op : Op) :
    Sourced nums (ops ++ [op]) id row := by
  obtain ⟨c, hc, hq⟩ := h.answer
  refine ⟨⟨c, callsOf_snoc ops op hc, hq⟩, fun card hcard => ?_, fun n hn => ?_⟩
  · obtain ⟨hub, hhub, hfetch⟩ := h.card card hcard
    exact ⟨hub, hubsOf_snoc ops op hhub, hfetch⟩
  · rcases h.count n hn with hfetched | hparsed
    · obtain ⟨hub, hhub, hfetch⟩ := hfetched
      exact Or.inl ⟨hub, hubsOf_snoc ops op hhub, hfetch⟩
    · exact Or.inr hparsed

theorem Inv.snoc {nums : Numerals} {ops : List Op} {w : World} (h : Inv nums ops w) (op : Op) : Inv nums (ops ++ [op]) w := by
  refine ⟨fun x hx => ?_, fun i p hp => ?_, fun id row hrow => (h.table id row hrow).snoc op⟩
  · obtain ⟨c, hc, hfrom⟩ := h.file x hx
    exact ⟨c, callsOf_snoc ops op hc, hfrom⟩
  · obtain ⟨c, hc, hfrom⟩ := h.points i p hp
    exact ⟨c, callsOf_snoc ops op hc, hfrom⟩

theorem Inv.append {nums : Numerals} {ops : List Op} {w : World} (h : Inv nums ops w) (ops' : List Op) :
    Inv nums (ops ++ ops') w := by
  induction ops' using List.reverseRecOn with
  | nil => rwa [List.append_nil]
  | append_singleton ops' op ih =>
    rw [← List.append_assoc]
    exact ih.snoc op

theorem inv_start (nums : Numerals) : Inv nums [] start where
  file x hx := absurd hx List.not_mem_nil
  points i p hp := by cases hp
  table id row hrow := by cases hrow

/-! ## A run of the vectorizer -/

section Holds

variable {P : Record → Prop}

/-- P holds of all records that the writer has written or has yet to write -/
structure Holds (P : Record → Prop) (s : Store) : Prop where
  file : ∀ x ∈ rowsOf s.file, P x
  buffer : ∀ x ∈ s.buffer, P x

theorem flush_holds {fault : Fault} {s s' : Store} {ok : Bool} (h : Holds P s) (hflush : flush fault s = (s', ok)) :
    Holds P s' := by
  cases ok with
  | true =>
    by_cases hb : s.buffer = []
    · rw [flush_nil hb] at hflush
      cases hflush
      exact h
    · obtain ⟨hbuffer, -, hfile, -⟩ := flush_returned hb hflush
      refine ⟨fun x hx => ?_, fun x hx => ?_⟩
      · rw [hfile] at hx
        rcases List.mem_append.1 hx with hx | hx
        · split_ifs at hx
          · exact h.file x hx
          · exact absurd hx List.not_mem_nil
        · exact h.buffer x hx
      · rw [hbuffer] at hx
        exact absurd hx List.not_mem_nil
  | false =>
    obtain ⟨-, hbuffer, hfile⟩ := flush_raised hflush
    refine ⟨fun x hx => ?_, fun x hx => h.buffer x (hbuffer ▸ hx)⟩
    rcases hfile with hsame | hcreated
    · exact h.file x (hsame.2 ▸ hx)
    · rw [hcreated.2] at hx
      exact absurd hx List.not_mem_nil

theorem write_holds {addFault flushFault : Fault} {records : List Record} {s s' : Store} {ok : Bool} (h : Holds P s)
    (hrecords : ∀ x ∈ records, P x) (hwrite : write addFault flushFault records s = (s', ok)) : Holds P s' := by
  rw [write_eq] at hwrite
  have hextended : Holds P (s.extend records) := ⟨h.file, List.forall_mem_append.2 ⟨h.buffer, hrecords⟩⟩
  exact flush_holds hextended hwrite

variable {embed : Str → Vec} {batchSize : ℕ}

theorem advance_holds {st : Progress} {t : Task} (h : Holds P st.data.store)
    (hrecords : ∀ start records, prepare embed batchSize t.call start = .ok records → ∀ x ∈ records, P x) :
    Holds P (advance embed batchSize st t).data.store := by
  rw [advance]
  rcases processModel_cases embed batchSize t st.data st.pointId with hskip | hcall
  · rw [hskip]
    exact h
  · obtain ⟨records, -, hprepare, store, hfailed | hwritten⟩ := hcall
    · rw [hfailed.2]
      exact write_holds h (hrecords _ _ hprepare) hfailed.1
    · have hstore := write_holds h (hrecords _ _ hprepare) hwritten.1
      rcases hwritten.2 with heq | heq
      · rw [heq]
        exact hstore
      · obtain ⟨o, p, -, heq⟩ := heq
        rw [heq]
        exact hstore

theorem finish_holds {finalFault : Fault} {closeRaises : Bool} {d : Data} (h : Holds P d.store) :
    ∀ x ∈ rowsOf (finish finalFault closeRaises d).1.store.file, P x := by
  rw [finish]
  rcases hflush : flush finalFault d.store with ⟨store, ok⟩
  have hstore := flush_holds h hflush
  cases ok with
  | false => exact hstore.file
  | true =>
    have hrows := close_rows closeRaises store
    intro x hx
    exact hstore.file x (hrows ▸ hx)

/-- **What a run leaves in the file was there before or is of one of its calls**, however it ends. -/
theorem run_holds {tasks : List Task} {finalFault : Fault} {closeRaises : Bool} {d : Data} (h : Holds P d.store)
    (hrecords : ∀ t ∈ tasks, ∀ start records, prepare embed batchSize t.call start = .ok records → ∀ x ∈ records, P x) :
    ∀ x ∈ rowsOf (run embed batchSize tasks finalFault closeRaises d).2.1.store.file, P x := by
  rw [run]
  cases resumePoint d.store.file with
  | none => exact h.file
  | some pointId =>
    refine finish_holds ?_
    have hstart : Holds P (Progress.mk [] d pointId).data.store := h
    rw [runModels]
    generalize Progress.mk [] d pointId = st at hstart ⊢
    induction tasks generalizing st with
    | nil => exact hstart
    | cons t tasks ih =>
      refine ih (fun t' ht' => hrecords t' (List.mem_cons_of_mem t ht')) _ ?_
      exact advance_holds hstart (hrecords t List.mem_cons_self)

/-- the records of a call -/
theorem fromCall_of_prepare {c : Call} {start : ℕ} {records : List Record} (h : prepare embed batchSize c start = .ok records)
    {x : Record} (hx : x ∈ records) : FromCall c x := by
  rw [prepare] at h
  cases hchunked : chunked c with
  | error e =>
    rw [hchunked] at h
    cases h
  | ok q =>
    rw [hchunked] at h
    obtain ⟨-, -, rfl⟩ := embedded_ok.1 h
    obtain ⟨e, he, rfl⟩ := List.mem_map.1 hx
    refine ⟨q, hchunked, rfl, ?_, rfl⟩
    have hzip := List.fst_mem_of_mem_zipIdx he
    exact List.mem_map_of_mem (List.of_mem_zip hzip).2

end Holds

/-! ## Loads -/

theorem of_get?_upsert {V : Type} {c : Collection V} {points : List (ℤ × Point V)} {i : ℤ} {p : Point V}
    (h : (upsert c points).get? i = some p) : c.get? i = some p ∨ (i, p) ∈ points := by
  induction points using List.reverseRecOn with
  | nil => exact Or.inl h
  | append_singleton points q ih =>
    rw [upsert, Dict.accumulate_snoc, Dict.get?_set] at h
    split_ifs at h with hi
    · obtain rfl := Option.some.inj h
      refine Or.inr (List.mem_append_right _ ?_)
      rw [hi]
      exact List.mem_singleton.2 rfl
    · exact (ih h).imp id (List.mem_append_left _)

/-- a row that the loaders read is a record of the file -/
theorem mem_fileRows {file : Option PFile} {r : Row Vec} : r ∈ fileRows file ↔ ∃ x ∈ rowsOf file, ofRecord x = r :=
  List.mem_map

theorem point_of_load {w : World} {b : Batches (fileRows w.file)} {n : ℕ} {i : ℤ} {p : Point Vec}
    (h : (upload (b.batches.take n) w.points).1.get? i = some p) :
    w.points.get? i = some p ∨ ∃ x ∈ rowsOf w.file, p.payload = (ofRecord x).payload := by
  have hrows : ∀ r ∈ (b.batches.take n).flatten, r ∈ fileRows w.file := by
    intro r hr
    obtain ⟨batch, hbatch, hr⟩ := List.mem_flatten.1 hr
    rw [← b.flatten]
    exact List.mem_flatten.2 ⟨batch, List.mem_of_mem_take hbatch, hr⟩
  have hid : ∀ r ∈ (b.batches.take n).flatten, r.id ≠ none := by
    intro r hr
    obtain ⟨x, -, rfl⟩ := mem_fileRows.1 (hrows r hr)
    exact Option.some_ne_none _
  rw [upload_eq hid] at h
  refine (of_get?_upsert h).imp id fun hmem => ?_
  obtain ⟨r, hr, -, rfl⟩ := mem_points.1 hmem
  obtain ⟨x, hx, rfl⟩ := mem_fileRows.1 (hrows r hr)
  exact ⟨x, hx, rfl⟩

/-- the row of a model after a load: the old one, or one with the columns of a record and the enriched columns of the old one -/
theorem row_of_load {table : Models} {file : Option PFile} {id : Str} {row : ModelRow}
    (h : (insertModelsBatch table (aggregateByModel (fileRows file))).get? id = some row) :
    table.get? id = some row ∨ ∃ x ∈ rowsOf file, strip x.modelId = id ∧ Tells (infoOf x) row ∧
      row.modelCard = (table.get? id).bind ModelRow.modelCard ∧
      row.parameterCount = (table.get? id).bind ModelRow.parameterCount := by
  rw [get?_insert, get?_modelsDict] at h
  cases hhead : (rowsOfModel (fileRows file) id).head? with
  | none =>
    rw [hhead] at h
    exact Or.inl h
  | some r =>
    rw [hhead] at h
    obtain rfl := Option.some.inj h
    obtain ⟨hr, hkey⟩ := List.mem_filter.1 (List.mem_of_mem_head? hhead)
    obtain ⟨x, hx, rfl⟩ := mem_fileRows.1 hr
    exact Or.inr ⟨x, hx, Option.some.inj (of_decide_eq_true hkey), ⟨rfl, rfl, rfl, rfl, rfl, rfl, rfl⟩, rfl, rfl⟩

/-! ## Updates of the enriched columns -/

theorem Sourced.enriched {nums : Numerals} {ops : List Op} {hub : Hub} {force : Bool} {r : Selection} {row : ModelRow}
    (h : Sourced nums ops r.modelId row) (hhub : hub ∈ hubsOf ops) :
    Sourced nums ops r.modelId (setColumns (updatesFor hub force r) row) := by
  obtain ⟨c, hc, q, hq, hid, htells⟩ := h.answer
  refine ⟨⟨c, hc, q, hq, hid, ⟨htells.1, htells.2, htells.3, htells.4, htells.5, htells.6, htells.7⟩⟩, fun card hcard => ?_,
    fun n hn => ?_⟩
  · rw [setColumns_modelCard, updatesFor] at hcard
    dsimp only at hcard
    split_ifs at hcard
    · exact ⟨hub, hhub, hcard⟩
    · exact h.card card hcard
  · rw [setColumns_parameterCount, updatesFor] at hn
    dsimp only at hn
    split_ifs at hn
    · exact Or.inl ⟨hub, hhub, hn⟩
    · exact h.count n hn

theorem Sourced.backfilled {nums : Numerals} {ops : List Op} {id : Str} {n : ℤ} {row : ModelRow} (h : Sourced nums ops id row)
    (hn : parseParamsFromId nums id = some (some n)) : Sourced nums ops id (setColumns (setCount n) row) := by
  obtain ⟨c, hc, q, hq, hid, htells⟩ := h.answer
  refine ⟨⟨c, hc, q, hq, hid, ⟨htells.1, htells.2, htells.3, htells.4, htells.5, htells.6, htells.7⟩⟩, h.card, fun m hm => ?_⟩
  obtain rfl := Option.some.inj hm
  exact Or.inr hn

theorem writeCounts_sourced {nums : Numerals} {ops : List Op} {table : Models} {updates : List (Str × ℤ)}
    (h : ∀ id row, table.get? id = some row → Sourced nums ops id row)
    (hupdates : ∀ p ∈ updates, parseParamsFromId nums p.1 = some (some p.2)) :
    ∀ id row, (writeCounts table updates).get? id = some row → Sourced nums ops id row := by
  induction updates generalizing table with
  | nil => exact h
  | cons p updates ih =>
    refine ih (fun id row hrow => ?_) fun q hq => hupdates q (List.mem_cons_of_mem p hq)
    rw [Dict.get?_modify] at hrow
    split_ifs at hrow with hid
    · obtain ⟨old, hold, rfl⟩ := Option.map_eq_some_iff.1 hrow
      subst hid
      exact (h p.1 old hold).backfilled (hupdates p List.mem_cons_self)
    · exact h id row hrow

/-! ## Every history -/

section Runs

variable {embed : Str → Vec} {batchSize : ℕ} {nums : Numerals}

/-- an operation keeps the invariant -/
theorem step_inv {ops : List Op} {op : Op} {w w' : World} (h : Inv nums ops w) (hstep : Step embed batchSize nums w op w') :
    Inv nums (ops ++ [op]) w' := by
  have hold := h.snoc op
  cases hstep with
  | vectorize r =>
    refine ⟨?_, hold.points, hold.table⟩
    have hnew : Holds (fun x => ∃ c ∈ callsOf (ops ++ [.vectorize r]), FromCall c x) (Data.new w.file (r.listed w)).store :=
      ⟨hold.file, fun x hx => absurd hx List.not_mem_nil⟩
    refine run_holds hnew fun t ht start records hprepare x hx => ?_
    refine ⟨t.call, ?_, fromCall_of_prepare hprepare hx⟩
    rw [callsOf, List.flatMap_append]
    exact List.mem_append_right _ (List.mem_flatMap.2 ⟨_, List.mem_singleton.2 rfl, List.mem_map_of_mem ht⟩)
  | loadCollection b n =>
    refine ⟨hold.file, fun i p hp => ?_, hold.table⟩
    rcases point_of_load hp with hpoint | hrecord
    · exact hold.points i p hpoint
    · obtain ⟨x, hx, hpayload⟩ := hrecord
      obtain ⟨c, hc, hfrom⟩ := hold.file x hx
      exact ⟨c, hc, x, hfrom, hpayload⟩
  | loadTable =>
    refine ⟨hold.file, hold.points, fun id row hrow => ?_⟩
    rcases row_of_load hrow with hrow | hrecord
    · exact hold.table id row hrow
    · obtain ⟨x, hx, hid, htells, hcard, hcount⟩ := hrecord
      obtain ⟨c, hc, q, hq, hmodel, -, hinfo⟩ := hold.file x hx
      refine ⟨⟨c, hc, q, hq, by rw [← hmodel, hid], hinfo ▸ htells⟩, fun card hc => ?_, fun n hn => ?_⟩
      · rw [hcard] at hc
        obtain ⟨old, hold', hc⟩ := Option.bind_eq_some_iff.1 hc
        exact (hold.table id old hold').card card hc
      · rw [hcount] at hn
        obtain ⟨old, hold', hn⟩ := Option.bind_eq_some_iff.1 hn
        exact (hold.table id old hold').count n hn
  | enrich hub force dryRun stats r =>
    refine ⟨hold.file, hold.points, fun id row hrow => ?_⟩
    rw [enrichRow_fst] at hrow
    split_ifs at hrow
    · exact hold.table id row hrow
    · rw [Dict.get?_modify] at hrow
      split_ifs at hrow with hid
      · obtain ⟨old, hold', rfl⟩ := Option.map_eq_some_iff.1 hrow
        subst hid
        refine (hold.table r.modelId old hold').enriched ?_
        rw [hubsOf, List.filterMap_append]
        exact List.mem_append_right _ (List.mem_singleton.2 rfl)
      · exact hold.table id row hrow
  | @backfill dryRun missing r hcompleted =>
    refine ⟨hold.file, hold.points, ?_⟩
    obtain ⟨updates, hupdates, rfl⟩ := Option.map_eq_some_iff.1 hcompleted
    obtain ⟨-, rfl⟩ := updatesOf_spec hupdates
    cases dryRun with
    | true => exact hold.table
    | false =>
      refine writeCounts_sourced hold.table fun p hp => ?_
      exact Option.join_eq_some_iff.1 (mem_sizes.1 hp).2

/-- **After any history each point and each row comes from an answer of the Hub about its own model.** -/
theorem runs_inv {ops : List Op} {w : World} (h : Runs embed batchSize nums start ops w) : Inv nums ops w := by
  induction h with
  | refl => exact inv_start nums
  | step _ hstep ih => exact step_inv ih hstep

theorem Runs.trans {w w' w'' : World} {ops ops' : List Op} (h : Runs embed batchSize nums w ops w')
    (h' : Runs embed batchSize nums w' ops' w'') : Runs embed batchSize nums w (ops ++ ops') w'' := by
  induction h' with
  | refl => rwa [List.append_nil]
  | step _ hstep ih =>
    rw [← List.append_assoc]
    exact .step ih hstep

end Runs

/-! ## What the tools show -/

open AgentPick.Catalog

/-- what a tool shows: a search that read the points of one state and then the rows of another one, or no rows; a filter; the
details of a model, which have a library and a card besides the item -/
inductive Shows (u : Unicode) (product : ℚ → Option ℚ) (w w' : World) : Detail → Prop where
  | found {hits : List (Catalog.Point ℚ)} {db : Option Models} {limit : ℤ} {i : Item}
      (hhits : ∀ p ∈ hits, ∃ j q, w.points.get? j = some q ∧ p.modelId = q.payload.modelId ∧ p.text = q.payload.text)
      (hdb : db = none ∨ db = some w'.table) (hi : i ∈ semanticSearch u db hits limit) : Shows u product w w' ⟨i, none, none⟩
  | filtered {a : Args} {r : Filtered} {i : Item} (hr : filterModelsCall u product w'.table a = some r) (hi : i ∈ r.models) :
      Shows u product w w' ⟨i, none, none⟩
  | detailed {id : Str} {d : Detail} (hd : getModelDetails u w'.table id = some d) : Shows u product w w' d

/-- where what is shown about a model comes from -/
structure Shown (u : Unicode) (nums : Numerals) (ops : List Op) (id : Str) (d : Detail) : Prop where
  /-- its facts and the library: none, or those of one row -/
  facts : (d.item.facts = bare id ∧ d.libraryName = none) ∨
    ∃ row, Sourced nums ops id row ∧ d.item.facts = shape u id row none ∧ ∀ l, d.libraryName = some l → row.libraryName = some l
  /-- a chunk of the README of the model, or the start of its card -/
  excerpt : ∀ e, d.item.cardExcerpt = some e →
    (∃ c ∈ callsOf ops, ∃ q, chunked c = .ok q ∧ c.modelId = id ∧ ∃ text ∈ q.texts, e = (strip text).take 400) ∨
      ∃ hub ∈ hubsOf ops, ∃ card, fetchModelCard hub id 3 = some card ∧ e = strip (card.take 400)
  /-- the start of its card -/
  card : ∀ text, d.modelCard = some text → ∃ hub ∈ hubsOf ops, ∃ card, fetchModelCard hub id 3 = some card ∧
    text = strip (card.take 4000)
  popular : ∀ n, d.item.downloads = some n → minDownloadsThreshold ≤ n

/-- a model that is recorded has the downloads -/
theorem downloads_of_chunked {c : Call} {q : Prepared} (h : chunked c = .ok q) :
    ∃ d, q.info.downloads = some d ∧ minDownloadsThreshold ≤ d := by
  rw [chunked] at h
  cases hinfo : c.info with
  | none =>
    rw [hinfo] at h
    cases h
  | some info =>
    cases hdownloads : info.downloads with
    | none => simp [hinfo, hdownloads] at h
    | some d =>
      simp only [hinfo, hdownloads] at h
      split_ifs at h with hlow
      refine ⟨d, ?_, not_lt.1 hlow⟩
      cases hreadme : c.readme with
      | none => simp [hreadme] at h
      | some file =>
        simp only [hreadme] at h
        split_ifs at h
        cases hparsed : (Readme.parseReadme file).mapM fun s => (c.chunk s.content).map fun chunks => (s, chunks) with
        | none => simp [hparsed] at h
        | some parsed =>
          simp only [hparsed, Except.ok.injEq] at h
          rw [← h]
          exact hdownloads

section Sources

variable {u : Unicode} {nums : Numerals} {ops : List Op} {id : Str}

theorem Sourced.popular {row : ModelRow} (h : Sourced nums ops id row) : ∃ d, row.downloads = some d ∧ minDownloadsThreshold ≤ d := by
  obtain ⟨c, -, q, hq, -, htells⟩ := h.answer
  rw [htells.downloads]
  exact downloads_of_chunked hq

/-- the start of the card of a row is from an answer about its model -/
theorem Sourced.cardStart {row : ModelRow} (h : Sourced nums ops id row) {n : ℕ} {text : Str}
    (htext : nonEmpty (some (strip ((row.modelCard.getD []).take n))) = some text) :
    ∃ hub ∈ hubsOf ops, ∃ card, fetchModelCard hub id 3 = some card ∧ text = strip (card.take n) := by
  have hne := ne_nil_of_nonEmpty htext
  obtain rfl := Option.some.inj (Option.filter_eq_some_iff.1 htext).1
  cases hcard : row.modelCard with
  | none =>
    rw [hcard, Option.getD_none, List.take_nil] at hne
    exact absurd rfl hne
  | some card =>
    obtain ⟨hub, hhub, hfetch⟩ := h.card card hcard
    exact ⟨hub, hhub, card, hfetch, rfl⟩

/-- an item that is shaped from a row has its downloads -/
theorem Sourced.popular_shape {row : ModelRow} (h : Sourced nums ops id row) {excerpt : Option Str} {n : ℤ}
    (hn : (shape u id row excerpt).downloads = some n) : minDownloadsThreshold ≤ n := by
  obtain ⟨d, hd, hle⟩ := h.popular
  obtain rfl : (row.downloads.getD 0) = n := Option.some.inj hn
  rw [hd]
  exact hle

/-- an item that is shaped from a row, with the start of its card -/
theorem Sourced.shown {row : ModelRow} (h : Sourced nums ops id row) :
    Shown u nums ops id ⟨shape u id row (some (cardExcerpt row)), none, none⟩ where
  facts := Or.inr ⟨row, h, rfl, fun l hl => by cases hl⟩
  excerpt _ he := Or.inr (h.cardStart he)
  card _ ht := by cases ht
  popular _ hn := h.popular_shape hn

/-- the details of a row -/
theorem Sourced.detailed {t : Models} {row : ModelRow} (h : Sourced nums ops id row) (hrow : t.get? id = some row) {d : Detail}
    (hd : getModelDetails u t id = some d) : Shown u nums ops id d := by
  rw [getModelDetails, hrow] at hd
  cases hd
  exact
    { facts := Or.inr ⟨row, h, rfl, fun l hl => (Option.filter_eq_some_iff.1 hl).1⟩
      excerpt := fun e he => by cases he
      card := fun text ht => h.cardStart ht
      popular := fun n hn => h.popular_shape hn }

theorem id_of_shape {id' : Str} {row : ModelRow} {excerpt : Option Str} (h : (shape u id' row excerpt).modelId = some id) :
    id' = id := by
  have hmodel : nonEmpty (some id') = some id := h
  exact Option.some.inj (Option.filter_eq_some_iff.1 hmodel).1

theorem shown_bare : Shown u nums ops id ⟨bare id, none, none⟩ where
  facts := Or.inl ⟨rfl, rfl⟩
  excerpt e he := by cases he
  card text ht := by cases ht
  popular n hn := by cases hn

/-- an aggregate has the text of a point of its model, or none -/
theorem excerpt_of_aggregate (ps : List (Catalog.Point ℚ)) :
    (aggregate ps).excerpt = [] ∨ ∃ p ∈ ps, (aggregate ps).excerpt = (chunkText p).take cardExcerptChars := by
  induction ps using List.reverseRecOn with
  | nil => exact Or.inl rfl
  | append_singleton ps p ih =>
    have hold := ih.imp id fun h => h.imp fun q hq => And.imp_left (List.mem_append_left [p]) hq
    rw [aggregate_concat, addChunk]
    split_ifs
    · exact Or.inr ⟨p, by simp, rfl⟩
    · exact hold
    · exact hold

/-- the item of a model in a search, before its excerpt is replaced -/
theorem shown_of_row {row : Option ModelRow} (h : ∀ r, row = some r → Sourced nums ops id r) :
    Shown u nums ops id ⟨(row.map fun r => shape u id r (some (cardExcerpt r))).getD (bare id), none, none⟩ := by
  cases row with
  | none => exact shown_bare
  | some r => exact (h r rfl).shown

theorem Shown.withExcerpt {i : Item} (h : Shown u nums ops id ⟨i, none, none⟩) {e : Str}
    (he : ∃ c ∈ callsOf ops, ∃ q, chunked c = .ok q ∧ c.modelId = id ∧ ∃ text ∈ q.texts, e = (strip text).take 400) :
    Shown u nums ops id ⟨{ i with cardExcerpt := some e }, none, none⟩ where
  facts := h.facts
  excerpt _ he' := Or.inl (Option.some.inj he' ▸ he)
  card _ ht := by cases ht
  popular := h.popular

/-- the excerpt of a ranked model is from a chunk of its README -/
theorem chunk_of_hits {w : World} (hinv : Inv nums ops w) {hits : List (Catalog.Point ℚ)}
    (hhits : ∀ p ∈ hits, ∃ j q, w.points.get? j = some q ∧ p.modelId = q.payload.modelId ∧ p.text = q.payload.text)
    {e : Str × Agg ℚ} (he : e ∈ ranked hits) (hne : e.2.excerpt ≠ []) :
    ∃ c ∈ callsOf ops, ∃ q, chunked c = .ok q ∧ c.modelId = e.1 ∧ ∃ text ∈ q.texts, e.2.excerpt = (strip text).take 400 := by
  have hagg := (mem_ranked.1 he).2
  rw [hagg] at hne ⊢
  obtain ⟨p, hp, hexcerpt⟩ := (excerpt_of_aggregate _).resolve_left hne
  obtain ⟨mid, hmid, rfl⟩ := mem_chunks.1 hp
  obtain ⟨hmem, hmodel⟩ := mem_hits.1 hmid
  obtain ⟨j, q, hq, hid, htext⟩ := hhits p hmem
  obtain ⟨c, hc, x, ⟨prepared, hchunked, hx, htexts, -⟩, hpayload⟩ := hinv.points j q hq
  refine ⟨c, hc, prepared, hchunked, ?_, x.text, htexts, ?_⟩
  · have hp' : p.modelId = some e.1 := (Option.filter_eq_some_iff.1 hmodel).1
    rw [hid, hpayload] at hp'
    rw [← hx]
    exact Option.some.inj hp'
  · rw [hexcerpt, chunkText, htext, hpayload]
    rfl

/-- a result of a search -/
theorem shown_of_search {w : World} (hinv : Inv nums ops w) {hits : List (Catalog.Point ℚ)}
    (hhits : ∀ p ∈ hits, ∃ j q, w.points.get? j = some q ∧ p.modelId = q.payload.modelId ∧ p.text = q.payload.text)
    {db : Option Models} (hdb : ∀ t, db = some t → ∀ id row, t.get? id = some row → Sourced nums ops id row) {limit : ℤ}
    {i : Item} (hi : i ∈ semanticSearch u db hits limit) : ∃ id, i.modelId = some id ∧ Shown u nums ops id ⟨i, none, none⟩ := by
  rw [Flags.semanticSearch_eq_shown] at hi
  obtain ⟨e, he, rfl⟩ := List.mem_map.1 hi
  have hranked := (Catalog.mem_shown u db hits _ he).1
  refine ⟨e.1, entry_modelId u db hits hranked, ?_⟩
  have hitem : Shown u nums ops e.1 ⟨((metadata u db (ranked hits)).get? e.1).getD (bare e.1), none, none⟩ := by
    rw [get?_metadata u db hits (mem_ranked.1 hranked).1]
    refine shown_of_row fun r hr => ?_
    obtain ⟨t, ht, hrow⟩ := Option.bind_eq_some_iff.1 hr
    exact hdb t ht e.1 r hrow
  by_cases hne : e.2.excerpt = []
  · have hentry : entry (metadata u db (ranked hits)) e = ((metadata u db (ranked hits)).get? e.1).getD (bare e.1) := by
      rw [entry]
      simp only [hne, ne_eq, not_true_eq_false, if_false]
      split_ifs <;> rfl
    rw [hentry]
    exact hitem
  · have hentry : entry (metadata u db (ranked hits)) e =
        { ((metadata u db (ranked hits)).get? e.1).getD (bare e.1) with cardExcerpt := some e.2.excerpt } := by
      rw [entry]
      simp [nonEmpty, hne]
    rw [hentry]
    exact hitem.withExcerpt (chunk_of_hits hinv hhits hranked hne)

end Sources

/-- **Whatever a tool shows about a model was said about it.** After any history of the pipeline, and also when it goes on between
the two reads of a search: the facts of an item and the library are all from one answer of the Hub about that model (but the count
and the card from an enrichment, or the count from the id), the excerpt is from its README, and a model that is shown with its
downloads has as many as the threshold. -/
theorem shown_sourced {embed : Str → Vec} {batchSize : ℕ} {nums : Numerals} {u : Unicode} {product : ℚ → Option ℚ}
    {ops ops' : List Op} {w w' : World} (h : Runs embed batchSize nums start ops w) (h' : Runs embed batchSize nums w ops' w')
    {d : Detail} (hd : Shows u product w w' d) {id : Str} (hid : d.item.modelId = some id) :
    Shown u nums (ops ++ ops') id d := by
  have htable := (runs_inv (h.trans h')).table
  cases hd with
  | @found hits db limit i hhits hdb hi =>
    have hdb : ∀ t, db = some t → ∀ id row, t.get? id = some row → Sourced nums (ops ++ ops') id row := by
      intro t ht
      rcases hdb with hnone | hsome
      · rw [hnone] at ht
        cases ht
      · obtain rfl := Option.some.inj (hsome.symm.trans ht)
        exact htable
    -- the points of the earlier state have the sources of the longer history
    obtain ⟨id', hid', hshown⟩ := shown_of_search ((runs_inv h).append ops') hhits hdb hi
    obtain rfl := Option.some.inj (hid.symm.trans hid')
    exact hshown
  | filtered hr hi =>
    obtain ⟨id', row, hrow, rfl⟩ := row_of_filtered hr hi
    obtain rfl := id_of_shape hid
    exact (htable id' row hrow).shown
  | @detailed id' d hd =>
    obtain ⟨row, hrow, hshaped⟩ := Option.map_eq_some_iff.1 hd
    rw [← hshaped] at hid
    obtain rfl := id_of_shape hid
    exact (htable id' row hrow).detailed hrow hd

/-- one model, vectorized and loaded into Qdrant -/
def sampleWorld : World :=
  let data := (Rounds.vectorize (fun _ => []) 32 (Rounds.oneModel false) start).2.1
  ⟨data.store.file, data.lines, some (upload ((Rounds.single (fileRows data.store.file)).batches.take 1) start.points).1, start.table⟩

/-- and into PostgreSQL -/
def sampleServed : World :=
  { sampleWorld with table := insertModelsBatch sampleWorld.table (aggregateByModel (fileRows sampleWorld.file)) }

def sampleOps : List Op := [.vectorize (Rounds.oneModel false), .loadCollection]

def sampleHits : List (Catalog.Point ℚ) := [⟨1 / 2, some "org/a".toList, some "text".toList⟩]

def sampleItem : Item where
  modelId := some "org/a".toList
  downloads := some 20000
  likes := some 0
  cardExcerpt := some "text".toList

theorem runs_sample : Runs (fun _ => []) 32 Overlap.exactNumerals start sampleOps sampleWorld :=
  .step (.step .refl (.vectorize (Rounds.oneModel false))) (.loadCollection (Rounds.single _) 1)

def sampleHub : Hub := ⟨fun _ _ => .content " # A".toList, fun _ _ => .error⟩

/-- and enriched -/
def sampleEnriched : World :=
  { sampleServed with
    table := (enrichRow sampleHub false false (sampleServed.table, ⟨1, 0, 0, 0, 0, 0⟩) ⟨"org/a".toList, false, false⟩).1 }

/-- a search that reads the points before the rows are loaded and the rows after it, and the details after an enrichment -/
theorem shown_sourced_sample :
    Shown .ascii Overlap.exactNumerals (sampleOps ++ [.loadTable]) "org/a".toList ⟨sampleItem, none, none⟩ ∧
      ∃ d, d.item.downloads = some 20000 ∧ d.modelCard = some "# A".toList ∧
        Shown .ascii Overlap.exactNumerals (sampleOps ++ [.loadTable, .enrich sampleHub]) "org/a".toList d := by
  have hpoint : (sampleWorld.points.get? 0).map (fun q => (q.payload.modelId, q.payload.text)) =
      some (some "org/a".toList, some "text".toList) := by decide
  obtain ⟨q, hq, hpayload⟩ := Option.map_eq_some_iff.1 hpoint
  have hhits : ∀ p ∈ sampleHits, ∃ j q, sampleWorld.points.get? j = some q ∧ p.modelId = q.payload.modelId ∧
      p.text = q.payload.text := by
    intro p hp
    rw [List.mem_singleton.1 hp]
    exact ⟨0, q, hq, (congrArg Prod.fst hpayload).symm, (congrArg Prod.snd hpayload).symm⟩
  have hi : sampleItem ∈ semanticSearch .ascii (some sampleServed.table) sampleHits 3 := by decide +kernel
  have hfound : Shows .ascii some sampleWorld sampleServed ⟨sampleItem, none, none⟩ := .found hhits (Or.inr rfl) hi
  have hserved : Runs (fun _ => []) 32 Overlap.exactNumerals sampleWorld [.loadTable] sampleServed := .step .refl .loadTable
  have henriched : Runs (fun _ => []) 32 Overlap.exactNumerals sampleWorld [.loadTable, .enrich sampleHub] sampleEnriched :=
    .step hserved (.enrich sampleHub false false _ _)
  refine ⟨shown_sourced runs_sample hserved hfound rfl, ?_⟩
  have hdetails : (getModelDetails .ascii sampleEnriched.table "org/a".toList).map
      (fun d => (d.item.modelId, d.item.downloads, d.modelCard)) =
        some (some "org/a".toList, some 20000, some "# A".toList) := by decide
  obtain ⟨d, hd, hsaid⟩ := Option.map_eq_some_iff.1 hdetails
  have hdetailed : Shows .ascii some sampleWorld sampleEnriched d := .detailed hd
  exact ⟨d, congrArg (fun t => t.2.1) hsaid, congrArg (fun t => t.2.2) hsaid,
    shown_sourced runs_sample henriched hdetailed (congrArg Prod.fst hsaid)⟩

end AgentPick.Provenance
