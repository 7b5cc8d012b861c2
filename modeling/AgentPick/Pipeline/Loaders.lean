/-
The two loaders of one Parquet file: `load_parquet_to_qdrant` (`load_embeddings_to_qdrant.py`) and `aggregate_by_model`
with `insert_models_batch` (`initialize_postgres.py`).

One streams the rows in batches of any size and upserts a point per row, by its id; the other folds the rows into one
record per model, removes duplicate chunk ids, sorts them and upserts a row per model, leaving the columns it does not
list alone. `V` is the type of the vectors, all of the collection's dimension; timestamps are their text.

Results:
- `get?_load`: the points of the collection after a load. Whatever the batches, a load is one upsert of all rows.
- `get?_aggregate`: a model's record holds the chunk ids of its rows and the other columns of its first row.
- `get?_insert`: a model's row in the table after the insert.
- `stores_agree`: after both loaders ran into empty stores, each row's `chunk_ids` are, in ascending order, the ids of the
  points of that model, the models partition the points, and loading the file again changes neither store.
-/
import Mathlib.Tactic
import AgentPick.Pipeline.Models
import AgentPick.Pipeline.Records

namespace AgentPick.Loaders

open AgentPick.Text AgentPick.Models

/-! ## The file -/

/-- the columns of a row besides `id` and `vector`; `none` is NULL -/
structure Payload where
  modelId : Option Str
  sectionHeader : Option Str
  sectionIndex : Option ℤ
  chunkIndex : Option ℤ
  numSections : Option ℤ
  text : Option Str
  downloads : Option ℤ
  likes : Option ℤ
  tags : Option (List Str)
  pipelineTag : Option Str
  libraryName : Option Str
  createdAt : Option Str
  lastModified : Option Str
deriving DecidableEq, Repr

structure Row (V : Type) where
  id : Option ℤ
  vector : V
  payload : Payload
deriving DecidableEq, Repr

variable {V : Type}

/-- what `iter_batches` yields: the rows, cut into batches that are not empty -/
structure Batches (rows : List (Row V)) where
  batches : List (List (Row V))
  flatten : batches.flatten = rows
  nonempty : [] ∉ batches

/-! ## Qdrant -/

structure Point (V : Type) where
  vector : V
  payload : Payload
deriving DecidableEq, Repr

/-- a collection: points by id -/
abbrev Collection (V : Type) := Dict ℤ (Point V)

/-- `PointStruct(id=int(chunk_id), ...)`, an exception for a null id -/
def toPoint (r : Row V) : Option (ℤ × Point V) := r.id.map fun i => (i, ⟨r.vector, r.payload⟩)

/-- `client.upsert`: a point replaces the point of its id -/
def upsert (c : Collection V) (points : List (ℤ × Point V)) : Collection V :=
  Dict.accumulate Prod.fst (fun _ p => p.2) c points

/-- the loop over the batches; the Boolean is whether it came to its end -/
def upload : List (List (Row V)) → Collection V → Collection V × Bool
  | [], c => (c, true)
  | batch :: batches, c =>
    match batch.mapM toPoint with
    | none => (c, false)
    | some points => upload batches (upsert c points)

/-- `load_parquet_to_qdrant`; the store is `none` while the collection does not exist -/
def loadParquetToQdrant {rows : List (Row V)} (b : Batches rows) (store : Option (Collection V)) :
    Option (Collection V) × Bool :=
  match b.batches with
  | [] => (store, false) -- `next` on no batches is a StopIteration
  | batches =>
    let r := upload batches (store.getD Dict.empty)
    (some r.1, r.2)

/-! ## PostgreSQL -/

/-- a record of `aggregate_by_model` -/
structure ModelRecord where
  modelId : Str
  downloads : Option ℤ
  likes : Option ℤ
  pipelineTag : Option Str
  libraryName : Option Str
  createdAt : Option Str
  lastModified : Option Str
  tags : List Str
  chunkIds : List ℤ
  /-- set by the last loop -/
  numChunks : ℕ
deriving DecidableEq, Repr

/-- `validate_chunk_ids` -/
def validateChunkIds (chunkIds : List ℤ) : List ℤ := chunkIds.dedup.insertionSort (· ≤ ·)

/-- the record made from a model's first row -/
def newRecord (modelId : Str) (p : Payload) : ModelRecord where
  modelId := modelId
  downloads := p.downloads
  likes := p.likes
  pipelineTag := p.pipelineTag
  libraryName := p.libraryName
  createdAt := p.createdAt
  lastModified := p.lastModified
  tags := ((p.tags.getD []).filter (· ≠ [])).map strip
  chunkIds := []
  numChunks := 0

/-- one row of a model: `models_dict[model_id]` after it -/
def addRow (modelId : Str) (old : Option ModelRecord) (r : Row V) : ModelRecord :=
  let m := old.getD (newRecord modelId r.payload)
  match r.id with
  | none => m
  | some i => { m with chunkIds := m.chunkIds ++ [i] }

/-- `str(model_id).strip()`, `none` for a row that is skipped -/
def modelKey (r : Row V) : Option Str := r.payload.modelId.map strip

/-- the loop over the rows -/
def modelsDict (rows : List (Row V)) : Dict Str ModelRecord :=
  rows.foldl (fun d r =>
    match modelKey r with
    | none => d
    | some modelId => d.set modelId (addRow modelId (d.get? modelId) r)) Dict.empty

/-- the last loop, on one record -/
def finishRecord (m : ModelRecord) : ModelRecord :=
  { m with chunkIds := validateChunkIds m.chunkIds, numChunks := (validateChunkIds m.chunkIds).length }

def aggregateByModel (rows : List (Row V)) : List ModelRecord := (modelsDict rows).values.map finishRecord

/-- `INSERT ... ON CONFLICT (model_id) DO UPDATE SET ...` -/
def insertRow (old : Option ModelRow) (m : ModelRecord) : ModelRow where
  downloads := m.downloads
  likes := m.likes
  pipelineTag := m.pipelineTag
  libraryName := m.libraryName
  createdAt := m.createdAt
  lastModified := m.lastModified
  tags := some m.tags
  chunkIds := some m.chunkIds
  numChunks := some m.numChunks
  parameterCount := old.bind ModelRow.parameterCount
  modelCard := old.bind ModelRow.modelCard

/-- `insert_models_batch`, one transaction -/
def insertModelsBatch (t : Models) (models : List ModelRecord) : Models :=
  Dict.accumulate ModelRecord.modelId insertRow t models

/-! ## What a load into Qdrant does -/

theorem mapM_toPoint {rows : List (Row V)} (h : ∀ r ∈ rows, r.id ≠ none) :
    rows.mapM toPoint = some (rows.filterMap toPoint) := by
  induction rows with
  | nil => rfl
  | cons r rows ih =>
    obtain ⟨i, hi⟩ := Option.ne_none_iff_exists'.1 (h r List.mem_cons_self)
    rw [List.mapM_cons, ih fun r' hr' => h r' (List.mem_cons_of_mem _ hr')]
    simp [toPoint, hi]

theorem upsert_append (c : Collection V) (points points' : List (ℤ × Point V)) :
    upsert c (points ++ points') = upsert (upsert c points) points' := Dict.accumulate_append _ _ _ _ _

/-- the batches do not matter -/
theorem upload_eq {batches : List (List (Row V))} (h : ∀ r ∈ batches.flatten, r.id ≠ none) (c : Collection V) :
    upload batches c = (upsert c (batches.flatten.filterMap toPoint), true) := by
  induction batches generalizing c with
  | nil => rfl
  | cons batch batches ih =>
    rw [List.flatten_cons] at h
    simp only [upload, mapM_toPoint fun r hr => h r (List.mem_append_left _ hr)]
    rw [ih fun r hr => h r (List.mem_append_right _ hr), List.flatten_cons, List.filterMap_append, upsert_append]

theorem load_eq {rows : List (Row V)} (b : Batches rows) (h : ∀ r ∈ rows, r.id ≠ none)
    (store : Option (Collection V)) :
    loadParquetToQdrant b store =
      if rows = [] then (store, false) else (some (upsert (store.getD Dict.empty) (rows.filterMap toPoint)), true) := by
  obtain ⟨batches, rfl, hne⟩ := b
  unfold loadParquetToQdrant
  cases batches with
  | nil => rfl
  | cons batch batches =>
    have hb : (batch :: batches).flatten ≠ [] := by
      rw [List.flatten_cons]
      intro e
      exact hne ((List.append_eq_nil_iff.1 e).1 ▸ List.mem_cons_self)
    rw [if_neg hb]
    simp only [upload_eq h]

/-- the collection after a load into an empty store -/
def loaded (rows : List (Row V)) : Collection V := upsert Dict.empty (rows.filterMap toPoint)

theorem toPoint_eq_some {r : Row V} {i : ℤ} {p : Point V} :
    toPoint r = some (i, p) ↔ r.id = some i ∧ p = ⟨r.vector, r.payload⟩ := by
  unfold toPoint
  rw [Option.map_eq_some_iff]
  refine ⟨?_, ?_⟩
  · rintro ⟨j, hj, e⟩
    cases e
    exact ⟨hj, rfl⟩
  · rintro ⟨hi, rfl⟩
    exact ⟨i, hi, rfl⟩

theorem ids_nodup {rows : List (Row V)} (h : (rows.map Row.id).Nodup) :
    ((rows.filterMap toPoint).map Prod.fst).Nodup := by
  have hmap : (rows.filterMap toPoint).map Prod.fst = (rows.map Row.id).filterMap id := by
    rw [List.map_filterMap, List.filterMap_map]
    congr 1
    funext r
    cases hr : r.id <;> simp [toPoint, hr]
  rw [hmap]
  exact h.filterMap fun a a' b ha ha' => by
    simp only [id_eq] at ha ha'
    rw [ha, ha']

/-- the points after an upsert: the new ones, and the others -/
theorem get?_upsert {points : List (ℤ × Point V)} (hn : (points.map Prod.fst).Nodup) (c : Collection V) (i : ℤ) (p : Point V) :
    (upsert c points).get? i = some p ↔ (i, p) ∈ points ∨ i ∉ points.map Prod.fst ∧ c.get? i = some p := by
  by_cases hi : i ∈ points.map Prod.fst
  · obtain ⟨q, hq, rfl⟩ := List.mem_map.1 hi
    rw [upsert, Dict.get?_accumulate_of_mem _ _ hn _ hq]
    refine ⟨fun h => .inl ?_, fun h => ?_⟩
    · rw [← Option.some.inj h]
      exact hq
    · rcases h with h | ⟨hno, -⟩
      · rw [List.inj_on_of_nodup_map hn hq h rfl]
      · exact absurd hi hno
  · rw [upsert, Dict.get?_accumulate_of_notMem _ _ _ hi]
    refine ⟨fun h => .inr ⟨hi, h⟩, fun h => ?_⟩
    rcases h with h | ⟨-, h⟩
    · exact absurd (List.mem_map_of_mem h) hi
    · exact h

theorem mem_points {rows : List (Row V)} {i : ℤ} {p : Point V} :
    (i, p) ∈ rows.filterMap toPoint ↔ ∃ r ∈ rows, r.id = some i ∧ p = ⟨r.vector, r.payload⟩ := by
  simp only [List.mem_filterMap, toPoint_eq_some]

/-- the points after a load: one per row -/
theorem get?_loaded {rows : List (Row V)} (h : (rows.map Row.id).Nodup) {i : ℤ} {p : Point V} :
    (loaded rows).get? i = some p ↔ ∃ r ∈ rows, r.id = some i ∧ p = ⟨r.vector, r.payload⟩ := by
  rw [loaded, get?_upsert (ids_nodup h), mem_points]
  refine ⟨fun hp => hp.elim id fun hp => ?_, Or.inl⟩
  cases hp.2

/-- loading the rows again changes no point -/
theorem upsert_twice {rows : List (Row V)} (h : (rows.map Row.id).Nodup) (c : Collection V) :
    upsert (upsert c (rows.filterMap toPoint)) (rows.filterMap toPoint) = upsert c (rows.filterMap toPoint) :=
  Dict.accumulate_of_fixed _ _ fun q hq => by
    rw [upsert, Dict.get?_accumulate_of_mem _ _ (ids_nodup h) _ hq]

/-! ## What an aggregation does -/

/-- the rows with a model id, under their key -/
def named (rows : List (Row V)) : List (Str × Row V) := rows.filterMap fun r => (modelKey r).map fun m => (m, r)

theorem modelsDict_eq (rows : List (Row V)) :
    modelsDict rows = Dict.group Prod.fst (fun old p => addRow p.1 old p.2) (named rows) := by
  unfold modelsDict Dict.group Dict.accumulate named
  rw [List.foldl_filterMap]
  congr 1
  funext d r
  cases modelKey r <;> rfl

/-- the rows of one model -/
def rowsOfModel (rows : List (Row V)) (m : Str) : List (Row V) := rows.filter fun r => modelKey r = some m

theorem named_filter (rows : List (Row V)) (m : Str) :
    (named rows).filter (fun p => p.1 = m) = (rowsOfModel rows m).map fun r => (m, r) := by
  induction rows with
  | nil => rfl
  | cons r rows ih =>
    unfold named rowsOfModel at ih ⊢
    cases hk : modelKey r with
    | none => simp [hk, ih]
    | some m' =>
      by_cases hm : m' = m
      · subst hm
        simp [hk, ih]
      · simp [hk, hm, ih]

/-- a model's rows, added one after the other -/
theorem foldl_addRow (m : Str) (r : Row V) (rs : List (Row V)) :
    ((r :: rs).map fun r => (m, r)).foldl (fun o p => some (addRow p.1 o p.2)) (none : Option ModelRecord) =
      some { newRecord m r.payload with chunkIds := (r :: rs).filterMap Row.id } := by
  have key : ∀ (rec0 : ModelRecord) (l : List (Row V)),
      (l.map fun r => (m, r)).foldl (fun o p => some (addRow p.1 o p.2)) (some rec0) =
        some { rec0 with chunkIds := rec0.chunkIds ++ l.filterMap Row.id } := by
    intro rec0 l
    induction l generalizing rec0 with
    | nil => simp
    | cons r l ih =>
      rw [List.map_cons, List.foldl_cons, ih]
      cases hr : r.id <;> simp [addRow, hr]
  rw [List.map_cons, List.foldl_cons, key]
  cases hr : r.id <;> simp [addRow, newRecord, hr]

/-- the record of a model: its first row's columns and the ids of all its rows -/
theorem get?_modelsDict (rows : List (Row V)) (m : Str) :
    (modelsDict rows).get? m = (rowsOfModel rows m).head?.map fun r =>
      { newRecord m r.payload with chunkIds := (rowsOfModel rows m).filterMap Row.id } := by
  rw [modelsDict_eq, Dict.get?_group, named_filter]
  cases rowsOfModel rows m with
  | nil => rfl
  | cons r rs => exact foldl_addRow m r rs

theorem mem_validateChunkIds {i : ℤ} {ids : List ℤ} : i ∈ validateChunkIds ids ↔ i ∈ ids := by
  rw [validateChunkIds, List.mem_insertionSort, List.mem_dedup]

/-- sorted without repetitions -/
theorem validateChunkIds_pairwise (ids : List ℤ) : (validateChunkIds ids).Pairwise (· < ·) := by
  have hle : (validateChunkIds ids).Pairwise (· ≤ ·) := List.pairwise_insertionSort _ _
  have hne : (validateChunkIds ids).Nodup := (List.perm_insertionSort _ _).nodup_iff.2 (List.nodup_dedup ids)
  exact (hle.and hne).imp fun h => lt_of_le_of_ne h.1 h.2

/-! ## What an insert does -/

theorem modelId_of_mem {rows : List (Row V)} {e : Str × ModelRecord} (he : e ∈ (modelsDict rows).entries) :
    e.2.modelId = e.1 := by
  have hg : (modelsDict rows).get? e.1 = some e.2 := Dict.get?_eq_some.2 he
  rw [get?_modelsDict] at hg
  obtain ⟨r, -, hr⟩ := Option.map_eq_some_iff.1 hg
  rw [← hr]
  rfl

theorem modelIds (rows : List (Row V)) : (aggregateByModel rows).map ModelRecord.modelId = (modelsDict rows).keys := by
  simp only [aggregateByModel, Dict.values, Dict.keys, List.map_map]
  exact List.map_congr_left fun e he => modelId_of_mem he

/-- the row of a model after the insert: untouched when the file has no row of it -/
theorem get?_insert (t : Models) (rows : List (Row V)) (m : Str) :
    (insertModelsBatch t (aggregateByModel rows)).get? m =
      match (modelsDict rows).get? m with
      | none => t.get? m
      | some rec => some (insertRow (t.get? m) (finishRecord rec)) := by
  cases hg : (modelsDict rows).get? m with
  | none =>
    have hm : m ∉ (aggregateByModel rows).map ModelRecord.modelId := by
      rw [modelIds]
      exact Dict.get?_eq_none.1 hg
    exact Dict.get?_accumulate_of_notMem _ _ _ hm
  | some rec =>
    have he := Dict.get?_eq_some.1 hg
    have hmem : finishRecord rec ∈ aggregateByModel rows := List.mem_map_of_mem (List.mem_map_of_mem he)
    have hid : (finishRecord rec).modelId = m := modelId_of_mem he
    have hn : ((aggregateByModel rows).map ModelRecord.modelId).Nodup := by
      rw [modelIds]
      exact Dict.nodup_keys _
    have h := Dict.get?_accumulate_of_mem ModelRecord.modelId insertRow hn t hmem
    rwa [hid] at h

/-- inserting the same records again changes no row -/
theorem insert_twice (t : Models) (rows : List (Row V)) :
    insertModelsBatch (insertModelsBatch t (aggregateByModel rows)) (aggregateByModel rows) =
      insertModelsBatch t (aggregateByModel rows) := by
  refine Dict.accumulate_of_fixed _ _ ?_
  intro m hm
  have hn : ((aggregateByModel rows).map ModelRecord.modelId).Nodup := by
    rw [modelIds]
    exact Dict.nodup_keys _
  have h : (insertModelsBatch t (aggregateByModel rows)).get? m.modelId = some (insertRow (t.get? m.modelId) m) :=
    Dict.get?_accumulate_of_mem ModelRecord.modelId insertRow hn t hm
  rw [h]
  rfl

/-! ## Agreement -/

/-- the vectorizer's output: distinct ids, trimmed model ids, nothing of the two null -/
structure Wellformed (rows : List (Row V)) : Prop where
  ids : (rows.map Row.id).Nodup
  idSome : ∀ r ∈ rows, r.id ≠ none
  modelIds : ∀ r ∈ rows, ∃ m, r.payload.modelId = some m ∧ strip m = m

/-- the table's chunk ids are the points' partition by model -/
structure Agree (q : Collection V) (t : Models) : Prop where
  chunkIds : ∀ m row, t.get? m = some row → ∃ ids, row.chunkIds = some ids ∧ ids.Pairwise (· < ·) ∧
    row.numChunks = some ids.length ∧ ∀ i, i ∈ ids ↔ ∃ p, q.get? i = some p ∧ p.payload.modelId = some m
  disjoint : ∀ m m' row row' ids ids', t.get? m = some row → t.get? m' = some row' → row.chunkIds = some ids →
    row'.chunkIds = some ids' → m ≠ m' → ids.Disjoint ids'
  cover : ∀ i p, q.get? i = some p → ∃ m row ids, t.get? m = some row ∧ row.chunkIds = some ids ∧ i ∈ ids

theorem modelKey_eq {rows : List (Row V)} (h : Wellformed rows) {r : Row V} (hr : r ∈ rows) :
    modelKey r = r.payload.modelId := by
  obtain ⟨m, hm, hs⟩ := h.modelIds r hr
  rw [modelKey, hm, Option.map_some, hs]

theorem mem_rowsOfModel {rows : List (Row V)} (h : Wellformed rows) {r : Row V} {m : Str} :
    r ∈ rowsOfModel rows m ↔ r ∈ rows ∧ r.payload.modelId = some m := by
  unfold rowsOfModel
  rw [List.mem_filter, decide_eq_true_eq]
  refine ⟨?_, ?_⟩
  · rintro ⟨hr, hk⟩
    exact ⟨hr, by rw [← modelKey_eq h hr, hk]⟩
  · rintro ⟨hr, hk⟩
    exact ⟨hr, by rw [modelKey_eq h hr, hk]⟩

/-- the row of a model after an insert: the old one, or one with the chunk ids of the model's rows -/
theorem row_of_insert {t : Models} {rows : List (Row V)} {m : Str} {row : ModelRow}
    (h : (insertModelsBatch t (aggregateByModel rows)).get? m = some row) :
    (rowsOfModel rows m = [] ∧ t.get? m = some row) ∨
      (rowsOfModel rows m ≠ [] ∧ row.chunkIds = some (validateChunkIds ((rowsOfModel rows m).filterMap Row.id)) ∧
        row.numChunks = some (validateChunkIds ((rowsOfModel rows m).filterMap Row.id)).length) := by
  rw [get?_insert, get?_modelsDict] at h
  cases hh : (rowsOfModel rows m).head? with
  | none =>
    rw [hh] at h
    exact .inl ⟨List.head?_eq_none_iff.1 hh, h⟩
  | some r =>
    simp only [hh, Option.map_some, Option.some.injEq] at h
    subst h
    refine .inr ⟨?_, rfl, rfl⟩
    intro hnil
    rw [hnil] at hh
    cases hh

/-- a model of the file has a row after an insert -/
theorem exists_row_of_insert {rows : List (Row V)} (h : Wellformed rows) (t : Models) {r : Row V} (hr : r ∈ rows) {m : Str}
    (hm : r.payload.modelId = some m) : ∃ row, (insertModelsBatch t (aggregateByModel rows)).get? m = some row := by
  have hmem : r ∈ rowsOfModel rows m := (mem_rowsOfModel h).2 ⟨hr, hm⟩
  obtain ⟨r0, rs, hl⟩ := List.exists_cons_of_ne_nil (List.ne_nil_of_mem hmem)
  rw [get?_insert, get?_modelsDict, hl]
  exact ⟨_, rfl⟩

/-- an insert keeps the models that have a row -/
theorem exists_row_of_old {t : Models} (rows : List (Row V)) {m : Str} {row : ModelRow} (h : t.get? m = some row) :
    ∃ row', (insertModelsBatch t (aggregateByModel rows)).get? m = some row' := by
  rw [get?_insert]
  cases (modelsDict rows).get? m with
  | none => exact ⟨row, h⟩
  | some rec => exact ⟨_, rfl⟩

/-- the ids of a model's record are those of its rows -/
theorem mem_chunkIds {rows : List (Row V)} (h : Wellformed rows) {m : Str} {i : ℤ} :
    i ∈ validateChunkIds ((rowsOfModel rows m).filterMap Row.id) ↔
      ∃ r ∈ rows, r.payload.modelId = some m ∧ r.id = some i := by
  simp only [mem_validateChunkIds, List.mem_filterMap, mem_rowsOfModel h, and_assoc]

/-- rows that list the points of their models, and a row for every point -/
theorem agree_of_rows {q : Collection V} {t : Models}
    (hrows : ∀ m row, t.get? m = some row → ∃ ids, row.chunkIds = some ids ∧ ids.Pairwise (· < ·) ∧
      row.numChunks = some ids.length ∧ ∀ i, i ∈ ids ↔ ∃ p, q.get? i = some p ∧ p.payload.modelId = some m)
    (hmodels : ∀ i p, q.get? i = some p → ∃ m row, p.payload.modelId = some m ∧ t.get? m = some row) : Agree q t := by
  refine ⟨hrows, fun m m' row row' ids ids' hrow hrow' e e' hne i hi hi' => ?_, fun i p hp => ?_⟩
  · -- the point of an id has one model
    obtain ⟨_, hc, -, -, hids⟩ := hrows m row hrow
    obtain ⟨_, hc', -, -, hids'⟩ := hrows m' row' hrow'
    obtain rfl := Option.some.inj (hc.symm.trans e)
    obtain rfl := Option.some.inj (hc'.symm.trans e')
    obtain ⟨p, hp, hm⟩ := (hids i).1 hi
    obtain ⟨p', hp', hm'⟩ := (hids' i).1 hi'
    obtain rfl := Option.some.inj (hp.symm.trans hp')
    exact hne (Option.some.inj (hm.symm.trans hm'))
  · obtain ⟨m, row, hm, hrow⟩ := hmodels i p hp
    obtain ⟨ids, hc, -, -, hids⟩ := hrows m row hrow
    exact ⟨m, row, ids, hrow, hc, (hids i).2 ⟨p, hp, hm⟩⟩

theorem agree_of_loads {rows : List (Row V)} (h : Wellformed rows) :
    Agree (loaded rows) (insertModelsBatch Dict.empty (aggregateByModel rows)) := by
  refine agree_of_rows (fun m row hrow => ?_) fun i p hp => ?_
  · obtain ⟨-, hc, hn⟩ := (row_of_insert hrow).resolve_left fun hold => by cases hold.2
    refine ⟨_, hc, validateChunkIds_pairwise _, hn, fun i => (mem_chunkIds h).trans ⟨fun hr => ?_, fun hp => ?_⟩⟩
    · obtain ⟨r, hr, hm, hi⟩ := hr
      exact ⟨_, (get?_loaded h.ids).2 ⟨r, hr, hi, rfl⟩, hm⟩
    · obtain ⟨p, hp, hm⟩ := hp
      obtain ⟨r, hr, hi, rfl⟩ := (get?_loaded h.ids).1 hp
      exact ⟨r, hr, hm, hi⟩
  · obtain ⟨r, hr, -, rfl⟩ := (get?_loaded h.ids).1 hp
    obtain ⟨m, hm, -⟩ := h.modelIds r hr
    obtain ⟨row, hrow⟩ := exists_row_of_insert h Dict.empty hr hm
    exact ⟨m, row, hm, hrow⟩

/-- **The two stores agree.** After both loaders ran over one file into empty stores, each model's row lists, in
ascending order and with their number, exactly the ids of the points of that model, the models partition the points, and
loading the file a second time, in whatever batches, changes neither store. -/
theorem stores_agree {rows : List (Row V)} (h : Wellformed rows) (b b' : Batches rows) :
    Agree ((loadParquetToQdrant b none).1.getD Dict.empty) (insertModelsBatch Dict.empty (aggregateByModel rows)) ∧
      (loadParquetToQdrant b' (loadParquetToQdrant b none).1).1 = (loadParquetToQdrant b none).1 ∧
      insertModelsBatch (insertModelsBatch Dict.empty (aggregateByModel rows)) (aggregateByModel rows) =
        insertModelsBatch Dict.empty (aggregateByModel rows) := by
  refine ⟨?_, ?_, insert_twice _ _⟩
  · rw [load_eq b h.idSome]
    split_ifs with hr
    · subst hr
      exact agree_of_loads h
    · exact agree_of_loads h
  · rw [load_eq b h.idSome]
    split_ifs with hr
    · rw [load_eq b' h.idSome, if_pos hr]
    · rw [load_eq b' h.idSome, if_neg hr]
      exact congrArg some (upsert_twice h.ids _)

/-- a row of a model, with the other columns null -/
def sampleRow (id : ℤ) (modelId : Str) : Row ℕ :=
  ⟨some id, 0, ⟨some modelId, none, none, none, none, none, none, none, none, none, none, none, none⟩⟩

/-- two models, their rows interleaved and their ids out of order -/
def sampleRows : List (Row ℕ) :=
  [sampleRow 7 "org/a".toList, sampleRow 2 "org/b".toList, sampleRow 3 "org/a".toList]

theorem sampleRows_wellformed : Wellformed sampleRows := by
  refine ⟨by decide, by decide, fun r hr => ?_⟩
  simp only [sampleRows, List.mem_cons, List.not_mem_nil, or_false] at hr
  rcases hr with rfl | rfl | rfl
  · exact ⟨"org/a".toList, rfl, by decide⟩
  · exact ⟨"org/b".toList, rfl, by decide⟩
  · exact ⟨"org/a".toList, rfl, by decide⟩

def wholeFile : Batches sampleRows := ⟨[sampleRows], by simp, by decide⟩

def rowByRow : Batches sampleRows := ⟨sampleRows.map fun r => [r], by decide, by decide⟩

theorem stores_agree_sample :
    Agree ((loadParquetToQdrant rowByRow none).1.getD Dict.empty)
        (insertModelsBatch Dict.empty (aggregateByModel sampleRows)) ∧
      (loadParquetToQdrant wholeFile (loadParquetToQdrant rowByRow none).1).1 = (loadParquetToQdrant rowByRow none).1 ∧
      insertModelsBatch (insertModelsBatch Dict.empty (aggregateByModel sampleRows)) (aggregateByModel sampleRows) =
        insertModelsBatch Dict.empty (aggregateByModel sampleRows) :=
  stores_agree sampleRows_wellformed rowByRow wholeFile

/-! ## The vectorizer's rows -/

/-- a row of `embeddings.parquet` as the loaders read it -/
def ofRecord (r : Records.Record) : Row Records.Vec where
  id := some r.id
  vector := r.vector
  payload :=
    { modelId := some r.modelId
      sectionHeader := some r.sectionHeader
      sectionIndex := some r.sectionIndex
      chunkIndex := some r.chunkIndex
      numSections := some r.numSections
      text := some r.text
      downloads := r.downloads
      likes := r.likes
      tags := some r.tags
      pipelineTag := r.pipelineTag
      libraryName := r.libraryName
      createdAt := r.createdAt
      lastModified := r.lastModified }

theorem wellformed_ofRecord {rows : List Records.Record} (hid : (rows.map Records.Record.id).Nodup)
    (hm : ∀ r ∈ rows, strip r.modelId = r.modelId) : Wellformed (rows.map ofRecord) := by
  refine ⟨?_, ?_, ?_⟩
  · have hmap : (rows.map ofRecord).map Row.id = (rows.map Records.Record.id).map (fun i : ℕ => some (i : ℤ)) := by
      simp only [List.map_map]
      rfl
    rw [hmap]
    exact hid.map fun i j hij => by simpa using hij
  · intro r hr
    obtain ⟨r', -, rfl⟩ := List.mem_map.1 hr
    simp [ofRecord]
  · intro r hr
    obtain ⟨r', hr', rfl⟩ := List.mem_map.1 hr
    exact ⟨r'.modelId, rfl, hm r' hr'⟩

end AgentPick.Loaders
