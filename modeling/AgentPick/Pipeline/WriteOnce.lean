/-
The enriched columns over a history of the `models` table: `initialize_schema`, `aggregate_by_model` with
`insert_models_batch`, `enrich_models` without force, and `backfill`, one after the other in any order.

A database knows whether the table is there and which of the migrated columns it has; a column that is not there counts as
NULL (`cardOf`, `countOf`). An operation that needs a missing table or column fails, so that a history has no such step.

Results:
- `step_extends`: no operation changes a card or a count that is set.
- `enrich_unchanged`, `backfill_unchanged`: a run with nothing new to write changes nothing.
- `write_once`: over every history each card and each count changes at most once, from NULL to a value; dry runs and
  repeated runs change nothing.
-/
import Mathlib.Tactic
import AgentPick.Pipeline.Backfill
import AgentPick.Pipeline.Enrich
import AgentPick.Pipeline.Loaders

namespace AgentPick.WriteOnce

open AgentPick.Models AgentPick.Loaders AgentPick.Enrich AgentPick.Backfill

/-! ## The database -/

structure Database where
  rows : Models
  created : Bool
  hasCount : Bool
  hasCard : Bool

/-- `CREATE TABLE IF NOT EXISTS models` -/
def createTable (db : Database) : Database := if db.created then db else ⟨Dict.empty, true, true, true⟩

/-- `ALTER TABLE models ADD COLUMN IF NOT EXISTS parameter_count` -/
def addCountColumn (db : Database) : Database :=
  if db.hasCount then db
  else { db with rows := db.rows.mapValues fun _ r => { r with parameterCount := none }, hasCount := true }

/-- `ALTER TABLE models ADD COLUMN IF NOT EXISTS model_card` -/
def addCardColumn (db : Database) : Database :=
  if db.hasCard then db
  else { db with rows := db.rows.mapValues fun _ r => { r with modelCard := none }, hasCard := true }

/-- `initialize_schema`, the indexes apart -/
def initializeSchema (db : Database) : Database := addCardColumn (addCountColumn (createTable db))

/-- the card of a model, NULL where there is none -/
def cardOf (id : Str) (db : Database) : Option Str :=
  if db.created ∧ db.hasCard then (db.rows.get? id).bind ModelRow.modelCard else none

/-- the count of a model, NULL where there is none -/
def countOf (id : Str) (db : Database) : Option ℤ :=
  if db.created ∧ db.hasCount then (db.rows.get? id).bind ModelRow.parameterCount else none

/-! ## Operations -/

inductive Operation (V : Type) where
  | initializeSchema
  | insert (rows : List (Row V))
  | enrich (hub : Hub) (limit : Option ℤ) (dryRun : Bool)
  | backfill (dryRun : Bool)

/-- a completed operation; the answers to its SELECT are any that the table allows -/
inductive Step {V : Type} (nums : Numerals) : Database → Operation V → Database → Prop where
  | initializeSchema (db : Database) : Step nums db .initializeSchema (initializeSchema db)
  | insert {db : Database} (rows : List (Row V)) (created : db.created = true) :
      Step nums db (.insert rows) { db with rows := insertModelsBatch db.rows (aggregateByModel rows) }
  | enrich {db : Database} (hub : Hub) (limit : Option ℤ) (dryRun : Bool) {fetched : List (Str × ModelRow)}
      (created : db.created = true) (hasCount : db.hasCount = true) (hasCard : db.hasCard = true)
      (selected : Selected db.rows fetched) :
      Step nums db (.enrich hub limit dryRun) { db with rows := (enrichModels hub limit false dryRun fetched db.rows).1 }
  | backfill {db : Database} (dryRun : Bool) {missing : List Str} {r : Models × Backfill.Stats}
      (created : db.created = true) (hasCount : db.hasCount = true) (selected : Missing db.rows missing)
      (completed : Backfill.backfill nums dryRun missing db.rows = some r) :
      Step nums db (.backfill dryRun) { db with rows := r.1 }

/-- a history: the database before and after each of its operations -/
def History (V : Type) (nums : Numerals) (dbs : List Database) : Prop :=
  dbs.IsChain fun a b => ∃ op : Operation V, Step nums a op b

/-! ## No operation changes a column that is set -/

/-- the cards and counts that are set stay as they are -/
structure Extends (a b : Database) : Prop where
  card : ∀ id v, cardOf id a = some v → cardOf id b = some v
  count : ∀ id v, countOf id a = some v → countOf id b = some v

theorem Extends.refl (a : Database) : Extends a a := ⟨fun _ _ h => h, fun _ _ h => h⟩

theorem Extends.trans {a b c : Database} (h : Extends a b) (h' : Extends b c) : Extends a c :=
  ⟨fun id v hv => h'.card id v (h.card id v hv), fun id v hv => h'.count id v (h.count id v hv)⟩

/-- the table and its columns are still there, and every row keeps what it has of the two columns -/
theorem extends_of_rows {a b : Database} (hcreated : b.created = a.created) (hcount : b.hasCount = a.hasCount)
    (hcard : b.hasCard = a.hasCard)
    (hrows : ∀ id r, a.rows.get? id = some r → ∃ r', b.rows.get? id = some r' ∧
      (∀ v, r.modelCard = some v → r'.modelCard = some v) ∧ ∀ v, r.parameterCount = some v → r'.parameterCount = some v) :
    Extends a b := by
  refine ⟨fun id v hv => ?_, fun id v hv => ?_⟩
  · unfold cardOf at hv ⊢
    rw [hcreated, hcard]
    split_ifs at hv ⊢
    obtain ⟨r, hr, hrv⟩ := Option.bind_eq_some_iff.1 hv
    obtain ⟨r', hr', hkeep, -⟩ := hrows id r hr
    exact Option.bind_eq_some_iff.2 ⟨r', hr', hkeep v hrv⟩
  · unfold countOf at hv ⊢
    rw [hcreated, hcount]
    split_ifs at hv ⊢
    obtain ⟨r, hr, hrv⟩ := Option.bind_eq_some_iff.1 hv
    obtain ⟨r', hr', -, hkeep⟩ := hrows id r hr
    exact Option.bind_eq_some_iff.2 ⟨r', hr', hkeep v hrv⟩

theorem createTable_extends (db : Database) : Extends db (createTable db) := by
  unfold createTable
  split_ifs with h
  · exact Extends.refl db
  · -- nothing is set while there is no table
    refine ⟨fun id v hv => ?_, fun id v hv => ?_⟩
    · simp [cardOf, h] at hv
    · simp [countOf, h] at hv

theorem addCountColumn_extends (db : Database) : Extends db (addCountColumn db) := by
  unfold addCountColumn
  split_ifs with h
  · exact Extends.refl db
  · refine ⟨fun id v hv => ?_, fun id v hv => ?_⟩
    · unfold cardOf at hv ⊢
      simp only [Dict.get?_mapValues, Option.bind_map, Function.comp_def]
      exact hv
    · simp [countOf, h] at hv

theorem addCardColumn_extends (db : Database) : Extends db (addCardColumn db) := by
  unfold addCardColumn
  split_ifs with h
  · exact Extends.refl db
  · refine ⟨fun id v hv => ?_, fun id v hv => ?_⟩
    · simp [cardOf, h] at hv
    · unfold countOf at hv ⊢
      simp only [Dict.get?_mapValues, Option.bind_map, Function.comp_def]
      exact hv

theorem insert_extends {V : Type} (db : Database) (rows : List (Row V)) :
    Extends db { db with rows := insertModelsBatch db.rows (aggregateByModel rows) } := by
  refine extends_of_rows rfl rfl rfl ?_
  intro id r hr
  have hget := get?_insert db.rows rows id
  cases hrec : (modelsDict rows).get? id with
  | none =>
    rw [hrec] at hget
    exact ⟨r, hget.trans hr, fun v hv => hv, fun v hv => hv⟩
  | some rec =>
    rw [hrec] at hget
    refine ⟨_, hget, fun v hv => ?_, fun v hv => ?_⟩
    · rw [insertRow, hr]
      exact hv
    · rw [insertRow, hr]
      exact hv

/-- a run without force names only the columns that are NULL -/
theorem setColumns_extends (hub : Hub) (id : Str) (r : ModelRow) :
    (∀ v, r.modelCard = some v → (setColumns (updatesFor hub false (select (id, r))) r).modelCard = some v) ∧
      ∀ v, r.parameterCount = some v → (setColumns (updatesFor hub false (select (id, r))) r).parameterCount = some v := by
  refine ⟨fun v hv => ?_, fun v hv => ?_⟩
  · simp [updatesFor, select, hv]
  · simp [updatesFor, select, hv]

theorem enrich_extends (db : Database) (hub : Hub) (limit : Option ℤ) (dryRun : Bool) {fetched : List (Str × ModelRow)}
    (selected : Selected db.rows fetched) :
    Extends db { db with rows := (enrichModels hub limit false dryRun fetched db.rows).1 } := by
  refine extends_of_rows rfl rfl rfl ?_
  intro id r hr
  have hget := @get?_enrich hub limit false dryRun _ _ selected id
  rw [hr] at hget
  split_ifs at hget
  · exact ⟨r, hget, fun v hv => hv, fun v hv => hv⟩
  · exact ⟨_, hget, setColumns_extends hub id r⟩

theorem backfill_extends {nums : Numerals} (db : Database) {dryRun : Bool} {missing : List Str}
    {r : Models × Backfill.Stats} (selected : Missing db.rows missing)
    (completed : Backfill.backfill nums dryRun missing db.rows = some r) : Extends db { db with rows := r.1 } := by
  refine extends_of_rows rfl rfl rfl ?_
  intro id row hrow
  have hget := get?_backfill selected completed id
  rw [hrow] at hget
  split_ifs at hget
  · exact ⟨row, hget, fun v hv => hv, fun v hv => hv⟩
  · refine ⟨_, hget, fun v hv => ?_, fun v hv => ?_⟩
    · unfold fill
      split_ifs
      · exact hv
      · exact hv
    · rw [fill, if_neg (by simp [hv])]
      exact hv

/-- **No operation changes a column that is set.** -/
theorem step_extends {V : Type} {nums : Numerals} {a b : Database} {op : Operation V} (h : Step nums a op b) :
    Extends a b := by
  cases h with
  | initializeSchema =>
    exact ((createTable_extends a).trans (addCountColumn_extends _)).trans (addCardColumn_extends _)
  | insert rows => exact insert_extends a rows
  | enrich hub limit dryRun _ _ _ selected => exact enrich_extends a hub limit dryRun selected
  | backfill _ _ _ selected completed => exact backfill_extends a selected completed

/-! ## Runs with nothing new to write -/

/-- every fetch for a column that is NULL gives nothing -/
def NothingToFetch (hub : Hub) (t : Models) : Prop :=
  ∀ id r, t.get? id = some r → (r.modelCard = none → fetchModelCard hub id 3 = none) ∧
    (r.parameterCount = none → fetchParameterCount hub id 3 = none)

theorem enrich_unchanged {hub : Hub} {limit : Option ℤ} {dryRun : Bool} {t : Models} {fetched : List (Str × ModelRow)}
    (selected : Selected t fetched) (h : NothingToFetch hub t) : (enrichModels hub limit false dryRun fetched t).1 = t := by
  apply Dict.ext_get? enrich_keys
  intro id
  rw [get?_enrich selected]
  split_ifs
  · rfl
  · cases hr : t.get? id with
    | none => rfl
    | some r =>
      obtain ⟨hcard, hcount⟩ := h id r hr
      rw [Option.map_some]
      cases r with
      | mk _ _ _ _ _ _ _ _ _ count card =>
        cases count <;> cases card <;> simp_all [setColumns, updatesFor, select]

/-- no id of a row without a count has a size -/
def NothingToFill (nums : Numerals) (t : Models) : Prop :=
  ∀ id r, t.get? id = some r → r.parameterCount = none → (parseParamsFromId nums id).join = none

theorem backfill_unchanged {nums : Numerals} {dryRun : Bool} {t : Models} {missing : List Str}
    {r : Models × Backfill.Stats} (selected : Missing t missing) (completed : backfill nums dryRun missing t = some r)
    (h : NothingToFill nums t) : r.1 = t := by
  apply Dict.ext_get? (backfill_keys completed)
  intro id
  rw [get?_backfill selected completed]
  split_ifs
  · rfl
  · cases hr : t.get? id with
    | none => rfl
    | some row =>
      rw [Option.map_some, fill]
      split_ifs with hnull
      · rw [h id row hr hnull, ← hnull]
      · rfl

/-- a run over all rows leaves nothing to fetch from the same answers -/
theorem nothingToFetch_of_enrich {hub : Hub} {t : Models} {fetched : List (Str × ModelRow)} (selected : Selected t fetched) :
    NothingToFetch hub (enrichModels hub none false false fetched t).1 := by
  intro id r' hr'
  rw [get?_enrich selected] at hr'
  simp only [Bool.false_eq_true, false_or] at hr'
  split_ifs at hr' with hmem
  · obtain ⟨r, -, rfl⟩ := Option.map_eq_some_iff.1 hr'
    refine ⟨fun hcard => ?_, fun hcount => ?_⟩
    · cases hr : r.modelCard with
      | some v => rw [(setColumns_extends hub id r).1 v hr] at hcard; cases hcard
      | none => simpa [updatesFor, select, hr] using hcard
    · cases hr : r.parameterCount with
      | some v => rw [(setColumns_extends hub id r).2 v hr] at hcount; cases hcount
      | none => simpa [updatesFor, select, hr] using hcount
  · -- a row that is not processed has both columns
    have hboth : r'.modelCard ≠ none ∧ r'.parameterCount ≠ none := by
      by_contra hc
      apply hmem
      refine List.mem_map.2 ⟨select (id, r'), List.mem_filter.2 ⟨?_, ?_⟩, rfl⟩
      · exact List.mem_map_of_mem (selected.perm.mem_iff.2 (Dict.get?_eq_some.1 hr'))
      · simp only [select, Bool.false_or, Bool.not_eq_true', Bool.and_eq_false_iff, Option.isSome_eq_false_iff,
          Option.isNone_iff_eq_none]
        rwa [not_and_or, not_not, not_not] at hc
    exact ⟨fun h => absurd h hboth.1, fun h => absurd h hboth.2⟩

theorem nothingToFill_of_backfill {nums : Numerals} {t : Models} {missing : List Str} {r : Models × Backfill.Stats}
    (selected : Missing t missing) (completed : backfill nums false missing t = some r) : NothingToFill nums r.1 := by
  intro id row hrow hnull
  rw [get?_backfill selected completed] at hrow
  simp only [Bool.false_eq_true, if_false] at hrow
  obtain ⟨old, -, rfl⟩ := Option.map_eq_some_iff.1 hrow
  unfold fill at hnull
  split_ifs at hnull with hold
  · exact hnull
  · exact absurd hnull hold

/-! ## Histories -/

/-- at most one change, from NULL to a value -/
def ChangesOnce {α : Type} (values : List (Option α)) : Prop :=
  ∃ (i j : ℕ) (x : Option α), values = List.replicate i none ++ List.replicate j x

theorem changesOnce_of_pairwise {α : Type} {values : List (Option α)}
    (h : values.Pairwise fun x y => ∀ v, x = some v → y = some v) : ChangesOnce values := by
  induction values with
  | nil => exact ⟨0, 0, none, rfl⟩
  | cons x values ih =>
    rw [List.pairwise_cons] at h
    cases x with
    | none =>
      obtain ⟨i, j, y, hy⟩ := ih h.2
      exact ⟨i + 1, j, y, by rw [hy]; rfl⟩
    | some v =>
      have hall : values = List.replicate values.length (some v) :=
        List.eq_replicate_iff.2 ⟨rfl, fun y hy => h.1 y hy v rfl⟩
      refine ⟨0, values.length + 1, some v, ?_⟩
      rw [List.replicate_succ, ← hall]
      rfl

theorem history_pairwise {V : Type} {nums : Numerals} {dbs : List Database} (h : History V nums dbs) :
    dbs.Pairwise Extends := by
  have : IsTrans Database Extends := ⟨fun _ _ _ => Extends.trans⟩
  have hchain : dbs.IsChain Extends := List.IsChain.imp (fun a b hab => by
    obtain ⟨op, hop⟩ := hab
    exact step_extends hop) h
  exact hchain.pairwise

/-- what a history does to the enriched columns -/
structure WrittenOnce (V : Type) (nums : Numerals) : Prop where
  card : ∀ dbs, History V nums dbs → ∀ id, ChangesOnce (dbs.map (cardOf id))
  count : ∀ dbs, History V nums dbs → ∀ id, ChangesOnce (dbs.map (countOf id))
  dryEnrich : ∀ a b hub limit, Step nums a (.enrich hub limit true : Operation V) b → b = a
  dryBackfill : ∀ a b, Step nums a (.backfill true : Operation V) b → b = a
  /-- a run whose fetches for NULL columns give nothing, as does one that repeats a run over all rows -/
  nothingToFetch : ∀ a b hub limit, Step nums a (.enrich hub limit false : Operation V) b → NothingToFetch hub a.rows → b = a
  repeatedEnrich : ∀ a b c hub limit, Step nums a (.enrich hub none false : Operation V) b →
    Step nums b (.enrich hub limit false : Operation V) c → c = b
  repeatedBackfill : ∀ a b c, Step nums a (.backfill false : Operation V) b → Step nums b (.backfill false : Operation V) c →
    c = b

/-- **The enriched columns are written once**, over every history of the table. -/
theorem write_once (V : Type) (nums : Numerals) : WrittenOnce V nums where
  card dbs h id := by
    apply changesOnce_of_pairwise
    exact List.pairwise_map.2 ((history_pairwise h).imp fun hab v hv => hab.card id v hv)
  count dbs h id := by
    apply changesOnce_of_pairwise
    exact List.pairwise_map.2 ((history_pairwise h).imp fun hab v hv => hab.count id v hv)
  dryEnrich a b hub limit h := by
    cases h
    rw [enrich_dry_run]
  dryBackfill a b h := by
    cases h with
    | backfill _ _ _ _ completed => rw [backfill_dry_run completed]
  nothingToFetch a b hub limit h hnothing := by
    cases h with
    | enrich _ _ _ _ _ _ selected => rw [enrich_unchanged selected hnothing]
  repeatedEnrich a b c hub limit hab hbc := by
    cases hab with
    | enrich _ _ _ _ _ _ selected =>
      cases hbc with
      | enrich _ _ _ _ _ _ selected' => rw [enrich_unchanged selected' (nothingToFetch_of_enrich selected)]
  repeatedBackfill a b c hab hbc := by
    cases hab with
    | backfill _ _ _ selected completed =>
      cases hbc with
      | backfill _ _ _ selected' completed' =>
        rw [backfill_unchanged selected' completed' (nothingToFill_of_backfill selected completed)]

end AgentPick.WriteOnce
