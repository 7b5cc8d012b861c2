/-
Enrichment of the `models` table (`enrich_models.py`).

`enrich_models` selects every row with two flags (is the card set, is the count set), drops the rows where both are set
unless `force`, keeps the first `limit`, and per row fetches what is missing (or everything, with `force`) and runs one
UPDATE of the fetched columns. The fetch helpers try up to three times; "does not exist" and "failed after all retries"
both come back as None, and None is written like any other value.

A row's outcome is decided by the Hub's answers to each attempt (`Hub`), the flags and `force`: `updatesFor`.

ASSUMED OF THE DATABASE: no statement fails. It refuses a card with a NUL character and a total that is no BIGINT; the run then
ends with that exception, and the rows before stay committed.

Results:
- `get?_enrich`: what a run does to each row. A row that is not processed is unchanged; a processed row gets the columns
  of its `updatesFor`, and nothing else of it changes.
- `enrich_keys`, `enrich_dry_run`: no row appears or disappears; a dry run changes nothing.
- `neverErases_iff`: a run erases no stored value exactly when `force` is off, or it is a dry run, or every processed row
  has, for each column already set, a fetch that returned a value.
- `force_erases`: with `force`, a card whose download fails three times is set to NULL.
-/
import Mathlib.Tactic
import AgentPick.Pipeline.Models

namespace AgentPick.Enrich

open AgentPick.Models

/-! ## Fetching -/

/-- one attempt at downloading README.md -/
inductive CardAttempt where
  | content (s : Str)
  | entryNotFound
  | repositoryNotFound
  | error
deriving DecidableEq, Repr

/-- one attempt at `model_info`: `info none` has no safetensors metadata, `info (some none)` no total -/
inductive CountAttempt where
  | info (safetensors : Option (Option ℤ))
  | error
deriving DecidableEq, Repr

/-- the Hub's answer to each attempt (1, 2, 3), for each model -/
structure Hub where
  card : Str → ℕ → CardAttempt
  count : Str → ℕ → CountAttempt

/-- the attempts from `attempt` on, `left` of them -/
def cardAttempts (outcome : ℕ → CardAttempt) (attempt : ℕ) : ℕ → Option Str
  | 0 => none
  | left + 1 =>
    match outcome attempt with
    | .content s => some s
    | .entryNotFound => none
    | .repositoryNotFound => none
    | .error => cardAttempts outcome (attempt + 1) left

def fetchModelCard (hub : Hub) (modelId : Str) (retries : ℕ) : Option Str :=
  cardAttempts (hub.card modelId) 1 retries

def countAttempts (outcome : ℕ → CountAttempt) (attempt : ℕ) : ℕ → Option ℤ
  | 0 => none
  | left + 1 =>
    match outcome attempt with
    | .info none => none
    | .info (some total) => total
    | .error => countAttempts outcome (attempt + 1) left

def fetchParameterCount (hub : Hub) (modelId : Str) (retries : ℕ) : Option ℤ :=
  countAttempts (hub.count modelId) 1 retries

/-! ## The run -/

/-- a row of the SELECT: id, `model_card IS NOT NULL`, `parameter_count IS NOT NULL` -/
structure Selection where
  modelId : Str
  hasCard : Bool
  hasCount : Bool
deriving DecidableEq, Repr

def select (e : Str × ModelRow) : Selection := ⟨e.1, e.2.modelCard.isSome, e.2.parameterCount.isSome⟩

/-- `rows[:limit]` when `limit` is given and not 0; a negative limit counts from the end -/
def sliceTo (limit : Option ℤ) (rows : List Selection) : List Selection :=
  match limit with
  | none => rows
  | some n => if n = 0 then rows else if 0 < n then rows.take n.toNat else rows.take (rows.length - (-n).toNat)

/-- the rows a run processes -/
def processed (fetched : List (Str × ModelRow)) (limit : Option ℤ) (force : Bool) : List Selection :=
  sliceTo limit ((fetched.map select).filter fun r => force || !(r.hasCard && r.hasCount))

/-- the columns fetched for a row -/
def updatesFor (hub : Hub) (force : Bool) (r : Selection) : Updates where
  modelCard := if force || !r.hasCard then some (fetchModelCard hub r.modelId 3) else none
  parameterCount := if force || !r.hasCount then some (fetchParameterCount hub r.modelId 3) else none

structure Stats where
  models : ℕ
  cardsFetched : ℕ
  cardsFound : ℕ
  countsFetched : ℕ
  countsFound : ℕ
  updated : ℕ
deriving DecidableEq, Repr

def Stats.count (s : Stats) (u : Updates) (written : Bool) : Stats :=
  { s with
    cardsFetched := s.cardsFetched + u.modelCard.toList.length
    cardsFound := s.cardsFound + u.modelCard.join.toList.length
    countsFetched := s.countsFetched + u.parameterCount.toList.length
    countsFound := s.countsFound + u.parameterCount.join.toList.length
    updated := s.updated + if written then 1 else 0 }

/-- the body of the loop over the rows: fetch, then one UPDATE and commit -/
def enrichRow (hub : Hub) (force dryRun : Bool) (acc : Models × Stats) (r : Selection) : Models × Stats :=
  let updates := updatesFor hub force r
  if !updates.isEmpty && !dryRun then (acc.1.modify r.modelId (setColumns updates), acc.2.count updates true)
  else (acc.1, acc.2.count updates false)

/-- `enrich_models`, with the answer of its SELECT -/
def enrichModels (hub : Hub) (limit : Option ℤ) (force dryRun : Bool) (fetched : List (Str × ModelRow)) (t : Models) :
    Models × Stats :=
  let rows := processed fetched limit force
  rows.foldl (enrichRow hub force dryRun) (t, ⟨rows.length, 0, 0, 0, 0, 0⟩)

/-! ## What a run does to each row -/

variable {hub : Hub} {limit : Option ℤ} {force dryRun : Bool} {fetched : List (Str × ModelRow)} {t : Models}

theorem enrichRow_fst (acc : Models × Stats) (r : Selection) :
    (enrichRow hub force dryRun acc r).1 =
      if dryRun then acc.1 else acc.1.modify r.modelId (setColumns (updatesFor hub force r)) := by
  unfold enrichRow
  cases dryRun with
  | true => simp
  | false =>
    by_cases he : (updatesFor hub force r).isEmpty
    · simp [he, Dict.modify_of_fixed fun v _ => setColumns_of_isEmpty he v]
    · simp [he]

theorem foldl_enrichRow_fst (rows : List Selection) (acc : Models × Stats) :
    (rows.foldl (enrichRow hub force dryRun) acc).1 =
      if dryRun then acc.1
      else (rows.map fun r => (r.modelId, updatesFor hub force r)).foldl
        (fun t p => t.modify p.1 (setColumns p.2)) acc.1 := by
  induction rows generalizing acc with
  | nil => simp
  | cons r rows ih =>
    rw [List.foldl_cons, ih, enrichRow_fst]
    cases dryRun <;> simp

theorem sliceTo_sublist (rows : List Selection) : (sliceTo limit rows).Sublist rows := by
  unfold sliceTo
  split
  · exact List.Sublist.refl _
  · split_ifs
    · exact List.Sublist.refl _
    · exact List.take_sublist _ _
    · exact List.take_sublist _ _

theorem processed_sublist : (processed fetched limit force).Sublist (fetched.map select) :=
  (sliceTo_sublist _).trans List.filter_sublist

/-- a processed row is the selection of a row of the table -/
theorem mem_processed (h : Selected t fetched) {s : Selection} (hs : s ∈ processed fetched limit force) :
    ∃ r, t.get? s.modelId = some r ∧ s = select (s.modelId, r) := by
  obtain ⟨e, he, rfl⟩ := List.mem_map.1 (processed_sublist.subset hs)
  exact ⟨e.2, Dict.get?_eq_some.2 (h.perm.mem_iff.1 he), rfl⟩

theorem processed_nodup (h : Selected t fetched) :
    ((processed fetched limit force).map Selection.modelId).Nodup := by
  have hn : (fetched.map Prod.fst).Nodup := ((h.perm.map Prod.fst).nodup_iff).2 t.nodup
  refine List.Nodup.sublist (processed_sublist.map _) ?_
  rw [List.map_map]
  exact hn

/-- **What a run does to each row.** A processed row gets the fetched columns, every other row is unchanged. -/
theorem get?_enrich (h : Selected t fetched) (k : Str) :
    (enrichModels hub limit force dryRun fetched t).1.get? k =
      if dryRun = true ∨ k ∉ (processed fetched limit force).map Selection.modelId then t.get? k
      else (t.get? k).map fun r => setColumns (updatesFor hub force (select (k, r))) r := by
  rw [enrichModels, foldl_enrichRow_fst]
  cases dryRun with
  | true => simp
  | false =>
    simp only [Bool.false_eq_true, if_false, false_or]
    have hmap : ((processed fetched limit force).map fun r => (r.modelId, updatesFor hub force r)).map Prod.fst =
        (processed fetched limit force).map Selection.modelId := by simp
    by_cases hk : k ∈ (processed fetched limit force).map Selection.modelId
    · obtain ⟨s, hs, rfl⟩ := List.mem_map.1 hk
      obtain ⟨r, hr, hsr⟩ := mem_processed h hs
      have hp := List.mem_map_of_mem (f := fun r => (r.modelId, updatesFor hub force r)) hs
      rw [if_neg (not_not.2 hk), Dict.get?_foldl_modify setColumns (hmap ▸ processed_nodup h) t hp, hr,
        Option.map_some, Option.map_some, ← hsr]
    · rw [if_pos hk]
      exact Dict.get?_foldl_modify_of_notMem setColumns _ _ (by rwa [hmap])

/-- no row appears or disappears -/
theorem enrich_keys : (enrichModels hub limit force dryRun fetched t).1.keys = t.keys := by
  rw [enrichModels, foldl_enrichRow_fst]
  split_ifs
  · rfl
  · generalize (processed fetched limit force).map (fun r => (r.modelId, updatesFor hub force r)) = ps
    induction ps generalizing t with
    | nil => rfl
    | cons p ps ih => rw [List.foldl_cons, ih, Dict.keys_modify]

/-- a dry run changes nothing -/
theorem enrich_dry_run : (enrichModels hub limit force true fetched t).1 = t := by
  rw [enrichModels, foldl_enrichRow_fst]; rfl

/-! ## Erasing -/

/-- no stored card or count becomes NULL, and a column whose fetch gave nothing keeps its value -/
def NeverErases (hub : Hub) (t t' : Models) : Prop :=
  ∀ k r, t.get? k = some r → ∃ r', t'.get? k = some r' ∧
    (r.modelCard ≠ none → r'.modelCard ≠ none) ∧ (r.parameterCount ≠ none → r'.parameterCount ≠ none) ∧
    (fetchModelCard hub k 3 = none → r'.modelCard = r.modelCard) ∧
    (fetchParameterCount hub k 3 = none → r'.parameterCount = r.parameterCount)

/-- every column already set of every processed row has a fetch that returns a value -/
def Refetched (hub : Hub) (rows : List Selection) : Prop :=
  ∀ s ∈ rows, (s.hasCard = true → fetchModelCard hub s.modelId 3 ≠ none) ∧
    (s.hasCount = true → fetchParameterCount hub s.modelId 3 ≠ none)

/-- one column: fetched when forced or missing, else kept -/
theorem column_kept {α : Type} (old fetched : Option α) (force : Bool)
    (h : force = true → old.isSome = true → fetched ≠ none) :
    let new := (if force || !old.isSome then some fetched else none).getD old
    (old ≠ none → new ≠ none) ∧ (fetched = none → new = old) := by
  cases force <;> cases old <;> cases fetched <;> simp_all

/-- **When a run erases nothing.** A run turns no stored card or count into NULL, and leaves a column as it was when its
fetch gave nothing, if and only if `force` is off, or it is a dry run, or each column already set of each processed row
was fetched again with a value. -/
theorem neverErases_iff (h : Selected t fetched) :
    NeverErases hub t (enrichModels hub limit force dryRun fetched t).1 ↔
      force = false ∨ dryRun = true ∨ Refetched hub (processed fetched limit force) := by
  refine ⟨?_, ?_⟩
  · intro hne
    by_contra hc
    simp only [not_or, Bool.not_eq_false, Bool.not_eq_true] at hc
    obtain ⟨rfl, rfl, hnr⟩ := hc
    apply hnr
    intro s hs
    obtain ⟨r, hr, hsr⟩ := mem_processed h hs
    obtain ⟨r', hr', hcard, hcount, -, -⟩ := hne s.modelId r hr
    have hmem : s.modelId ∈ (processed fetched limit true).map Selection.modelId := List.mem_map_of_mem hs
    rw [get?_enrich h, if_neg (by simpa using hmem), hr, Option.map_some, Option.some.injEq] at hr'
    subst hr'
    refine ⟨?_, ?_⟩
    · intro hset
      rw [hsr] at hset
      simpa [updatesFor, select] using hcard (by simpa [select, Option.isSome_iff_ne_none] using hset)
    · intro hset
      rw [hsr] at hset
      simpa [updatesFor, select] using hcount (by simpa [select, Option.isSome_iff_ne_none] using hset)
  · intro hc k r hr
    by_cases hk : dryRun = true ∨ k ∉ (processed fetched limit force).map Selection.modelId
    · exact ⟨r, by rw [get?_enrich h, if_pos hk, hr], id, id, fun _ => rfl, fun _ => rfl⟩
    · refine ⟨_, by rw [get?_enrich h, if_neg hk, hr]; rfl, ?_⟩
      rw [not_or, not_not] at hk
      obtain ⟨s, hs, rfl⟩ := List.mem_map.1 hk.2
      obtain ⟨r0, hr0, hsr⟩ := mem_processed h hs
      obtain rfl : r0 = r := Option.some.inj (hr0.symm.trans hr)
      have hre : force = true → Refetched hub (processed fetched limit force) := fun hf =>
        (hc.resolve_left (by simp [hf])).resolve_left hk.1
      have h1 := column_kept r0.modelCard (fetchModelCard hub s.modelId 3) force
        fun hf hset => (hre hf s hs).1 (by rw [hsr]; exact hset)
      have h2 := column_kept r0.parameterCount (fetchParameterCount hub s.modelId 3) force
        fun hf hset => (hre hf s hs).2 (by rw [hsr]; exact hset)
      exact ⟨h1.1, h2.1, h1.2, h2.2⟩

/-! ## Witnesses -/

def storedRow : ModelRow :=
  ⟨some 50000, some 10, none, none, none, none, some [], some [0, 1], some 2, some 7000000000, some "# Card".toList⟩

/-- one model, enriched before -/
def storedTable : Models := ⟨[("org/model".toList, storedRow)], by decide⟩

theorem storedTable_selected : Selected storedTable storedTable.entries := ⟨List.Perm.refl _, by decide⟩

/-- the download fails at every attempt; the count is there -/
def brokenHub : Hub := ⟨fun _ _ => .error, fun _ _ => .info (some (some 7000000000))⟩

theorem neverErases_iff_stored :
    NeverErases brokenHub storedTable
        (enrichModels brokenHub (some 20) true false storedTable.entries storedTable).1 ↔
      true = false ∨ false = true ∨ Refetched brokenHub (processed storedTable.entries (some 20) true) :=
  neverErases_iff storedTable_selected

/-- **A forced run erases.** Three failed downloads set the stored card to NULL. -/
theorem force_erases :
    ¬ NeverErases brokenHub storedTable
      (enrichModels brokenHub none true false storedTable.entries storedTable).1 := by
  intro h
  obtain ⟨r', hr', hcard, -⟩ := h "org/model".toList storedRow (by decide)
  have hnow : (enrichModels brokenHub none true false storedTable.entries storedTable).1.get? "org/model".toList =
      some { storedRow with modelCard := none } := by decide
  obtain rfl : { storedRow with modelCard := none } = r' := Option.some.inj (hnow.symm.trans hr')
  exact hcard (by decide) rfl

end AgentPick.Enrich
