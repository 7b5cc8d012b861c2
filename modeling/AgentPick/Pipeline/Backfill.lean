/-
Nominal parameter counts from the model ids (`backfill_param_counts.py`).

`backfill` selects the ids of the rows without a count, parses a size from each id, and writes the sizes it found in one
transaction. `\d` and the product `float(digits) * mult` depend on the Unicode database and on floating point: both are a
parameter (`Numerals`). A product that is infinite is an exception, and a run that ends in an exception writes nothing.

ASSUMED OF THE DATABASE: no statement fails. It refuses a count that is no BIGINT; the run then ends with that exception and
writes nothing either.

Results:
- `get?_backfill`: what a completed run does to each row: a row without a count gets the size of its id, if there is one.
- `backfill_keys`, `backfill_dry_run`: no row appears or disappears; a dry run changes nothing.
-/
import Mathlib.Tactic
import AgentPick.Catalog.Ids
import AgentPick.Core.Regex
import AgentPick.Pipeline.Models

namespace AgentPick.Backfill

open AgentPick.Models AgentPick.Regex

/-! ## Sizes -/

/-- what reading a size depends on -/
structure Numerals where
  /-- `\d` -/
  isDecimal : Char → Bool
  /-- `int(float(digits) * mult)`; `none` is OverflowError -/
  product : Str → ℕ → Option ℤ
  isDecimal_ascii : ∀ c : Char, c.toNat < 128 → isDecimal c = c.isDigit

/-- `[bBmM]` -/
def isUnit (c : Char) : Bool := c = 'b' || c = 'B' || c = 'm' || c = 'M'

/-- `_SIZE_RE` -/
def sizeRe (nums : Numerals) : Regex :=
  let digits := plus (.char nums.isDecimal)
  concat [notAfter fun c => c.isAlphanum || c = '.', digits, opt (.seq (.char (· = '.')) digits), .char isUnit,
    notBefore Char.isAlphanum]

/-- `mult` -/
def multOf (token : Str) : ℕ :=
  if token.getLast? = some 'b' ∨ token.getLast? = some 'B' then 1000000000 else 1000000

/-- `parse_params_from_id`; the outer `none` is an exception. The unit is the last character of the token. -/
def parseParamsFromId (nums : Numerals) (modelId : Str) : Option (Option ℤ) :=
  match search (sizeRe nums) (Catalog.repoOf modelId) with
  | none => some none
  | some m =>
    let token := m.1.upto m.2
    (nums.product token.dropLast (multOf token)).map fun count => if count = 0 then none else some count

/-! ## The run -/

/-- an answer to `SELECT model_id FROM models WHERE parameter_count IS NULL ORDER BY model_id`; how ids are ordered is up
to the collation -/
def Missing (t : Models) (missing : List Str) : Prop :=
  missing.Perm ((t.entries.filter fun e => e.2.parameterCount.isNone).map Prod.fst)

/-- one id of the list comprehension `updates` -/
def updateFor (nums : Numerals) (modelId : Str) : Option (List (Str × ℤ)) :=
  (parseParamsFromId nums modelId).map fun count => (count.map fun c => (modelId, c)).toList

/-- `updates` -/
def updatesOf (nums : Numerals) (missing : List Str) : Option (List (Str × ℤ)) :=
  (missing.mapM (updateFor nums)).map List.flatten

/-- the SET list of an UPDATE of the count -/
def setCount (count : ℤ) : Updates := ⟨none, some (some count)⟩

/-- the loop of the UPDATEs -/
def writeCounts (t : Models) (updates : List (Str × ℤ)) : Models :=
  updates.foldl (fun t p => t.modify p.1 (setColumns (setCount p.2))) t

structure Stats where
  missing : ℕ
  updated : ℕ
deriving DecidableEq, Repr

/-- `backfill`, with the answer of its SELECT; `none` is an exception -/
def backfill (nums : Numerals) (dryRun : Bool) (missing : List Str) (t : Models) : Option (Models × Stats) :=
  (updatesOf nums missing).map fun updates =>
    if dryRun then (t, ⟨missing.length, 0⟩)
    else (writeCounts t updates, ⟨missing.length, updates.length⟩)

/-! ## What a run does to each row -/

variable {nums : Numerals} {missing : List Str} {t : Models}

theorem mem_missing (h : Missing t missing) {id : Str} :
    id ∈ missing ↔ ∃ r, t.get? id = some r ∧ r.parameterCount = none := by
  rw [h.mem_iff, List.mem_map]
  refine ⟨fun ⟨e, he, hid⟩ => ?_, fun ⟨r, hr, hnull⟩ => ?_⟩
  · obtain ⟨hmem, hnull⟩ := List.mem_filter.1 he
    exact ⟨e.2, Dict.get?_eq_some.2 (hid ▸ hmem), Option.isNone_iff_eq_none.1 hnull⟩
  · exact ⟨(id, r), List.mem_filter.2 ⟨Dict.get?_eq_some.1 hr, Option.isNone_iff_eq_none.2 hnull⟩, rfl⟩

theorem missing_nodup (h : Missing t missing) : missing.Nodup := by
  apply h.nodup_iff.2
  exact List.Nodup.sublist (List.filter_sublist.map Prod.fst) t.nodup

/-- the ids that have a size, with it -/
def sizes (nums : Numerals) (missing : List Str) : List (Str × ℤ) :=
  missing.filterMap fun id => (parseParamsFromId nums id).join.map fun c => (id, c)

/-- the updates are those of the ids that have a size -/
theorem updatesOf_spec {updates : List (Str × ℤ)} (h : updatesOf nums missing = some updates) :
    (∀ id ∈ missing, ∃ count, parseParamsFromId nums id = some count) ∧
      updates = sizes nums missing := by
  obtain ⟨parts, hparts, rfl⟩ := Option.map_eq_some_iff.1 h
  clear h
  induction missing generalizing parts with
  | nil =>
    obtain rfl : [] = parts := Option.some.inj hparts
    exact ⟨by simp, rfl⟩
  | cons id missing ih =>
    rw [List.mapM_cons] at hparts
    obtain ⟨part, hpart, hrest⟩ := Option.bind_eq_some_iff.1 hparts
    obtain ⟨parts', hparts', hcons⟩ := Option.bind_eq_some_iff.1 hrest
    obtain rfl := Option.some.inj hcons
    obtain ⟨count, hcount, rfl⟩ := Option.map_eq_some_iff.1 hpart
    obtain ⟨hall, heq⟩ := ih parts' hparts'
    refine ⟨List.forall_mem_cons.2 ⟨⟨count, hcount⟩, hall⟩, ?_⟩
    rw [List.flatten_cons, heq]
    cases count with
    | none =>
      rw [sizes, sizes, List.filterMap_cons_none (by rw [hcount]; rfl)]
      rfl
    | some c =>
      rw [sizes, sizes, List.filterMap_cons_some (by rw [hcount]; rfl)]
      rfl

theorem mem_sizes {p : Str × ℤ} :
    p ∈ sizes nums missing ↔ p.1 ∈ missing ∧ (parseParamsFromId nums p.1).join = some p.2 := by
  rw [sizes, List.mem_filterMap]
  refine ⟨fun ⟨id, hid, hp⟩ => ?_, fun ⟨hid, hsize⟩ => ?_⟩
  · obtain ⟨c, hc, rfl⟩ := Option.map_eq_some_iff.1 hp
    exact ⟨hid, hc⟩
  · exact ⟨p.1, hid, by rw [hsize]; rfl⟩

theorem sizes_nodup (hn : missing.Nodup) : ((sizes nums missing).map Prod.fst).Nodup := by
  have hmap : (sizes nums missing).map Prod.fst = missing.filter fun id => (parseParamsFromId nums id).join.isSome := by
    rw [sizes, List.map_filterMap, ← List.filterMap_eq_filter]
    congr 1
    funext id
    cases h : (parseParamsFromId nums id).join <;> simp [h, Option.guard]
  rw [hmap]
  exact hn.filter _

theorem get?_writeCounts_of_notMem {updates : List (Str × ℤ)} {id : Str} (hid : id ∉ updates.map Prod.fst) :
    (writeCounts t updates).get? id = t.get? id :=
  Dict.get?_foldl_modify_of_notMem (fun c => setColumns (setCount c)) updates t hid

theorem get?_writeCounts {updates : List (Str × ℤ)} (hn : (updates.map Prod.fst).Nodup) {p : Str × ℤ} (hp : p ∈ updates) :
    (writeCounts t updates).get? p.1 = (t.get? p.1).map (setColumns (setCount p.2)) :=
  Dict.get?_foldl_modify (fun c => setColumns (setCount c)) hn t hp

theorem keys_writeCounts (t : Models) (updates : List (Str × ℤ)) : (writeCounts t updates).keys = t.keys := by
  induction updates generalizing t with
  | nil => rfl
  | cons p updates ih =>
    calc (writeCounts t (p :: updates)).keys = (t.modify p.1 (setColumns (setCount p.2))).keys := ih _
      _ = t.keys := Dict.keys_modify _ _ _

/-- what a run makes of a row -/
def fill (nums : Numerals) (id : Str) (r : ModelRow) : ModelRow :=
  if r.parameterCount = none then { r with parameterCount := (parseParamsFromId nums id).join } else r

/-- **What a completed run does to each row.** A row without a count gets the size of its id, if there is one, and nothing
else changes. -/
theorem get?_backfill {dryRun : Bool} (h : Missing t missing) {r : Models × Stats}
    (hr : backfill nums dryRun missing t = some r) (id : Str) :
    r.1.get? id = if dryRun then t.get? id else (t.get? id).map (fill nums id) := by
  obtain ⟨updates, hupdates, rfl⟩ := Option.map_eq_some_iff.1 hr
  have heq : updates = sizes nums missing := (updatesOf_spec hupdates).2
  cases dryRun with
  | true => rfl
  | false =>
    simp only [Bool.false_eq_true, if_false, heq]
    by_cases hid : id ∈ (sizes nums missing).map Prod.fst
    · obtain ⟨p, hp, rfl⟩ := List.mem_map.1 hid
      obtain ⟨hmissing, hsize⟩ := mem_sizes.1 hp
      obtain ⟨row, hrow, hnull⟩ := (mem_missing h).1 hmissing
      rw [get?_writeCounts (sizes_nodup (missing_nodup h)) hp, hrow, Option.map_some, Option.map_some, fill, if_pos hnull,
        hsize]
      rfl
    · rw [get?_writeCounts_of_notMem hid]
      cases hrow : t.get? id with
      | none => rfl
      | some row =>
        rw [Option.map_some, fill]
        split_ifs with hnull
        · -- without a count and a size: it stays without
          have hsize : (parseParamsFromId nums id).join = none := by
            by_contra hne
            obtain ⟨c, hc⟩ := Option.ne_none_iff_exists'.1 hne
            have hmissing := (mem_missing h).2 ⟨row, hrow, hnull⟩
            exact hid (List.mem_map.2 ⟨(id, c), mem_sizes.2 ⟨hmissing, hc⟩, rfl⟩)
          rw [hsize, ← hnull]
        · rfl

/-- no row appears or disappears -/
theorem backfill_keys {dryRun : Bool} {r : Models × Stats} (hr : backfill nums dryRun missing t = some r) :
    r.1.keys = t.keys := by
  obtain ⟨updates, -, rfl⟩ := Option.map_eq_some_iff.1 hr
  cases dryRun with
  | true => rfl
  | false => exact keys_writeCounts t updates

/-- a dry run changes nothing -/
theorem backfill_dry_run {r : Models × Stats} (hr : backfill nums true missing t = some r) : r.1 = t := by
  obtain ⟨updates, -, rfl⟩ := Option.map_eq_some_iff.1 hr
  rfl

end AgentPick.Backfill
