/-
Model ids and catalog rows as the agent sees them (`backend/src/catalog.py`, `_shape` to `_family_key`).

A dictionary built by `_shape` drops the keys without a value, so each field of an `Item` is `none` where the key is
missing. `_meta_for_ids` reads the table, or fails when PostgreSQL cannot be reached (`none`).

Results:
- `shape_fields`: no field of a shaped row is an empty text or an empty list.
- `get?_metaForIds`: the metadata of the ids asked for is that of their rows.
-/
import Mathlib.Tactic
import AgentPick.Core.Dict
import AgentPick.Core.Regex
import AgentPick.Core.Unicode
import AgentPick.Pipeline.Models

namespace AgentPick.Catalog

open AgentPick.Text AgentPick.Regex

/-! ## Model ids -/

/-- `_QUANT_TOKENS` -/
def quantTokens : List Str :=
  ["gguf", "awq", "gptq", "mlx", "exl2", "bnb", "nf4", "fp8", "fp4", "int4", "int8", "w4a16", "w8a8", "4bit", "8bit",
    "quantized", "onnx", "autoround", "unsloth"].map String.toList

/-- `_TEST_ARTIFACT_PATTERN`, under a comparison of pattern and text characters: Python and PostgreSQL have their own -/
def testArtifactPattern (same : Char → Char → Bool) : Regex :=
  .alt (litBy same "tiny-random".toList) (litBy same "internal-testing".toList)

/-- `_TEST_ARTIFACT_RE.search(model_id)` -/
def isTestArtifact (modelId : Str) : Bool := (search (testArtifactPattern Unicode.ignoreCase) modelId).isSome

/-- the characters of `_ID_TOKEN_RE` -/
def isIdSeparator (c : Char) : Bool := c = '-' || c = '_' || c = '.' || c = '/'

/-- `_ID_TOKEN_RE.split(s)` without the empty pieces, which neither caller looks at -/
def idTokens (s : Str) : List Str := (s.splitOnP isIdSeparator).filter (· ≠ [])

/-- `_is_quantized_reupload` -/
def isQuantizedReupload (u : Unicode) (modelId : Str) : Bool := (idTokens (u.lower modelId)).any (quantTokens.contains ·)

/-- `model_id.split("/", 1)[-1]` -/
def repoOf (modelId : Str) : Str := if '/' ∈ modelId then (modelId.dropWhile (· ≠ '/')).drop 1 else modelId

/-- `_META_LLAMA_PREFIX_RE.sub("llama-", key)` -/
def stripMeta (key : Str) : Str := if "meta-llama-".toList <+: key then "llama-".toList ++ key.drop 11 else key

/-- `_family_key` -/
def familyKey (u : Unicode) (modelId : Str) : Str :=
  stripMeta (['-'].intercalate ((idTokens (u.lower (repoOf modelId))).filter (!quantTokens.contains ·)))

/-! ## Shaped rows -/

/-- what `_shape` returns: `none` is a key that is dropped -/
structure Item where
  modelId : Option Str := none
  pipelineTag : Option Str := none
  parameterCount : Option ℤ := none
  downloads : Option ℤ := none
  likes : Option ℤ := none
  lastModified : Option Str := none
  tags : Option (List Str) := none
  note : Option Str := none
  cardExcerpt : Option Str := none
deriving DecidableEq, Repr

/-- the test `v not in (None, [], "")` on a text or a list -/
def nonEmpty {α : Type} (v : Option (List α)) : Option (List α) := v.filter (!·.isEmpty)

/-- the note on an id that is catalog noise -/
def noteFor (u : Unicode) (modelId : Str) : Option Str :=
  if modelId = [] then none
  else if isTestArtifact modelId then some "randomly-initialized test artifact — not a usable model".toList
  else if isQuantizedReupload u modelId then
    some "quantized/repackaged re-upload; prefer the original checkpoint unless this format was requested".toList
  else none

/-- `_shape` -/
def shape (u : Unicode) (modelId : Str) (row : ModelRow) (cardExcerpt : Option Str) : Item where
  modelId := nonEmpty (some modelId)
  pipelineTag := nonEmpty row.pipelineTag
  parameterCount := row.parameterCount
  downloads := some (row.downloads.getD 0)
  likes := some (row.likes.getD 0)
  lastModified := nonEmpty (some ((row.lastModified.getD []).take 10))
  tags := nonEmpty (some ((row.tags.getD []).take 12))
  note := noteFor u modelId
  cardExcerpt := nonEmpty cardExcerpt

theorem ne_nil_of_nonEmpty {α : Type} {v : Option (List α)} {l : List α} (h : nonEmpty v = some l) : l ≠ [] := by
  have := (Option.filter_eq_some_iff.1 h).2
  simpa using this

/-- no text and no list of a shaped row is empty -/
theorem shape_fields (u : Unicode) (modelId : Str) (row : ModelRow) (cardExcerpt : Option Str) :
    let item := shape u modelId row cardExcerpt
    (∀ s, item.modelId = some s ∨ item.pipelineTag = some s ∨ item.lastModified = some s ∨ item.cardExcerpt = some s →
      s ≠ []) ∧ ∀ ts, item.tags = some ts → ts ≠ [] := by
  simp only [shape]
  refine ⟨?_, fun ts h => ne_nil_of_nonEmpty h⟩
  rintro s (h | h | h | h) <;> exact ne_nil_of_nonEmpty h

/-! ## Metadata -/

/-- `_CARD_EXCERPT_CHARS` -/
def cardExcerptChars : ℕ := 400

/-- `(r.get("card_excerpt") or "").strip()`, the column being `LEFT(model_card, 400)` -/
def cardExcerpt (row : ModelRow) : Str := strip ((row.modelCard.getD []).take cardExcerptChars)

/-- `_meta_for_ids`; `none` is CatalogUnavailable, which a query raises and no ids at all do not -/
def metaForIds (u : Unicode) (db : Option Models) (modelIds : List Str) : Option (Dict Str Item) :=
  if modelIds = [] then some Dict.empty
  else db.map fun t =>
    (t.filterKeys fun id => modelIds.contains id && id ≠ []).mapValues fun id row => shape u id row (some (cardExcerpt row))

/-- the metadata of an id asked for is that of its row -/
theorem get?_metaForIds (u : Unicode) (db : Option Models) {modelIds : List Str} {id : Str} (hid : id ∈ modelIds)
    (hne : id ≠ []) :
    ((metaForIds u db modelIds).getD Dict.empty).get? id =
      (db.bind (·.get? id)).map fun row => shape u id row (some (cardExcerpt row)) := by
  have hids : modelIds ≠ [] := List.ne_nil_of_mem hid
  cases db with
  | none => simp [metaForIds, hids]
  | some t => simp [metaForIds, hids, Dict.get?_mapValues, Dict.get?_filterKeys, hid, hne]

end AgentPick.Catalog
