/-
The Parquet query engine (`hf_vectorizer/query.py`, `ParquetQueryEngine._safe_get`, `search_by_tag`, `get_model_details`).

A row is what `to_pandas` gives: columns with cells, a list column holding NumPy arrays. `_safe_get` tests a cell with
`pd.isna`, which is elementwise on an array, and takes the truth of the outcome: that of an array with two or more elements
raises ValueError, and then the default is returned. What is no Python list is not returned as a list either.

`int` of a text and `str` of what is no text are parameters.

Results:
- `safeGet_array`: a list column reads as the default.
- `searchByTag_eq`, `details_tags`: what the two queries say of tags.
- `tags_seen_iff`: both report the stored tags iff there are none to report.
- `tags_lost`: a model whose tag is not found.
-/
import Mathlib.Tactic
import AgentPick.Core.Dict
import AgentPick.Core.Gather
import AgentPick.Core.Raise

namespace AgentPick.Query

open AgentPick.Gather

/-! ## Cells -/

/-- Python values in a row and in a result -/
inductive Value where
  | none
  | int (n : ℤ)
  | str (s : Str)
  | list (items : List Str)
  /-- a NumPy array -/
  | array (items : List Str)
deriving DecidableEq, Repr

/-- a pandas Series -/
abbrev Cells := Dict Str Value

/-- `pd.isna(val)`: one answer, or one for each element -/
def isna : Value → Bool ⊕ List Bool
  | .none => .inl true
  | .int _ => .inl false
  | .str _ => .inl false
  | .list items => .inr (items.map fun _ => false)
  | .array items => .inr (items.map fun _ => false)

/-- the truth value of that; where that of no elements is an error too, `_safe_get` returns the same -/
def truth : Bool ⊕ List Bool → Except Exc Bool
  | .inl b => .ok b
  | .inr [] => .ok false
  | .inr [b] => .ok b
  | .inr (_ :: _ :: _) => .error .valueError

/-- the types that a value is converted to -/
inductive Dtype where
  | int
  | str
  | list

section Engine

variable (intOf : Str → Option ℤ) (strOf : Value → Str)

/-- `int(val)` -/
def toInt : Value → Except Exc ℤ
  | .int n => .ok n
  | .str s => match intOf s with
    | some n => .ok n
    | none => .error .valueError
  | _ => .error .typeError

/-- `str(val)` -/
def toStr : Value → Str
  | .str s => s
  | val => strOf val

/-- the body of the `try` in `_safe_get` -/
def convert (row : Cells) (colName : Str) (default : Value) (dtype : Option Dtype) : Except Exc Value :=
  match row.get? colName with
  | none => .ok default
  | some val => do
    if ← truth (isna val) then return default
    match dtype with
    | some .int => return .int (← toInt intOf val)
    | some .str => return .str (toStr strOf val)
    | some .list =>
      match val with
      | .list items => return .list items
      | _ => return if default = .none then .list [] else default
    | none => return val

/-- `_safe_get`: TypeError and ValueError, all that can be raised, are handled -/
def safeGet (row : Cells) (colName : Str) (default : Value) (dtype : Option Dtype) : Value :=
  match convert intOf strOf row colName default dtype with
  | .ok val => val
  | .error _ => default

/-! ## Queries -/

/-- `tag in tags`, of the lists that `_safe_get` returns -/
def contains (tags : Value) (tag : Str) : Bool :=
  match tags with
  | .list items => items.contains tag
  | _ => false

def tagsOf (row : Cells) : Value := safeGet intOf strOf row "tags".toList (.list []) (some .list)

def modelOf (row : Cells) : Value := safeGet intOf strOf row "model_id".toList (.str []) (some .str)

/-- a result of `search_by_tag` -/
structure TagResult where
  modelId : Value
  header : Value
  downloads : Value
  tags : Value
deriving DecidableEq, Repr

/-- the result of a row, with some tags -/
def tagResult (row : Cells) (tags : Value) : TagResult where
  modelId := modelOf intOf strOf row
  header := safeGet intOf strOf row "section_header".toList (.str []) (some .str)
  downloads := safeGet intOf strOf row "downloads".toList (.int 0) (some .int)
  tags := tags

/-- `search_by_tag` -/
def searchByTag (rows : List Cells) (tag : Str) (limit : ℕ) : List TagResult :=
  (gather (modelOf intOf strOf) (fun _ => false) (fun row => contains (tagsOf intOf strOf row) tag) limit rows).map fun row =>
    tagResult intOf strOf row (tagsOf intOf strOf row)

/-- `metadata` of `get_model_details` -/
structure Metadata where
  downloads : Value
  likes : Value
  tags : Value
  pipelineTag : Value
  libraryName : Value
  createdAt : Value
  lastModified : Value
deriving DecidableEq, Repr

structure Details where
  modelId : Str
  /-- header and index -/
  sections : List (Value × Value)
  /-- `none` is the empty dictionary -/
  metadata : Option Metadata
deriving DecidableEq, Repr

/-- `self.df[self.df['model_id'] == model_id]` -/
def modelRows (rows : List Cells) (modelId : Str) : List Cells :=
  rows.filter fun row => row.get? "model_id".toList = some (.str modelId)

def metadataOf (row : Cells) : Metadata where
  downloads := safeGet intOf strOf row "downloads".toList (.int 0) (some .int)
  likes := safeGet intOf strOf row "likes".toList (.int 0) (some .int)
  tags := tagsOf intOf strOf row
  pipelineTag := safeGet intOf strOf row "pipeline_tag".toList (.str []) (some .str)
  libraryName := safeGet intOf strOf row "library_name".toList (.str []) (some .str)
  createdAt := safeGet intOf strOf row "created_at".toList (.str []) (some .str)
  lastModified := safeGet intOf strOf row "last_modified".toList (.str []) (some .str)

/-- one row of the loop of `get_model_details` -/
def addSection (details : Details) (row : Cells) : Details where
  modelId := details.modelId
  sections := details.sections ++
    [(safeGet intOf strOf row "section_header".toList (.str []) (some .str),
      safeGet intOf strOf row "section_index".toList (.int 0) (some .int))]
  metadata := match details.metadata with
    | none => some (metadataOf intOf strOf row)
    | some metadata => some metadata

/-- `get_model_details` -/
def getModelDetails (rows : List Cells) (modelId : Str) : Details :=
  (modelRows rows modelId).foldl (addSection intOf strOf) ⟨modelId, [], none⟩

/-! ## What the table holds -/

/-- the tags column holds lists of texts, or nothing -/
def TagsColumn (rows : List Cells) : Prop :=
  ∀ row ∈ rows, row.get? "tags".toList = some .none ∨ ∃ items, row.get? "tags".toList = some (.array items)

/-- the tags that are stored in a row -/
def storedTags (row : Cells) : List Str :=
  match row.get? "tags".toList with
  | some (.array items) => items
  | _ => []

/-- the first models, in the order of the rows, that have a row with the tag, each with the tags of that row -/
def taggedModels (rows : List Cells) (tag : Str) (limit : ℕ) : List TagResult :=
  ((firsts (modelOf intOf strOf) (rows.filter fun row => (storedTags row).contains tag)).take limit).map fun row =>
    tagResult intOf strOf row (.list (storedTags row))

/-- the details of a model report the tags of its first row -/
def ReportsTags (rows : List Cells) (modelId : Str) : Prop :=
  ∀ row ∈ (modelRows rows modelId).head?,
    (getModelDetails intOf strOf rows modelId).metadata.map Metadata.tags = some (.list (storedTags row))

/-! ## Reading -/

/-- **A list column reads as the default.** -/
theorem safeGet_array {row : Cells} {colName : Str} {items : List Str} (h : row.get? colName = some (.array items)) :
    safeGet intOf strOf row colName (.list []) (some .list) = .list [] := by
  unfold safeGet convert
  rw [h]
  match items with
  | [] => rfl
  | [x] => rfl
  | x :: y :: rest => rfl

theorem tagsOf_eq {rows : List Cells} (h : TagsColumn rows) {row : Cells} (hrow : row ∈ rows) :
    tagsOf intOf strOf row = .list [] := by
  rcases h row hrow with hnone | ⟨items, harray⟩
  · unfold tagsOf safeGet convert
    rw [hnone]
    rfl
  · exact safeGet_array intOf strOf harray

/-- no model is found by a tag -/
theorem searchByTag_eq {rows : List Cells} (h : TagsColumn rows) (tag : Str) {limit : ℕ} (hlimit : 1 ≤ limit) :
    searchByTag intOf strOf rows tag limit = [] := by
  have hnone : ((rows.takeWhile fun _ => !false).filter fun row => contains (tagsOf intOf strOf row) tag) = [] := by
    rw [List.filter_eq_nil_iff]
    intro row hrow
    rw [tagsOf_eq intOf strOf h (List.takeWhile_subset _ hrow)]
    simp [contains]
  rw [searchByTag, gather_eq _ _ _ hlimit, hnone, (firsts_eq_nil _).2 rfl]
  simp

/-- the metadata of the first row stays -/
theorem foldl_addSection_metadata (rows : List Cells) (details : Details) :
    (rows.foldl (addSection intOf strOf) details).metadata =
      details.metadata.or (rows.head?.map (metadataOf intOf strOf)) := by
  induction rows generalizing details with
  | nil => simp
  | cons row rows ih =>
    rw [List.foldl_cons, ih]
    cases hm : details.metadata <;> simp [addSection, hm]

/-- the details of a model report no tags -/
theorem details_tags {rows : List Cells} (h : TagsColumn rows) {modelId : Str} {row : Cells}
    (hrow : row ∈ (modelRows rows modelId).head?) :
    (getModelDetails intOf strOf rows modelId).metadata.map Metadata.tags = some (.list []) := by
  have hmem : row ∈ rows := List.mem_of_mem_filter (List.mem_of_head? hrow)
  rw [getModelDetails, foldl_addSection_metadata, show (modelRows rows modelId).head? = some row from hrow]
  simp [metadataOf, tagsOf_eq intOf strOf h hmem]

/-- **The engine sees tags iff there are none to be seen.** -/
theorem tags_seen_iff {rows : List Cells} (h : TagsColumn rows) (tag modelId : Str) {limit : ℕ} (hlimit : 1 ≤ limit) :
    (searchByTag intOf strOf rows tag limit = taggedModels intOf strOf rows tag limit ∧
        ReportsTags intOf strOf rows modelId) ↔
      (∀ row ∈ rows, tag ∉ storedTags row) ∧ ∀ row ∈ (modelRows rows modelId).head?, storedTags row = [] := by
  refine and_congr ?_ ?_
  · rw [searchByTag_eq intOf strOf h tag hlimit, taggedModels, eq_comm, List.map_eq_nil_iff, List.take_eq_nil_iff,
      or_iff_right (by omega), firsts_eq_nil, List.filter_eq_nil_iff]
    simp
  · refine forall₂_congr fun row hrow => ?_
    rw [details_tags intOf strOf h hrow, Option.some_inj, Value.list.injEq]
    exact eq_comm

end Engine

/-- one chunk of a model with two tags -/
def sampleRow : Cells :=
  ((Dict.empty.set "model_id".toList (.str "a/x".toList)).set "tags".toList (.array ["pytorch".toList, "bert".toList])).set
    "downloads".toList (.int 5)

theorem tagsColumn_sampleRow : TagsColumn [sampleRow] := by
  intro row hrow
  obtain rfl := List.mem_singleton.1 hrow
  exact Or.inr ⟨_, rfl⟩

/-- one of a model without tags -/
def plainRow : Cells :=
  (Dict.empty.set "model_id".toList (.str "a/y".toList)).set "tags".toList (.array [])

theorem tagsColumn_plainRow : TagsColumn [sampleRow, plainRow] := by
  intro row hrow
  rcases List.mem_cons.1 hrow with rfl | hrow
  · exact Or.inr ⟨_, rfl⟩
  · obtain rfl := List.mem_singleton.1 hrow
    exact Or.inr ⟨_, rfl⟩

/-- a tag of no row and a model without tags are seen as they are, a tag of the other model is not -/
theorem tags_seen_iff_plainRow :
    (searchByTag (fun _ => none) (fun _ => []) [sampleRow, plainRow] "gpt2".toList 1 =
          taggedModels (fun _ => none) (fun _ => []) [sampleRow, plainRow] "gpt2".toList 1 ∧
        ReportsTags (fun _ => none) (fun _ => []) [sampleRow, plainRow] "a/y".toList) ∧
      ¬(searchByTag (fun _ => none) (fun _ => []) [sampleRow, plainRow] "bert".toList 1 =
          taggedModels (fun _ => none) (fun _ => []) [sampleRow, plainRow] "bert".toList 1 ∧
        ReportsTags (fun _ => none) (fun _ => []) [sampleRow, plainRow] "a/y".toList) := by
  refine ⟨?_, fun hseen => ?_⟩
  · exact (tags_seen_iff (fun _ => none) (fun _ => []) tagsColumn_plainRow "gpt2".toList "a/y".toList (Nat.le_refl 1)).2
      (by decide)
  · have hno := (tags_seen_iff (fun _ => none) (fun _ => []) tagsColumn_plainRow "bert".toList "a/y".toList
      (Nat.le_refl 1)).1 hseen
    exact absurd (hno.1 sampleRow List.mem_cons_self) (by decide)

/-- **The tags of a model are not found.** -/
theorem tags_lost :
    TagsColumn [sampleRow] ∧
      searchByTag (fun _ => none) (fun _ => []) [sampleRow] "bert".toList 10 ≠
        taggedModels (fun _ => none) (fun _ => []) [sampleRow] "bert".toList 10 ∧
      ¬ReportsTags (fun _ => none) (fun _ => []) [sampleRow] "a/x".toList :=
  ⟨tagsColumn_sampleRow, by decide, fun h => absurd (h sampleRow rfl) (by decide)⟩

end AgentPick.Query
