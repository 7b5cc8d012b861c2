/-
The Qdrant query engine (`hf_vectorizer/query.py`, `QdrantQueryEngine`): the four operations that scan the collection.

Each of them asks `client.scroll` for one page of 10000 points and ignores the offset of the next page that comes with it.

ASSUMED OF THE CLIENT (`Scrolls`): a page holds at most as many points as were asked for, and all of them when the collection has
no more; the offset is None exactly then. Which points of a larger collection stand in the page is left open. Payloads are what
the upload writes: the downloads, where present, are a number and the tags a list or nothing (`Point`).

Results:
- `details_sections`: the chunks that `get_model_details` lists.
- `getTopModels_top`: what `get_top_models` returns of a page.
- `searchByTag_taggedModels`, `searchByTag_zero`: the tagged models of a page; a limit of zero.
- `reads_all_iff`: the four operations answer for the whole collection iff it has at most 10000 points (and the first of them no
  tags, for a limit of zero).
- `points_lost`: a collection of 10001 points.
-/
import Mathlib.Tactic
import AgentPick.Core.Rank
import AgentPick.Query.Parquet

namespace AgentPick.Qdrant

open AgentPick.Query AgentPick.Gather

/-! ## Points -/

structure Point where
  id : ℕ
  payload : Cells
  counted : ∀ val, payload.get? "downloads".toList = some val → ∃ n, val = .int n
  tagged : ∀ val, payload.get? "tags".toList = some val → val = .none ∨ ∃ items, val = .list items

/-- `payload.get(key, default)` -/
def Point.get (p : Point) (key : Str) (default : Value) : Value := (p.payload.get? key).getD default

/-- `val or []`, of a list or None -/
def orEmpty : Value → Value
  | .none => .list []
  | val => val

def modelOf (p : Point) : Value := p.get "model_id".toList (.str [])

def tagsOf (p : Point) : Value := orEmpty (p.get "tags".toList (.list []))

/-- the points of a collection, in the order of their ids -/
structure Collection where
  points : List Point
  sorted : points.Pairwise fun p q => p.id < q.id

/-! ## Operations, on the points of a page -/

/-- `search_by_tag` -/
def searchByTag (page : List Point) (tag : Str) (limit : ℕ) : List TagResult :=
  (gather modelOf (fun _ => false) (fun p => contains (tagsOf p) tag) limit page).map fun p =>
    { modelId := modelOf p
      header := p.get "section_header".toList (.str [])
      downloads := p.get "downloads".toList (.int 0)
      tags := tagsOf p }

/-- the loop of `get_model_details`; `metadata` is `none` until `found_metadata` -/
def addPoint (modelId : Str) (details : Details) (p : Point) : Details :=
  if p.payload.get? "model_id".toList = some (.str modelId) then
    { modelId := details.modelId
      sections := details.sections ++
        [(p.get "section_header".toList (.str []), p.get "section_index".toList (.int 0))]
      metadata := match details.metadata with
        | some metadata => some metadata
        | none => some
          { downloads := p.get "downloads".toList (.int 0)
            likes := p.get "likes".toList (.int 0)
            tags := tagsOf p
            pipelineTag := p.get "pipeline_tag".toList (.str [])
            libraryName := p.get "library_name".toList (.str [])
            createdAt := p.get "created_at".toList (.str [])
            lastModified := p.get "last_modified".toList (.str []) } }
  else details

/-- `get_model_details` -/
def getModelDetails (page : List Point) (modelId : Str) : Details := page.foldl (addPoint modelId) ⟨modelId, [], none⟩

/-- an entry of `get_top_models` -/
structure TopModel where
  modelId : Value
  downloads : Value
  likes : Value
  tags : Value
deriving DecidableEq, Repr

def topModel (p : Point) : TopModel where
  modelId := modelOf p
  downloads := p.get "downloads".toList (.int 0)
  likes := p.get "likes".toList (.int 0)
  tags := tagsOf p

/-- the downloads of an entry, which are a number -/
def TopModel.count (m : TopModel) : ℤ :=
  match m.downloads with
  | .int n => n
  | _ => 0

/-- `get_top_models` -/
def getTopModels (page : List Point) (limit : ℕ) : List TopModel :=
  (Rank.byDesc TopModel.count (collect modelOf topModel page).values).take limit

/-- `export_collection`: the records that are written, one a line -/
def exportCollection (page : List Point) : List (ℕ × Cells) := page.map fun p => (p.id, p.payload)

/-! ## The engine -/

/-- `limit=10000` -/
def pageSize : ℕ := 10000

/-- what `client.scroll` returns: the points of a page, and the offset of the next one -/
structure Scrolls (points : List Point) (scroll : ℕ → List Point × Option ℕ) : Prop where
  at_most : ∀ limit, (scroll limit).1.length ≤ limit
  subset : ∀ limit, (scroll limit).1.Sublist points
  last : ∀ limit, (scroll limit).2 = none ↔ points.length ≤ limit
  whole : ∀ limit, (scroll limit).2 = none → (scroll limit).1 = points

/-- `results[0]` -/
def page (scroll : ℕ → List Point × Option ℕ) : List Point := (scroll pageSize).1

/-! ## What the operations are for -/

/-- the entries of the models of a collection, in the order of their first points -/
def models (points : List Point) : List TopModel := (firsts modelOf points).map topModel

/-- a list of `limit` models with the most downloads -/
structure Top (points : List Point) (limit : ℕ) (top : List TopModel) : Prop where
  models : ∀ m ∈ top, m ∈ models points
  distinct : (top.map TopModel.modelId).Nodup
  desc : top.Pairwise fun a b => b.count ≤ a.count
  length : top.length = min limit (Qdrant.models points).length
  best : ∀ m ∈ Qdrant.models points, m ∉ top → ∀ a ∈ top, m.count ≤ a.count

/-- the chunks of a model -/
def chunksOf (points : List Point) (modelId : Str) : List Point :=
  points.filter fun p => p.payload.get? "model_id".toList = some (.str modelId)

/-- header and index of a chunk -/
def headerOf (p : Point) : Value × Value := (p.get "section_header".toList (.str []), p.get "section_index".toList (.int 0))

/-- the tags of a point -/
def storedTags (p : Point) : List Str :=
  match p.payload.get? "tags".toList with
  | some (.list items) => items
  | _ => []

/-- the models that have a point with the tag, in the order of these points -/
def taggedModels (points : List Point) (tag : Str) : List Value :=
  (firsts modelOf (points.filter fun p => (storedTags p).contains tag)).map modelOf

/-- the four operations on a page answer for all points -/
structure ReadsAll (page points : List Point) (limit : ℕ) : Prop where
  top : Top points limit (getTopModels page limit)
  details : ∀ modelId, (getModelDetails page modelId).sections = (chunksOf points modelId).map headerOf
  tagged : ∀ tag, (searchByTag page tag limit).map TagResult.modelId = (taggedModels points tag).take limit
  exported : (exportCollection page).Perm (points.map fun p => (p.id, p.payload))

/-! ## Tags -/

theorem contains_tagsOf (p : Point) (tag : Str) : contains (tagsOf p) tag = (storedTags p).contains tag := by
  unfold tagsOf storedTags Point.get
  cases hval : p.payload.get? "tags".toList with
  | none => rfl
  | some val =>
    rcases p.tagged val hval with rfl | ⟨items, rfl⟩
    · rfl
    · rfl

/-- **The tagged models of the page, up to the limit** -/
theorem searchByTag_taggedModels (page : List Point) (tag : Str) {limit : ℕ} (h : 1 ≤ limit) :
    (searchByTag page tag limit).map TagResult.modelId = (taggedModels page tag).take limit := by
  have htake : page.takeWhile (fun _ => !false) = page := List.takeWhile_eq_self_iff.2 fun _ _ => rfl
  have hgood : (fun p => contains (tagsOf p) tag) = fun p => (storedTags p).contains tag :=
    funext fun p => contains_tagsOf p tag
  rw [searchByTag, gather_eq modelOf _ _ h, htake, hgood, List.map_map, List.map_take]
  rfl

/-- a limit of zero returns the first point, if it has the tag -/
theorem searchByTag_zero (page : List Point) (tag : Str) :
    searchByTag page tag 0 = [] ↔ ∀ p ∈ page.head?, tag ∉ storedTags p := by
  rw [searchByTag, gather_zero, List.map_eq_nil_iff, Option.toList_eq_nil_iff, Option.filter_eq_none_iff]
  refine forall₂_congr fun p _ => ?_
  rw [contains_tagsOf]
  simp

/-! ## Details -/

theorem foldl_addPoint_sections (modelId : Str) (page : List Point) (details : Details) :
    (page.foldl (addPoint modelId) details).sections = details.sections ++ (chunksOf page modelId).map headerOf := by
  induction page generalizing details with
  | nil => simp [chunksOf]
  | cons p page ih =>
    rw [List.foldl_cons, ih, addPoint]
    by_cases hp : p.payload.get? "model_id".toList = some (.str modelId)
    · have hchunks : chunksOf (p :: page) modelId = p :: chunksOf page modelId :=
        List.filter_cons_of_pos (decide_eq_true hp)
      rw [if_pos hp, hchunks, List.map_cons, List.append_assoc]
      rfl
    · have hchunks : chunksOf (p :: page) modelId = chunksOf page modelId :=
        List.filter_cons_of_neg fun h => hp (of_decide_eq_true h)
      rw [if_neg hp, hchunks]

theorem details_sections (page : List Point) (modelId : Str) :
    (getModelDetails page modelId).sections = (chunksOf page modelId).map headerOf := by
  rw [getModelDetails, foldl_addPoint_sections, List.nil_append]

/-! ## Top models -/

theorem values_collect_models (page : List Point) : (collect modelOf topModel page).values = models page :=
  values_collect modelOf topModel page

/-- **The models of the page with the most downloads** -/
theorem getTopModels_top (page : List Point) (limit : ℕ) : Top page limit (getTopModels page limit) := by
  have hperm : (Rank.byDesc TopModel.count (models page)).Perm (models page) := Rank.byDesc_perm _ _
  have hids : (models page).map TopModel.modelId = (firsts modelOf page).map modelOf := by
    rw [models, List.map_map]
    rfl
  rw [getTopModels, values_collect_models]
  exact
    { models := fun m hm => hperm.mem_iff.1 (List.mem_of_mem_take hm)
      distinct := by
        have hnodup : ((Rank.byDesc TopModel.count (models page)).map TopModel.modelId).Nodup := by
          rw [(hperm.map _).nodup_iff, hids]
          exact nodup_firsts modelOf page
        exact hnodup.sublist ((List.take_sublist _ _).map _)
      desc := (Rank.byDesc_pairwise _ _).sublist (List.take_sublist _ _)
      length := by rw [List.length_take, hperm.length_eq]
      best := fun m hm hnot a ha => Rank.byDesc_take_best _ hm hnot ha }

/-! ## The whole collection -/

/-- the page that is read is the whole collection iff the offset that is ignored is None -/
theorem page_eq_iff {points : List Point} {scroll : ℕ → List Point × Option ℕ} (h : Scrolls points scroll) :
    page scroll = points ↔ (scroll pageSize).2 = none := by
  refine ⟨fun heq => ?_, fun hnone => h.whole pageSize hnone⟩
  have hmost := h.at_most pageSize
  rw [h.last pageSize, ← heq]
  exact hmost

/-- the first page, in the order of the ids -/
def firstPage (points : List Point) (limit : ℕ) : List Point × Option ℕ := (points.take limit, points[limit]?.map Point.id)

theorem scrolls_firstPage (points : List Point) : Scrolls points (firstPage points) where
  at_most limit := by simp [firstPage]
  subset limit := List.take_sublist limit points
  last limit := by simp [firstPage]
  whole limit hnone := by
    have hlength : points.length ≤ limit := by simpa [firstPage] using hnone
    exact List.take_of_length_le hlength

/-- the operations on all the points -/
theorem readsAll_self {points : List Point} {limit : ℕ} (h : limit = 0 → ∀ p ∈ points.head?, storedTags p = []) :
    ReadsAll points points limit where
  top := getTopModels_top points limit
  details := details_sections points
  tagged := by
    intro tag
    rcases Nat.eq_zero_or_pos limit with rfl | hpos
    · have hnone : searchByTag points tag 0 = [] := by
        rw [searchByTag_zero]
        intro p hp
        rw [h rfl p hp]
        exact List.not_mem_nil
      rw [hnone, List.take_zero, List.map_nil]
    · exact searchByTag_taggedModels points tag hpos
  exported := List.Perm.refl _

/-- **The engine reads the whole collection iff one page holds it.** -/
theorem reads_all_iff {points : Collection} {scroll : ℕ → List Point × Option ℕ} (h : Scrolls points.points scroll)
    (limit : ℕ) :
    ReadsAll (page scroll) points.points limit ↔
      points.points.length ≤ pageSize ∧ (limit = 0 → ∀ p ∈ points.points.head?, storedTags p = []) := by
  refine ⟨fun hall => ?_, fun ⟨hlength, hzero⟩ => ?_⟩
  · have hlength : points.points.length ≤ pageSize := by
      have heq := hall.exported.length_eq
      rw [exportCollection, List.length_map, List.length_map] at heq
      rw [← heq]
      exact h.at_most pageSize
    refine ⟨hlength, ?_⟩
    rintro rfl p hp
    have hpage : page scroll = points.points := (page_eq_iff h).2 ((h.last pageSize).2 hlength)
    refine List.eq_nil_iff_forall_not_mem.2 fun tag => ?_
    have hnone : searchByTag (page scroll) tag 0 = [] := by
      have htagged := hall.tagged tag
      rwa [List.take_zero, List.map_eq_nil_iff] at htagged
    rw [searchByTag_zero, hpage] at hnone
    exact hnone p hp
  · have hpage : page scroll = points.points := (page_eq_iff h).2 ((h.last pageSize).2 hlength)
    rw [hpage]
    exact readsAll_self hzero

/-- a point with nothing but a model -/
def chunk (modelId : Str) (id : ℕ) : Point where
  id := id
  payload := Dict.empty.set "model_id".toList (.str modelId)
  counted := by
    intro val hval
    rw [Dict.get?_set, if_neg (by decide)] at hval
    cases hval
  tagged := by
    intro val hval
    rw [Dict.get?_set, if_neg (by decide)] at hval
    cases hval

theorem chunk_model (modelId : Str) (id : ℕ) : (chunk modelId id).payload.get? "model_id".toList = some (.str modelId) := by
  rw [chunk, Dict.get?_set, if_pos rfl]

/-- 10000 chunks of a/x, and then one of b/y -/
def manyPoints : Collection where
  points := (List.range 10001).map fun i => chunk (if i < 10000 then "a/x".toList else "b/y".toList) i
  sorted := by
    rw [List.pairwise_map]
    exact List.pairwise_lt_range

theorem reads_all_iff_manyPoints :
    Scrolls manyPoints.points (firstPage manyPoints.points) ∧
      (ReadsAll (page (firstPage manyPoints.points)) manyPoints.points 20 ↔
        manyPoints.points.length ≤ pageSize ∧ (20 = 0 → ∀ p ∈ manyPoints.points.head?, storedTags p = [])) :=
  ⟨scrolls_firstPage _, reads_all_iff (scrolls_firstPage _) 20⟩

/-- **The last point is not seen**: its model is a stranger to `get_model_details`, and is not exported. -/
theorem points_lost :
    Scrolls manyPoints.points (firstPage manyPoints.points) ∧
      (getModelDetails (page (firstPage manyPoints.points)) "b/y".toList).sections ≠
        (chunksOf manyPoints.points "b/y".toList).map headerOf ∧
      (exportCollection (page (firstPage manyPoints.points))).length = 10000 ∧
      ¬ReadsAll (page (firstPage manyPoints.points)) manyPoints.points 20 := by
  have hlength : (exportCollection (page (firstPage manyPoints.points))).length = 10000 := by
    simp [exportCollection, page, firstPage, manyPoints, pageSize]
  refine ⟨scrolls_firstPage _, ?_, hlength, fun hall => ?_⟩
  · -- the page ends before the only chunk of b/y
    have hnone : chunksOf (page (firstPage manyPoints.points)) "b/y".toList = [] := by
      rw [chunksOf, List.filter_eq_nil_iff]
      intro p hp
      have hpage : page (firstPage manyPoints.points) =
          (List.range 10000).map fun i => chunk (if i < 10000 then "a/x".toList else "b/y".toList) i := by
        simp [page, firstPage, manyPoints, pageSize, ← List.map_take, List.take_range]
      rw [hpage] at hp
      obtain ⟨i, hi, rfl⟩ := List.mem_map.1 hp
      rw [if_pos (List.mem_range.1 hi), chunk_model]
      decide
    have hlast : chunk "b/y".toList 10000 ∈ manyPoints.points := by
      simp only [manyPoints, List.mem_map, List.mem_range]
      exact ⟨10000, by omega, by rw [if_neg (lt_irrefl 10000)]⟩
    have hchunk : chunk "b/y".toList 10000 ∈ chunksOf manyPoints.points "b/y".toList := by
      rw [chunksOf, List.mem_filter, chunk_model]
      exact ⟨hlast, decide_eq_true rfl⟩
    rw [details_sections, hnone]
    exact fun h => List.ne_nil_of_mem hchunk (List.map_eq_nil_iff.1 h.symm)
  · have heq := hall.exported.length_eq
    rw [hlength] at heq
    simp [manyPoints] at heq

end AgentPick.Qdrant
