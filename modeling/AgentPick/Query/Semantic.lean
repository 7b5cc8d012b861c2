/-
Semantic search of the two query engines (`hf_vectorizer/query.py`, `search_semantic`).

Both engines fetch the 3 * limit best chunks, and only then drop the second and later chunks of a model.

The scores of the chunks are given, as elements of a linear order (no score is NaN). `round` to four digits, which touches the
reported score only, is a parameter. ASSUMED OF THE CLIENT (`Searches`): `client.search` returns the best points, best first.

Results:
- `topIndices_eq`, `parquet_search_eq`, `qdrant_search_eq`: both engines run the same search.
- `best_models_iff`: they return the best models iff enough models stand among the 3 * limit best chunks.
- `models_omitted`: six chunks of one model hide another.
-/
import Mathlib.Tactic
import AgentPick.Core.Overfetch
import AgentPick.Query.Qdrant

namespace AgentPick.Semantic

open AgentPick.Query AgentPick.Qdrant AgentPick.Gather AgentPick.Overfetch

section Engines

variable {β : Type} [LinearOrder β] (round : β → β)

/-- a result of `search_semantic` -/
structure SearchResult (β : Type) where
  score : β
  modelId : Value
  header : Value
  downloads : Value
  likes : Value
  tags : Value

/-! ## Parquet -/

/-- a row with its similarity to the query -/
structure ScoredRow (β : Type) where
  similarity : β
  row : Cells

/-- `np.argsort(similarities)[::-1][:limit * 3]` -/
def topIndices (table : List (ScoredRow β)) (limit : ℕ) : List (ScoredRow β) :=
  (table.insertionSort fun a b => a.similarity ≤ b.similarity).reverse.take (limit * 3)

section Parquet

variable (intOf : Str → Option ℤ) (strOf : Value → Str)

def ScoredRow.model (c : ScoredRow β) : Value := Query.modelOf intOf strOf c.row

def rowResult (c : ScoredRow β) : SearchResult β where
  score := round c.similarity
  modelId := c.model intOf strOf
  header := safeGet intOf strOf c.row "section_header".toList (.str []) (some .str)
  downloads := safeGet intOf strOf c.row "downloads".toList (.int 0) (some .int)
  likes := safeGet intOf strOf c.row "likes".toList (.int 0) (some .int)
  tags := Query.tagsOf intOf strOf c.row

/-- `ParquetQueryEngine.search_semantic` -/
def parquetSearch (table : List (ScoredRow β)) (limit : ℕ) (threshold : β) : List (SearchResult β) :=
  (gather (ScoredRow.model intOf strOf) (fun c => decide (c.similarity < threshold)) (fun _ => true) limit
    (topIndices table limit)).map (rowResult round intOf strOf)

end Parquet

/-! ## Qdrant -/

structure ScoredPoint (β : Type) where
  score : β
  point : Point

def ScoredPoint.model (c : ScoredPoint β) : Value := Qdrant.modelOf c.point

def pointResult (c : ScoredPoint β) : SearchResult β where
  score := round c.score
  modelId := c.model
  header := c.point.get "section_header".toList (.str [])
  downloads := c.point.get "downloads".toList (.int 0)
  likes := c.point.get "likes".toList (.int 0)
  tags := Qdrant.tagsOf c.point

/-- what `client.search` returns for a limit -/
def Searches (points : List (ScoredPoint β)) (search : ℕ → List (ScoredPoint β)) : Prop :=
  ∀ n, search n = (Rank.byDesc ScoredPoint.score points).take n

/-- `QdrantQueryEngine.search_semantic` -/
def qdrantSearch (search : ℕ → List (ScoredPoint β)) (limit : ℕ) (threshold : β) : List (SearchResult β) :=
  (gather ScoredPoint.model (fun c => decide (c.score < threshold)) (fun _ => true) limit (search (limit * 3))).map
    (pointResult round)

/-! ## The best models -/

/-- the results are the first models, up to the limit, of those that reach the threshold, by their best chunk -/
def BestModels {α : Type} (model : α → Value) (score : α → β) (chunks : List α) (limit : ℕ) (threshold : β)
    (results : List (SearchResult β)) : Prop :=
  ∃ models, Ranked model score threshold chunks models ∧ results.map SearchResult.modelId = models.take limit

/-- the chunks that reach the threshold and have fewer than 3 * limit chunks above belong to as many models as could be asked for -/
def Enough {α : Type} (model : α → Value) (score : α → β) (chunks : List α) (limit : ℕ) (threshold : β) : Prop :=
  min limit (keyCount model (reaching score threshold chunks)) ≤ keyCount model (within score (limit * 3) threshold chunks)

/-- the ascending order, read backwards -/
theorem topIndices_eq {table : List (ScoredRow β)} (h : (table.map ScoredRow.similarity).Nodup) (limit : ℕ) :
    topIndices table limit = (Rank.byDesc ScoredRow.similarity table).take (limit * 3) := by
  have hperm : (table.insertionSort fun a b => a.similarity ≤ b.similarity).Perm table := List.perm_insertionSort _ _
  have hsorted : (table.insertionSort fun a b => a.similarity ≤ b.similarity).Pairwise
      fun a b => a.similarity ≤ b.similarity := by
    have : Std.Total fun a b : ScoredRow β => a.similarity ≤ b.similarity := ⟨fun a b => le_total a.similarity b.similarity⟩
    have : IsTrans (ScoredRow β) fun a b => a.similarity ≤ b.similarity := ⟨fun _ _ _ h h' => h.trans h'⟩
    exact List.pairwise_insertionSort _ _
  rw [topIndices]
  congr 1
  refine List.Perm.eq_of_pairwise ?_ (List.pairwise_reverse.2 hsorted) (Rank.byDesc_pairwise ScoredRow.similarity table)
    ((List.reverse_perm _).trans (hperm.trans (Rank.byDesc_perm _ _).symm))
  intro a b ha hb hab hba
  have ha' : a ∈ table := hperm.mem_iff.1 (List.mem_reverse.1 ha)
  have hb' : b ∈ table := (Rank.byDesc_perm _ _).mem_iff.1 hb
  exact List.inj_on_of_nodup_map h ha' hb' (le_antisymm hba hab)

theorem parquet_search_eq (intOf : Str → Option ℤ) (strOf : Value → Str) {table : List (ScoredRow β)}
    (h : (table.map ScoredRow.similarity).Nodup) (limit : ℕ) (threshold : β) :
    (parquetSearch round intOf strOf table limit threshold).map SearchResult.modelId =
      (search (ScoredRow.model intOf strOf) ScoredRow.similarity (limit * 3) limit threshold table).map
        (ScoredRow.model intOf strOf) := by
  rw [parquetSearch, topIndices_eq h, List.map_map]
  rfl

theorem qdrant_search_eq {points : List (ScoredPoint β)} {fetch : ℕ → List (ScoredPoint β)} (h : Searches points fetch)
    (limit : ℕ) (threshold : β) :
    (qdrantSearch round fetch limit threshold).map SearchResult.modelId =
      (search ScoredPoint.model ScoredPoint.score (limit * 3) limit threshold points).map ScoredPoint.model := by
  rw [qdrantSearch, h, List.map_map]
  rfl

/-- **Both engines return the best models iff the 3 * limit best chunks belong to enough of them.** -/
theorem best_models_iff (intOf : Str → Option ℤ) (strOf : Value → Str) {table : List (ScoredRow β)}
    (htable : (table.map ScoredRow.similarity).Nodup) {points : List (ScoredPoint β)}
    (hpoints : (points.map ScoredPoint.score).Nodup) {fetch : ℕ → List (ScoredPoint β)} (hfetch : Searches points fetch)
    {limit : ℕ} (hlimit : 1 ≤ limit) (threshold : β) :
    (BestModels (ScoredRow.model intOf strOf) ScoredRow.similarity table limit threshold
          (parquetSearch round intOf strOf table limit threshold) ↔
        Enough (ScoredRow.model intOf strOf) ScoredRow.similarity table limit threshold) ∧
      (BestModels ScoredPoint.model ScoredPoint.score points limit threshold (qdrantSearch round fetch limit threshold) ↔
        Enough ScoredPoint.model ScoredPoint.score points limit threshold) := by
  unfold BestModels Enough
  rw [parquet_search_eq round intOf strOf htable, qdrant_search_eq round hfetch]
  exact ⟨search_eq_iff htable threshold (limit * 3) hlimit, search_eq_iff hpoints threshold (limit * 3) hlimit⟩

end Engines

/-- six chunks of a/x, and one of b/y below them -/
def crowdedRows : List (ScoredRow ℤ) :=
  [12, 11, 10, 9, 8, 7].map (fun score => ⟨score, Dict.empty.set "model_id".toList (.str "a/x".toList)⟩) ++
    [⟨6, Dict.empty.set "model_id".toList (.str "b/y".toList)⟩]

def crowdedPoints : List (ScoredPoint ℤ) :=
  [12, 11, 10, 9, 8, 7].map (fun score => ⟨score, chunk "a/x".toList score.toNat⟩) ++ [⟨6, chunk "b/y".toList 6⟩]

def fetchCrowded (n : ℕ) : List (ScoredPoint ℤ) := (Rank.byDesc ScoredPoint.score crowdedPoints).take n

theorem best_models_iff_crowded :
    (BestModels (ScoredRow.model (fun _ => none) fun _ => []) ScoredRow.similarity crowdedRows 1 0
          (parquetSearch id (fun _ => none) (fun _ => []) crowdedRows 1 0) ↔
        Enough (ScoredRow.model (fun _ => none) fun _ => []) ScoredRow.similarity crowdedRows 1 0) ∧
      (BestModels ScoredPoint.model ScoredPoint.score crowdedPoints 1 0 (qdrantSearch id fetchCrowded 1 0) ↔
        Enough ScoredPoint.model ScoredPoint.score crowdedPoints 1 0) :=
  best_models_iff id (fun _ => none) (fun _ => []) (by decide) (by decide) (fun _ => rfl) (Nat.le_refl 1) 0

/-- **A qualifying model is omitted** while one result fewer than asked for is returned. -/
theorem models_omitted :
    (crowdedRows.map ScoredRow.similarity).Nodup ∧ (crowdedPoints.map ScoredPoint.score).Nodup ∧
      Searches crowdedPoints fetchCrowded ∧
      (parquetSearch id (fun _ => none) (fun _ => []) crowdedRows 2 0).map SearchResult.modelId = [.str "a/x".toList] ∧
      (qdrantSearch id fetchCrowded 2 0).map SearchResult.modelId = [.str "a/x".toList] ∧
      ¬BestModels (ScoredRow.model (fun _ => none) fun _ => []) ScoredRow.similarity crowdedRows 2 0
        (parquetSearch id (fun _ => none) (fun _ => []) crowdedRows 2 0) ∧
      ¬BestModels ScoredPoint.model ScoredPoint.score crowdedPoints 2 0 (qdrantSearch id fetchCrowded 2 0) := by
  have hrows : (crowdedRows.map ScoredRow.similarity).Nodup := by decide
  have hpoints : (crowdedPoints.map ScoredPoint.score).Nodup := by decide
  have hfetch : Searches crowdedPoints fetchCrowded := fun _ => rfl
  refine ⟨hrows, hpoints, hfetch, by decide +kernel, by decide +kernel, fun h => ?_, fun h => ?_⟩
  · unfold BestModels at h
    rw [parquet_search_eq id _ _ hrows] at h
    exact absurd ((search_eq_iff hrows 0 (2 * 3) (by decide)).1 h) (by decide +kernel)
  · unfold BestModels at h
    rw [qdrant_search_eq id hfetch] at h
    exact absurd ((search_eq_iff hpoints 0 (2 * 3) (by decide)).1 h) (by decide +kernel)

end AgentPick.Semantic
