/-
Semantic search (`backend/src/catalog.py`, `semantic_search`), from the scored points on.

`agg` aggregates the points by model, `ranked` sorts the models by their best chunk, and `families` keeps one
representative per family key. Scores are a linear order: they are floats that are not NaN. The sum and the count of the
scores are left out, nothing reads them.

`Refines` says what a search is for, in terms of the points and the table alone: who represents a family, in which order
the families come, how many there are.

Results:
- `get?_agg`, `best_aggregate`, `excerpt_aggregate`: the aggregate of a model is its best score and the text of a chunk
  that has it.
- `mem_ranked`, `ranked_pairwise`: every model once, by descending score, then by first mention.
- `represents`, `found_desc`: the second fold picks the representatives and keeps the rank of the families.
- `search_refines`, `semantic_search_ok`: the search meets its specification, and the order of the points does not matter
  when the scores are distinct.
-/
import Mathlib.Tactic
import AgentPick.Core.Rank
import AgentPick.Catalog.Ids

namespace AgentPick.Catalog

open AgentPick.Text

variable {S : Type} [LinearOrder S]

/-- a point of the vector store: its score and the payload keys that are read -/
structure Point (S : Type) where
  score : S
  modelId : Option Str
  text : Option Str
deriving DecidableEq, Repr

/-- the value `agg` keeps for a model; `⊥` is `float("-inf")` -/
@[ext]
structure Agg (S : Type) where
  best : WithBot S
  excerpt : Str

/-! ## The search -/

/-- the model of a point that is not skipped -/
def hitModel (p : Point S) : Option Str := p.modelId.filter fun mid => mid ≠ [] && !isTestArtifact mid

/-- the points that are not skipped, with their models -/
def hits (points : List (Point S)) : List (Str × Point S) :=
  points.filterMap fun p => (hitModel p).map fun mid => (mid, p)

/-- `(payload.get("text") or "").strip()` -/
def chunkText (p : Point S) : Str := strip (p.text.getD [])

/-- one point of a model -/
def addChunk (a : Agg S) (p : Point S) : Agg S :=
  if a.best ≤ p.score then
    { best := p.score, excerpt := if chunkText p ≠ [] then (chunkText p).take cardExcerptChars else a.excerpt }
  else a

/-- the loop over the points -/
def agg (points : List (Point S)) : Dict Str (Agg S) :=
  Dict.group Prod.fst (fun a h => addChunk (a.getD ⟨⊥, []⟩) h.2) (hits points)

/-- `sorted(agg.items(), key=best_score, reverse=True)` -/
def ranked (points : List (Point S)) : List (Str × Agg S) := Rank.byDesc (fun e => e.2.best) (agg points).entries

/-- `_preference`: the tuple compares its first component first -/
def preference (u : Unicode) (info : Dict Str Item) (mid : Str) : Bool ×ₗ ℤ :=
  toLex (isQuantizedReupload u mid, -((info.get? mid).bind (·.downloads)).getD 0)

/-- the loop over the ranked models -/
def families (u : Unicode) (info : Dict Str Item) (rs : List (Str × Agg S)) : Dict Str (Str × Agg S) :=
  Rank.champions (fun e => familyKey u e.1) (fun e => preference u info e.1) rs

/-- `{"model_id": mid}`, for a model without metadata -/
def bare (mid : Str) : Item where
  modelId := some mid

/-- one result -/
def entry (info : Dict Str Item) (e : Str × Agg S) : Item :=
  let item := (info.get? e.1).getD (bare e.1)
  let excerpt := if e.2.excerpt ≠ [] then some e.2.excerpt else item.cardExcerpt
  if (nonEmpty excerpt).isSome then { item with cardExcerpt := excerpt } else item

/-- `l[:n]` -/
def sliceTo {α : Type} (l : List α) (n : ℤ) : List α :=
  if 0 ≤ n then l.take n.toNat else l.take (l.length - n.natAbs)

/-- `meta`: a failed query leaves it empty -/
def metadata (u : Unicode) (db : Option Models) (rs : List (Str × Agg S)) : Dict Str Item :=
  (metaForIds u db (rs.map Prod.fst)).getD Dict.empty

/-- `semantic_search`; the points are what the vector store answers, `db` is `none` when PostgreSQL fails -/
def semanticSearch (u : Unicode) (db : Option Models) (points : List (Point S)) (limit : ℤ) : List Item :=
  let rs := ranked points
  let info := metadata u db rs
  (sliceTo (families u info rs).values limit).map (entry info)

/-! ## What a search is for -/

/-- the ids that name a model and are no test artifacts, in the order of their points -/
def models (points : List (Point S)) : List Str :=
  (points.filterMap Point.modelId).filter fun mid => mid ≠ [] ∧ isTestArtifact mid = false

/-- the points of such models that satisfy P -/
def chunks (points : List (Point S)) (P : Str → Prop) [DecidablePred P] : List (Point S) :=
  points.filter fun p => ∃ mid ∈ p.modelId, (mid ≠ [] ∧ isTestArtifact mid = false) ∧ P mid

/-- the best score among points -/
def bestScore (ps : List (Point S)) : WithBot S := (ps.map Point.score).maximum

/-- the best chunk of a model -/
def modelBest (points : List (Point S)) (mid : Str) : WithBot S := bestScore (chunks points (· = mid))

/-- the best chunk of a family -/
def familyBest (u : Unicode) (points : List (Point S)) (key : Str) : WithBot S :=
  bestScore (chunks points fun mid => familyKey u mid = key)

/-- the downloads in the table, 0 when they are unknown -/
def downloads (db : Option Models) (mid : Str) : ℤ := ((db.bind (·.get? mid)).bind (·.downloads)).getD 0

/-- originals before re-uploads, then more downloads -/
def cost (u : Unicode) (db : Option Models) (mid : Str) : Bool ×ₗ ℤ :=
  toLex (isQuantizedReupload u mid, -downloads db mid)

/-- a is ahead of b: by the best chunk, then by the first mention -/
def Before (points : List (Point S)) (a b : Str) : Prop :=
  modelBest points b < modelBest points a ∨ modelBest points a = modelBest points b ∧
    (models points).idxOf a < (models points).idxOf b

/-- a is a better representative than b: by the cost, then by the ranking -/
def Better (u : Unicode) (db : Option Models) (points : List (Point S)) (a b : Str) : Prop :=
  cost u db a < cost u db b ∨ cost u db a = cost u db b ∧ Before points a b

/-- every point has a text that is not blank -/
def NonBlank (ps : List (Point S)) : Prop := ∀ p ∈ ps, chunkText p ≠ []

/-- the specification: `reps` are the models the results are about -/
structure Refines (u : Unicode) (db : Option Models) (points : List (Point S)) (limit : ℕ) (reps : List Str)
    (results : List Item) : Prop where
  ids : results.map Item.modelId = reps.map some
  /-- exactly min(limit, number of families) results -/
  count : results.length = min limit ((models points).map (familyKey u)).toFinset.card
  /-- one per family -/
  distinct : (reps.map (familyKey u)).Nodup
  /-- models of the points, never a test artifact -/
  sound : ∀ mid ∈ reps, mid ∈ models points ∧ isTestArtifact mid = false
  /-- the families come by descending best chunk over all their members -/
  desc : reps.Pairwise fun a b => familyBest u points (familyKey u b) ≤ familyBest u points (familyKey u a)
  /-- a family that is left out is no better than one that is not -/
  top : ∀ mid ∈ models points, familyKey u mid ∉ reps.map (familyKey u) →
    ∀ a ∈ reps, familyBest u points (familyKey u mid) ≤ familyBest u points (familyKey u a)
  /-- a representative is better than the other members of its family -/
  best : ∀ a ∈ reps, ∀ b ∈ models points, familyKey u b = familyKey u a → b ≠ a → Better u db points a b
  /-- the excerpt is that of a best chunk of the representative itself -/
  excerpt : NonBlank points → ∀ item ∈ results, ∀ mid, item.modelId = some mid →
    ∃ p ∈ chunks points (· = mid), p.score = modelBest points mid ∧
      item.cardExcerpt = some ((chunkText p).take 400)

/-! ## Aggregating the points of a model -/

/-- the loop over the points of one model -/
def aggregate (ps : List (Point S)) : Agg S := ps.foldl addChunk ⟨⊥, []⟩

/-- a fold that starts without a value -/
theorem foldl_some {α β : Type} (f : β → α → β) (b : β) (xs : List α) :
    xs.foldl (fun o x => some (f (o.getD b) x)) none = if xs = [] then none else some (xs.foldl f b) := by
  have key : ∀ (a : β), xs.foldl (fun o x => some (f (o.getD b) x)) (some a) = some (xs.foldl f a) := by
    induction xs with
    | nil => intro a; rfl
    | cons x xs ih => intro a; exact ih (f a x)
  cases xs with
  | nil => rfl
  | cons x xs => exact key b

omit [LinearOrder S] in
theorem mem_hits {points : List (Point S)} {h : Str × Point S} :
    h ∈ hits points ↔ h.2 ∈ points ∧ hitModel h.2 = some h.1 := by
  obtain ⟨mid, p⟩ := h
  simp only [hits, List.mem_filterMap, Option.map_eq_some_iff, Prod.mk.injEq]
  refine ⟨?_, ?_⟩
  · rintro ⟨q, hq, m, hm, rfl, rfl⟩
    exact ⟨hq, hm⟩
  · rintro ⟨hp, hm⟩
    exact ⟨p, hp, mid, hm, rfl, rfl⟩

omit [LinearOrder S] in
theorem mem_models {points : List (Point S)} {mid : Str} : mid ∈ models points ↔ ∃ p, (mid, p) ∈ hits points := by
  simp only [models, mem_hits, hitModel, List.mem_filter, List.mem_filterMap, Option.filter_eq_some_iff, decide_eq_true_eq]
  refine ⟨?_, ?_⟩
  · rintro ⟨⟨p, hp, hmid⟩, hne, hno⟩
    exact ⟨p, hp, hmid, by simp [hne, hno]⟩
  · rintro ⟨p, hp, hmid, h⟩
    exact ⟨⟨p, hp, hmid⟩, by simpa using h⟩

omit [LinearOrder S] in
theorem hitModel_of_some {p : Point S} {mid : Str} (h : p.modelId = some mid) :
    hitModel p = if mid ≠ [] ∧ isTestArtifact mid = false then some mid else none := by
  rw [hitModel, h, Option.filter_some]
  simp

omit [LinearOrder S] in
/-- the models are those of the points that are not skipped -/
theorem models_eq (points : List (Point S)) : models points = (hits points).map Prod.fst := by
  induction points with
  | nil => rfl
  | cons p ps ih =>
    rw [models, hits] at ih ⊢
    cases hmid : p.modelId with
    | none => simpa [hitModel, hmid] using ih
    | some mid =>
      by_cases hkept : mid ≠ [] ∧ isTestArtifact mid = false
      · simpa [hitModel_of_some hmid, hmid, hkept] using ih
      · simpa [hitModel_of_some hmid, hmid, hkept] using ih

omit [LinearOrder S] in
/-- and the chunks are these points -/
theorem chunks_eq (points : List (Point S)) (P : Str → Prop) [DecidablePred P] :
    chunks points P = ((hits points).filter fun h => P h.1).map Prod.snd := by
  induction points with
  | nil => rfl
  | cons p ps ih =>
    rw [chunks, hits] at ih ⊢
    cases hmid : p.modelId with
    | none => simpa [hitModel, hmid] using ih
    | some mid =>
      by_cases hkept : mid ≠ [] ∧ isTestArtifact mid = false
      · by_cases hP : P mid
        · simpa [hitModel_of_some hmid, hmid, hkept, hP] using ih
        · simpa [hitModel_of_some hmid, hmid, hkept, hP] using ih
      · simpa [hitModel_of_some hmid, hmid, hkept] using ih

omit [LinearOrder S] in
theorem mem_chunks {points : List (Point S)} {P : Str → Prop} [DecidablePred P] {p : Point S} :
    p ∈ chunks points P ↔ ∃ mid, (mid, p) ∈ hits points ∧ P mid := by
  simp [chunks_eq]

omit [LinearOrder S] in
theorem chunks_sublist (points : List (Point S)) (P : Str → Prop) [DecidablePred P] :
    (chunks points P).Sublist points := List.filter_sublist

theorem aggregate_concat (ps : List (Point S)) (p : Point S) : aggregate (ps ++ [p]) = addChunk (aggregate ps) p := by
  rw [aggregate, List.foldl_append]
  rfl

theorem bestScore_concat (ps : List (Point S)) (p : Point S) : bestScore (ps ++ [p]) = max (bestScore ps) p.score := by
  rw [bestScore, List.map_append, List.map_singleton, List.maximum_concat]
  rfl

theorem le_bestScore {ps : List (Point S)} {p : Point S} (hp : p ∈ ps) : (p.score : WithBot S) ≤ bestScore ps :=
  List.le_maximum_of_mem' (List.mem_map_of_mem hp)

theorem bestScore_le {ps : List (Point S)} {b : WithBot S} (h : ∀ p ∈ ps, (p.score : WithBot S) ≤ b) :
    bestScore ps ≤ b := by
  apply List.maximum_le_of_forall_le
  intro s hs
  obtain ⟨p, hp, rfl⟩ := List.mem_map.1 hs
  exact h p hp

/-- a model's value is the aggregate of its own points -/
theorem get?_agg (points : List (Point S)) (mid : Str) :
    (agg points).get? mid =
      if chunks points (· = mid) = [] then none else some (aggregate (chunks points (· = mid))) := by
  rw [agg, Dict.get?_group, aggregate, ← foldl_some, chunks_eq, List.foldl_map]

theorem best_aggregate (ps : List (Point S)) : (aggregate ps).best = bestScore ps := by
  induction ps using List.reverseRecOn with
  | nil => rfl
  | append_singleton ps p ih =>
    rw [aggregate_concat, bestScore_concat, ← ih, addChunk]
    by_cases h : (aggregate ps).best ≤ p.score
    · rw [if_pos h, max_eq_right h]
    · rw [if_neg h, max_eq_left (not_le.1 h).le]

/-- the excerpt comes from a chunk with the best score -/
theorem excerpt_aggregate {ps : List (Point S)} (hne : ps ≠ []) (h : NonBlank ps) :
    ∃ p ∈ ps, p.score = bestScore ps ∧ (aggregate ps).excerpt = (chunkText p).take cardExcerptChars := by
  induction ps using List.reverseRecOn with
  | nil => exact absurd rfl hne
  | append_singleton ps p ih =>
    have hp : chunkText p ≠ [] := h p (by simp)
    rw [aggregate_concat, bestScore_concat, addChunk, best_aggregate, if_pos hp]
    by_cases hle : bestScore ps ≤ p.score
    · exact ⟨p, by simp, (max_eq_right hle).symm, by rw [if_pos hle]⟩
    · have hps : ps ≠ [] := by
        rintro rfl
        exact hle bot_le
      obtain ⟨q, hq, hs, he⟩ := ih hps fun q hq => h q (List.mem_append_left _ hq)
      exact ⟨q, List.mem_append_left _ hq, by rw [hs, max_eq_left (not_le.1 hle).le], by rw [if_neg hle, he]⟩

/-! ## The ranking -/

omit [LinearOrder S] in
theorem chunks_eq_nil {points : List (Point S)} {mid : Str} : chunks points (· = mid) = [] ↔ mid ∉ models points := by
  rw [List.eq_nil_iff_forall_not_mem]
  refine ⟨?_, ?_⟩
  · intro h hm
    obtain ⟨p, hp⟩ := mem_models.1 hm
    exact h p (mem_chunks.2 ⟨mid, hp, rfl⟩)
  · intro h p hp
    obtain ⟨m, hm, rfl⟩ := mem_chunks.1 hp
    exact h (mem_models.2 ⟨p, hm⟩)

/-- the ranked entries are the models of the points, with their aggregates -/
theorem mem_ranked {points : List (Point S)} {e : Str × Agg S} :
    e ∈ ranked points ↔ e.1 ∈ models points ∧ e.2 = aggregate (chunks points (· = e.1)) := by
  obtain ⟨mid, a⟩ := e
  rw [ranked, (Rank.byDesc_perm _ _).mem_iff, ← Dict.get?_eq_some, get?_agg]
  split_ifs with h
  · simp [chunks_eq_nil.1 h]
  · have hm : mid ∈ models points := not_not.1 (mt chunks_eq_nil.2 h)
    exact ⟨fun e => ⟨hm, (Option.some.inj e).symm⟩, fun e => congrArg some e.2.symm⟩

theorem best_of_mem_ranked {points : List (Point S)} {e : Str × Agg S} (he : e ∈ ranked points) :
    e.2.best = modelBest points e.1 := by
  rw [(mem_ranked.1 he).2, best_aggregate]
  rfl

/-- the excerpt of a ranked model is the text of a best chunk of its own -/
theorem best_chunk {points : List (Point S)} (hblank : NonBlank points) {e : Str × Agg S} (he : e ∈ ranked points) :
    ∃ p ∈ chunks points (· = e.1), p.score = modelBest points e.1 ∧
      e.2.excerpt = (chunkText p).take cardExcerptChars := by
  obtain ⟨hm, hagg⟩ := mem_ranked.1 he
  have hne : chunks points (· = e.1) ≠ [] := fun h => chunks_eq_nil.1 h hm
  have hnb : NonBlank (chunks points (· = e.1)) := fun p hp => hblank p ((chunks_sublist points _).subset hp)
  rw [hagg]
  exact excerpt_aggregate hne hnb

theorem ranked_pairwise (points : List (Point S)) : (ranked points).Pairwise fun a b => Before points a.1 b.1 := by
  have hfirst : (agg points).entries.Pairwise
      fun a b => (models points).idxOf a.1 < (models points).idxOf b.1 := by
    have h : (agg points).keys.Pairwise fun a b => (models points).idxOf a < (models points).idxOf b := by
      rw [models_eq]
      exact Dict.keys_group_idxOf Prod.fst _ (hits points)
    rwa [Dict.keys, List.pairwise_map] at h
  refine (Rank.byDesc_stable _ hfirst).imp_of_mem fun {a b} ha hb h => ?_
  rw [best_of_mem_ranked ha, best_of_mem_ranked hb] at h
  exact h

theorem exists_ranked {points : List (Point S)} {mid : Str} (h : mid ∈ models points) :
    ∃ e ∈ ranked points, e.1 = mid :=
  ⟨(mid, aggregate (chunks points (· = mid))), mem_ranked.2 ⟨h, rfl⟩, rfl⟩

omit [LinearOrder S] in
/-- a model of the points has a name and is no test artifact -/
theorem of_mem_models {points : List (Point S)} {mid : Str} (h : mid ∈ models points) :
    mid ≠ [] ∧ isTestArtifact mid = false := by
  exact of_decide_eq_true (List.mem_filter.1 h).2

/-! ## The representatives -/

section Families

variable (u : Unicode) (db : Option Models) (points : List (Point S))

/-- the metadata of a ranked model is that of its row -/
theorem get?_metadata {mid : Str} (h : mid ∈ models points) :
    (metadata u db (ranked points)).get? mid =
      (db.bind (·.get? mid)).map fun row => shape u mid row (some (cardExcerpt row)) := by
  obtain ⟨e, he, rfl⟩ := exists_ranked h
  exact get?_metaForIds u db (List.mem_map_of_mem he) (of_mem_models h).1

theorem preference_eq {mid : Str} (h : mid ∈ models points) :
    preference u (metadata u db (ranked points)) mid = cost u db mid := by
  rw [preference, cost, downloads, get?_metadata u db points h]
  cases db.bind (·.get? mid) with
  | none => rfl
  | some row => rfl

/-- the families of a search -/
def found : Dict Str (Str × Agg S) := families u (metadata u db (ranked points)) (ranked points)

theorem mem_keys_found (key : Str) :
    key ∈ (found u db points).keys ↔ ∃ mid ∈ models points, familyKey u mid = key := by
  rw [found, families, Rank.mem_keys_champions]
  refine ⟨?_, ?_⟩
  · rintro ⟨e, he, hk⟩
    exact ⟨e.1, (mem_ranked.1 he).1, hk⟩
  · rintro ⟨mid, hm, hk⟩
    obtain ⟨e, he, rfl⟩ := exists_ranked hm
    exact ⟨e, he, hk⟩

/-- a family is represented by its best member -/
theorem represents {key : Str} {e : Str × Agg S} (h : (key, e) ∈ (found u db points).entries) :
    e ∈ ranked points ∧ familyKey u e.1 = key ∧
      ∀ b ∈ models points, familyKey u b = key → b ≠ e.1 → Better u db points e.1 b := by
  obtain ⟨he, hk, hbest⟩ := Rank.champion_spec _ _ (ranked_pairwise points) (Dict.get?_eq_some.2 h)
  refine ⟨he, hk, fun b hb hbk hne => ?_⟩
  obtain ⟨y, hy, rfl⟩ := exists_ranked hb
  have hye : y ≠ e := fun heq => hne (congrArg Prod.fst heq)
  have hpref := hbest y hy hbk hye
  rw [preference_eq u db points (mem_ranked.1 he).1, preference_eq u db points hb] at hpref
  exact hpref

omit db in
theorem modelBest_le_familyBest (mid : Str) : modelBest points mid ≤ familyBest u points (familyKey u mid) := by
  refine bestScore_le fun p hp => le_bestScore ?_
  obtain ⟨m, hm, rfl⟩ := mem_chunks.1 hp
  exact mem_chunks.2 ⟨m, hm, rfl⟩

/-- the families keep the rank of their best members, whoever represents them -/
theorem found_desc :
    (found u db points).keys.Pairwise fun k k' => familyBest u points k' ≤ familyBest u points k := by
  refine (Rank.champions_pairwise _ _ (ranked_pairwise points)).imp fun {k k'} h => ?_
  apply bestScore_le
  intro p hp
  obtain ⟨mid, hm, rfl⟩ := mem_chunks.1 hp
  obtain ⟨e', he', rfl⟩ := exists_ranked (mem_models.2 ⟨p, hm⟩)
  obtain ⟨e, he, rfl, hbefore⟩ := h e' he' rfl
  have hle : modelBest points e'.1 ≤ modelBest points e.1 := hbefore.elim le_of_lt fun h => h.1.ge
  calc (p.score : WithBot S) ≤ modelBest points e'.1 := le_bestScore (mem_chunks.2 ⟨e'.1, hm, rfl⟩)
    _ ≤ modelBest points e.1 := hle
    _ ≤ familyBest u points (familyKey u e.1) := modelBest_le_familyBest u points e.1

theorem map_familyKey_values : (found u db points).values.map (fun e => familyKey u e.1) = (found u db points).keys := by
  rw [Dict.values, Dict.keys, List.map_map]
  exact List.map_congr_left fun x hx => (represents u db points (show (x.1, x.2) ∈ _ from hx)).2.1

/-! ## The results -/

theorem entry_modelId {e : Str × Agg S} (h : e ∈ ranked points) :
    (entry (metadata u db (ranked points)) e).modelId = some e.1 := by
  have hm := (mem_ranked.1 h).1
  have hne := (of_mem_models hm).1
  have hitem : (((metadata u db (ranked points)).get? e.1).getD (bare e.1)).modelId = some e.1 := by
    rw [get?_metadata u db points hm]
    cases db.bind (·.get? e.1) with
    | none => rfl
    | some row => simp [shape, nonEmpty, hne]
  dsimp only [entry]
  split_ifs <;> exact hitem

omit [LinearOrder S] in
/-- the excerpt found by the search replaces that of the table -/
theorem entry_cardExcerpt (info : Dict Str Item) {e : Str × Agg S} (h : e.2.excerpt ≠ []) :
    (entry info e).cardExcerpt = some e.2.excerpt := by
  simp [entry, nonEmpty, h]

variable (limit : ℕ)

/-- the families that fit the limit, with their representatives -/
def shown : List (Str × Agg S) := (found u db points).values.take limit

theorem semanticSearch_eq :
    semanticSearch u db points limit = (shown u db points limit).map (entry (metadata u db (ranked points))) := by
  simp only [semanticSearch, sliceTo, Int.natCast_nonneg, if_true, Int.toNat_natCast]
  rfl

theorem mem_shown {e : Str × Agg S} (h : e ∈ shown u db points limit) :
    e ∈ ranked points ∧ ∀ b ∈ models points, familyKey u b = familyKey u e.1 → b ≠ e.1 → Better u db points e.1 b := by
  obtain ⟨x, hx, rfl⟩ := List.mem_map.1 (List.mem_of_mem_take h)
  obtain ⟨he, hk, hbest⟩ := represents u db points (show (x.1, x.2) ∈ _ from hx)
  exact ⟨he, fun b hb hbk => hbest b hb (hbk.trans hk)⟩

theorem map_familyKey_shown :
    (shown u db points limit).map (fun e => familyKey u e.1) = (found u db points).keys.take limit := by
  rw [shown, List.map_take, map_familyKey_values]

theorem length_shown :
    (shown u db points limit).length = min limit ((models points).map (familyKey u)).toFinset.card := by
  have hkeys : ((models points).map (familyKey u)).toFinset = (found u db points).keys.toFinset := by
    ext key
    rw [List.mem_toFinset, List.mem_toFinset, mem_keys_found, List.mem_map]
  have hlen : (found u db points).values.length = (found u db points).keys.length := by
    rw [← map_familyKey_values, List.length_map]
  rw [shown, List.length_take, hkeys, List.toFinset_card_of_nodup (Dict.nodup_keys _), hlen]

/-- the search meets its specification -/
theorem search_refines :
    Refines u db points limit ((shown u db points limit).map Prod.fst) (semanticSearch u db points limit) := by
  have hkeys : ((shown u db points limit).map Prod.fst).map (familyKey u) = (found u db points).keys.take limit := by
    rw [List.map_map]
    exact map_familyKey_shown u db points limit
  have hdesc := found_desc u db points
  rw [← List.take_append_drop limit (found u db points).keys] at hdesc
  obtain ⟨hd1, -, hd2⟩ := List.pairwise_append.1 hdesc
  rw [semanticSearch_eq]
  constructor
  case ids =>
    rw [List.map_map, List.map_map]
    exact List.map_congr_left fun e he => entry_modelId u db points (mem_shown u db points limit he).1
  case count =>
    rw [List.length_map, length_shown]
  case distinct =>
    rw [hkeys]
    exact (Dict.nodup_keys _).sublist (List.take_sublist _ _)
  case sound =>
    intro mid hmid
    obtain ⟨e, he, rfl⟩ := List.mem_map.1 hmid
    have hm := (mem_ranked.1 (mem_shown u db points limit he).1).1
    exact ⟨hm, (of_mem_models hm).2⟩
  case desc =>
    rw [← hkeys, List.pairwise_map] at hd1
    exact hd1
  case top =>
    intro mid hm hout a ha
    rw [hkeys] at hout
    have hin : familyKey u mid ∈ (found u db points).keys := (mem_keys_found u db points _).2 ⟨mid, hm, rfl⟩
    rw [← List.take_append_drop limit (found u db points).keys, List.mem_append] at hin
    exact hd2 _ (hkeys ▸ List.mem_map_of_mem ha) _ (hin.resolve_left hout)
  case best =>
    intro a ha b hb hbk hne
    obtain ⟨e, he, rfl⟩ := List.mem_map.1 ha
    exact (mem_shown u db points limit he).2 b hb hbk hne
  case excerpt =>
    intro hblank item hitem mid hmid
    obtain ⟨e, he, rfl⟩ := List.mem_map.1 hitem
    have hr := (mem_shown u db points limit he).1
    rw [entry_modelId u db points hr] at hmid
    obtain rfl : e.1 = mid := Option.some.inj hmid
    obtain ⟨p, hp, hs, hexc⟩ := best_chunk hblank hr
    refine ⟨p, hp, hs, ?_⟩
    have : e.2.excerpt ≠ [] := by
      rw [hexc]
      simpa [cardExcerptChars] using hblank p ((chunks_sublist points _).subset hp)
    rw [entry_cardExcerpt _ this, hexc]
    rfl

end Families

/-! ## The order of the points -/

omit [LinearOrder S] in
theorem chunks_perm {points points' : List (Point S)} (h : points.Perm points') (P : Str → Prop) [DecidablePred P] :
    (chunks points P).Perm (chunks points' P) := h.filter _

theorem bestScore_perm {ps ps' : List (Point S)} (h : ps.Perm ps') : bestScore ps = bestScore ps' :=
  le_antisymm (bestScore_le fun _ hp => le_bestScore (h.subset hp))
    (bestScore_le fun _ hp => le_bestScore (h.symm.subset hp))

/-- with distinct scores and texts that are not blank, the aggregate depends on the points only -/
theorem aggregate_perm {ps ps' : List (Point S)} (h : ps.Perm ps') (hblank : NonBlank ps)
    (hscores : (ps.map Point.score).Nodup) : aggregate ps = aggregate ps' := by
  by_cases hne : ps = []
  · subst hne
    rw [h.nil_eq]
  · obtain ⟨p, hp, hps, hpe⟩ := excerpt_aggregate hne hblank
    obtain ⟨q, hq, hqs, hqe⟩ :=
      excerpt_aggregate (fun e => hne (e ▸ h).eq_nil) fun q hq => hblank q (h.symm.subset hq)
    have hpq : p = q := List.inj_on_of_nodup_map hscores hp (h.symm.subset hq)
      (WithBot.coe_injective (hps.trans ((bestScore_perm h).trans hqs.symm)))
    have hexc : (aggregate ps).excerpt = (aggregate ps').excerpt := by rw [hpe, hqe, hpq]
    have hbest : (aggregate ps).best = (aggregate ps').best := by
      rw [best_aggregate, best_aggregate, bestScore_perm h]
    exact Agg.ext hbest hexc

/-- two models with the same best score are the same -/
theorem eq_of_best {points : List (Point S)} (hblank : NonBlank points) (hscores : (points.map Point.score).Nodup)
    {a b : Str × Agg S} (ha : a ∈ (agg points).entries) (hb : b ∈ (agg points).entries) (h : a.2.best = b.2.best) :
    a = b := by
  have attained : ∀ e ∈ (agg points).entries, ∃ p ∈ points, hitModel p = some e.1 ∧ (p.score : WithBot S) = e.2.best := by
    intro e he
    have hr : e ∈ ranked points := (Rank.byDesc_perm _ _).symm.subset he
    obtain ⟨p, hp, hs, -⟩ := best_chunk hblank hr
    obtain ⟨m, hm, rfl⟩ := mem_chunks.1 hp
    exact ⟨p, (mem_hits.1 hm).1, (mem_hits.1 hm).2, by rw [hs, best_of_mem_ranked hr]⟩
  obtain ⟨p, hp, hpm, hps⟩ := attained a ha
  obtain ⟨q, hq, hqm, hqs⟩ := attained b hb
  have hpq : p = q := List.inj_on_of_nodup_map hscores hp hq (WithBot.coe_injective (hps.trans (h.trans hqs.symm)))
  have hid : a.1 = b.1 := Option.some.inj (hpm.symm.trans (hpq ▸ hqm))
  exact List.inj_on_of_nodup_map (agg points).nodup ha hb hid

/-- then the ranking depends on the points only -/
theorem ranked_anyOrder {points points' : List (Point S)} (h : points.Perm points') (hblank : NonBlank points)
    (hscores : (points.map Point.score).Nodup) : ranked points = ranked points' := by
  have hget : ∀ mid, (agg points).get? mid = (agg points').get? mid := by
    intro mid
    have hc := chunks_perm h (· = mid)
    have hsub := chunks_sublist points (· = mid)
    have hnil : chunks points (· = mid) = [] ↔ chunks points' (· = mid) = [] :=
      ⟨fun e => (e ▸ hc).nil_eq.symm, fun e => (e ▸ hc).eq_nil⟩
    rw [get?_agg, get?_agg, aggregate_perm hc (fun p hp => hblank p (hsub.subset hp)) (hscores.sublist (hsub.map _))]
    exact if_congr hnil rfl rfl
  have hentries : (agg points).entries.Perm (agg points').entries := by
    refine (List.perm_ext_iff_of_nodup (agg points).nodup.of_map (agg points').nodup.of_map).2 ?_
    intro e
    rw [show e = (e.1, e.2) from rfl, ← Dict.get?_eq_some, ← Dict.get?_eq_some, hget]
  exact Rank.byDesc_eq_of_perm _ hentries fun a ha b hb => eq_of_best hblank hscores ha hb

/-- **Semantic search.** The results are those of the specification; with texts that are not blank and distinct scores
they do not depend on the order of the points. -/
theorem semantic_search_ok (u : Unicode) (db : Option Models) (points : List (Point S)) (limit : ℕ) :
    (∃ reps, Refines u db points limit reps (semanticSearch u db points limit)) ∧
      ∀ points' : List (Point S), points.Perm points' → NonBlank points → (points.map Point.score).Nodup →
        semanticSearch u db points' limit = semanticSearch u db points limit := by
  refine ⟨⟨_, search_refines u db points limit⟩, fun points' h hblank hscores => ?_⟩
  rw [semanticSearch, semanticSearch, ranked_anyOrder h hblank hscores]

/-- a re-upload that scores better than the original, and two models of one family -/
def samplePoints : List (Point ℕ) :=
  [⟨4, some "b/X-7b-GGUF".toList, some "quantized".toList⟩, ⟨3, some "a/X_7b".toList, some " original ".toList⟩,
    ⟨2, some "c/y".toList, some "other".toList⟩, ⟨1, some "d/Y".toList, some "popular".toList⟩]

/-- a row of which only the downloads are known -/
def knownRow (downloads : ℤ) : ModelRow :=
  ⟨some downloads, none, none, none, none, none, none, none, none, none, none⟩

def knownTable : Models :=
  ⟨[("c/y".toList, knownRow 5), ("d/Y".toList, knownRow 900)], show ["c/y".toList, "d/Y".toList].Nodup from by decide⟩

theorem semantic_search_ok_sample :
    (∃ reps, Refines Unicode.ascii (some knownTable) samplePoints 8 reps
        (semanticSearch Unicode.ascii (some knownTable) samplePoints 8)) ∧
      semanticSearch Unicode.ascii (some knownTable) samplePoints.reverse 8 =
        semanticSearch Unicode.ascii (some knownTable) samplePoints 8 := by
  obtain ⟨hspec, horder⟩ := semantic_search_ok Unicode.ascii (some knownTable) samplePoints 8
  have hblank : NonBlank samplePoints := by
    unfold NonBlank
    decide
  exact ⟨hspec, horder _ samplePoints.reverse_perm.symm hblank (by decide)⟩

/-- the original, and the model with more downloads -/
example : (semanticSearch Unicode.ascii (some knownTable) samplePoints 8).map (fun item => (item.modelId, item.cardExcerpt)) =
    [(some "a/X_7b".toList, some "original".toList), (some "d/Y".toList, some "popular".toList)] := by decide

end AgentPick.Catalog
