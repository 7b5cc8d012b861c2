/-
What a search loses because it reads the best chunks only (`backend/src/catalog.py`, `semantic_search`; `QDRANT_TOP_K_CHUNKS` in
`backend/src/core/config.py`).

The vector store answers with `cut`; `rest` are the chunks that it leaves out. ASSUMED OF THE STORE (`Above`): each chunk of the
answer scores higher than each chunk that is left out. Their number and their order do not matter.

Results:
- `ranked_isPrefix`: the models of the cut are ranked as among all chunks, with the same excerpts.
- `found_isPrefix`: so are the families.
- `top_chunks`: rank by rank, a search shows what the search over all chunks would show, or a model that loses its family to a
  preferred model without a chunk in the cut; families are missing at the end only, and have no chunk in the cut.
- `hidden_original`: the original is below the cut, its re-upload is shown.
-/
import Mathlib.Tactic
import AgentPick.Catalog.Flags

namespace AgentPick.TopChunks

open AgentPick.Text AgentPick.Catalog

variable {S : Type} [LinearOrder S]

/-- what the store answers is better than what it leaves out -/
def Above (cut rest : List (Point S)) : Prop := ∀ p ∈ cut, ∀ q ∈ rest, q.score < p.score

instance (cut rest : List (Point S)) : Decidable (Above cut rest) := inferInstanceAs (Decidable (∀ p ∈ cut, _))

/-- a result and the one that the search over all chunks has at its rank -/
inductive Agrees (u : Unicode) (db : Option Models) (cut : List (Point S)) (item whole : Item) : Prop where
  | same (h : item = whole)
  /-- the preferred model of the family has no chunk in the cut -/
  | replaced {a b : Str} (hitem : item.modelId = some a) (hwhole : whole.modelId = some b)
      (hfamily : familyKey u a = familyKey u b) (hcut : b ∉ models cut) (hcost : cost u db b < cost u db a)

/-! ## One model -/

omit [LinearOrder S] in
theorem hits_append (cut rest : List (Point S)) : hits (cut ++ rest) = hits cut ++ hits rest := List.filterMap_append

omit [LinearOrder S] in
theorem models_append (cut rest : List (Point S)) : models (cut ++ rest) = models cut ++ models rest := by
  rw [models, List.filterMap_append, List.filter_append]
  rfl

omit [LinearOrder S] in
theorem chunks_append (cut rest : List (Point S)) (P : Str → Prop) [DecidablePred P] :
    chunks (cut ++ rest) P = chunks cut P ++ chunks rest P := List.filter_append _ _

/-- a chunk that scores lower changes nothing -/
theorem foldl_addChunk {a : Agg S} {ps : List (Point S)} (h : ∀ p ∈ ps, (p.score : WithBot S) < a.best) :
    ps.foldl addChunk a = a := by
  induction ps with
  | nil => rfl
  | cons p ps ih =>
    have hp : addChunk a p = a := if_neg (not_le.2 (h p (by simp)))
    rw [List.foldl_cons, hp]
    exact ih fun q hq => h q (List.mem_cons_of_mem p hq)

section Cut

variable {cut rest : List (Point S)}

omit [LinearOrder S] in
theorem models_subset {mid : Str} (hm : mid ∈ models cut) : mid ∈ models (cut ++ rest) := by
  rw [models_append]
  exact List.mem_append_left _ hm

variable (h : Above cut rest)

include h

/-- the chunks that are left out score lower than the best one of a model in the cut -/
theorem lt_modelBest {mid : Str} (hm : mid ∈ models cut) {q : Point S} (hq : q ∈ rest) :
    (q.score : WithBot S) < modelBest cut mid := by
  have hne : chunks cut (· = mid) ≠ [] := fun e => chunks_eq_nil.1 e hm
  obtain ⟨p, hp⟩ := List.exists_mem_of_ne_nil _ hne
  calc (q.score : WithBot S) < p.score := WithBot.coe_lt_coe.2 (h p ((chunks_sublist cut _).subset hp) q hq)
    _ ≤ modelBest cut mid := le_bestScore hp

/-- **A model of the cut has the same aggregate**: its best score and its excerpt are there. -/
theorem aggregate_cut {mid : Str} (hm : mid ∈ models cut) :
    aggregate (chunks (cut ++ rest) (· = mid)) = aggregate (chunks cut (· = mid)) := by
  rw [chunks_append, aggregate, List.foldl_append]
  refine foldl_addChunk fun q hq => ?_
  rw [show (chunks cut (· = mid)).foldl addChunk ⟨⊥, []⟩ = aggregate (chunks cut (· = mid)) from rfl, best_aggregate]
  exact lt_modelBest h hm ((chunks_sublist rest _).subset hq)

theorem modelBest_cut {mid : Str} (hm : mid ∈ models cut) : modelBest (cut ++ rest) mid = modelBest cut mid := by
  calc modelBest (cut ++ rest) mid = (aggregate (chunks (cut ++ rest) (· = mid))).best := (best_aggregate _).symm
    _ = (aggregate (chunks cut (· = mid))).best := by rw [aggregate_cut h hm]
    _ = modelBest cut mid := best_aggregate _

/-- the other models score lower -/
theorem modelBest_lt {a b : Str} (ha : a ∈ models cut) (hb : b ∉ models cut) :
    modelBest (cut ++ rest) b < modelBest (cut ++ rest) a := by
  rw [modelBest_cut h ha, modelBest, chunks_append, chunks_eq_nil.2 hb, List.nil_append, ← best_aggregate]
  -- the best of b is the score of a chunk that is left out, or there is none
  have hbest : (aggregate (chunks rest (· = b))).best = ⊥ ∨ ∃ q ∈ rest, (aggregate (chunks rest (· = b))).best = q.score := by
    rw [best_aggregate, bestScore]
    cases hmax : ((chunks rest (· = b)).map Point.score).maximum with
    | bot => exact Or.inl rfl
    | coe s =>
      obtain ⟨q, hq, rfl⟩ := List.mem_map.1 (List.maximum_mem hmax)
      exact Or.inr ⟨q, (chunks_sublist rest _).subset hq, rfl⟩
  rcases hbest with hbot | ⟨q, hq, hscore⟩
  · obtain ⟨p, hp⟩ := List.exists_mem_of_ne_nil _ fun e => chunks_eq_nil.1 e ha
    rw [hbot]
    exact (WithBot.bot_lt_coe p.score).trans_le (le_bestScore hp)
  · rw [hscore]
    exact lt_modelBest h ha hq

/-! ## The ranking -/

theorem agg_isPrefix : (agg cut).entries <+: (agg (cut ++ rest)).entries := by
  have hkeys : (agg cut).keys <+: (agg (cut ++ rest)).keys := by
    refine Dict.keys_group_isPrefix Prod.fst _ _ ?_
    rw [hits_append]
    exact List.prefix_append _ _
  refine Dict.entries_isPrefix hkeys fun mid hmid => ?_
  have hm : mid ∈ models cut := by
    obtain ⟨x, hx, rfl⟩ := (Dict.mem_keys_group _ _ _ mid).1 hmid
    exact mem_models.2 ⟨x.2, hx⟩
  have hne : chunks cut (· = mid) ≠ [] := fun e => chunks_eq_nil.1 e hm
  have hne' : chunks (cut ++ rest) (· = mid) ≠ [] := fun e => chunks_eq_nil.1 e (models_subset hm)
  rw [get?_agg, get?_agg, if_neg hne, if_neg hne', aggregate_cut h hm]

/-- **The models of the cut are ranked as among all chunks**, with the same scores and excerpts. -/
theorem ranked_isPrefix : ranked cut <+: ranked (cut ++ rest) := by
  obtain ⟨others, hothers⟩ := agg_isPrefix h
  have hmem : ∀ {e}, e ∈ (agg (cut ++ rest)).entries → e ∈ ranked (cut ++ rest) :=
    fun he => (Rank.byDesc_perm _ _).symm.subset he
  have hlow : ∀ a ∈ (agg cut).entries, ∀ b ∈ others, b.2.best ≤ a.2.best := by
    intro a ha b hb
    have hall : a ∈ (agg (cut ++ rest)).entries ∧ b ∈ (agg (cut ++ rest)).entries := by
      rw [← hothers]
      exact ⟨List.mem_append_left _ ha, List.mem_append_right _ hb⟩
    have hcut : a.1 ∈ models cut := (mem_ranked.1 ((Rank.byDesc_perm _ _).symm.subset ha : a ∈ ranked cut)).1
    have hnot : b.1 ∉ models cut := by
      intro hb'
      obtain ⟨e, he, hid⟩ := exists_ranked hb'
      have hn := (agg (cut ++ rest)).nodup
      rw [← hothers, List.map_append, List.nodup_append] at hn
      exact hn.2.2 e.1 (List.mem_map_of_mem ((Rank.byDesc_perm _ _).subset he)) b.1 (List.mem_map_of_mem hb) hid
    rw [best_of_mem_ranked (hmem hall.1), best_of_mem_ranked (hmem hall.2)]
    exact (modelBest_lt h hcut hnot).le
  rw [ranked, ranked, ← hothers, Rank.byDesc_append _ hlow]
  exact List.prefix_append _ _

theorem before_cut {a b : Str} (ha : a ∈ models cut) (hb : b ∈ models cut) : Before (cut ++ rest) a b ↔ Before cut a b := by
  rw [Before, Before, modelBest_cut h ha, modelBest_cut h hb, models_append, List.idxOf_append_of_mem ha,
    List.idxOf_append_of_mem hb]

/-! ## The families -/

variable (u : Unicode) (db : Option Models)

/-- **The families of the cut come first, in the same order.** -/
theorem found_isPrefix : (found u db cut).keys <+: (found u db (cut ++ rest)).keys :=
  Rank.keys_champions_isPrefix _ _ _ (ranked_isPrefix h)

/-- a family of the cut keeps its representative, or a preferred model without a chunk in the cut has its place -/
theorem represented {k : Str} {e e' : Str × Agg S} (he : (k, e) ∈ (found u db cut).entries)
    (he' : (k, e') ∈ (found u db (cut ++ rest)).entries) : e = e' ∨ e'.1 ∉ models cut ∧ cost u db e'.1 < cost u db e.1 := by
  obtain ⟨her, hk, hbest⟩ := represents u db cut he
  obtain ⟨her', hk', hbest'⟩ := represents u db (cut ++ rest) he'
  have hm : e.1 ∈ models cut := (mem_ranked.1 her).1
  by_cases hid : e.1 = e'.1
  · refine Or.inl (Prod.ext hid ?_)
    rw [(mem_ranked.1 ((ranked_isPrefix h).subset her)).2, (mem_ranked.1 her').2, hid]
  have hall := hbest' e.1 (models_subset hm) hk hid
  by_cases hm' : e'.1 ∈ models cut
  · -- both stand in the cut: each would be better than the other
    have hcut := hbest e'.1 hm' hk' (Ne.symm hid)
    rw [Better, before_cut h hm' hm] at hall
    rw [Better] at hcut
    rcases hall with hlt | ⟨heq, hbefore⟩
    · rcases hcut with hlt' | ⟨heq', -⟩
      · exact absurd hlt' (lt_asymm hlt)
      · exact absurd heq' hlt.ne'
    · rcases hcut with hlt' | ⟨-, hbefore'⟩
      · exact absurd heq hlt'.ne'
      · exact absurd (Flags.before_trans hbefore hbefore') Flags.before_irrefl
  · refine Or.inr ⟨hm', hall.resolve_right fun hb => ?_⟩
    have hlow := modelBest_lt h hm hm'
    rcases hb.2 with hlt | ⟨heq, -⟩
    · exact lt_asymm hlow hlt
    · exact hlow.ne heq

/-! ## The results -/

omit h in
/-- the result of a model does not depend on what is left out -/
theorem entry_cut {e : Str × Agg S} (he : e.1 ∈ models cut) :
    entry (metadata u db (ranked cut)) e = entry (metadata u db (ranked (cut ++ rest))) e := by
  have hinfo : (metadata u db (ranked cut)).get? e.1 = (metadata u db (ranked (cut ++ rest))).get? e.1 := by
    rw [get?_metadata u db cut he, get?_metadata u db (cut ++ rest) (models_subset he)]
  rw [entry, entry, hinfo]

theorem entry_agrees {k : Str} {e e' : Str × Agg S} (he : (k, e) ∈ (found u db cut).entries)
    (he' : (k, e') ∈ (found u db (cut ++ rest)).entries) :
    Agrees u db cut (entry (metadata u db (ranked cut)) e) (entry (metadata u db (ranked (cut ++ rest))) e') := by
  obtain ⟨her, hk, -⟩ := represents u db cut he
  obtain ⟨her', hk', -⟩ := represents u db (cut ++ rest) he'
  rcases represented h u db he he' with rfl | ⟨hcut, hcost⟩
  · exact .same (entry_cut u db (mem_ranked.1 her).1)
  · exact .replaced (entry_modelId u db cut her) (entry_modelId u db (cut ++ rest) her') (hk.trans hk'.symm) hcut hcost

/-- the families at the same rank are the same -/
theorem found_forall₂ : List.Forall₂ (fun x y : Str × Str × Agg S => x.1 = y.1) (found u db cut).entries
    ((found u db (cut ++ rest)).entries.take (found u db cut).entries.length) := by
  have hkeys : (found u db cut).entries.map Prod.fst =
      ((found u db (cut ++ rest)).entries.take (found u db cut).entries.length).map Prod.fst := by
    rw [List.map_take, ← List.length_map (f := Prod.fst)]
    exact (List.prefix_iff_eq_take.1 (found_isPrefix h u db))
  have hsame : List.Forall₂ (· = ·) ((found u db cut).entries.map Prod.fst)
      (((found u db (cut ++ rest)).entries.take (found u db cut).entries.length).map Prod.fst) := by
    rw [hkeys]
    exact List.forall₂_same.2 fun _ _ => rfl
  exact List.forall₂_map_left_iff.1 (List.forall₂_map_right_iff.1 hsame)

omit h in
theorem search_eq_entries (points : List (Point S)) (limit : ℕ) : semanticSearch u db points limit =
    ((found u db points).entries.take limit).map fun x => entry (metadata u db (ranked points)) x.2 := by
  rw [semanticSearch_eq, shown, Dict.values, ← List.map_take, List.map_map]
  rfl

/-- a family that the cut does not have comes after all that it has -/
theorem below_cut {limit : ℕ} {y : Str × Str × Agg S}
    (hy : y ∈ ((found u db (cut ++ rest)).entries.take limit).drop (min limit (found u db cut).entries.length)) :
    y.1 ∉ (found u db cut).keys := by
  have hlt : (found u db cut).entries.length < limit := by
    by_contra hle
    rw [min_eq_left (not_lt.1 hle), List.drop_eq_nil_of_le (List.length_take_le _ _)] at hy
    cases hy
  rw [min_eq_right hlt.le, List.drop_take] at hy
  have hkeys := found_isPrefix h u db
  obtain ⟨others, hothers⟩ := hkeys
  have hmem : y.1 ∈ others := by
    have hdrop := List.mem_map_of_mem (f := Prod.fst) (List.mem_of_mem_take hy)
    have hlength : (found u db cut).entries.length = (found u db cut).keys.length := (List.length_map _).symm
    rw [List.map_drop, show (found u db (cut ++ rest)).entries.map Prod.fst = _ from hothers.symm, hlength,
      List.drop_left] at hdrop
    exact hdrop
  have hnodup := Dict.nodup_keys (found u db (cut ++ rest))
  rw [← hothers, List.nodup_append] at hnodup
  intro hin
  exact hnodup.2.2 y.1 hin y.1 hmem rfl

end Cut

/-- **What a search loses.** Rank by rank, it shows what the search over all chunks would show, or a model that loses its family to
a preferred model without a chunk in the cut; the families that are missing at the end have no chunk in the cut. -/
theorem top_chunks (u : Unicode) (db : Option Models) {cut rest : List (Point S)} (h : Above cut rest) (limit : ℕ) :
    List.Forall₂ (Agrees u db cut) (semanticSearch u db cut limit)
        ((semanticSearch u db (cut ++ rest) limit).take (semanticSearch u db cut limit).length) ∧
      ∀ item ∈ (semanticSearch u db (cut ++ rest) limit).drop (semanticSearch u db cut limit).length, ∀ b, item.modelId = some b →
        ∀ a ∈ models cut, familyKey u a ≠ familyKey u b := by
  have hlen : (semanticSearch u db cut limit).length = min limit (found u db cut).entries.length := by
    rw [search_eq_entries u db, List.length_map, List.length_take]
  rw [hlen, search_eq_entries u db, search_eq_entries u db, ← List.map_take, ← List.map_drop]
  refine ⟨?_, ?_⟩
  · have hfamilies := List.forall₂_take limit (found_forall₂ h u db)
    rw [List.take_take] at hfamilies
    rw [List.take_take, min_eq_left (min_le_left limit _), List.forall₂_map_left_iff, List.forall₂_map_right_iff]
    refine List.forall₂_iff_zip.2 ⟨hfamilies.length_eq, fun {x y} hxy => ?_⟩
    have hkey := (List.forall₂_iff_zip.1 hfamilies).2 hxy
    obtain ⟨hx, hy⟩ := List.of_mem_zip hxy
    have hx' : (x.1, x.2) ∈ (found u db cut).entries := List.mem_of_mem_take hx
    have hy' : (y.1, y.2) ∈ (found u db (cut ++ rest)).entries := List.mem_of_mem_take hy
    rw [← hkey] at hy'
    exact entry_agrees h u db hx' hy'
  · intro item hitem b hb a ha hfamily
    obtain ⟨y, hy, rfl⟩ := List.mem_map.1 hitem
    have hmem : (y.1, y.2) ∈ (found u db (cut ++ rest)).entries := List.mem_of_mem_take (List.mem_of_mem_drop hy)
    obtain ⟨her, hk, -⟩ := represents u db (cut ++ rest) hmem
    rw [entry_modelId u db (cut ++ rest) her] at hb
    obtain rfl : y.2.1 = b := Option.some.inj hb
    exact below_cut h u db hy ((mem_keys_found u db cut _).2 ⟨a, ha, hfamily.trans hk⟩)

/-- the re-upload scores 3 and 2, the original 1, another model 0 -/
def sampleCut : List (Point ℕ) :=
  [⟨3, some "b/X-7b-GGUF".toList, some "quantized".toList⟩, ⟨2, some "b/X-7b-GGUF".toList, some "more".toList⟩]

def sampleRest : List (Point ℕ) :=
  [⟨1, some "a/X_7b".toList, some "original".toList⟩, ⟨0, some "c/y".toList, some "other".toList⟩]

theorem top_chunks_sample : Above sampleCut sampleRest ∧
    List.Forall₂ (Agrees .ascii none sampleCut) (semanticSearch .ascii none sampleCut (8 : ℕ))
      ((semanticSearch .ascii none (sampleCut ++ sampleRest) (8 : ℕ)).take (semanticSearch .ascii none sampleCut (8 : ℕ)).length) :=
  ⟨by decide, (top_chunks .ascii none (by decide) 8).1⟩

/-- **The original is below the cut**, and its re-upload is shown in its place. -/
theorem hidden_original :
    (semanticSearch .ascii none sampleCut 8).map Item.modelId = [some "b/X-7b-GGUF".toList] ∧
      (semanticSearch .ascii none (sampleCut ++ sampleRest) 8).map Item.modelId = [some "a/X_7b".toList, some "c/y".toList] := by
  decide

end AgentPick.TopChunks
