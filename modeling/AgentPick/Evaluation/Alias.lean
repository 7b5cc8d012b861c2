/-
Two spellings of one id (`evaluation/metrics.py`, `_META_LLAMA_ALIAS_RE`), and when two answers score alike.

`respell` writes `meta-llama/Llama-X` for `meta-llama/Meta-Llama-X`; `_norm` gives both the same key.

Results:
- `norm_respell`: respelling keeps the key.
- `scores_congr`: the four metrics depend on the keys of the predictions and of the gold list only.
- `predictions_congr`: entries that are related key by key, by a relation that keeps the order, are ranked alike.
-/
import Mathlib.Tactic
import AgentPick.Evaluation.Mentions
import AgentPick.Evaluation.Metrics

namespace AgentPick.Alias

open AgentPick.Text AgentPick.Extract AgentPick.Metrics AgentPick.Mentions

/-- how an id starts before the rename -/
def oldPrefix : Str := "meta-llama/Meta-Llama-".toList

/-- how it starts after the rename -/
def newPrefix : Str := "meta-llama/Llama-".toList

/-- an id, or its alias if it is spelled the way before the rename -/
def respell (modelId : Str) : Str := if oldPrefix <+: modelId then newPrefix ++ modelId.drop oldPrefix.length else modelId

/-- id and id' are spelled the way before and the way after the rename -/
def AliasPair (modelId modelId' : Str) : Prop := ∃ rest, modelId = oldPrefix ++ rest ∧ modelId' = newPrefix ++ rest

theorem respell_cases (g : Str) : respell g = g ∨ AliasPair g (respell g) := by
  unfold respell
  split_ifs with h
  · obtain ⟨rest, rfl⟩ := h
    exact Or.inr ⟨rest, rfl, by rw [List.drop_left]⟩
  · exact Or.inl rfl

theorem AliasPair.respell {g g' : Str} (h : AliasPair g g') : respell g = g' := by
  obtain ⟨rest, rfl, rfl⟩ := h
  rw [Alias.respell, if_pos (List.prefix_append _ _), List.drop_left]

theorem AliasPair.ne {g g' : Str} (h : AliasPair g g') : g' ≠ g := by
  obtain ⟨rest, rfl, rfl⟩ := h
  have hlen : newPrefix.length ≠ oldPrefix.length := by decide
  intro heq
  have hsum := congrArg List.length heq
  rw [List.length_append, List.length_append] at hsum
  omega

/-! ## The key -/

theorem oldPrefix_eq : oldPrefix = 'm' :: ("eta-llama/Meta-Llama".toList ++ ['-']) := by decide

theorem newPrefix_eq : newPrefix = 'm' :: ("eta-llama/Llama".toList ++ ['-']) := by decide

theorem strip_oldPrefix (rest : Str) : strip (oldPrefix ++ rest) = oldPrefix ++ rest.rdropWhile isSpace := by
  have h := strip_cons_append_cons (by decide) (by decide) "eta-llama/Meta-Llama".toList rest (a := 'm') (b := '-')
  rwa [List.append_cons, List.append_cons _ '-', ← List.cons_append, ← List.cons_append, ← oldPrefix_eq] at h

theorem strip_newPrefix (rest : Str) : strip (newPrefix ++ rest) = newPrefix ++ rest.rdropWhile isSpace := by
  have h := strip_cons_append_cons (by decide) (by decide) "eta-llama/Llama".toList rest (a := 'm') (b := '-')
  rwa [List.append_cons, List.append_cons _ '-', ← List.cons_append, ← List.cons_append, ← newPrefix_eq] at h

theorem fold_oldPrefix (u : Unicode) : u.fold oldPrefix = "meta-llama/meta-llama-".toList := by
  have hascii : ∀ c ∈ oldPrefix, c.toNat < 128 := fun c hc =>
    of_decide_eq_true (List.all_eq_true.1 (by decide : oldPrefix.all fun c => decide (c.toNat < 128)) c hc)
  rw [u.fold_ascii hascii]
  decide

theorem fold_newPrefix (u : Unicode) : u.fold newPrefix = "meta-llama/llama-".toList := by
  have hascii : ∀ c ∈ newPrefix, c.toNat < 128 := fun c hc =>
    of_decide_eq_true (List.all_eq_true.1 (by decide : newPrefix.all fun c => decide (c.toNat < 128)) c hc)
  rw [u.fold_ascii hascii]
  decide

/-- the key of either spelling -/
theorem norm_oldPrefix (u : Unicode) (rest : Str) :
    Extract.norm u (oldPrefix ++ rest) = "meta-llama/llama-".toList ++ u.fold (rest.rdropWhile isSpace) := by
  rw [Extract.norm, strip_oldPrefix, Unicode.fold_append, fold_oldPrefix, if_pos (List.prefix_append _ _)]
  rfl

theorem norm_newPrefix (u : Unicode) (rest : Str) :
    Extract.norm u (newPrefix ++ rest) = "meta-llama/llama-".toList ++ u.fold (rest.rdropWhile isSpace) := by
  have hno : ¬"meta-llama/meta-llama-".toList <+: "meta-llama/llama-".toList ++ u.fold (rest.rdropWhile isSpace) := by
    intro h
    have hdrop : "meta-llama-".toList <+: "llama-".toList ++ u.fold (rest.rdropWhile isSpace) :=
      (List.prefix_append_right_inj "meta-llama/".toList).1 h
    exact absurd (List.cons_prefix_cons.1 hdrop).1 (by decide)
  rw [Extract.norm, strip_newPrefix, Unicode.fold_append, fold_newPrefix, if_neg hno]

theorem AliasPair.norm_eq {g g' : Str} (h : AliasPair g g') (u : Unicode) : Extract.norm u g' = Extract.norm u g := by
  obtain ⟨rest, rfl, rfl⟩ := h
  rw [norm_oldPrefix, norm_newPrefix]

/-- **Respelling keeps the key.** -/
theorem norm_respell (u : Unicode) (g : Str) : Extract.norm u (respell g) = Extract.norm u g := by
  rcases respell_cases g with h | h
  · rw [h]
  · exact h.norm_eq u

/-! ## Scores -/

/-- the two answers, against their gold lists, have the same four scores for every k -/
def ScoresAlike (u : Unicode) (catalogIds : List Str) (text : Str) (gold : List Str) (text' : Str) (gold' : List Str) : Prop :=
  ∀ k : ℤ, 1 ≤ k →
    precisionAtK u (extractPredictions u catalogIds text gold) gold k =
        precisionAtK u (extractPredictions u catalogIds text' gold') gold' k ∧
      recallAtK u (extractPredictions u catalogIds text gold) gold k =
        recallAtK u (extractPredictions u catalogIds text' gold') gold' k ∧
      mrr u (extractPredictions u catalogIds text gold) gold = mrr u (extractPredictions u catalogIds text' gold') gold' ∧
      ndcgAtK realLog2 u (extractPredictions u catalogIds text gold) gold k =
        ndcgAtK realLog2 u (extractPredictions u catalogIds text' gold') gold' k

theorem ScoresAlike.symm {u : Unicode} {catalogIds : List Str} {text text' : Str} {gold gold' : List Str}
    (h : ScoresAlike u catalogIds text gold text' gold') : ScoresAlike u catalogIds text' gold' text gold := by
  intro k hk
  obtain ⟨h₁, h₂, h₃, h₄⟩ := h k hk
  exact ⟨h₁.symm, h₂.symm, h₃.symm, h₄.symm⟩

section Congr

variable {u : Unicode} {gold gold' predicted predicted' : List Str}

theorem topK_map {α β : Type} (f : α → β) (xs : List α) (k : ℤ) : topK (xs.map f) k = (topK xs k).map f := by
  unfold topK
  split_ifs
  · rw [List.map_take]
  · rw [List.map_take, List.length_map]

theorem grades_eq (u : Unicode) (gold : List Str) :
    grades u gold = Dict.group Prod.fst (fun _ e => (goldKeys u gold).length - e.2) (goldKeys u gold).zipIdx := by
  rw [grades, goldKeys, List.zipIdx_map, Dict.group, Dict.group, Dict.accumulate, Dict.accumulate, List.foldl_map,
    List.length_map]
  rfl

variable (hgold : goldKeys u gold = goldKeys u gold') (hpred : predicted.map (norm u) = predicted'.map (norm u))
include hgold

theorem gold_nil_iff : gold = [] ↔ gold' = [] := by
  rw [← List.map_eq_nil_iff (f := norm u), ← List.map_eq_nil_iff (f := norm u) (l := gold')]
  exact (Eq.congr_left hgold)

theorem grades_congr : grades u gold = grades u gold' := by rw [grades_eq, grades_eq, hgold]

theorem relevant_congr {p p' : Str} (hp : norm u p = norm u p') : relevant u gold p = relevant u gold' p' := by
  rw [relevant, relevant, goldSet, goldSet, hgold, hp]

theorem gradeOf_congr {p p' : Str} (hp : norm u p = norm u p') : gradeOf u gold p = gradeOf u gold' p' := by
  rw [gradeOf, gradeOf, grades_congr hgold, hp]

include hpred

omit hgold in
/-- a function of the key has the same values on both lists -/
theorem map_topK_congr {α : Type} {f f' : Str → α} (hf : ∀ p p', norm u p = norm u p' → f p = f' p') (k : ℤ) :
    (topK predicted k).map f = (topK predicted' k).map f' := by
  have htop : (topK predicted k).map (norm u) = (topK predicted' k).map (norm u) := by
    rw [← topK_map, ← topK_map, hpred]
  generalize topK predicted k = l at htop
  generalize topK predicted' k = l' at htop
  induction l generalizing l' with
  | nil =>
    obtain rfl : l' = [] := List.map_eq_nil_iff.1 htop.symm
    rfl
  | cons p l ih =>
    cases l' with
    | nil => exact absurd htop (by simp)
    | cons p' l' =>
      obtain ⟨hp, hrest⟩ := List.cons.inj htop
      rw [List.map_cons, List.map_cons, hf p p' hp, ih l' hrest]

theorem hitsAt_congr (k : ℤ) : hitsAt u predicted gold k = hitsAt u predicted' gold' k := by
  have hmap := map_topK_congr hpred (fun p p' hp => relevant_congr hgold hp) k
  have hcount := congrArg (List.countP id) hmap
  rw [List.countP_map, List.countP_map] at hcount
  exact hcount

theorem mrr_congr : mrr u predicted gold = mrr u predicted' gold' := by
  have hfrom : ∀ rank, mrrFrom u gold rank predicted = mrrFrom u gold' rank predicted' := by
    induction predicted generalizing predicted' with
    | nil =>
      obtain rfl : predicted' = [] := List.map_eq_nil_iff.1 hpred.symm
      exact fun _ => rfl
    | cons p ps ih =>
      cases predicted' with
      | nil => exact absurd hpred (by simp)
      | cons p' ps' =>
        obtain ⟨hp, hrest⟩ := List.cons.inj hpred
        intro rank
        rw [mrrFrom, mrrFrom, relevant_congr hgold hp, ih hrest]
  exact hfrom 1

/-- **The metrics depend on the keys only.** -/
theorem metrics_congr (k : ℤ) :
    precisionAtK u predicted gold k = precisionAtK u predicted' gold' k ∧
      recallAtK u predicted gold k = recallAtK u predicted' gold' k ∧ mrr u predicted gold = mrr u predicted' gold' ∧
      ndcgAtK realLog2 u predicted gold k = ndcgAtK realLog2 u predicted' gold' k := by
  have hhits := hitsAt_congr hgold hpred k
  have hset : goldSet u gold = goldSet u gold' := by rw [goldSet, goldSet, hgold]
  have hideal : ideal u gold k = ideal u gold' k := by rw [ideal, ideal, grades_congr hgold]
  have hgrades := map_topK_congr hpred (fun p p' hp => gradeOf_congr hgold hp) k
  refine ⟨?_, ?_, mrr_congr hgold hpred, ?_⟩
  · rw [precisionAtK, precisionAtK, hhits]
  · simp only [recallAtK, hhits, hset, gold_nil_iff hgold]
  · simp only [ndcgAtK, hideal, hgrades, gold_nil_iff hgold]

end Congr

/-- **Answers whose predictions have the same keys score alike.** -/
theorem scoresAlike_of_keys {u : Unicode} {catalogIds : List Str} {text text' : Str} {gold gold' : List Str}
    (hgold : goldKeys u gold = goldKeys u gold')
    (hpred : (extractPredictions u catalogIds text gold).map (norm u) =
      (extractPredictions u catalogIds text' gold').map (norm u)) : ScoresAlike u catalogIds text gold text' gold' :=
  fun k _ => metrics_congr hgold hpred k

/-! ## Rankings -/

/-- the keys of a ranking are in the order of their entries -/
theorem pairwise_ranked {u : Unicode} {d : Entries} (h : Keyed u d) :
    ((ranked d).map (norm u)).Pairwise fun k l => ∃ v w, d.get? k = some v ∧ d.get? l = some w ∧ entryLe v w := by
  rw [ranked, List.map_map, List.pairwise_map]
  refine (List.pairwise_insertionSort entryLe d.values).imp_of_mem fun {v w} hv hw hle => ?_
  have hget : ∀ v ∈ d.values.insertionSort entryLe, d.get? (norm u v.2) = some v := by
    intro v hv
    obtain ⟨e, he, rfl⟩ := List.mem_map.1 ((List.mem_insertionSort _).1 hv)
    rw [norm_of_mem_entries h he]
    exact Dict.get?_eq_some.2 he
  exact ⟨v, w, hget v hv, hget w hw, hle⟩

theorem isSome_iff_of_rel {α : Type} {R : α → α → Prop} {a b : Option α} (h : Option.Rel R a b) : a.isSome ↔ b.isSome := by
  cases h <;> simp

theorem exists_of_rel {α : Type} {R : α → α → Prop} {a b : Option α} (h : Option.Rel R a b) {y : α} (hb : b = some y) :
    ∃ x, a = some x ∧ R x y := by
  subst hb
  cases h with
  | some hxy => exact ⟨_, rfl, hxy⟩

/-- **Entries that are related key by key are ranked alike**, if the relation keeps their order. -/
theorem predictions_congr {u : Unicode} {gold gold' : List Str} {d d' : Entries} (hd : Keyed u d) (hd' : Keyed u d')
    (hgold : goldKeys u gold = goldKeys u gold') {R : ℕ × Str → ℕ × Str → Prop}
    (hrel : ∀ k, Option.Rel R (d.get? k) (d'.get? k))
    (hR : ∀ v v' w w', R v v' → R w w' → (entryLe v w ↔ entryLe v' w')) :
    (ranked (dropUmbrellas u gold d)).map (norm u) = (ranked (dropUmbrellas u gold' d')).map (norm u) := by
  have hmem : ∀ k, k ∈ d.keys ↔ k ∈ d'.keys := by
    intro k
    rw [← Dict.get?_isSome, ← Dict.get?_isSome]
    exact isSome_iff_of_rel (hrel k)
  have hkeys : d.keys.Perm d'.keys := (List.perm_ext_iff_of_nodup d.nodup_keys d'.nodup_keys).2 hmem
  have humbrella : isUmbrella u gold d.keys = isUmbrella u gold' d'.keys := by
    rw [isUmbrella_perm hkeys]
    funext k
    rw [isUmbrella, isUmbrella, hgold]
  have hkept : ((dropUmbrellas u gold d).keys).Perm (dropUmbrellas u gold' d').keys := by
    rw [keys_dropUmbrellas, keys_dropUmbrellas, humbrella]
    exact hkeys.filter _
  have hkeyed : Keyed u (dropUmbrellas u gold d) := dropUmbrellas_keyed hd
  have hkeyed' : Keyed u (dropUmbrellas u gold' d') := dropUmbrellas_keyed hd'
  have hperm := ((map_norm_ranked hkeyed).trans hkept).trans (map_norm_ranked hkeyed').symm
  -- both lists are in the order of the first dictionary
  have hsub : ∀ {gold : List Str} {d : Entries} {k v}, (dropUmbrellas u gold d).get? k = some v → d.get? k = some v := by
    intro gold d k v h
    rw [dropUmbrellas_eq, Dict.get?_filterKeys] at h
    split_ifs at h
    exact h
  have hfirst : ((ranked (dropUmbrellas u gold d)).map (norm u)).Pairwise fun k l =>
      ∃ v w, d.get? k = some v ∧ d.get? l = some w ∧ entryLe v w := by
    refine (pairwise_ranked hkeyed).imp fun {k l} h => ?_
    obtain ⟨v, w, hv, hw, hle⟩ := h
    exact ⟨v, w, hsub hv, hsub hw, hle⟩
  have hsecond : ((ranked (dropUmbrellas u gold' d')).map (norm u)).Pairwise fun k l =>
      ∃ v w, d.get? k = some v ∧ d.get? l = some w ∧ entryLe v w := by
    refine (pairwise_ranked hkeyed').imp fun {k l} h => ?_
    obtain ⟨v', w', hv', hw', hle⟩ := h
    obtain ⟨v, hv, hvv⟩ := exists_of_rel (hrel k) (hsub hv')
    obtain ⟨w, hw, hww⟩ := exists_of_rel (hrel l) (hsub hw')
    exact ⟨v, w, hv, hw, (hR v v' w w' hvv hww).2 hle⟩
  refine List.Perm.eq_of_pairwise (fun k l _ _ hkl hlk => ?_) hfirst hsecond hperm
  obtain ⟨v, w, hv, hw, hle⟩ := hkl
  obtain ⟨w', v', hw', hv', hle'⟩ := hlk
  obtain rfl := Option.some.inj (hv.symm.trans hv')
  obtain rfl := Option.some.inj (hw.symm.trans hw')
  obtain rfl := antisymm hle hle'
  rw [← hd k v hv, ← hd l v hw]

end AgentPick.Alias
