/-
Gold ids by their alias (`evaluation/metrics.py`, `extract_predictions` and the ranking metrics).

The bare-name search looks for the repo name as the gold id spells it. A gold id is named first (`NamedFirst`) in a text if
before every place of either of its two repo names stands a mention of it that counts: then no bare place changes its entry.

Results:
- `alike_of_namedFirst`: respelling gold ids that are named first changes no score.
- `alike_iff_namedFirst`: a gold id can be respelled in every gold list iff it is named first.
-/
import Mathlib.Tactic
import AgentPick.Evaluation.Alias
import AgentPick.Evaluation.FirstMention
import AgentPick.Evaluation.Ndcg

namespace AgentPick.GoldSpelling

open AgentPick.Text AgentPick.Regex AgentPick.Extract AgentPick.Metrics AgentPick.Mentions AgentPick.Alias

/-- before every place of a repo name of g, in either spelling, stands a mention of g that counts -/
def NamedFirst (u : Unicode) (catalogIds : List Str) (text g : Str) : Prop :=
  ∀ s, s = g ∨ s = respell g → ∀ a b, BareAt (u.fold (repoName s)) (u.fold (cleaned text)) a b →
    ∃ m ∈ mentions u text, names u (catalogKeys u catalogIds) (Extract.norm u g) m = true ∧ m.1.offset ≤ a.length

/-- the entry that the bare name of g proposes -/
def proposed (u : Unicode) (text g : Str) : Option (ℕ × Str) :=
  (bareOffset u (u.fold (cleaned text)) g).map fun i => (i, g)

/-! ## Entries that stay -/

/-- the entry is there and not later than what is proposed -/
def Covered (entry proposal : Option (ℕ × Str)) : Prop := ∀ x ∈ proposal, ∃ v ∈ entry, v.1 ≤ x.1

theorem Covered.earlier {a o : Option (ℕ × Str)} (h : Covered a o) : earlier a o = a := by
  cases o with
  | none => exact earlier_none a
  | some x =>
    obtain ⟨v, rfl, hle⟩ := h x rfl
    exact if_neg (not_lt.2 hle)

theorem Covered.step {a o : Option (ℕ × Str)} (h : Covered a o) (b : Option (ℕ × Str)) :
    Covered (Mentions.earlier a b) o := by
  intro x hx
  obtain ⟨v, rfl, hle⟩ := h x hx
  cases hw : Mentions.earlier (some v) b with
  | none =>
    have hsome := earlier_isSome (a := some v) (b := b)
    simp [hw] at hsome
  | some w => exact ⟨w, rfl, ((FirstMention.earlier_le hw).1 v rfl).trans hle⟩

/-- proposals that are covered can be exchanged -/
theorem foldl_earlier_congr {C : Option (ℕ × Str) → Prop} {a : Option (ℕ × Str)} {os os' : List (Option (ℕ × Str))}
    (hC : ∀ o, C o → Covered a o) (h : List.Forall₂ (fun o o' => o' = o ∨ C o ∧ C o') os os') :
    os'.foldl earlier a = os.foldl earlier a := by
  induction h generalizing a with
  | nil => rfl
  | @cons o o' os os' hhead _ ih =>
    have hstep : earlier a o' = earlier a o := by
      rcases hhead with rfl | ⟨hc, hc'⟩
      · rfl
      · rw [(hC o hc).earlier, (hC o' hc').earlier]
    rw [List.foldl_cons, List.foldl_cons, hstep]
    exact ih fun p hp => (hC p hp).step o

section Entries

variable {u : Unicode} {catalogIds : List Str} {text : Str}

/-- what the bare names of an id that is named first propose is covered by its mention -/
theorem covered_of_namedFirst {g s : Str} (h : NamedFirst u catalogIds text g) (hs : s = g ∨ s = respell g) :
    Covered (firstNamed u (catalogKeys u catalogIds) (mentions u text) (Extract.norm u g)) (proposed u text s) := by
  intro x hx
  obtain ⟨i, hi, rfl⟩ := Option.map_eq_some_iff.1 hx
  obtain ⟨⟨a, b, hat, rfl⟩, -⟩ := bareOffset_eq_some hi
  obtain ⟨m, hm, hn, hle⟩ := h s hs a b hat
  have hsome : (firstNamed u (catalogKeys u catalogIds) (mentions u text) (Extract.norm u g)).isSome := by
    rw [firstNamed, Option.isSome_map, List.find?_isSome]
    exact ⟨m, hm, hn⟩
  obtain ⟨v, hv⟩ := Option.isSome_iff_exists.1 hsome
  exact ⟨v, hv, (FirstMention.firstNamed_le hv hm hn).trans hle⟩

/-- gold ids that stay, or are named first and respelled -/
def Spelled (u : Unicode) (catalogIds : List Str) (text : Str) (g g' : Str) : Prop :=
  g' = g ∨ g' = respell g ∧ NamedFirst u catalogIds text g

theorem Spelled.norm_eq {g g' : Str} (h : Spelled u catalogIds text g g') : Extract.norm u g' = Extract.norm u g := by
  rcases h with rfl | ⟨rfl, -⟩
  · rfl
  · exact norm_respell u g

theorem goldKeys_spelled {gold gold' : List Str} (h : List.Forall₂ (Spelled u catalogIds text) gold gold') :
    goldKeys u gold = goldKeys u gold' := by
  induction h with
  | nil => rfl
  | cons hg _ ih => exact congrArg₂ List.cons hg.norm_eq.symm ih

/-- respelling ids that are named first leaves every entry as it is -/
theorem get?_entries_spelled {gold gold' : List Str} (h : List.Forall₂ (Spelled u catalogIds text) gold gold') (k : Str) :
    (entries u catalogIds text gold').get? k = (entries u catalogIds text gold).get? k := by
  rw [get?_entries, get?_entries]
  refine foldl_earlier_congr
    (C := Covered (firstNamed u (catalogKeys u catalogIds) (mentions u text) k)) (fun _ hc => hc) ?_
  induction h with
  | nil => exact .nil
  | @cons g g' gold gold' hg _ ih =>
    have hnorm := hg.norm_eq
    by_cases hk : Extract.norm u g = k
    · rw [List.filter_cons_of_pos (by simpa using hk), List.filter_cons_of_pos (by simpa [hnorm] using hk), List.map_cons,
        List.map_cons]
      refine .cons ?_ ih
      rcases hg with rfl | ⟨rfl, hfirst⟩
      · exact Or.inl rfl
      · rw [← hk]
        exact Or.inr ⟨covered_of_namedFirst hfirst (Or.inl rfl), covered_of_namedFirst hfirst (Or.inr rfl)⟩
    · rw [List.filter_cons_of_neg (by simpa using hk), List.filter_cons_of_neg (by simpa [hnorm] using hk)]
      exact ih

/-- **Respelling gold ids that are named first changes no score.** -/
theorem alike_of_namedFirst {gold gold' : List Str} (h : List.Forall₂ (Spelled u catalogIds text) gold gold') :
    ScoresAlike u catalogIds text gold text gold' := by
  have hgold := goldKeys_spelled h
  refine scoresAlike_of_keys hgold (predictions_congr (entries_keyed u catalogIds text gold)
    (entries_keyed u catalogIds text gold') hgold (R := Eq) (fun k => ?_) ?_)
  · rw [get?_entries_spelled h]
    cases (entries u catalogIds text gold).get? k with
    | none => exact .none
    | some v => exact .some rfl
  · intro v v' w w' hv hw
    rw [hv, hw]

/-! ## The first relevant prediction -/

/-- of two gold keys, the one with the earlier entry is the first relevant prediction -/
theorem first_relevant {gold : List Str} {k₁ : Str} (k₂ : Str) {v₁ : ℕ × Str} (hgold : ∀ k ∈ goldKeys u gold, k = k₁ ∨ k = k₂)
    (h₁ : k₁ ∈ goldKeys u gold) (hne : k₁ ≠ k₂) (hv₁ : (entries u catalogIds text gold).get? k₁ = some v₁)
    (hbefore : ∀ v₂, (entries u catalogIds text gold).get? k₂ = some v₂ → ¬entryLe v₂ v₁) :
    ∃ r p, (extractPredictions u catalogIds text gold)[r]? = some p ∧ Extract.norm u p = k₁ ∧
      (∀ q ∈ (extractPredictions u catalogIds text gold).take r, relevant u gold q = false) ∧
      mrr u (extractPredictions u catalogIds text gold) gold = 1 / ((r + 1 : ℕ) : ℚ) := by
  obtain ⟨p₁, hp₁, hk₁⟩ := (credited_iff h₁).2 (Dict.get?_isSome.1 (by rw [hv₁]; rfl))
  have hrel₁ : relevant u gold p₁ = true := relevant_iff.2 (hk₁ ▸ h₁)
  rcases mrr_spec u (extractPredictions u catalogIds text gold) gold with ⟨-, hall⟩ | ⟨r, p, hp, hrel, hall, hval⟩
  · rw [hall p₁ hp₁] at hrel₁
    cases hrel₁
  refine ⟨r, p, hp, ?_, hall, hval⟩
  refine (hgold _ (relevant_iff.1 hrel)).resolve_right fun hk₂ => ?_
  -- the earlier one would come after it
  have hkeyed : Keyed u (dropUmbrellas u gold (entries u catalogIds text gold)) :=
    dropUmbrellas_keyed (entries_keyed u catalogIds text gold)
  have hsorted := pairwise_ranked hkeyed
  have hsplit : extractPredictions u catalogIds text gold =
      (extractPredictions u catalogIds text gold).take r ++ p :: (extractPredictions u catalogIds text gold).drop (r + 1) := by
    obtain ⟨hlt, hget⟩ := List.getElem?_eq_some_iff.1 hp
    rw [← hget, List.cons_getElem_drop_succ, List.take_append_drop]
  have hlater : p₁ ∈ (extractPredictions u catalogIds text gold).drop (r + 1) := by
    rw [hsplit] at hp₁
    rcases List.mem_append.1 hp₁ with hmem | hmem
    · rw [hall p₁ hmem] at hrel₁
      cases hrel₁
    · rcases List.mem_cons.1 hmem with rfl | hmem
      · exact absurd (hk₁.symm.trans hk₂) hne
      · exact hmem
  rw [extractPredictions] at hsplit hlater
  rw [hsplit, List.map_append, List.map_cons] at hsorted
  obtain ⟨v, w, hv, hw, hle⟩ :=
    (List.pairwise_cons.1 (List.pairwise_append.1 hsorted).2.1).1 _ (List.mem_map_of_mem hlater)
  rw [hk₂, dropUmbrellas_eq, Dict.get?_filterKeys] at hv
  rw [hk₁, dropUmbrellas_eq, Dict.get?_filterKeys] at hw
  split_ifs at hv hw
  obtain rfl := Option.some.inj (hw.symm.trans hv₁)
  exact hbefore v hv hle

/-- up to its first relevant prediction a ranking is worth the grade of that prediction -/
theorem discounted_first {predicted gold : List Str} {r : ℕ} {p : Str} (hp : predicted[r]? = some p)
    (hall : ∀ q ∈ predicted.take r, relevant u gold q = false) :
    discounted realLog2 ((topK predicted (r + 1 : ℕ)).map (gradeOf u gold)) = (gradeOf u gold p : ℝ) * weight realLog2 r := by
  have hlen : ((topK predicted (r + 1 : ℕ)).map (gradeOf u gold)).length ≤ r + 1 := by
    rw [List.length_map, topK_of_nonneg _ (by omega), Int.toNat_natCast]
    exact List.length_take_le _ _
  rw [discounted_eq realLog2 hlen, Finset.sum_range_succ, getD_gradeOf predicted (by omega) (by simp), hp]
  have hzero : ∑ i ∈ Finset.range r, (((topK predicted (r + 1 : ℕ)).map (gradeOf u gold)).getD i 0 : ℝ) * weight realLog2 i = 0 := by
    refine Finset.sum_eq_zero fun i hi => ?_
    have hir := Finset.mem_range.1 hi
    rw [getD_gradeOf predicted (by omega) (by simp; omega)]
    cases hq : predicted[i]? with
    | none => simp
    | some q =>
      have hno := hall q (List.mem_of_getElem? ((List.getElem?_take_of_lt hir).trans hq))
      have hgrade : gradeOf u gold q = 0 := by
        by_contra hpos
        rw [gradeOf_pos_iff.1 (Nat.pos_of_ne_zero hpos)] at hno
        cases hno
      simp [hgrade]
  rw [hzero, zero_add]
  rfl

/-- answers that score alike have first relevant predictions of the same grade -/
theorem first_grade_eq {text' : Str} {gold gold' : List Str} (hne : gold ≠ []) (hgold : goldKeys u gold = goldKeys u gold')
    (h : ScoresAlike u catalogIds text gold text' gold') {r r' : ℕ} {p p' : Str}
    (hp : (extractPredictions u catalogIds text gold)[r]? = some p)
    (hall : ∀ q ∈ (extractPredictions u catalogIds text gold).take r, relevant u gold q = false)
    (hmrr : mrr u (extractPredictions u catalogIds text gold) gold = 1 / ((r + 1 : ℕ) : ℚ))
    (hp' : (extractPredictions u catalogIds text' gold')[r']? = some p')
    (hall' : ∀ q ∈ (extractPredictions u catalogIds text' gold').take r', relevant u gold' q = false)
    (hmrr' : mrr u (extractPredictions u catalogIds text' gold') gold' = 1 / ((r' + 1 : ℕ) : ℚ)) :
    gradeOf u gold p = gradeOf u gold' p' := by
  have hne' : gold' ≠ [] := fun hnil => hne ((gold_nil_iff hgold).2 hnil)
  obtain ⟨-, -, hm, hn⟩ := h ((r + 1 : ℕ) : ℤ) (by omega)
  -- the reciprocal ranks are the same, so are the ranks
  obtain rfl : r = r' := by
    rw [hmrr, hmrr', one_div, one_div, inv_inj, Nat.cast_inj] at hm
    omega
  have hideal : ideal u gold (r + 1 : ℕ) = ideal u gold' (r + 1 : ℕ) := by rw [ideal, ideal, grades_congr hgold]
  have hpos := (discounted_pos_iff realLog2_pos _).2 (ideal_pos (u := u) hne (by omega : (1 : ℤ) ≤ (r + 1 : ℕ)))
  rw [ndcgAtK_eq _ hne (by omega), ndcgAtK_eq _ hne' (by omega), ← hideal, div_left_inj' hpos.ne', discounted_first hp hall,
    discounted_first hp' hall', mul_left_inj' (weight_pos realLog2_pos r).ne'] at hn
  exact_mod_cast hn

/-! ## A rival with the same repo name -/

theorem repoName_slash (org : Str) (h : '/' ∉ org) (repo : Str) : repoName (org ++ '/' :: repo) = repo := by
  rw [repoName, if_pos (by simp), splitSlash, (span_ne h repo).2]
  rfl

/-- an id of another org, too long to be mentioned in the text, with the repo name of s -/
def rival (text s : Str) : Str := ('z' :: List.replicate (cleaned text).length 'z') ++ '/' :: repoName s

theorem repoName_rival (text s : Str) : repoName (rival text s) = repoName s := by
  refine repoName_slash _ (fun h => ?_) _
  rcases List.mem_cons.1 h with h | h
  · exact absurd h (by decide)
  · exact absurd (List.eq_of_mem_replicate h) (by decide)

theorem norm_rival (u : Unicode) (text s : Str) :
    ∃ t, Extract.norm u (rival text s) = 'z' :: (List.replicate (cleaned text).length 'z' ++ t) := by
  have hz : ∀ n, u.fold (List.replicate n 'z') = List.replicate n 'z' := by
    intro n
    rw [u.fold_ascii fun c hc => by rw [List.eq_of_mem_replicate hc]; decide, List.map_replicate]
    rfl
  have hfold : u.fold (strip (rival text s)) =
      'z' :: (List.replicate (cleaned text).length 'z' ++ u.fold ('/' :: (repoName s).rdropWhile isSpace)) := by
    rw [rival, List.cons_append, strip_cons_append_cons (by decide) (by decide), Unicode.fold_cons, Unicode.fold_append, hz,
      u.casefold_ascii 'z' (by decide)]
    rfl
  have hno : ¬"meta-llama/meta-llama-".toList <+: u.fold (strip (rival text s)) := by
    rw [hfold]
    exact fun h => absurd (List.cons_prefix_cons.1 h).1 (by decide)
  exact ⟨_, by rw [Extract.norm, if_neg hno, hfold]⟩

theorem norm_length_le {s : Str} (h : ∀ c ∈ s, c.toNat < 128) : (Extract.norm u s).length ≤ s.length := by
  have hstrip : (strip s).Sublist s := (List.rdropWhile_prefix _ _).sublist.trans (List.dropWhile_sublist _)
  have hkey : (u.fold (strip s)).length ≤ s.length := by
    rw [u.fold_ascii fun c hc => h c (hstrip.subset hc), List.length_map]
    exact hstrip.length_le
  have hold : "meta-llama/meta-llama-".toList.length = 22 := rfl
  have hnew : "meta-llama/llama-".toList.length = 17 := rfl
  unfold Extract.norm
  dsimp only
  split_ifs with hp
  · have hlen := hp.length_le
    rw [List.length_append, List.length_drop]
    omega
  · exact hkey

/-- the key of a mention is not longer than the text -/
theorem norm_candidate_length_le {m : Cursor × Cursor} (hm : m ∈ mentions u text) :
    (Extract.norm u (candidate m)).length ≤ (cleaned text).length := by
  obtain ⟨htext, org, repo, horg, hrepo, hspan⟩ := mentions_spec hm
  have hpre : candidate m <+: org ++ '/' :: repo := by
    rw [candidate, hspan.upto]
    exact List.rdropWhile_prefix _ _
  have hascii : ∀ c ∈ candidate m, c.toNat < 128 := by
    intro c hc
    rcases List.mem_append.1 (hpre.subset hc) with hc | hc
    · have := toNat_of_idChar (horg.chars c hc)
      omega
    · rcases List.mem_cons.1 hc with rfl | hc
      · decide
      · have := toNat_of_idChar (hrepo.chars c hc)
        omega
  have hlen := congrArg List.length hspan.text_eq
  rw [htext, List.length_append, List.length_append] at hlen
  have hle := hpre.length_le
  have hnorm := norm_length_le (u := u) hascii
  omega

/-- no mention has the key of the rival -/
theorem firstNamed_rival (s : Str) (catalog : List Str) :
    firstNamed u catalog (mentions u text) (Extract.norm u (rival text s)) = none := by
  obtain ⟨t, ht⟩ := norm_rival u text s
  rw [firstNamed, Option.map_eq_none_iff, List.find?_eq_none]
  intro m hm hn
  have hle := norm_candidate_length_le hm
  rw [(names_iff.1 hn).1, ht, List.length_cons, List.length_append, List.length_replicate] at hle
  omega

/-- the key of an id with an alias is not that of a rival -/
theorem norm_rival_ne {g g' : Str} (h : AliasPair g g') (s : Str) :
    Extract.norm u g ≠ Extract.norm u (rival text s) := by
  obtain ⟨rest, rfl, -⟩ := h
  obtain ⟨t, ht⟩ := norm_rival u text s
  rw [norm_oldPrefix, ht]
  exact fun h => absurd (List.cons.inj h).1 (by decide)

/-! ## When respelling changes a score -/

/-- the entries of two gold ids with different keys -/
theorem get?_entries_pair (catalogIds : List Str) (text : Str) {s z : Str} (hne : Extract.norm u s ≠ Extract.norm u z) :
    (entries u catalogIds text [s, z]).get? (Extract.norm u s) =
        earlier (firstNamed u (catalogKeys u catalogIds) (mentions u text) (Extract.norm u s)) (proposed u text s) ∧
      (entries u catalogIds text [s, z]).get? (Extract.norm u z) =
        earlier (firstNamed u (catalogKeys u catalogIds) (mentions u text) (Extract.norm u z)) (proposed u text z) := by
  rw [get?_entries, get?_entries]
  simp [hne, hne.symm, proposed]

/-- If s is entered at a bare place, and its other spelling later or not at all, the rival comes after the one and before
the other. -/
theorem rival_overtakes {s s' : Str} {i : ℕ} (hnorm : Extract.norm u s' = Extract.norm u s)
    (hne : Extract.norm u s ≠ Extract.norm u (rival text s)) (hlt : s < rival text s)
    (hi : bareOffset u (u.fold (cleaned text)) s = some i)
    (hnamed : ∀ v ∈ firstNamed u (catalogKeys u catalogIds) (mentions u text) (Extract.norm u s), i < v.1)
    (hother : ∀ v ∈ earlier (firstNamed u (catalogKeys u catalogIds) (mentions u text) (Extract.norm u s)) (proposed u text s'),
      i < v.1) :
    ¬ScoresAlike u catalogIds text [s, rival text s] text [s', rival text s] := by
  intro h
  have hbare : bareOffset u (u.fold (cleaned text)) (rival text s) = some i := by
    rw [bareOffset, repoName_rival]
    exact hi
  have hrival : earlier (firstNamed u (catalogKeys u catalogIds) (mentions u text) (Extract.norm u (rival text s)))
      (proposed u text (rival text s)) = some (i, rival text s) := by
    rw [firstNamed_rival, proposed, hbare]
    rfl
  obtain ⟨hs, hz⟩ := get?_entries_pair catalogIds text hne
  obtain ⟨hs', hz'⟩ := get?_entries_pair catalogIds text (s := s') (hnorm ▸ hne)
  rw [hrival] at hz hz'
  rw [proposed, hi, Option.map_some, earlier_of_lt hnamed] at hs
  rw [hnorm] at hs'
  -- s is the first of [s, rival], the rival is the first of [s', rival]
  obtain ⟨r, p, hp, hk, hall, hmrr⟩ := first_relevant (Extract.norm u (rival text s)) (by simp [goldKeys]) (by simp [goldKeys]) hne
    hs fun v hv hle => by
      obtain rfl := Option.some.inj (hz.symm.trans hv)
      rcases hle with hlt' | ⟨-, hle⟩
      · exact lt_irrefl _ hlt'
      · exact absurd hlt (not_lt.2 hle)
  obtain ⟨r', p', hp', hk', hall', hmrr'⟩ := first_relevant (Extract.norm u s)
    (by simp [goldKeys, hnorm, or_comm]) (by simp [goldKeys]) hne.symm hz' fun v hv hle => by
      have hiv := hother v (hs'.symm.trans hv)
      rcases hle with hlt' | ⟨heq, -⟩
      · exact absurd hlt' (not_lt.2 hiv.le)
      · exact absurd heq hiv.ne'
  have hgrade := first_grade_eq (by simp) (by simp [goldKeys, hnorm]) h hp hall hmrr hp' hall' hmrr'
  have hfirst := gradeOf_gold (show ([s, rival text s].map (Extract.norm u)).Nodup by simpa using hne) (i := 0) rfl hk
  have hsecond := gradeOf_gold (show ([s', rival text s].map (Extract.norm u)).Nodup by simpa [hnorm] using hne) (i := 1) rfl hk'
  rw [hfirst, hsecond] at hgrade
  simp at hgrade

/-- the two repo names of an alias pair have no common place -/
theorem bareOffset_ne {g g' : Str} (h : AliasPair g g') {i : ℕ} (hi : bareOffset u (u.fold (cleaned text)) g = some i) :
    bareOffset u (u.fold (cleaned text)) g' ≠ some i := by
  intro hi'
  obtain ⟨rest, rfl, rfl⟩ := h
  obtain ⟨⟨a, b, hat, rfl⟩, -⟩ := bareOffset_eq_some hi
  obtain ⟨⟨a', b', hat', hlen⟩, -⟩ := bareOffset_eq_some hi'
  have hold : repoName (oldPrefix ++ rest) = 'M' :: ("eta-Llama-".toList ++ rest) :=
    repoName_slash "meta-llama".toList (by decide) _
  have hnew : repoName (newPrefix ++ rest) = 'L' :: ("lama-".toList ++ rest) :=
    repoName_slash "meta-llama".toList (by decide) _
  have hsplit := (List.append_inj (hat.split.symm.trans hat'.split) hlen.symm).2
  rw [hold, hnew, Unicode.fold_cons, Unicode.fold_cons, u.casefold_ascii 'M' (by decide), u.casefold_ascii 'L' (by decide)]
    at hsplit
  exact absurd (List.cons.inj hsplit).1 (by decide)

/-- if g is not named first there is a gold id that shows which spelling is used -/
theorem exists_rival {g : Str} (hg : respell g ≠ g) (h : ¬NamedFirst u catalogIds text g) :
    ∃ z, ¬ScoresAlike u catalogIds text [g, z] text [respell g, z] := by
  have hpair : AliasPair g (respell g) := (respell_cases g).resolve_left hg
  have hnorm := norm_respell u g
  have hrest := hpair
  obtain ⟨rest, hgr, hgr'⟩ := hrest
  have hlt : ∀ t, t = g ∨ t = respell g → t < rival text t := by
    intro t ht
    rcases ht with rfl | rfl
    · rw [hgr]
      exact List.Lex.rel (by decide : 'm' < 'z')
    · rw [hgr']
      exact List.Lex.rel (by decide : 'm' < 'z')
  -- the spelling with the earlier bare place and the other one
  have key : ∀ t t' i, t = g ∧ t' = respell g ∨ t = respell g ∧ t' = g → bareOffset u (u.fold (cleaned text)) t = some i →
      (∀ v ∈ firstNamed u (catalogKeys u catalogIds) (mentions u text) (Extract.norm u g), i < v.1) →
      (∀ j, bareOffset u (u.fold (cleaned text)) t' = some j → i < j) →
      ∃ z, ¬ScoresAlike u catalogIds text [g, z] text [respell g, z] := by
    intro t t' i ht hi hnamed hlater
    have hkeys : Extract.norm u t = Extract.norm u g ∧ Extract.norm u t' = Extract.norm u t := by
      rcases ht with ⟨rfl, rfl⟩ | ⟨rfl, rfl⟩
      · exact ⟨rfl, hnorm⟩
      · exact ⟨hnorm, hnorm.symm⟩
    rw [← hkeys.1] at hnamed
    have hno := rival_overtakes hkeys.2 (hkeys.1 ▸ norm_rival_ne hpair t)
      (hlt t (ht.imp And.left And.left)) hi hnamed fun v hv => by
        have hcases : [proposed u text t'].foldl earlier _ = some v := hv
        rcases Inside.foldl_earlier_mem hcases with hv | hv
        · exact hnamed v hv
        · obtain ⟨j, hj, rfl⟩ := Option.map_eq_some_iff.1 (List.mem_singleton.1 hv).symm
          exact hlater j hj
    rcases ht with ⟨rfl, rfl⟩ | ⟨rfl, rfl⟩
    · exact ⟨_, hno⟩
    · exact ⟨_, fun hsame => hno hsame.symm⟩
  unfold NamedFirst at h
  push Not at h
  obtain ⟨s, hs, a, b, hat, hafter⟩ := h
  have hnamed : ∀ v ∈ firstNamed u (catalogKeys u catalogIds) (mentions u text) (Extract.norm u g), a.length < v.1 := by
    intro v hv
    obtain ⟨m, hm, rfl⟩ := Option.map_eq_some_iff.1 hv
    exact hafter m (List.mem_of_find?_eq_some hm) (List.find?_some hm)
  obtain ⟨i, hi⟩ := Option.isSome_iff_exists.1 (bareOffset_isSome.2 ⟨a, b, hat⟩)
  have hia := (bareOffset_eq_some hi).2 a b hat
  obtain ⟨s', hss'⟩ : ∃ s', s = g ∧ s' = respell g ∨ s = respell g ∧ s' = g := by
    rcases hs with rfl | rfl
    · exact ⟨_, Or.inl ⟨rfl, rfl⟩⟩
    · exact ⟨_, Or.inr ⟨rfl, rfl⟩⟩
  cases hj : bareOffset u (u.fold (cleaned text)) s' with
  | none => exact key s s' i hss' hi (fun v hv => hia.trans_lt (hnamed v hv)) (by simp [hj])
  | some j =>
    rcases lt_trichotomy i j with hij | rfl | hij
    · exact key s s' i hss' hi (fun v hv => hia.trans_lt (hnamed v hv)) (by simpa [hj] using hij)
    · rcases hss' with ⟨rfl, rfl⟩ | ⟨rfl, rfl⟩
      · exact absurd hj (bareOffset_ne hpair hi)
      · exact absurd hi (bareOffset_ne hpair hj)
    · exact key s' s j (hss'.symm.imp And.symm And.symm) hj (fun v hv => hij.trans (hia.trans_lt (hnamed v hv)))
        (by simpa [hi] using hij)

/-- **A gold id can be respelled in every gold list iff it is named first.** -/
theorem alike_iff_namedFirst {g : Str} (hg : respell g ≠ g) :
    (∀ gold gold', List.Forall₂ (fun x x' => x' = x ∨ x = g ∧ x' = respell g) gold gold' →
      ScoresAlike u catalogIds text gold text gold') ↔ NamedFirst u catalogIds text g := by
  refine ⟨fun h => ?_, fun h gold gold' hgold => ?_⟩
  · by_contra hno
    obtain ⟨z, hz⟩ := exists_rival hg hno
    exact hz (h _ _ (.cons (Or.inr ⟨rfl, rfl⟩) (.cons (Or.inl rfl) .nil)))
  · refine alike_of_namedFirst (hgold.imp fun x x' hx => ?_)
    rcases hx with rfl | ⟨rfl, rfl⟩
    · exact Or.inl rfl
    · exact Or.inr ⟨rfl, h⟩

end Entries

end AgentPick.GoldSpelling
