/-
Model ids in an answer (`evaluation/metrics.py`, `_norm` to `extract_predictions`).

`entries` collects, by normalised id and in order of first mention, the org/repo mentions that are catalog models or look
like model ids, and the gold models mentioned by their bare repo name. `dropUmbrellas` then visits the non-gold keys and
deletes a key that two or more of the keys still present extend, and the rest is ranked by offset.

`catalogIds` are the lines of `catalog_ids.txt`. The two patterns with IGNORECASE are only run on ASCII text.

Results:
- `norm_of_mem_entries`: an entry's key is the normalised form of the id it shows.
- `umbrella_rule`: the loop over a shrinking dictionary deletes exactly the non-gold keys with two or more extensions among
  the original keys, in whatever order the entries were mentioned.
- `predictions_ok`: the predictions are distinct up to normalisation, and no non-gold one is extended by two others.
- `hyphen_counts`: a gold id that ends in a hyphen counts as an extension although nothing follows the hyphen.
-/
import Mathlib.Tactic
import AgentPick.Core.Prune
import AgentPick.Core.Regex
import AgentPick.Core.Unicode

namespace AgentPick.Extract

open AgentPick.Text AgentPick.Regex

/-! ## Characters -/

/-- `[A-Za-z0-9]` -/
def alnum (c : Char) : Bool := c.isAlphanum

/-- `[A-Za-z0-9_.\-]` -/
def idChar (c : Char) : Bool := c.isAlphanum || c = '_' || c = '.' || c = '-'

/-! ## The patterns -/

/-- `_MODEL_ID_RE` -/
def modelIdRe (u : Unicode) : Regex :=
  concat [boundary u.isWord, .char alnum, .star (.char idChar), .char (· = '/'), .char alnum, .star (.char idChar),
    boundary u.isWord]

/-- `_URL_RE` -/
def urlRe : Regex := concat [lit "http".toList, opt (.char (· = 's')), lit "://".toList, plus (.char fun c => !isSpace c)]

/-- a literal under IGNORECASE -/
def ci (s : Str) : Regex := litBy (fun c x => x.toLower = c) s

def digit : Regex := .char Char.isDigit

/-- `[a-z]` under IGNORECASE -/
def letter : Regex := .char Char.isAlpha

/-- `\d+(?:\.\d+)?` -/
def number : Regex := .seq (plus digit) (opt (.seq (.char (· = '.')) (plus digit)))

/-- `_JUNK_TOKEN_RE` -/
def junkTokenRe : Regex :=
  concat
    [atStart,
      oneOf
        [.seq number (opt (.seq (opt (.char (· = '-')))
          (oneOf (["b", "m", "k", "t", "bit", "bits", "gb", "mb"].map fun s => ci s.toList)))),
        .seq (oneOf (["fp", "bf", "int"].map fun s => ci s.toList)) (plus digit),
        concat [ci "q".toList, plus digit, opt (.seq (.char (· = '_')) (plus (.alt letter digit)))],
        concat [ci "v".toList, plus digit, .star (.seq (.char (· = '.')) (plus digit))],
        concat [oneOf (["under", "over", "near", "about", "sub", "upto", "up-to"].map fun s => ci s.toList),
          opt (.char (· = '-')), number, opt (.seq letter (opt (.seq letter (opt letter))))],
        concat [letter, digit, digit, digit, opt digit],
        concat [plus letter, plus digit, .char (· = '.'), plus digit],
        oneOf (["gguf", "awq", "gptq", "mlx", "exl2", "bnb", "onnx", "safetensors"].map fun s => ci s.toList)],
      atEnd]

/-- `_PROSE_SUFFIX_RE` -/
def proseSuffixRe : Regex :=
  .alt (.seq (oneOf (["-style", "-like", "-compatible", "-efficient", "-ready", "-friendly", "-only", "-based"].map
    fun s => ci s.toList)) atEnd) (ci "-to-".toList)

/-- `_SEPARATOR_RE` -/
def isSeparator (c : Char) : Bool := c = '-' || c = '_' || c = '.'

/-- `_INNER_CAMEL_RE` -/
def innerCamelRe : Regex := .seq (.char Char.isLower) (.char Char.isUpper)

/-- the pattern for a bare repo name: `re.escape(repo)` between two lookarounds -/
def bareRe (repo : Str) : Regex :=
  concat [notAfter fun c => idChar c || c = '/', lit repo, notBefore idChar]

/-! ## Ids -/

/-- `_norm`: the alias is replaced at the start of the id only -/
def norm (u : Unicode) (modelId : Str) : Str :=
  let key := u.fold (strip modelId)
  if "meta-llama/meta-llama-".toList <+: key then "meta-llama/llama-".toList ++ key.drop 22 else key

/-- `_catalog_keys` -/
def catalogKeys (u : Unicode) (catalogIds : List Str) : List Str :=
  (catalogIds.filter fun line => line ≠ [] && !(['#'].isPrefixOf line)).map (norm u)

/-- `_plausible_id` -/
def plausibleId (org repo : Str) : Bool :=
  if (matchAt junkTokenRe ⟨[], org⟩).isSome || (matchAt junkTokenRe ⟨[], repo⟩).isSome then false
  else if (search digit repo).isSome then true
  else if (search proseSuffixRe repo).isSome then false
  else (search innerCamelRe repo).isSome || decide (2 ≤ repo.countP isSeparator)

/-- `candidate.split("/", 1)` for a candidate with a slash -/
def splitSlash (s : Str) : Str × Str := (s.takeWhile (· ≠ '/'), (s.dropWhile (· ≠ '/')).drop 1)

/-! ## Entries -/

/-- first-mention offset and display form, by normalised id -/
abbrev Entries := Dict Str (ℕ × Str)

/-- `match.group(0).rstrip(".-")` -/
def candidate (m : Cursor × Cursor) : Str := rstripChars ['.', '-'] (m.1.upto m.2)

/-- one match of the loop over the org/repo mentions -/
def addMention (u : Unicode) (catalog : List Str) (d : Entries) (m : Cursor × Cursor) : Entries :=
  let key := norm u (candidate m)
  if key ∉ catalog ∧ !plausibleId (splitSlash (candidate m)).1 (splitSlash (candidate m)).2 then d
  else if key ∉ d.keys then d.set key (m.1.offset, candidate m)
  else d

/-- the repo part of a gold id -/
def repoName (goldId : Str) : Str := if '/' ∈ goldId then (splitSlash goldId).2 else goldId

/-- one gold id of the loop over the bare mentions -/
def addGold (u : Unicode) (folded : Str) (d : Entries) (goldId : Str) : Entries :=
  match search (bareRe (u.fold (repoName goldId))) folded with
  | none => d
  | some found =>
    let key := norm u goldId
    match d.get? key with
    | none => d.set key (found.1.offset, goldId)
    | some e => if found.1.offset < e.1 then d.set key (found.1.offset, goldId) else d

/-- the entries before umbrellas are dropped -/
def entries (u : Unicode) (catalogIds : List Str) (text : Str) (gold : List Str) : Entries :=
  let cleaned := sub urlRe [' '] text
  let mentions := (finditer (modelIdRe u) cleaned).foldl (addMention u (catalogKeys u catalogIds)) Dict.empty
  gold.foldl (addGold u (u.fold cleaned)) mentions

/-! ## Predictions -/

/-- `other != key and other.startswith(key + "-")` -/
def isExtension (key other : Str) : Bool := other ≠ key && (key ++ ['-']).isPrefixOf other

/-- `gold_keys` -/
def goldKeys (u : Unicode) (gold : List Str) : List Str := gold.map (norm u)

/-- the loop that deletes umbrellas, over the non-gold keys in their order -/
def dropUmbrellas (u : Unicode) (gold : List Str) (d : Entries) : Entries :=
  Dict.prune isExtension 2 (d.keys.filter fun k => k ∉ goldKeys u gold) d

/-- tuple order: offset first, then the display form by code points -/
def entryLe (a b : ℕ × Str) : Prop := a.1 < b.1 ∨ a.1 = b.1 ∧ a.2 ≤ b.2

instance : DecidableRel entryLe := fun a b => by unfold entryLe; infer_instance

/-- `[candidate for _, candidate in sorted(entries.values())]` -/
def ranked (d : Entries) : List Str := (d.values.insertionSort entryLe).map Prod.snd

/-- `extract_predictions`; `text or ""` makes no difference for a text -/
def extractPredictions (u : Unicode) (catalogIds : List Str) (text : Str) (gold : List Str) : List Str :=
  ranked (dropUmbrellas u gold (entries u catalogIds text gold))

/-! ## An entry's key is the normalised form of its id -/

/-- every key is the normalised form of the id shown for it -/
def Keyed (u : Unicode) (d : Entries) : Prop := ∀ k v, d.get? k = some v → norm u v.2 = k

theorem Keyed.set {u : Unicode} {d : Entries} (h : Keyed u d) (offset : ℕ) (modelId : Str) :
    Keyed u (d.set (norm u modelId) (offset, modelId)) := by
  intro k v hk
  rw [Dict.get?_set] at hk
  split_ifs at hk with he
  · cases hk
    exact he.symm
  · exact h k v hk

theorem addMention_keyed {u : Unicode} {catalog : List Str} {d : Entries} (h : Keyed u d) (m : Cursor × Cursor) :
    Keyed u (addMention u catalog d m) := by
  unfold addMention
  dsimp only
  split_ifs
  · exact h
  · exact h
  · exact h.set _ _

theorem addGold_keyed {u : Unicode} {folded : Str} {d : Entries} (h : Keyed u d) (goldId : Str) :
    Keyed u (addGold u folded d goldId) := by
  unfold addGold
  split
  · exact h
  · dsimp only
    split
    · exact h.set _ _
    · split_ifs
      · exact h.set _ _
      · exact h

theorem foldl_keyed {α : Type} {u : Unicode} {f : Entries → α → Entries} (hf : ∀ d x, Keyed u d → Keyed u (f d x))
    (xs : List α) {d : Entries} (h : Keyed u d) : Keyed u (xs.foldl f d) := by
  induction xs generalizing d with
  | nil => exact h
  | cons x xs ih => exact ih (hf d x h)

theorem entries_keyed (u : Unicode) (catalogIds : List Str) (text : Str) (gold : List Str) :
    Keyed u (entries u catalogIds text gold) := by
  have hempty : Keyed u (Dict.empty : Entries) := fun k v hk => by cases hk
  exact foldl_keyed (fun d x hd => addGold_keyed hd x) _ (foldl_keyed (fun d x hd => addMention_keyed hd x) _ hempty)

/-- an entry's key is the normalised form of the id it shows -/
theorem norm_of_mem_entries {u : Unicode} {d : Entries} (h : Keyed u d) {e : Str × (ℕ × Str)} (he : e ∈ d.entries) :
    norm u e.2.2 = e.1 := h e.1 e.2 (Dict.get?_eq_some.2 he)

/-! ## Umbrellas -/

theorem isExtension_iff {key other : Str} : isExtension key other = true ↔ key ++ ['-'] <+: other := by
  simp only [isExtension, Bool.and_eq_true, decide_eq_true_eq, List.isPrefixOf_iff_prefix]
  refine ⟨fun h => h.2, fun h => ⟨?_, h⟩⟩
  rintro rfl
  have := h.length_le
  simp at this

theorem isExtension_trans (a b c : Str) (h : isExtension a b = true) (h' : isExtension b c = true) :
    isExtension a c = true := by
  rw [isExtension_iff] at *
  exact h.trans ((List.prefix_append b ['-']).trans h')

theorem isExtension_irrefl (a : Str) : isExtension a a = false := by simp [isExtension]

/-- an umbrella among the keys: not gold, and extended by two or more of them -/
def isUmbrella (u : Unicode) (gold keys : List Str) (k : Str) : Bool :=
  decide (k ∉ goldKeys u gold) && decide (2 ≤ keys.countP (isExtension k))

/-- **The loop is the one-shot rule on the original keys.** -/
theorem dropUmbrellas_eq (u : Unicode) (gold : List Str) (d : Entries) :
    dropUmbrellas u gold d = d.filterKeys fun k => !isUmbrella u gold d.keys k := by
  rw [dropUmbrellas, Dict.prune_eq 2 isExtension_trans isExtension_irrefl]
  apply Dict.filterKeys_congr
  intro k hk
  simp [Dict.stays, isUmbrella, hk]

theorem keys_dropUmbrellas (u : Unicode) (gold : List Str) (d : Entries) :
    (dropUmbrellas u gold d).keys = d.keys.filter fun k => !isUmbrella u gold d.keys k := by
  rw [dropUmbrellas_eq, Dict.keys_filterKeys]

theorem isUmbrella_perm {u : Unicode} {gold keys keys' : List Str} (h : keys.Perm keys') :
    isUmbrella u gold keys = isUmbrella u gold keys' := by
  funext k
  rw [isUmbrella, isUmbrella, h.countP_eq]

/-! ## Ranking -/

instance : Std.Total entryLe where
  total a b := by
    unfold entryLe
    rcases lt_trichotomy a.1 b.1 with h | h | h
    · exact Or.inl (Or.inl h)
    · exact (le_total a.2 b.2).imp (fun h' => Or.inr ⟨h, h'⟩) fun h' => Or.inr ⟨h.symm, h'⟩
    · exact Or.inr (Or.inl h)

instance : IsTrans (ℕ × Str) entryLe where
  trans a b c := by
    unfold entryLe
    rintro (h | ⟨h, h'⟩) (k | ⟨k, k'⟩)
    · exact Or.inl (h.trans k)
    · exact Or.inl (k ▸ h)
    · exact Or.inl (h ▸ k)
    · exact Or.inr ⟨h.trans k, h'.trans k'⟩

instance : Std.Antisymm entryLe where
  antisymm a b := by
    unfold entryLe
    rintro (h | ⟨h, h'⟩) (k | ⟨k, k'⟩)
    · omega
    · omega
    · omega
    · exact Prod.ext h (le_antisymm h' k')

/-- the ranking depends on the entries only, not on their order -/
theorem ranked_perm {d d' : Entries} (h : d.entries.Perm d'.entries) : ranked d = ranked d' := by
  have hv : d.values.Perm d'.values := h.map Prod.snd
  have hs : d.values.insertionSort entryLe = d'.values.insertionSort entryLe :=
    (((List.perm_insertionSort entryLe _).trans hv).trans (List.perm_insertionSort entryLe _).symm).eq_of_pairwise'
      (List.pairwise_insertionSort _ _) (List.pairwise_insertionSort _ _)
  rw [ranked, ranked, hs]

/-- the predictions, normalised, are the keys -/
theorem map_norm_ranked {u : Unicode} {d : Entries} (h : Keyed u d) : ((ranked d).map (norm u)).Perm d.keys := by
  have hp : ((ranked d).map (norm u)).Perm ((d.values.map Prod.snd).map (norm u)) :=
    ((List.perm_insertionSort entryLe d.values).map Prod.snd).map (norm u)
  have hk : (d.values.map Prod.snd).map (norm u) = d.keys := by
    rw [Dict.values, Dict.keys, List.map_map, List.map_map]
    exact List.map_congr_left fun e he => norm_of_mem_entries h he
  rwa [hk] at hp

/-! ## The rule -/

/-- what the loop does to a dictionary of entries, whatever their order of mention -/
structure UmbrellaRule (u : Unicode) (gold : List Str) (d : Entries) : Prop where
  /-- a key is deleted when it is not gold and two or more of the original keys extend it -/
  oneShot : ∀ k ∈ d.keys, k ∉ (dropUmbrellas u gold d).keys ↔
    k ∉ goldKeys u gold ∧ 2 ≤ d.keys.countP (isExtension k)
  /-- nothing else of the entries changes -/
  kept : ∀ k ∈ (dropUmbrellas u gold d).keys, (dropUmbrellas u gold d).get? k = d.get? k
  /-- another order of mention, with whatever offsets, keeps the same keys -/
  anyOrder : ∀ d' : Entries, d'.keys.Perm d.keys → (dropUmbrellas u gold d').keys.Perm (dropUmbrellas u gold d).keys
  /-- and with the same offsets it gives the same predictions -/
  ranking : ∀ d' : Entries, d'.entries.Perm d.entries → ranked (dropUmbrellas u gold d') = ranked (dropUmbrellas u gold d)

/-- the predictions are distinct up to normalisation, and no non-gold one is extended by two others -/
structure NoUmbrella (u : Unicode) (gold predictions : List Str) : Prop where
  distinct : (predictions.map (norm u)).Nodup
  none : ∀ p ∈ predictions, norm u p ∉ goldKeys u gold → (predictions.map (norm u)).countP (isExtension (norm u p)) < 2

theorem dropUmbrellas_anyOrder (u : Unicode) (gold : List Str) {d d' : Entries} (h : d'.keys.Perm d.keys) :
    (dropUmbrellas u gold d').keys.Perm (dropUmbrellas u gold d).keys := by
  rw [keys_dropUmbrellas, keys_dropUmbrellas, isUmbrella_perm h]
  exact h.filter _

theorem dropUmbrellas_entries (u : Unicode) (gold : List Str) {d d' : Entries} (h : d'.entries.Perm d.entries) :
    (dropUmbrellas u gold d').entries.Perm (dropUmbrellas u gold d).entries := by
  have hk : d'.keys.Perm d.keys := h.map Prod.fst
  rw [dropUmbrellas_eq, dropUmbrellas_eq, isUmbrella_perm hk]
  exact h.filter _

/-- **Umbrella removal does not depend on the order of mention.** -/
theorem umbrella_rule (u : Unicode) (gold : List Str) (d : Entries) : UmbrellaRule u gold d where
  oneShot k hk := by
    rw [keys_dropUmbrellas, List.mem_filter]
    simp only [hk, true_and, isUmbrella, Bool.not_eq_true', Bool.not_eq_false, Bool.and_eq_true, decide_eq_true_eq]
  kept k hk := by
    rw [dropUmbrellas_eq] at hk ⊢
    rw [Dict.get?_filterKeys, if_pos]
    rw [Dict.keys_filterKeys] at hk
    exact (List.mem_filter.1 hk).2
  anyOrder _ h := dropUmbrellas_anyOrder u gold h
  ranking _ h := ranked_perm (dropUmbrellas_entries u gold h)

theorem dropUmbrellas_keyed {u : Unicode} {gold : List Str} {d : Entries} (h : Keyed u d) :
    Keyed u (dropUmbrellas u gold d) := by
  intro k v hk
  rw [dropUmbrellas_eq, Dict.get?_filterKeys] at hk
  split_ifs at hk
  exact h k v hk

/-- **The predictions** are distinct up to normalisation and hold no umbrella. -/
theorem predictions_ok (u : Unicode) (gold : List Str) {d : Entries} (h : Keyed u d) :
    NoUmbrella u gold (ranked (dropUmbrellas u gold d)) := by
  have hkeyed : Keyed u (dropUmbrellas u gold d) := dropUmbrellas_keyed h
  have hp := map_norm_ranked hkeyed
  refine ⟨hp.nodup_iff.2 (Dict.nodup_keys _), fun p hpm hg => ?_⟩
  have hk : norm u p ∈ (dropUmbrellas u gold d).keys := hp.subset (List.mem_map_of_mem hpm)
  rw [keys_dropUmbrellas] at hk
  -- fewer than two of the original keys extend it, so fewer than two of the keys that are left
  have hlt : d.keys.countP (isExtension (norm u p)) < 2 := by
    have hk' := (List.mem_filter.1 hk).2
    simpa [isUmbrella, hg] using hk'
  calc ((ranked (dropUmbrellas u gold d)).map (norm u)).countP (isExtension (norm u p))
      = (dropUmbrellas u gold d).keys.countP (isExtension (norm u p)) := hp.countP_eq _
    _ ≤ d.keys.countP (isExtension (norm u p)) := by
        rw [keys_dropUmbrellas]
        exact List.filter_sublist.countP_le
    _ < 2 := hlt

/-- **Umbrella removal in `extract_predictions`.** For every dictionary of entries and every gold list the loop is the
one-shot rule, whatever the order of mention; and the predictions of every answer are distinct up to normalisation and
contain no non-gold id that two other predictions extend. -/
theorem umbrellas_removed (u : Unicode) (catalogIds : List Str) :
    (∀ gold d, UmbrellaRule u gold d) ∧
      ∀ text gold, NoUmbrella u gold (extractPredictions u catalogIds text gold) :=
  ⟨umbrella_rule u, fun text gold => predictions_ok u gold (entries_keyed u catalogIds text gold)⟩

/-- the key, a hyphen, and something after it -/
def isProperExtension (key other : Str) : Bool := isExtension key other && decide ((key ++ ['-']).length < other.length)

/-- **A gold id that ends in a hyphen counts.** Only one entry properly extends `org/m-1`, and it is dropped. -/
theorem hyphen_counts :
    ∃ d, d = entries .ascii [] "org/m-1 org/m-1-x m-1-".toList ["org/m-1-".toList] ∧
      "org/m-1".toList ∈ d.keys ∧ d.keys.countP (isProperExtension "org/m-1".toList) = 1 ∧
      "org/m-1".toList ∉ (dropUmbrellas .ascii ["org/m-1-".toList] d).keys := by
  refine ⟨⟨[("org/m-1".toList, (0, "org/m-1".toList)), ("org/m-1-x".toList, (8, "org/m-1-x".toList)),
    ("org/m-1-".toList, (18, "org/m-1-".toList))], by decide⟩, ?_, by decide, by decide, by decide⟩
  decide +kernel

end AgentPick.Extract
