/-
The order of the predictions (`evaluation/metrics.py`, `extract_predictions`).

The predictions are sorted by a recorded offset. A mention is recorded at its offset in the cleaned text, a bare name at its
offset in the folded text, in which characters that fold to more than one move what follows them to the right. `offsets`
lists the offsets of the mentions of a key with the bare ones seen through a function: the identity for what the code
records, `unfoldOffset` for where the name stands in the cleaned text.

Results:
- `recorded_of_get?`: an entry's offset is the least recorded offset of its key.
- `firstMention_spec`: the first mention is the least position of all mentions that count and all bare places.
- `inOrder_iff`: the predictions are in the order of first mention iff none is overtaken by a later one.
- `inOrder_of_plain`: they are when every character of the cleaned text folds to one character.
- `overtaken_german`: a bare name after words with `ß` comes after an id that it precedes.
-/
import Mathlib.Tactic
import AgentPick.Evaluation.Inside

namespace AgentPick.FirstMention

open AgentPick.Text AgentPick.Regex AgentPick.Extract AgentPick.Mentions AgentPick.Inside

/-- the position of the character whose folding holds offset j of the folded text -/
def unfoldOffset (u : Unicode) : Str → ℕ → ℕ
  | [], _ => 0
  | c :: s, j => if j < (u.casefold c).length then 0 else unfoldOffset u s (j - (u.casefold c).length) + 1

/-- the offsets at which key k is mentioned, the bare ones seen through a function -/
def offsets (u : Unicode) (catalogIds : List Str) (text : Str) (gold : List Str) (see : ℕ → ℕ) (k : Str) : List ℕ :=
  ((mentions u text).filter (names u (catalogKeys u catalogIds) k)).map (fun m => m.1.offset) ++
    (gold.filter fun g => norm u g = k).filterMap fun g => (bareOffset u (u.fold (cleaned text)) g).map see

/-- the first position in the cleaned text at which k is mentioned, by id or by bare name -/
def firstMention (u : Unicode) (catalogIds : List Str) (text : Str) (gold : List Str) (k : Str) : Option ℕ :=
  (offsets u catalogIds text gold (unfoldOffset u (cleaned text)) k).min?

/-- the first offset recorded for k -/
def recorded (u : Unicode) (catalogIds : List Str) (text : Str) (gold : List Str) (k : Str) : Option ℕ :=
  (offsets u catalogIds text gold id k).min?

/-- the predictions are in the order of their first mentions -/
def InOrder (u : Unicode) (catalogIds : List Str) (text : Str) (gold : List Str) : Prop :=
  (extractPredictions u catalogIds text gold).Pairwise fun p q =>
    ∀ i ∈ firstMention u catalogIds text gold (norm u p), ∀ j ∈ firstMention u catalogIds text gold (norm u q), i ≤ j

/-- q is mentioned after p, but not recorded after it -/
def Overtakes (u : Unicode) (catalogIds : List Str) (text : Str) (gold : List Str) (q p : Str) : Prop :=
  ∃ i ∈ firstMention u catalogIds text gold (norm u p), ∃ j ∈ firstMention u catalogIds text gold (norm u q), i < j ∧
    ∃ i' ∈ recorded u catalogIds text gold (norm u p), ∃ j' ∈ recorded u catalogIds text gold (norm u q),
      ¬entryLe (i', p) (j', q)

/-! ## What is recorded -/

theorem mem_offsets {u : Unicode} {catalogIds : List Str} {text : Str} {gold : List Str} {see : ℕ → ℕ} {k : Str} {i : ℕ} :
    i ∈ offsets u catalogIds text gold see k ↔
      (∃ m ∈ mentions u text, names u (catalogKeys u catalogIds) k m = true ∧ m.1.offset = i) ∨
        ∃ g ∈ gold, norm u g = k ∧ ∃ j ∈ bareOffset u (u.fold (cleaned text)) g, see j = i := by
  simp [offsets, and_assoc]

/-- the first mention that counts has the least offset of those that do -/
theorem firstNamed_le {u : Unicode} {catalog : List Str} {text k : Str} {v : ℕ × Str}
    (h : firstNamed u catalog (mentions u text) k = some v) {m : Cursor × Cursor} (hm : m ∈ mentions u text)
    (hn : names u catalog k m = true) : v.1 ≤ m.1.offset := by
  obtain ⟨m', hfind, rfl⟩ := Option.map_eq_some_iff.1 h
  obtain ⟨-, as, bs, hsplit, hbefore⟩ := List.find?_eq_some_iff_append.1 hfind
  have hpairwise := finditer_pairwise (modelIdRe_consumes u) (cleaned text)
  rw [mentions] at hsplit hm
  rw [hsplit] at hm hpairwise
  rcases List.mem_append.1 hm with hm | hm
  · have hno := hbefore m hm
    simp [hn] at hno
  · rcases List.mem_cons.1 hm with rfl | hm
    · exact le_rfl
    · have hend := (List.pairwise_cons.1 (List.pairwise_append.1 hpairwise).2.1).1 m hm
      have hmem : m' ∈ finditer (modelIdRe u) (cleaned text) := by
        rw [hsplit]
        simp
      obtain ⟨w, hw⟩ := run_spans (List.mem_of_head? (finditer_spec (modelIdRe_consumes u) hmem).1)
      have hoff := hw.offset
      exact le_trans (by omega) hend

theorem earlier_le {a b : Option (ℕ × Str)} {v : ℕ × Str} (h : earlier a b = some v) :
    (∀ x ∈ a, v.1 ≤ x.1) ∧ ∀ x ∈ b, v.1 ≤ x.1 := by
  cases a with
  | none =>
    obtain rfl : b = some v := h
    simp
  | some e =>
    cases b with
    | none =>
      obtain rfl : e = v := by simpa [earlier] using h
      simp
    | some b =>
      simp only [earlier] at h
      split_ifs at h with hlt
      · cases h
        simpa using hlt.le
      · cases h
        simpa using hlt

theorem foldl_earlier_le {bs : List (Option (ℕ × Str))} {a : Option (ℕ × Str)} {v : ℕ × Str}
    (h : bs.foldl earlier a = some v) : (∀ x ∈ a, v.1 ≤ x.1) ∧ ∀ b ∈ bs, ∀ x ∈ b, v.1 ≤ x.1 := by
  induction bs generalizing a with
  | nil =>
    obtain rfl : a = some v := h
    simp
  | cons b bs ih =>
    obtain ⟨ha, hbs⟩ := ih h
    have hsome : (earlier a b).isSome ∨ earlier a b = none := by
      cases earlier a b <;> simp
    rcases hsome with hsome | hnone
    · obtain ⟨w, hw⟩ := Option.isSome_iff_exists.1 hsome
      obtain ⟨hwa, hwb⟩ := earlier_le hw
      have hvw := ha w (by simp [hw])
      refine ⟨fun x hx => hvw.trans (hwa x hx), ?_⟩
      intro b' hb' x hx
      rcases List.mem_cons.1 hb' with rfl | hb'
      · exact hvw.trans (hwb x hx)
      · exact hbs b' hb' x hx
    · have hboth : a = none ∧ b = none := by
        rw [← Option.not_isSome_iff_eq_none, earlier_isSome, not_or] at hnone
        simpa using hnone
      obtain ⟨rfl, rfl⟩ := hboth
      refine ⟨by simp, ?_⟩
      intro b' hb' x hx
      rcases List.mem_cons.1 hb' with rfl | hb'
      · cases hx
      · exact hbs b' hb' x hx

/-- **An entry's offset is the least one recorded for its key.** -/
theorem recorded_of_get? {u : Unicode} {catalogIds : List Str} {text : Str} {gold : List Str} {k : Str} {v : ℕ × Str}
    (h : (entries u catalogIds text gold).get? k = some v) : recorded u catalogIds text gold k = some v.1 := by
  rw [get?_entries] at h
  obtain ⟨hfirst, hgold⟩ := foldl_earlier_le h
  refine List.min?_eq_some_iff.2 ⟨mem_offsets.2 ?_, ?_⟩
  · rcases foldl_earlier_mem h with h | h
    · obtain ⟨m, hm, rfl⟩ := Option.map_eq_some_iff.1 h
      exact Or.inl ⟨m, List.mem_of_find?_eq_some hm, List.find?_some hm, rfl⟩
    · obtain ⟨g, hg, heq⟩ := List.mem_map.1 h
      obtain ⟨i, hi, rfl⟩ := Option.map_eq_some_iff.1 heq
      obtain ⟨hg, hk⟩ := List.mem_filter.1 hg
      exact Or.inr ⟨g, hg, by simpa using hk, i, hi, rfl⟩
  · intro i hi
    rcases mem_offsets.1 hi with ⟨m, hm, hn, rfl⟩ | ⟨g, hg, hk, j, hj, rfl⟩
    · have hsome : (firstNamed u (catalogKeys u catalogIds) (mentions u text) k).isSome := by
        rw [firstNamed, Option.isSome_map, List.find?_isSome]
        exact ⟨m, hm, hn⟩
      obtain ⟨w, hw⟩ := Option.isSome_iff_exists.1 hsome
      exact (hfirst w hw).trans (firstNamed_le hw hm hn)
    · refine hgold _ (List.mem_map_of_mem (List.mem_filter.2 ⟨hg, by simpa using hk⟩)) (j, g) ?_
      simpa using hj

/-! ## First mentions -/

theorem unfoldOffset_mono (u : Unicode) (s : Str) {i j : ℕ} (h : i ≤ j) : unfoldOffset u s i ≤ unfoldOffset u s j := by
  induction s generalizing i j with
  | nil => exact le_rfl
  | cons c s ih =>
    simp only [unfoldOffset]
    split_ifs with hi hj
    · exact le_rfl
    · exact Nat.zero_le _
    · omega
    · have := ih (show i - (u.casefold c).length ≤ j - (u.casefold c).length by omega)
      omega

/-- k is mentioned at position i of the cleaned text: by a mention that counts, or by a bare place of a gold id -/
def MentionedAt (u : Unicode) (catalogIds : List Str) (text : Str) (gold : List Str) (k : Str) (i : ℕ) : Prop :=
  (∃ m ∈ mentions u text, names u (catalogKeys u catalogIds) k m = true ∧ m.1.offset = i) ∨
    ∃ g ∈ gold, norm u g = k ∧ ∃ a b, BareAt (u.fold (repoName g)) (u.fold (cleaned text)) a b ∧
      unfoldOffset u (cleaned text) a.length = i

/-- **The first mention is the first of all**, although the code looks at one place of a bare name only. -/
theorem firstMention_spec {u : Unicode} {catalogIds : List Str} {text : Str} {gold : List Str} {k : Str} {i : ℕ}
    (h : firstMention u catalogIds text gold k = some i) : IsLeast {j | MentionedAt u catalogIds text gold k j} i := by
  obtain ⟨hmem, hle⟩ := List.min?_eq_some_iff.1 h
  refine ⟨?_, ?_⟩
  · rcases mem_offsets.1 hmem with hid | ⟨g, hg, hk, j, hj, hi⟩
    · exact Or.inl hid
    · obtain ⟨⟨a, b, hat, rfl⟩, -⟩ := bareOffset_eq_some hj
      exact Or.inr ⟨g, hg, hk, a, b, hat, hi⟩
  · rintro j (hid | ⟨g, hg, hk, a, b, hat, rfl⟩)
    · exact hle j (mem_offsets.2 (Or.inl hid))
    · obtain ⟨j, hj⟩ := Option.isSome_iff_exists.1 (bareOffset_isSome.2 ⟨a, b, hat⟩)
      have hfirst := hle _ (mem_offsets.2 (Or.inr ⟨g, hg, hk, j, hj, rfl⟩))
      exact hfirst.trans (unfoldOffset_mono u _ ((bareOffset_eq_some hj).2 a b hat))

/-- every prediction comes from an entry, at its recorded offset -/
theorem entry_of_prediction {u : Unicode} {catalogIds : List Str} {text : Str} {gold : List Str} {v : ℕ × Str}
    (h : v ∈ (dropUmbrellas u gold (entries u catalogIds text gold)).values) :
    recorded u catalogIds text gold (norm u v.2) = some v.1 := by
  obtain ⟨e, he, rfl⟩ := List.mem_map.1 h
  have hget := Dict.get?_eq_some.2 he
  rw [dropUmbrellas_eq, Dict.get?_filterKeys] at hget
  split_ifs at hget
  rw [entries_keyed u catalogIds text gold _ _ hget]
  exact recorded_of_get? hget

/-- what is recorded was mentioned -/
theorem firstMention_isSome {u : Unicode} {catalogIds : List Str} {text : Str} {gold : List Str} {k : Str} {o : ℕ}
    (h : recorded u catalogIds text gold k = some o) : (firstMention u catalogIds text gold k).isSome := by
  rw [Option.isSome_iff_ne_none, firstMention, Ne, List.min?_eq_none_iff]
  have hmem := (List.min?_eq_some_iff.1 h).1
  rcases mem_offsets.1 hmem with hid | ⟨g, hg, hk, j, hj, -⟩
  · exact List.ne_nil_of_mem (mem_offsets.2 (Or.inl hid))
  · exact List.ne_nil_of_mem (mem_offsets.2 (Or.inr ⟨g, hg, hk, j, hj, rfl⟩))

/-- every prediction has a first mention -/
theorem prediction_mentioned {u : Unicode} {catalogIds : List Str} {text : Str} {gold : List Str} {p : Str}
    (h : p ∈ extractPredictions u catalogIds text gold) : ∃ i, firstMention u catalogIds text gold (norm u p) = some i := by
  obtain ⟨v, hv, rfl⟩ := List.mem_map.1 h
  exact Option.isSome_iff_exists.1 (firstMention_isSome (entry_of_prediction (List.mem_insertionSort _ |>.1 hv)))

/-! ## The order -/

/-- of two members of a list in order, one comes first -/
theorem rel_or_rel {α : Type} {R : α → α → Prop} {l : List α} (h : l.Pairwise R) {a b : α} (ha : a ∈ l) (hb : b ∈ l)
    (hne : a ≠ b) : R a b ∨ R b a := by
  have hsymm : Std.Symm fun x y => R x y ∨ R y x := ⟨fun _ _ => Or.symm⟩
  exact (h.imp (S := fun x y => R x y ∨ R y x) Or.inl).forall ha hb hne

/-- the predictions are in the order of what is recorded -/
theorem sorted_predictions (u : Unicode) (catalogIds : List Str) (text : Str) (gold : List Str) :
    (extractPredictions u catalogIds text gold).Pairwise fun p q =>
      ∃ i ∈ recorded u catalogIds text gold (norm u p), ∃ j ∈ recorded u catalogIds text gold (norm u q),
        entryLe (i, p) (j, q) := by
  rw [extractPredictions, ranked, List.pairwise_map]
  refine (List.pairwise_insertionSort entryLe _).imp_of_mem fun {v w} hv hw hle => ?_
  exact ⟨v.1, entry_of_prediction ((List.mem_insertionSort _).1 hv), w.1,
    entry_of_prediction ((List.mem_insertionSort _).1 hw), hle⟩

theorem InOrder.not_overtakes {u : Unicode} {catalogIds : List Str} {text : Str} {gold : List Str}
    (h : InOrder u catalogIds text gold) {p q : Str} (hp : p ∈ extractPredictions u catalogIds text gold)
    (hq : q ∈ extractPredictions u catalogIds text gold) : ¬Overtakes u catalogIds text gold q p := by
  rintro ⟨i, hi, j, hj, hij, i', hi', j', hj', hnot⟩
  have hne : p ≠ q := by
    rintro rfl
    exact absurd (Option.some.inj (hi.symm.trans hj)) hij.ne
  -- one of the two comes first among the predictions
  rcases rel_or_rel ((sorted_predictions u catalogIds text gold).and h) hp hq hne with hpq | hqp
  · obtain ⟨⟨a, ha, b, hb, hle⟩, -⟩ := hpq
    obtain rfl : a = i' := Option.some.inj (ha.symm.trans hi')
    obtain rfl : b = j' := Option.some.inj (hb.symm.trans hj')
    exact hnot hle
  · exact absurd hij (not_lt.2 (hqp.2 j hj i hi))

theorem inOrder_of_not_overtakes {u : Unicode} {catalogIds : List Str} {text : Str} {gold : List Str}
    (h : ∀ p ∈ extractPredictions u catalogIds text gold, ∀ q ∈ extractPredictions u catalogIds text gold,
      ¬Overtakes u catalogIds text gold q p) : InOrder u catalogIds text gold := by
  refine (sorted_predictions u catalogIds text gold).imp_of_mem fun {p q} hp hq hrec i hi j hj => ?_
  obtain ⟨a, ha, b, hb, hle⟩ := hrec
  by_contra hlt
  have hback : ¬entryLe (b, q) (a, p) := by
    intro hle'
    obtain ⟨-, rfl⟩ := Prod.mk.inj (antisymm hle hle')
    exact hlt (Option.some.inj (hi.symm.trans hj)).le
  exact h q hq p hp ⟨j, hj, i, hi, not_le.1 hlt, b, hb, a, ha, hback⟩

/-- **The predictions are in the order of first mention iff no prediction overtakes another.** -/
theorem inOrder_iff (u : Unicode) (catalogIds : List Str) (text : Str) (gold : List Str) :
    InOrder u catalogIds text gold ↔
      ∀ p ∈ extractPredictions u catalogIds text gold, ∀ q ∈ extractPredictions u catalogIds text gold,
        ¬Overtakes u catalogIds text gold q p :=
  ⟨fun h _ hp _ hq => h.not_overtakes hp hq, inOrder_of_not_overtakes⟩

/-! ## Plain texts -/

theorem unfoldOffset_plain {u : Unicode} {s : Str} (h : ∀ c ∈ s, (u.casefold c).length = 1) {j : ℕ} (hj : j ≤ s.length) :
    unfoldOffset u s j = j := by
  induction s generalizing j with
  | nil => simp_all [unfoldOffset]
  | cons c s ih =>
    have hlen := h c (by simp)
    rw [List.length_cons] at hj
    simp only [unfoldOffset, hlen]
    split_ifs with hz
    · omega
    · rw [ih (fun x hx => h x (by simp [hx])) (by omega)]
      omega

theorem fold_length_plain {u : Unicode} {s : Str} (h : ∀ c ∈ s, (u.casefold c).length = 1) : (u.fold s).length = s.length := by
  induction s with
  | nil => rfl
  | cons c s ih =>
    rw [Unicode.fold_cons, List.length_append, h c (by simp), ih fun x hx => h x (by simp [hx]), List.length_cons,
      Nat.add_comm]

/-- **In a text of plain characters the order is that of first mention.** -/
theorem inOrder_of_plain {u : Unicode} (catalogIds : List Str) {text : Str} (gold : List Str)
    (h : ∀ c ∈ cleaned text, (u.casefold c).length = 1) : InOrder u catalogIds text gold := by
  -- what is recorded is the first mention
  have hsame : ∀ k, recorded u catalogIds text gold k = firstMention u catalogIds text gold k := by
    intro k
    have hbare : ∀ g, (bareOffset u (u.fold (cleaned text)) g).map id =
        (bareOffset u (u.fold (cleaned text)) g).map (unfoldOffset u (cleaned text)) := by
      intro g
      refine Option.map_congr fun j hj => ?_
      obtain ⟨⟨a, b, hat, rfl⟩, -⟩ := bareOffset_eq_some hj
      have hlen := congrArg List.length hat.split
      rw [fold_length_plain h, List.length_append] at hlen
      have hle : a.length ≤ (cleaned text).length := by omega
      exact (unfoldOffset_plain h hle).symm
    simp only [recorded, firstMention, offsets, hbare]
  refine inOrder_of_not_overtakes fun p _ q _ => ?_
  rintro ⟨i, hi, j, hj, hij, i', hi', j', hj', hnot⟩
  rw [hsame] at hi' hj'
  obtain rfl : i = i' := Option.some.inj (hi.symm.trans hi')
  obtain rfl : j = j' := Option.some.inj (hj.symm.trans hj')
  exact hnot (Or.inl hij)

theorem ne_sharp {c : Char} (h : c.toNat < 128) : c ≠ 'ß' := by
  rintro rfl
  exact absurd h (by decide)

/-- ASCII and the letter `ß`, which folds to `ss` -/
def german : Unicode where
  casefold c := if c = 'ß' then "ss".toList else [c.toLower]
  lower := Unicode.ascii.lower
  isWord c := c.isAlphanum || c = '_' || c = 'ß'
  casefold_ascii _ h := if_neg (ne_sharp h)
  lower_ascii := Unicode.ascii.lower_ascii
  isWord_ascii c h := by simp [ne_sharp h]

/-- **A later id overtakes a bare name** that four letters `ß` precede. -/
theorem overtaken_german :
    extractPredictions german [] "Maß, Fuß, Stoß, Spaß: m2 org/m-1".toList ["x/m2".toList] =
        ["org/m-1".toList, "x/m2".toList] ∧
      firstMention german [] "Maß, Fuß, Stoß, Spaß: m2 org/m-1".toList ["x/m2".toList] "x/m2".toList = some 22 ∧
      firstMention german [] "Maß, Fuß, Stoß, Spaß: m2 org/m-1".toList ["x/m2".toList] "org/m-1".toList = some 25 ∧
      ¬InOrder german [] "Maß, Fuß, Stoß, Spaß: m2 org/m-1".toList ["x/m2".toList] := by
  have hp : extractPredictions german [] "Maß, Fuß, Stoß, Spaß: m2 org/m-1".toList ["x/m2".toList] =
      ["org/m-1".toList, "x/m2".toList] := by decide +kernel
  have hbare : firstMention german [] "Maß, Fuß, Stoß, Spaß: m2 org/m-1".toList ["x/m2".toList]
      (norm german "x/m2".toList) = some 22 := by decide +kernel
  have hid : firstMention german [] "Maß, Fuß, Stoß, Spaß: m2 org/m-1".toList ["x/m2".toList]
      (norm german "org/m-1".toList) = some 25 := by decide +kernel
  refine ⟨hp, hbare, hid, fun h => ?_⟩
  rw [InOrder, hp] at h
  have hle := (List.pairwise_cons.1 h).1 _ (List.mem_singleton_self _) 25 hid 22 hbare
  omega

end AgentPick.FirstMention
