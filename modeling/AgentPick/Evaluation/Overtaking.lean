/-
When a bare name falls behind a mention (`evaluation/metrics.py`, `extract_predictions`).

No character folds to nothing, so that a bare name's offset in the folded text is never less than its position in the
cleaned one. Two mentions keep their order then, and two bare names keep theirs. What can change is that a bare name stands
before a mention and is recorded at an offset that does not come before it.

Results:
- `mem_predictions`: the predictions are what the entries show for the ids that are no umbrellas.
- `shown_of_bare`, `shown_of_mention`: which id an entry shows for its offset.
- `exists_fallsBehind`, `FallsBehind.overtakes`: a prediction is overtaken iff a bare name falls behind a mention.
- `inOrder_iff_not_behind`: the predictions are in the order of first mention iff no bare name falls behind a mention.
-/
import Mathlib.Tactic
import AgentPick.Evaluation.FirstMention

namespace AgentPick.Overtaking

open AgentPick.Text AgentPick.Regex AgentPick.Extract AgentPick.Mentions AgentPick.Inside AgentPick.FirstMention

/-- the bare pattern accepts g's repo name at offset a of the folded text -/
def PlaceAt (u : Unicode) (text g : Str) (a : ℕ) : Prop :=
  ∃ x b, BareAt (u.fold (repoName g)) (u.fold (cleaned text)) x b ∧ x.length = a

/-- not gold, and extended by two other ids that are mentioned -/
def Umbrella (u : Unicode) (catalogIds : List Str) (text : Str) (gold : List Str) (k : Str) : Prop :=
  k ∉ goldKeys u gold ∧ ∃ x y, x ≠ y ∧ isExtension k x = true ∧ isExtension k y = true ∧
    (∃ i, MentionedAt u catalogIds text gold x i) ∧ ∃ i, MentionedAt u catalogIds text gold y i

/-- offset a is the first of a bare name of g's id, and g the first gold id with that key found there -/
structure FirstPlace (u : Unicode) (text : Str) (gold : List Str) (a : ℕ) (g : Str) : Prop where
  place : PlaceAt u text g a
  least : ∀ g' ∈ gold, norm u g' = norm u g → ∀ a', PlaceAt u text g' a' → a ≤ a'
  shown : ∃ before after, gold = before ++ g :: after ∧ ∀ g' ∈ before, norm u g' = norm u g → ¬PlaceAt u text g' a

/-- g's bare name at folded offset a stands before the mention m, but that offset does not come before m's -/
structure FallsBehind (u : Unicode) (catalogIds : List Str) (text : Str) (gold : List Str) (a : ℕ) (g : Str)
    (m : Cursor × Cursor) : Prop where
  first : FirstPlace u text gold a g
  mention : m ∈ mentions u text
  counts : names u (catalogKeys u catalogIds) (norm u (candidate m)) m = true
  kept : ¬Umbrella u catalogIds text gold (norm u (candidate m))
  /-- the name stands before every mention of m's id -/
  before : ∀ i, MentionedAt u catalogIds text gold (norm u (candidate m)) i → unfoldOffset u (cleaned text) a < i
  /-- no mention of g comes before m -/
  alone : ∀ m' ∈ mentions u text, names u (catalogKeys u catalogIds) (norm u g) m' = true → m.1.offset ≤ m'.1.offset
  moved : m.1.offset < a ∨ m.1.offset = a ∧ candidate m < g

section

variable {u : Unicode} {catalogIds : List Str} {text : Str} {gold : List Str}

/-! ## Predictions and entries -/

/-- an id is mentioned iff it has an entry -/
theorem mentioned_iff {k : Str} :
    (∃ i, MentionedAt u catalogIds text gold k i) ↔ k ∈ (entries u catalogIds text gold).keys := by
  rw [mem_keys_entries]
  refine ⟨?_, ?_⟩
  · rintro ⟨i, ⟨m, hm, hn, -⟩ | ⟨g, hg, hk, a, b, hat, -⟩⟩
    · exact Or.inl ⟨m, hm, hn⟩
    · exact Or.inr ⟨g, hg, hk, a, b, hat⟩
  · rintro (⟨m, hm, hn⟩ | ⟨g, hg, hk, a, b, hat⟩)
    · exact ⟨_, Or.inl ⟨m, hm, hn, rfl⟩⟩
    · exact ⟨_, Or.inr ⟨g, hg, hk, a, b, hat, rfl⟩⟩

/-- two members of a list without repetition -/
theorem two_le_countP {α : Type} [DecidableEq α] {p : α → Bool} {l : List α} (h : l.Nodup) :
    2 ≤ l.countP p ↔ ∃ x y, x ≠ y ∧ p x = true ∧ p y = true ∧ x ∈ l ∧ y ∈ l := by
  rw [List.countP_eq_length_filter, ← List.toFinset_card_of_nodup (h.filter p), Nat.succ_le_iff, Finset.one_lt_card]
  simp only [List.mem_toFinset, List.mem_filter]
  refine ⟨?_, ?_⟩
  · rintro ⟨x, ⟨hx, px⟩, y, ⟨hy, py⟩, hne⟩
    exact ⟨x, y, hne, px, py, hx, hy⟩
  · rintro ⟨x, y, hne, px, py, hx, hy⟩
    exact ⟨x, ⟨hx, px⟩, y, ⟨hy, py⟩, hne⟩

/-- what the loop takes for an umbrella is one -/
theorem umbrella_iff {k : Str} :
    Umbrella u catalogIds text gold k ↔ isUmbrella u gold (entries u catalogIds text gold).keys k = true := by
  simp only [Umbrella, isUmbrella, mentioned_iff, Bool.and_eq_true, decide_eq_true_eq]
  rw [two_le_countP (Dict.nodup_keys _)]

/-- **The predictions are what the entries show for the ids that are no umbrellas.** -/
theorem mem_predictions {p : Str} : p ∈ extractPredictions u catalogIds text gold ↔
    ∃ o, (entries u catalogIds text gold).get? (norm u p) = some (o, p) ∧ ¬Umbrella u catalogIds text gold (norm u p) := by
  rw [extractPredictions, mem_ranked, dropUmbrellas_eq]
  simp only [Dict.get?_filterKeys, umbrella_iff]
  refine ⟨?_, ?_⟩
  · rintro ⟨k, o, h⟩
    split_ifs at h with hk
    have hkey := entries_keyed u catalogIds text gold _ _ h
    dsimp only at hkey
    rw [hkey]
    exact ⟨o, h, by simpa using hk⟩
  · rintro ⟨o, h, hk⟩
    exact ⟨norm u p, o, by rw [if_pos (by simpa using hk), h]⟩

/-- an id that is mentioned and no umbrella has a prediction -/
theorem exists_prediction {k : Str} {i : ℕ} (h : MentionedAt u catalogIds text gold k i)
    (hk : ¬Umbrella u catalogIds text gold k) : ∃ p ∈ extractPredictions u catalogIds text gold, norm u p = k := by
  obtain ⟨v, hv⟩ := Option.isSome_iff_exists.1 (Dict.get?_isSome.2 (mentioned_iff.1 ⟨i, h⟩))
  have hkey := entries_keyed u catalogIds text gold _ _ hv
  refine ⟨v.2, mem_predictions.2 ⟨v.1, ?_, ?_⟩, hkey⟩
  · rw [hkey, hv]
  · rwa [hkey]

/-! ## What an entry shows -/

/-- an entry that no later one precedes stays -/
theorem foldl_earlier_of_le {bs : List (Option (ℕ × Str))} {e : ℕ × Str} (h : ∀ b ∈ bs, ∀ x ∈ b, e.1 ≤ x.1) :
    bs.foldl earlier (some e) = some e := by
  induction bs with
  | nil => rfl
  | cons b bs ih =>
    have hb : earlier (some e) b = some e := by
      cases b with
      | none => rfl
      | some x => rw [earlier, if_neg (not_lt.2 (h _ (by simp) x rfl))]
    rw [List.foldl_cons, hb]
    exact ih fun b' hb' => h b' (by simp [hb'])

/-- an entry at an offset that it did not have before is the first one proposed there -/
theorem find_of_foldl_earlier {f : Str → Option ℕ} {gs : List Str} {a : Option (ℕ × Str)} {v : ℕ × Str}
    (h : (gs.map fun g => (f g).map fun i => (i, g)).foldl earlier a = some v) (ha : ∀ e ∈ a, e.1 ≠ v.1) :
    gs.find? (fun g => decide (f g = some v.1)) = some v.2 := by
  induction gs generalizing a with
  | nil => exact absurd rfl (ha v h)
  | cons g gs ih =>
    by_cases hg : f g = some v.1
    · obtain ⟨hle, hall⟩ := foldl_earlier_le h
      have hkeep : earlier a ((f g).map fun i => (i, g)) = some (v.1, g) := by
        rw [hg]
        exact earlier_of_lt fun e he => lt_of_le_of_ne (hle e he) (ha e he).symm
      rw [List.map_cons, List.foldl_cons, hkeep,
        foldl_earlier_of_le (e := (v.1, g)) fun b hb => hall b (List.mem_cons_of_mem _ hb)] at h
      rw [List.find?_cons_of_pos (by simpa using hg), ← Option.some.inj h]
    · rw [List.find?_cons_of_neg (by simpa using hg)]
      refine ih h fun e he => ?_
      rcases earlier_eq_or a ((f g).map fun i => (i, g)) with heq | heq
      · exact ha e (heq ▸ he)
      · rw [heq] at he
        obtain ⟨i, hi, rfl⟩ := Option.map_eq_some_iff.1 he
        rintro rfl
        exact hg hi

/-- an entry at the offset of a mention shows it -/
theorem shown_of_mention {k : Str} {v : ℕ × Str} (h : (entries u catalogIds text gold).get? k = some v)
    {m : Cursor × Cursor} (hm : m ∈ mentions u text) (hn : names u (catalogKeys u catalogIds) k m = true)
    (hoff : v.1 = m.1.offset) : v.2 = candidate m := by
  rw [get?_entries] at h
  obtain ⟨hle, hall⟩ := foldl_earlier_le h
  have hsome : (firstNamed u (catalogKeys u catalogIds) (mentions u text) k).isSome := by
    rw [firstNamed, Option.isSome_map, List.find?_isSome]
    exact ⟨m, hm, hn⟩
  obtain ⟨w, hw⟩ := Option.isSome_iff_exists.1 hsome
  have hsame : w.1 = v.1 := le_antisymm (hoff ▸ firstNamed_le hw hm hn) (hle w hw)
  rw [hw, foldl_earlier_of_le fun b hb x hx => hsame ▸ hall b hb x hx] at h
  cases h
  obtain ⟨m', hfind, rfl⟩ := Option.map_eq_some_iff.1 hw
  obtain rfl := mention_ext (List.mem_of_find?_eq_some hfind) hm hoff
  rfl

/-- an entry where no mention of the id stands shows the first gold id found there -/
theorem shown_of_bare {k : Str} {v : ℕ × Str} (h : (entries u catalogIds text gold).get? k = some v)
    (hno : ∀ m ∈ mentions u text, names u (catalogKeys u catalogIds) k m = true → m.1.offset ≠ v.1) :
    gold.find? (fun g => decide (norm u g = k) && decide (bareOffset u (u.fold (cleaned text)) g = some v.1)) = some v.2 := by
  rw [get?_entries] at h
  have hfind := find_of_foldl_earlier h ?_
  · simpa [List.find?_filter] using hfind
  · intro e he
    obtain ⟨m, hm, rfl⟩ := Option.map_eq_some_iff.1 he
    exact hno m (List.mem_of_find?_eq_some hm) (List.find?_some hm)

/-! ## Places -/

theorem placeAt_of_bareOffset {g : Str} {a : ℕ} (h : bareOffset u (u.fold (cleaned text)) g = some a) : PlaceAt u text g a := by
  obtain ⟨⟨x, b, hat, hlen⟩, -⟩ := bareOffset_eq_some h
  exact ⟨x, b, hat, hlen⟩

theorem bareOffset_le {g : Str} {a : ℕ} (h : PlaceAt u text g a) :
    ∃ i ≤ a, bareOffset u (u.fold (cleaned text)) g = some i := by
  obtain ⟨x, b, hat, rfl⟩ := h
  obtain ⟨i, hi⟩ := Option.isSome_iff_exists.1 (bareOffset_isSome.2 ⟨x, b, hat⟩)
  exact ⟨i, (bareOffset_eq_some hi).2 x b hat, hi⟩

theorem FirstPlace.mem {a : ℕ} {g : Str} (h : FirstPlace u text gold a g) : g ∈ gold := by
  obtain ⟨before, after, rfl, -⟩ := h.shown
  simp

/-- the gold id of a first place is the one that the code finds there -/
theorem FirstPlace.find {a : ℕ} {g : Str} (h : FirstPlace u text gold a g) :
    gold.find? (fun g' => decide (norm u g' = norm u g) && decide (bareOffset u (u.fold (cleaned text)) g' = some a)) =
      some g := by
  obtain ⟨i, hle, hi⟩ := bareOffset_le h.place
  obtain rfl : i = a := le_antisymm hle (h.least g h.mem rfl i (placeAt_of_bareOffset hi))
  obtain ⟨before, after, rfl, hbefore⟩ := h.shown
  refine List.find?_eq_some_iff_append.2 ⟨by simp [hi], before, after, rfl, fun g' hg' => ?_⟩
  by_contra hfound
  simp only [Bool.not_eq_true', Bool.not_eq_false, Bool.and_eq_true, decide_eq_true_eq] at hfound
  exact hbefore g' hg' hfound.1 (placeAt_of_bareOffset hfound.2)

/-- an id with a bare name has a first place -/
theorem exists_firstPlace {g₀ : Str} {a₀ : ℕ} (hg : g₀ ∈ gold) (h : PlaceAt u text g₀ a₀) :
    ∃ a g, FirstPlace u text gold a g ∧ norm u g = norm u g₀ ∧ a ≤ a₀ := by
  classical
  have hex : ∃ a, ∃ g ∈ gold, norm u g = norm u g₀ ∧ PlaceAt u text g a := ⟨a₀, g₀, hg, rfl, h⟩
  have hmin : ∀ g' ∈ gold, norm u g' = norm u g₀ → ∀ a', PlaceAt u text g' a' → Nat.find hex ≤ a' :=
    fun g' hg' hk a' hat => Nat.find_min' hex ⟨g', hg', hk, hat⟩
  obtain ⟨g₁, hg₁, hk₁, hat₁⟩ := Nat.find_spec hex
  have hsome : (gold.find? fun g => decide (norm u g = norm u g₀ ∧ PlaceAt u text g (Nat.find hex))).isSome := by
    rw [List.find?_isSome]
    exact ⟨g₁, hg₁, by simp [hk₁, hat₁]⟩
  obtain ⟨g, hfind⟩ := Option.isSome_iff_exists.1 hsome
  obtain ⟨hkey, before, after, hsplit, hbefore⟩ := List.find?_eq_some_iff_append.1 hfind
  obtain ⟨hk, hat⟩ := of_decide_eq_true hkey
  refine ⟨Nat.find hex, g, ⟨hat, ?_, before, after, hsplit, ?_⟩, hk, Nat.find_min' hex ⟨g₀, hg, rfl, h⟩⟩
  · rw [hk]
    exact hmin
  · intro g' hg' hk' hat'
    have hno := hbefore g' hg'
    simp [hk', hk, hat'] at hno

/-- where no character folds to nothing, the folded text is not behind -/
theorem unfoldOffset_le (hfold : ∀ c, u.casefold c ≠ []) (s : Str) (j : ℕ) : unfoldOffset u s j ≤ j := by
  induction s generalizing j with
  | nil => exact Nat.zero_le _
  | cons c s ih =>
    have hlen := List.length_pos_iff.2 (hfold c)
    rw [unfoldOffset]
    split_ifs
    · exact Nat.zero_le _
    · have := ih (j - (u.casefold c).length)
      omega

/-! ## First mentions and recorded offsets -/

theorem mentionedAt_of_place {k g : Str} (hg : g ∈ gold) (hk : norm u g = k) {a : ℕ} (h : PlaceAt u text g a) :
    MentionedAt u catalogIds text gold k (unfoldOffset u (cleaned text) a) := by
  obtain ⟨x, b, hat, rfl⟩ := h
  exact Or.inr ⟨g, hg, hk, x, b, hat, rfl⟩

/-- what is recorded is the offset of a mention or of a bare name -/
theorem recorded_cases {k : Str} {o : ℕ} (h : recorded u catalogIds text gold k = some o) :
    (∃ m ∈ mentions u text, names u (catalogKeys u catalogIds) k m = true ∧ m.1.offset = o) ∨
      ∃ g ∈ gold, norm u g = k ∧ PlaceAt u text g o := by
  rcases mem_offsets.1 (List.min?_eq_some_iff.1 h).1 with hid | ⟨g, hg, hk, j, hj, rfl⟩
  · exact Or.inl hid
  · exact Or.inr ⟨g, hg, hk, placeAt_of_bareOffset hj⟩

theorem recorded_le_mention {k : Str} {o : ℕ} (h : recorded u catalogIds text gold k = some o) {m : Cursor × Cursor}
    (hm : m ∈ mentions u text) (hn : names u (catalogKeys u catalogIds) k m = true) : o ≤ m.1.offset :=
  (List.min?_eq_some_iff.1 h).2 _ (mem_offsets.2 (Or.inl ⟨m, hm, hn, rfl⟩))

theorem recorded_le_place {k : Str} {o : ℕ} (h : recorded u catalogIds text gold k = some o) {g : Str} (hg : g ∈ gold)
    (hk : norm u g = k) {a : ℕ} (ha : PlaceAt u text g a) : o ≤ a := by
  obtain ⟨i, hi, hfound⟩ := bareOffset_le ha
  exact ((List.min?_eq_some_iff.1 h).2 _ (mem_offsets.2 (Or.inr ⟨g, hg, hk, i, hfound, rfl⟩))).trans hi

/-- nothing is recorded before its first mention -/
theorem firstMention_le_recorded (hfold : ∀ c, u.casefold c ≠ []) {k : Str} {i o : ℕ}
    (hi : firstMention u catalogIds text gold k = some i) (ho : recorded u catalogIds text gold k = some o) : i ≤ o := by
  rcases recorded_cases ho with ⟨m, hm, hn, rfl⟩ | ⟨g, hg, hk, hat⟩
  · exact (firstMention_spec hi).2 (Or.inl ⟨m, hm, hn, rfl⟩)
  · exact ((firstMention_spec hi).2 (mentionedAt_of_place hg hk hat)).trans (unfoldOffset_le hfold _ _)

/-! ## The order -/

/-- **What is overtaken is a bare name that falls behind a mention.** -/
theorem exists_fallsBehind (hfold : ∀ c, u.casefold c ≠ []) {p q : Str} (hp : p ∈ extractPredictions u catalogIds text gold)
    (hq : q ∈ extractPredictions u catalogIds text gold) (h : Overtakes u catalogIds text gold q p) :
    ∃ a g m, FallsBehind u catalogIds text gold a g m := by
  obtain ⟨i, hi, j, hj, hij, i', hi', j', hj', hnot⟩ := h
  rw [entryLe, not_or, not_and] at hnot
  have hle : j' ≤ i' := not_lt.1 hnot.1
  have hj'_le := firstMention_le_recorded hfold hj hj'
  rcases (firstMention_spec hi).1 with ⟨m, hm, hn, rfl⟩ | ⟨g₀, hg₀, hk₀, x, b, hat, rfl⟩
  · -- a mention is recorded where it stands
    have := recorded_le_mention hi' hm hn
    omega
  · obtain ⟨a, g, hfirst, hk, ha⟩ := exists_firstPlace hg₀ ⟨x, b, hat, rfl⟩
    have hkp : norm u g = norm u p := hk.trans hk₀
    have hpos : unfoldOffset u (cleaned text) a = unfoldOffset u (cleaned text) x.length :=
      le_antisymm (unfoldOffset_mono u _ ha) ((firstMention_spec hi).2 (mentionedAt_of_place hfirst.mem hkp hfirst.place))
    have hi'a := recorded_le_place hi' hfirst.mem hkp hfirst.place
    rcases recorded_cases hj' with ⟨m, hm, hn, rfl⟩ | ⟨g₁, hg₁, hk₁, hat₁⟩
    · have hkq : norm u (candidate m) = norm u q := (names_iff.1 hn).1
      refine ⟨a, g, m, hfirst, hm, ?_, ?_, fun y hy => ?_, fun m' hm' hn' => ?_, ?_⟩
      · rwa [hkq]
      · rw [hkq]
        exact (mem_predictions.1 hq).choose_spec.2
      · rw [hkq] at hy
        have := (firstMention_spec hj).2 hy
        omega
      · rw [hkp] at hn'
        exact hle.trans (recorded_le_mention hi' hm' hn')
      · rcases lt_or_eq_of_le (hle.trans hi'a) with hlt | htie
        · exact Or.inl hlt
        · obtain rfl : i' = m.1.offset := by omega
          refine Or.inr ⟨htie, ?_⟩
          -- both entries are at that offset, so they show the mention and the gold id
          obtain ⟨o, hget, -⟩ := mem_predictions.1 hp
          obtain ⟨o', hget', -⟩ := mem_predictions.1 hq
          obtain rfl : o = m.1.offset := Option.some.inj ((recorded_of_get? hget).symm.trans hi')
          obtain rfl : o' = m.1.offset := Option.some.inj ((recorded_of_get? hget').symm.trans hj')
          have hshown : q = candidate m := shown_of_mention hget' hm hn rfl
          have hother : ∀ m' ∈ mentions u text, names u (catalogKeys u catalogIds) (norm u p) m' = true →
              m'.1.offset ≠ m.1.offset := by
            intro m' hm' hn' hoff
            obtain rfl := mention_ext hm' hm hoff
            rw [(names_iff.1 hn').1.symm.trans hkq] at hi
            have := Option.some.inj (hi.symm.trans hj)
            omega
          have hfind := shown_of_bare hget hother
          rw [htie, ← hkp, hfirst.find] at hfind
          obtain rfl : g = p := Option.some.inj hfind
          rw [← hshown]
          exact not_le.1 (hnot.2 rfl)
    · -- two bare names keep their order
      have hback := unfoldOffset_mono u (cleaned text) (hle.trans hi'a)
      have hforth := (firstMention_spec hj).2 (mentionedAt_of_place hg₁ hk₁ hat₁)
      omega

/-- **A bare name that falls behind a mention is overtaken by its id.** -/
theorem FallsBehind.overtakes {a : ℕ} {g : Str} {m : Cursor × Cursor} (h : FallsBehind u catalogIds text gold a g m) :
    ∃ p ∈ extractPredictions u catalogIds text gold, ∃ q ∈ extractPredictions u catalogIds text gold,
      Overtakes u catalogIds text gold q p := by
  have hplace : MentionedAt u catalogIds text gold (norm u g) (unfoldOffset u (cleaned text) a) :=
    mentionedAt_of_place h.first.mem rfl h.first.place
  have hgold : ¬Umbrella u catalogIds text gold (norm u g) := fun hu => hu.1 (List.mem_map_of_mem h.first.mem)
  obtain ⟨p, hp, hpk⟩ := exists_prediction hplace hgold
  obtain ⟨q, hq, hqk⟩ := exists_prediction (Or.inl ⟨m, h.mention, h.counts, rfl⟩) h.kept
  obtain ⟨i, hi⟩ := prediction_mentioned hp
  obtain ⟨j, hj⟩ := prediction_mentioned hq
  obtain ⟨i', hget, -⟩ := mem_predictions.1 hp
  obtain ⟨j', hget', -⟩ := mem_predictions.1 hq
  refine ⟨p, hp, q, hq, i, hi, j, hj, ?_, i', recorded_of_get? hget, j', recorded_of_get? hget', ?_⟩
  · rw [hpk] at hi
    rw [hqk] at hj
    exact lt_of_le_of_lt ((firstMention_spec hi).2 hplace) (h.before j (firstMention_spec hj).1)
  · rw [hpk] at hget
    rw [hqk] at hget'
    have hj' := recorded_le_mention (recorded_of_get? hget') h.mention h.counts
    -- no mention of g starts where m does
    have hother : ∀ m' ∈ mentions u text, names u (catalogKeys u catalogIds) (norm u g) m' = true →
        m'.1.offset ≠ m.1.offset := by
      intro m' hm' hn' hoff
      obtain rfl := mention_ext hm' h.mention hoff
      rw [← (names_iff.1 hn').1] at hplace
      exact lt_irrefl _ (h.before _ hplace)
    have hi' : m.1.offset ≤ i' ∧ (i' = m.1.offset → a ≤ i') := by
      rcases recorded_cases (recorded_of_get? hget) with ⟨m', hm', hn', rfl⟩ | ⟨g', hg', hk', hat'⟩
      · exact ⟨h.alone m' hm' hn', fun hoff => absurd hoff (hother m' hm' hn')⟩
      · have hleast := h.first.least g' hg' hk' _ hat'
        have hmoved := h.moved
        exact ⟨by omega, fun _ => hleast⟩
    rintro (hlt | ⟨htie, hle⟩)
    · dsimp only at hlt
      omega
    · dsimp only at htie hle
      obtain rfl : i' = m.1.offset := by omega
      have hai := hi'.2 rfl
      rcases h.moved with hlt | ⟨hoff, hshown⟩
      · omega
      · have hq' : q = candidate m := shown_of_mention hget' h.mention h.counts htie.symm
        have hfind := shown_of_bare hget hother
        rw [hoff, h.first.find] at hfind
        obtain rfl : g = p := Option.some.inj hfind
        rw [hq'] at hle
        exact absurd hle (not_le.2 hshown)

end

/-- **The predictions are in the order of first mention iff no bare name falls behind a mention.** -/
theorem inOrder_iff_not_behind {u : Unicode} (hfold : ∀ c, u.casefold c ≠ []) (catalogIds : List Str) (text : Str)
    (gold : List Str) :
    InOrder u catalogIds text gold ↔ ∀ a g m, ¬FallsBehind u catalogIds text gold a g m := by
  rw [inOrder_iff]
  refine ⟨fun h a g m hbehind => ?_, fun h p hp q hq hover => ?_⟩
  · obtain ⟨p, hp, q, hq, hover⟩ := hbehind.overtakes
    exact h p hp q hq hover
  · obtain ⟨a, g, m, hbehind⟩ := exists_fallsBehind hfold hp hq hover
    exact h a g m hbehind

theorem casefold_german_ne (c : Char) : german.casefold c ≠ [] := by
  change (if c = 'ß' then "ss".toList else [c.toLower]) ≠ []
  split_ifs
  · decide
  · exact List.cons_ne_nil _ _

/-- one letter `ß` does not make the name fall behind -/
theorem inOrder_iff_not_behind_german :
    extractPredictions german [] "Maß: m2, org/m-1".toList ["x/m2".toList] = ["x/m2".toList, "org/m-1".toList] ∧
      ¬∃ a g m, FallsBehind german [] "Maß: m2, org/m-1".toList ["x/m2".toList] a g m := by
  have hp : extractPredictions german [] "Maß: m2, org/m-1".toList ["x/m2".toList] = ["x/m2".toList, "org/m-1".toList] := by
    decide +kernel
  have hbare : firstMention german [] "Maß: m2, org/m-1".toList ["x/m2".toList] (norm german "x/m2".toList) = some 5 := by
    decide +kernel
  have hid : firstMention german [] "Maß: m2, org/m-1".toList ["x/m2".toList] (norm german "org/m-1".toList) = some 9 := by
    decide +kernel
  have horder : InOrder german [] "Maß: m2, org/m-1".toList ["x/m2".toList] := by
    rw [InOrder, hp]
    refine List.pairwise_pair.2 fun i hi j hj => ?_
    rw [hbare] at hi
    rw [hid] at hj
    obtain rfl := Option.some.inj hi
    obtain rfl := Option.some.inj hj
    decide
  refine ⟨hp, ?_⟩
  rintro ⟨a, g, m, hbehind⟩
  exact (inOrder_iff_not_behind casefold_german_ne [] "Maß: m2, org/m-1".toList ["x/m2".toList]).1 horder a g m hbehind

end AgentPick.Overtaking
