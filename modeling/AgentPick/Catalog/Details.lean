/-
One model, looked up by its id (`backend/src/catalog.py`, `get_model_details`), and what the other two tools tell about it.

All three shape rows of the same table. A search falls back to the bare id for a model without a row, and its excerpt is that of a
chunk; a filter shows the start of the card.

Results:
- `strip_start`: the stripped start of a text is a start of the stripped text.
- `tools_agree`: what any tool shows about a model is what its details say, or the bare id if there are none; the excerpt that a
  filter shows is a start of the card that the details show.
-/
import AgentPick.Catalog.Flags
import AgentPick.Catalog.FilterCall

namespace AgentPick.Catalog

open AgentPick.Text AgentPick.Flags

/-! ## Details -/

/-- `_CARD_FULL_CHARS` -/
def cardFullChars : ℕ := 4000

/-- what `get_model_details` returns: a shaped row with two more keys, if they have a value -/
structure Detail where
  item : Item
  libraryName : Option Str
  modelCard : Option Str
deriving DecidableEq, Repr

/-- `get_model_details` -/
def getModelDetails (u : Unicode) (t : Models) (modelId : Str) : Option Detail :=
  (t.get? modelId).map fun row =>
    ⟨shape u modelId row none, nonEmpty row.libraryName, nonEmpty (some (strip ((row.modelCard.getD []).take cardFullChars)))⟩

/-- what an item says about its model, the excerpt apart -/
def Item.facts (i : Item) : Item := { i with cardExcerpt := none }

/-! ## Excerpts -/

theorem rdropWhile_append_start (p : Char → Bool) (s rest : Str) : s.rdropWhile p <+: (s ++ rest).rdropWhile p := by
  induction rest using List.reverseRecOn with
  | nil => rw [List.append_nil]
  | append_singleton rest c ih =>
    rw [← List.append_assoc, List.rdropWhile_concat]
    split_ifs
    · exact ih
    · exact (List.rdropWhile_prefix p s).trans (by rw [List.append_assoc]; exact List.prefix_append _ _)

/-- **The stripped start of a text is a start of the stripped text.** -/
theorem strip_start {s t : Str} (h : s <+: t) : strip s <+: strip t := by
  obtain ⟨rest, rfl⟩ := h
  by_cases hblank : ∀ c ∈ s, isSpace c
  · rw [strip_eq_nil.2 hblank]
    exact List.nil_prefix
  · have hdrop : (s ++ rest).dropWhile isSpace = s.dropWhile isSpace ++ rest := by
      rw [List.dropWhile_append, if_neg]
      rw [List.isEmpty_iff, List.dropWhile_eq_nil_iff]
      exact hblank
    rw [strip, strip, hdrop]
    exact rdropWhile_append_start _ _ _

theorem cardExcerpt_start (row : ModelRow) : cardExcerpt row <+: strip ((row.modelCard.getD []).take cardFullChars) :=
  strip_start (List.take_prefix_take_left (by decide))

/-! ## The tools agree -/

variable {u : Unicode} {product : ℚ → Option ℚ} {t : Models}

/-- a model of a filter has a row -/
theorem row_of_filtered {a : Args} {r : Filtered} (h : filterModelsCall u product t a = some r) {i : Item} (hi : i ∈ r.models) :
    ∃ id row, t.get? id = some row ∧ i = shape u id row (some (cardExcerpt row)) := by
  rw [filterModelsCall] at h
  split_ifs at h
  obtain ⟨sparse, -, heq⟩ := filterModels_eq u (fun b => (product b).getD 0) t a
  rw [heq] at h
  cases h
  obtain ⟨e, he, rfl⟩ := List.mem_map.1 hi
  have hmatch := (List.mem_insertionSort _).1 (List.mem_of_mem_take he)
  exact ⟨e.1, e.2, Dict.get?_eq_some.2 (mem_selectWhere.1 hmatch).1, rfl⟩

/-- a result of a search is shaped from its row, or bare -/
theorem facts_of_search {S : Type} [LinearOrder S] {points : List (Point S)} {limit : ℤ} {i : Item}
    (hi : i ∈ semanticSearch u (some t) points limit) :
    ∃ id, i.modelId = some id ∧ i.facts = (getModelDetails u t id).elim (bare id) Detail.item := by
  rw [semanticSearch_eq_shown] at hi
  obtain ⟨e, he, rfl⟩ := List.mem_map.1 hi
  have hranked := (mem_shown u (some t) points _ he).1
  refine ⟨e.1, entry_modelId u (some t) points hranked, ?_⟩
  have hfacts : (entry (metadata u (some t) (ranked points)) e).facts =
      (((metadata u (some t) (ranked points)).get? e.1).getD (bare e.1)).facts := by
    rw [entry]
    split_ifs <;> rfl
  rw [hfacts, get?_metadata u (some t) points (mem_ranked.1 hranked).1, getModelDetails, Option.bind_some]
  cases t.get? e.1 with
  | none => rfl
  | some row => rfl

/-- without the table a search shows bare ids -/
theorem facts_of_outage {S : Type} [LinearOrder S] {points : List (Point S)} {limit : ℤ} {i : Item}
    (hi : i ∈ semanticSearch u none points limit) : ∃ id, i.modelId = some id ∧ i.facts = bare id := by
  rw [semanticSearch_eq_shown] at hi
  obtain ⟨e, he, rfl⟩ := List.mem_map.1 hi
  have hranked := (mem_shown u none points _ he).1
  refine ⟨e.1, entry_modelId u none points hranked, ?_⟩
  have hnone := get?_metadata u none points (mem_ranked.1 hranked).1
  rw [entry, hnone]
  split_ifs <;> rfl

/-- what the tools show of a table -/
inductive Shown (u : Unicode) (product : ℚ → Option ℚ) (t : Models) : Item → Prop where
  | filtered {a : Args} {r : Filtered} {i : Item} (hr : filterModelsCall u product t a = some r) (hi : i ∈ r.models) :
      Shown u product t i
  | found {points : List (Point ℚ)} {limit : ℤ} {i : Item} (hi : i ∈ semanticSearch u (some t) points limit) : Shown u product t i

/-- **What any tool shows about a model is what its details say**, or the bare id if there are none; and an excerpt that a filter
shows is a start of the card in the details. -/
theorem tools_agree {i : Item} (h : Shown u product t i) {id : Str} (hid : i.modelId = some id) :
    i.facts = (getModelDetails u t id).elim (bare id) Detail.item ∧
      ∀ a r, filterModelsCall u product t a = some r → i ∈ r.models →
        ∀ e, i.cardExcerpt = some e → ∃ d card, getModelDetails u t id = some d ∧ d.modelCard = some card ∧ e <+: card := by
  have hfound : ∀ {a r}, filterModelsCall u product t a = some r → i ∈ r.models →
      ∃ row, t.get? id = some row ∧ i = shape u id row (some (cardExcerpt row)) := by
    intro a r hr hi
    obtain ⟨id', row, hrow, rfl⟩ := row_of_filtered hr hi
    have hmodel : nonEmpty (some id') = some id := hid
    have hsame : id' = id := Option.some.inj (Option.filter_eq_some_iff.1 hmodel).1
    exact ⟨row, hsame ▸ hrow, by rw [hsame]⟩
  constructor
  · cases h with
    | filtered hr hi =>
      obtain ⟨row, hrow, rfl⟩ := hfound hr hi
      rw [getModelDetails, hrow]
      rfl
    | found hi =>
      obtain ⟨id', hid', hfacts⟩ := facts_of_search hi
      rw [hid] at hid'
      cases hid'
      exact hfacts
  · intro a r hr hi e he
    obtain ⟨row, hrow, rfl⟩ := hfound hr hi
    have hexcerpt : nonEmpty (some (cardExcerpt row)) = some e := he
    obtain ⟨hcard, hne⟩ := Option.filter_eq_some_iff.1 hexcerpt
    have hstart : e <+: strip ((row.modelCard.getD []).take cardFullChars) := Option.some.inj hcard ▸ cardExcerpt_start row
    have hfull : nonEmpty (some (strip ((row.modelCard.getD []).take cardFullChars))) =
        some (strip ((row.modelCard.getD []).take cardFullChars)) := by
      refine Option.filter_eq_some_iff.2 ⟨rfl, ?_⟩
      have hnonempty : e ≠ [] := by simpa using hne
      have hlonger : strip ((row.modelCard.getD []).take cardFullChars) ≠ [] := fun hnil =>
        hnonempty (List.prefix_nil.1 (hnil ▸ hstart))
      simpa using hlonger
    rw [getModelDetails, hrow]
    exact ⟨_, _, rfl, hfull, hstart⟩

/-- a row with a card that begins with a blank -/
def talkRow : ModelRow :=
  ⟨some 7, none, some "text-generation".toList, some "transformers".toList, none, none, some ["chat".toList], none, none, none,
    some " A chat model.".toList⟩

def talkTable : Models := ⟨[("org/talk".toList, talkRow)], List.nodup_singleton _⟩

def talkItem : Item := shape .ascii "org/talk".toList talkRow (some (cardExcerpt talkRow))

theorem tools_agree_talk :
    talkItem.facts = (getModelDetails .ascii talkTable "org/talk".toList).elim (bare "org/talk".toList) Detail.item ∧
      ∀ a r, filterModelsCall .ascii some talkTable a = some r → talkItem ∈ r.models →
        ∀ e, talkItem.cardExcerpt = some e →
          ∃ d card, getModelDetails .ascii talkTable "org/talk".toList = some d ∧ d.modelCard = some card ∧ e <+: card := by
  have hr : filterModelsCall .ascii some talkTable ⟨none, none, some "talk".toList, none, none, none, 8⟩ =
      some ⟨[talkItem], 1, []⟩ := by decide
  exact tools_agree (.filtered hr (List.mem_singleton.2 rfl)) (by decide)

end AgentPick.Catalog
