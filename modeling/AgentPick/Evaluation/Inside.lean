/-
Bare names inside longer ids (`evaluation/metrics.py`, `extract_predictions`).

Offsets are those of the folded cleaned text, in which the code searches bare names; a mention has the folded text between
its ends there. A gold id is supported by a mention of it, or by an occurrence of its repo name apart from every mention.

Results:
- `no_credit_inside_iff`: every prediction of a gold id is supported, in every gold list, iff no place at which the bare
  pattern accepts the name overlaps a mention, or there is support anyway.
- `org_credited`: a gold name that is another id's org is credited from inside that id.
-/
import Mathlib.Tactic
import AgentPick.Evaluation.Credit

namespace AgentPick.Inside

open AgentPick.Text AgentPick.Regex AgentPick.Extract AgentPick.Mentions

/-- a cursor's offset in the folded text -/
def foldOffset (u : Unicode) (c : Cursor) : ℕ := (u.fold c.before.reverse).length

/-- n characters from offset i on, and a mention, have nothing in common -/
def Apart (u : Unicode) (m : Cursor × Cursor) (i n : ℕ) : Prop := i + n ≤ foldOffset u m.1 ∨ foldOffset u m.2 ≤ i

/-- the repo name of g occurs, up to case, at offset i -/
def OccursAt (u : Unicode) (text g : Str) (i : ℕ) : Prop :=
  ∃ a b, u.fold (cleaned text) = a ++ (u.fold (repoName g) ++ b) ∧ a.length = i

/-- a mention of g, or an occurrence of its repo name apart from every mention -/
def Supported (u : Unicode) (text g : Str) : Prop :=
  (∃ m ∈ mentions u text, norm u (candidate m) = norm u g) ∨
    ∃ i, OccursAt u text g i ∧ ∀ m ∈ mentions u text, Apart u m i (u.fold (repoName g)).length

/-- the bare pattern accepts the name at a place that overlaps a mention -/
def TakenInside (u : Unicode) (text g : Str) : Prop :=
  ∃ a b, BareAt (u.fold (repoName g)) (u.fold (cleaned text)) a b ∧
    ∃ m ∈ mentions u text, ¬Apart u m a.length (u.fold (repoName g)).length

/-! ## Predictions -/

theorem mem_ranked {d : Entries} {p : Str} : p ∈ ranked d ↔ ∃ k o, d.get? k = some (o, p) := by
  simp only [ranked, List.mem_map, List.mem_insertionSort, Dict.values, Dict.get?_eq_some]
  refine ⟨?_, ?_⟩
  · rintro ⟨v, ⟨e, he, rfl⟩, rfl⟩
    exact ⟨e.1, e.2.1, he⟩
  · rintro ⟨k, o, he⟩
    exact ⟨(o, p), ⟨_, he, rfl⟩, rfl⟩

theorem foldl_earlier_mem {bs : List (Option (ℕ × Str))} {a : Option (ℕ × Str)} {v : ℕ × Str}
    (h : bs.foldl earlier a = some v) : a = some v ∨ some v ∈ bs := by
  induction bs generalizing a with
  | nil => exact Or.inl h
  | cons b bs ih =>
    rcases ih h with h | h
    · rcases earlier_eq_or a b with he | he
      · exact Or.inl (he ▸ h)
      · exact Or.inr (by simp [← h, he])
    · exact Or.inr (by simp [h])

/-- a predicted id is a mention's text, or a gold id with a bare place -/
theorem source_of_prediction {u : Unicode} {catalogIds : List Str} {text : Str} {gold : List Str} {p : Str}
    (h : p ∈ extractPredictions u catalogIds text gold) :
    (∃ m ∈ mentions u text, candidate m = p) ∨
      p ∈ gold ∧ ∃ a b, BareAt (u.fold (repoName p)) (u.fold (cleaned text)) a b := by
  obtain ⟨k, o, hget⟩ := mem_ranked.1 h
  rw [dropUmbrellas_eq, Dict.get?_filterKeys] at hget
  split_ifs at hget
  rw [get?_entries] at hget
  rcases foldl_earlier_mem hget with hfirst | hgold
  · obtain ⟨m, hm, heq⟩ := Option.map_eq_some_iff.1 hfirst
    cases heq
    exact Or.inl ⟨m, List.mem_of_find?_eq_some hm, rfl⟩
  · obtain ⟨g, hg, heq⟩ := List.mem_map.1 hgold
    obtain ⟨i, hi, hp⟩ := Option.map_eq_some_iff.1 heq
    cases hp
    refine Or.inr ⟨(List.mem_filter.1 hg).1, ?_⟩
    exact bareOffset_isSome.1 (by rw [hi]; rfl)

/-- a gold id with a bare place is predicted when it is the only gold id and no mention has its key -/
theorem predicted_alone {u : Unicode} {catalogIds : List Str} {text g a b : Str}
    (hno : ∀ m ∈ mentions u text, norm u (candidate m) ≠ norm u g)
    (hat : BareAt (u.fold (repoName g)) (u.fold (cleaned text)) a b) : g ∈ extractPredictions u catalogIds text [g] := by
  obtain ⟨i, hi⟩ := Option.isSome_iff_exists.1 (bareOffset_isSome.2 ⟨a, b, hat⟩)
  have hfirst : firstNamed u (catalogKeys u catalogIds) (mentions u text) (norm u g) = none := by
    rw [firstNamed, Option.map_eq_none_iff, List.find?_eq_none]
    intro m hm hn
    exact hno m hm (names_iff.1 hn).1
  refine mem_ranked.2 ⟨norm u g, i, ?_⟩
  rw [dropUmbrellas_eq, Dict.get?_filterKeys, if_pos (by simp [isUmbrella, goldKeys]), get?_entries, hfirst]
  simp [hi, earlier]

/-- **Credit from inside another id.** -/
theorem no_credit_inside_iff (u : Unicode) (catalogIds : List Str) (text g : Str) :
    (∀ gold, g ∈ gold → g ∈ extractPredictions u catalogIds text gold → Supported u text g) ↔
      (TakenInside u text g → Supported u text g) := by
  refine ⟨fun h => ?_, fun h gold _ hp => ?_⟩
  · rintro ⟨a, b, hat, -⟩
    by_cases hm : ∃ m ∈ mentions u text, norm u (candidate m) = norm u g
    · exact Or.inl hm
    · push Not at hm
      exact h [g] (by simp) (predicted_alone hm hat)
  · rcases source_of_prediction hp with ⟨m, hm, rfl⟩ | ⟨-, a, b, hat⟩
    · exact Or.inl ⟨m, hm, rfl⟩
    · -- the place is apart from every mention, or taken inside one
      by_cases hall : ∀ m ∈ mentions u text, Apart u m a.length (u.fold (repoName g)).length
      · exact Or.inr ⟨a.length, ⟨a, b, hat.split, rfl⟩, hall⟩
      · push Not at hall
        exact h ⟨a, b, hat, hall⟩

/-- **The whole org part is taken for a bare name.** -/
theorem org_credited :
    "openai/whisper".toList ∈ extractPredictions .ascii [] "whisper/large-v3".toList ["openai/whisper".toList] ∧
      ¬Supported .ascii "whisper/large-v3".toList "openai/whisper".toList := by
  have hmentions : mentions .ascii "whisper/large-v3".toList = [(⟨[], "whisper/large-v3".toList⟩,
    ⟨"whisper/large-v3".toList.reverse, []⟩)] := by decide +kernel
  have hfold : Unicode.ascii.fold (cleaned "whisper/large-v3".toList) = "whisper/large-v3".toList := by decide +kernel
  have hrepo : Unicode.ascii.fold (repoName "openai/whisper".toList) = "whisper".toList := by decide
  refine ⟨by decide +kernel, fun h => ?_⟩
  unfold Supported OccursAt at h
  rw [hmentions, hfold, hrepo] at h
  rcases h with ⟨m, hm, hnorm⟩ | ⟨i, ⟨a, b, hab, rfl⟩, hall⟩
  · obtain rfl := List.mem_singleton.1 hm
    exact absurd hnorm (by decide)
  · have hapart := hall _ (List.mem_singleton_self _)
    cases a with
    | nil => exact absurd hapart (by unfold Apart foldOffset; decide)
    | cons x a =>
      -- there is no other w in the text
      have hw : 'w' ∈ "hisper/large-v3".toList := by
        rw [show "hisper/large-v3".toList = a ++ ("whisper".toList ++ b) from (List.cons.inj hab).2]
        simp
      exact absurd hw (by decide)

/-! ## Where a bare name overlaps a mention -/

theorem idChar_toLower {c : Char} (h : idChar c = true) : idChar c.toLower = true :=
  idChar_forall (P := fun c => idChar c.toLower = true) (by decide) h

/-- the folded text around a mention -/
theorem fold_around {u : Unicode} {text : Str} {m : Cursor × Cursor} {w : Str} (htext : m.1.text = cleaned text)
    (hspan : Spans m.1 w m.2) :
    u.fold (cleaned text) = u.fold m.1.before.reverse ++ (u.fold w ++ u.fold m.2.after) ∧
      foldOffset u m.2 = foldOffset u m.1 + (u.fold w).length := by
  refine ⟨by rw [← htext, hspan.text_eq, Unicode.fold_append, Unicode.fold_append, List.append_assoc], ?_⟩
  rw [foldOffset, foldOffset, hspan.2, List.reverse_append, List.reverse_reverse, Unicode.fold_append, List.length_append]

end AgentPick.Inside
