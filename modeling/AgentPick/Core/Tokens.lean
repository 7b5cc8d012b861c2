/-
Cutting a list at separators. LIBRARY: nothing in this file names the pipeline.

`tokens p s` are the pieces of s between the elements that satisfy p, without the empty ones, so that a run of separators
counts as one. `Word p` says what a piece is.

- `word_of_mem_tokens`: every piece is a word.
- `tokens_append_cons`, `tokens_around`: a separator, or a run of them, cuts.
- `tokens_join`: words joined by a separator are cut into these words again; `join_inj`: so joining words is injective.
-/
import Mathlib.Tactic

namespace AgentPick.Tokens

variable {α : Type} {p : α → Bool}

/-- the pieces between separators that are not empty -/
def tokens (p : α → Bool) (s : List α) : List (List α) := (s.splitOnP p).filter (· ≠ [])

/-- not empty, and without a separator -/
structure Word (p : α → Bool) (t : List α) : Prop where
  ne_nil : t ≠ []
  inside : ∀ c ∈ t, p c = false

@[simp] theorem tokens_nil : tokens p [] = [] := by simp [tokens]

theorem tokens_append_cons {c : α} (hc : p c = true) (x y : List α) :
    tokens p (x ++ c :: y) = tokens p x ++ tokens p y := by
  rw [tokens, List.splitOnP_append_cons x y hc, List.filter_append]
  rfl

theorem tokens_separators_append {s : List α} (hs : ∀ c ∈ s, p c = true) (y : List α) : tokens p (s ++ y) = tokens p y := by
  induction s with
  | nil => rfl
  | cons c s ih =>
    have hcut := tokens_append_cons (hs c (by simp)) [] (s ++ y)
    rw [tokens_nil, List.nil_append, List.nil_append] at hcut
    rw [List.cons_append, hcut]
    exact ih fun x hx => hs x (by simp [hx])

/-- a run of separators cuts -/
theorem tokens_around {s : List α} (hne : s ≠ []) (hs : ∀ c ∈ s, p c = true) (x y : List α) :
    tokens p (x ++ s ++ y) = tokens p x ++ tokens p y := by
  obtain ⟨c, s, rfl⟩ := List.exists_cons_of_ne_nil hne
  rw [List.append_assoc, List.cons_append, tokens_append_cons (hs c (by simp)),
    tokens_separators_append fun d hd => hs d (by simp [hd])]

theorem Word.tokens {t : List α} (h : Word p t) : tokens p t = [t] := by
  simp [Tokens.tokens, List.splitOnP_eq_singleton h.inside, h.ne_nil]

/-- the elements up to the first separator, if there is one -/
theorem exists_cut (p : α → Bool) (s : List α) :
    (∀ c ∈ s, p c = false) ∨ ∃ x c y, s = x ++ c :: y ∧ (∀ d ∈ x, p d = false) ∧ p c = true := by
  induction s with
  | nil => simp
  | cons a s ih =>
    by_cases ha : p a = true
    · exact Or.inr ⟨[], a, s, rfl, by simp, ha⟩
    · rcases ih with hall | ⟨x, c, y, rfl, hx, hc⟩
      · exact Or.inl (List.forall_mem_cons.2 ⟨by simpa using ha, hall⟩)
      · exact Or.inr ⟨a :: x, c, y, rfl, List.forall_mem_cons.2 ⟨by simpa using ha, hx⟩, hc⟩

theorem mem_tokens_of_inside {s t : List α} (hs : ∀ c ∈ s, p c = false) (h : t ∈ tokens p s) : t = s ∧ s ≠ [] := by
  by_cases hne : s = []
  · rw [hne, tokens_nil] at h
    cases h
  · rw [Word.tokens ⟨hne, hs⟩, List.mem_singleton] at h
    exact ⟨h, hne⟩

/-- **Every piece is a word**, made of elements of the list. -/
theorem word_of_mem_tokens {s t : List α} (h : t ∈ tokens p s) : Word p t ∧ ∀ c ∈ t, c ∈ s := by
  induction hn : s.length using Nat.strongRecOn generalizing s with
  | ind n ih =>
    rcases exists_cut p s with hall | ⟨x, c, y, rfl, hx, hc⟩
    · obtain ⟨rfl, hne⟩ := mem_tokens_of_inside hall h
      exact ⟨⟨hne, hall⟩, fun c hc => hc⟩
    · rw [tokens_append_cons hc, List.mem_append] at h
      rcases h with h | h
      · obtain ⟨rfl, hne⟩ := mem_tokens_of_inside hx h
        exact ⟨⟨hne, hx⟩, fun d hd => by simp [hd]⟩
      · have hlt : y.length < n := by
          rw [← hn, List.length_append, List.length_cons]
          omega
        obtain ⟨hword, hsub⟩ := ih y.length hlt h rfl
        exact ⟨hword, fun d hd => by simp [hsub d hd]⟩

/-! ## Joining -/

/-- **Words that are joined by a separator are cut into these words again.** -/
theorem tokens_join {c : α} (hc : p c = true) {ts : List (List α)} (h : ∀ t ∈ ts, Word p t) :
    tokens p ([c].intercalate ts) = ts := by
  induction ts with
  | nil => exact tokens_nil
  | cons t ts ih =>
    have ht := h t (by simp)
    have ih := ih fun t' ht' => h t' (by simp [ht'])
    cases ts with
    | nil => simpa using ht.tokens
    | cons t' ts =>
      rw [List.intercalate_cons_cons, List.append_assoc, List.singleton_append, tokens_append_cons hc, ht.tokens, ih,
        List.singleton_append]

/-- joining words is injective -/
theorem join_inj {c : α} (hc : p c = true) {ts ts' : List (List α)} (h : ∀ t ∈ ts, Word p t) (h' : ∀ t ∈ ts', Word p t) :
    [c].intercalate ts = [c].intercalate ts' ↔ ts = ts' := by
  refine ⟨fun heq => ?_, fun heq => by rw [heq]⟩
  rw [← tokens_join hc h, heq, tokens_join hc h']

/-- the elements of a joined list are those of its words, and the separator -/
theorem mem_join {c d : α} {ts : List (List α)} (h : d ∈ [c].intercalate ts) : d = c ∨ ∃ t ∈ ts, d ∈ t := by
  induction ts with
  | nil => cases h
  | cons t ts ih =>
    cases ts with
    | nil => exact Or.inr ⟨t, by simp, by simpa using h⟩
    | cons t' ts =>
      rw [List.intercalate_cons_cons, List.append_assoc, List.mem_append, List.mem_append, List.mem_singleton] at h
      rcases h with h | h | h
      · exact Or.inr ⟨t, by simp, h⟩
      · exact Or.inl h
      · rcases ih h with hc | ⟨w, hw, hd⟩
        · exact Or.inl hc
        · exact Or.inr ⟨w, List.mem_cons_of_mem _ hw, hd⟩

end AgentPick.Tokens
