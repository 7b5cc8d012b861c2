/-
Family keys (`backend/src/catalog.py`, `_QUANT_TOKENS` to `_family_key`).

The key of an id is its repo part in lower case, cut into tokens, without the format markers, and joined by hyphens; the
prefix `meta-llama-` of the joined text becomes `llama-`. `compared` are the tokens before they are joined, `renamed` is the
replacement on tokens.

Results:
- `stripMeta_join`: the replacement in the joined text is the one on its tokens.
- `familyKey_eq`: a key is the joined tokens.
- `familyKey_iff`: two ids have one key iff their tokens are the same after the replacement.
- `compared_around`, `compared_insert`: which separators stand between tokens does not matter, nor do format markers.
- `familyKey_idem`: a key is its own key.
-/
import Mathlib.Tactic
import AgentPick.Catalog.Ids
import AgentPick.Core.Tokens

namespace AgentPick.FamilyKey

open AgentPick.Text AgentPick.Catalog AgentPick.Tokens

/-- ASCII characters only -/
def IsAscii (s : Str) : Prop := ∀ c ∈ s, c.toNat < 128

instance (s : Str) : Decidable (IsAscii s) := List.decidableBAll (fun c : Char => c.toNat < 128) s

/-- the tokens of a repo part that are compared -/
def compared (repo : Str) : List Str := (idTokens (repo.map Char.toLower)).filter (!quantTokens.contains ·)

/-- a leading meta, llama becomes llama when a token follows -/
def renamed (ts : List Str) : List Str :=
  if ["meta".toList, "llama".toList] <+: ts ∧ 2 < ts.length then ts.tail else ts

/-! ## Tokens -/

theorem idTokens_eq (s : Str) : idTokens s = tokens isIdSeparator s := rfl

theorem isIdSeparator_toLower {c : Char} (hc : c.toNat < 128) : isIdSeparator c.toLower = isIdSeparator c :=
  Unicode.ascii_forall (P := fun c => isIdSeparator c.toLower = isIdSeparator c) (by decide) hc

theorem toLower_toLower {c : Char} (hc : c.toNat < 128) : c.toLower.toLower = c.toLower ∧ c.toLower.toNat < 128 :=
  Unicode.ascii_forall (P := fun c => c.toLower.toLower = c.toLower ∧ c.toLower.toNat < 128) (by decide) hc

theorem toNat_of_isIdSeparator {c : Char} (h : isIdSeparator c = true) : c.toNat < 128 := by
  simp only [isIdSeparator, Bool.or_eq_true, decide_eq_true_eq] at h
  rcases h with ((rfl | rfl) | rfl) | rfl <;> decide

theorem map_toLower_separators {s : Str} (hs : ∀ c ∈ s, isIdSeparator c = true) :
    ∀ c ∈ s.map Char.toLower, isIdSeparator c = true := by
  intro c hc
  obtain ⟨d, hd, rfl⟩ := List.mem_map.1 hc
  rw [isIdSeparator_toLower (toNat_of_isIdSeparator (hs d hd)), hs d hd]

theorem word_of_mem_compared {repo t : Str} (h : t ∈ compared repo) :
    Word isIdSeparator t ∧ (∀ c ∈ t, c ∈ repo.map Char.toLower) ∧ t ∉ quantTokens := by
  obtain ⟨hmem, hq⟩ := List.mem_filter.1 h
  obtain ⟨hword, hsub⟩ := word_of_mem_tokens hmem
  exact ⟨hword, hsub, by simpa using hq⟩

theorem renamed_cases (ts : List Str) :
    (∃ t rest, ts = "meta".toList :: "llama".toList :: t :: rest ∧ renamed ts = "llama".toList :: t :: rest) ∨
      renamed ts = ts ∧ ¬∃ t rest, ts = "meta".toList :: "llama".toList :: t :: rest := by
  by_cases h : ["meta".toList, "llama".toList] <+: ts ∧ 2 < ts.length
  · obtain ⟨⟨rest, rfl⟩, hlen⟩ := h
    cases rest with
    | nil => simp at hlen
    | cons t rest => exact Or.inl ⟨t, rest, rfl, rfl⟩
  · refine Or.inr ⟨if_neg h, ?_⟩
    rintro ⟨t, rest, rfl⟩
    exact h ⟨⟨t :: rest, rfl⟩, by simp⟩

theorem mem_renamed {ts : List Str} {t : Str} (h : t ∈ renamed ts) : t ∈ ts := by
  rcases renamed_cases ts with ⟨x, rest, rfl, hren⟩ | ⟨hren, -⟩
  · rw [hren] at h
    exact List.mem_cons_of_mem _ h
  · rwa [hren] at h

theorem renamed_renamed (ts : List Str) : renamed (renamed ts) = renamed ts := by
  rcases renamed_cases ts with ⟨x, rest, rfl, hren⟩ | ⟨hren, -⟩
  · rw [hren]
    rcases renamed_cases ("llama".toList :: x :: rest) with ⟨y, rest', heq, -⟩ | ⟨hren', -⟩
    · exact absurd (List.cons.inj heq).1 (by decide)
    · exact hren'
  · rw [hren, hren]

/-! ## Keys -/

/-- **The replacement in the joined text is the one on its tokens.** -/
theorem stripMeta_join {ts : List Str} (h : ∀ t ∈ ts, Word isIdSeparator t) :
    stripMeta (['-'].intercalate ts) = ['-'].intercalate (renamed ts) := by
  have hsep : isIdSeparator '-' = true := rfl
  rcases renamed_cases ts with ⟨t, rest, rfl, hren⟩ | ⟨hren, hno⟩
  · rw [hren]
    have hjoin : ['-'].intercalate ("meta".toList :: "llama".toList :: t :: rest) =
        "meta-llama-".toList ++ ['-'].intercalate (t :: rest) := by
      rw [List.intercalate_cons_cons, List.intercalate_cons_cons]
      rfl
    rw [hjoin, stripMeta, if_pos (List.prefix_append _ _), List.intercalate_cons_cons]
    rfl
  · rw [hren, stripMeta, if_neg]
    rintro ⟨r, hr⟩
    -- the tokens would begin with meta, llama
    have hts : ts = "meta".toList :: "llama".toList :: tokens isIdSeparator r := by
      have hcut : tokens isIdSeparator ("meta-llama-".toList ++ r) = "meta".toList :: "llama".toList :: tokens isIdSeparator r := by
        rw [show "meta-llama-".toList ++ r = "meta".toList ++ '-' :: ("llama".toList ++ '-' :: r) from rfl,
          tokens_append_cons hsep, tokens_append_cons hsep]
        rfl
      rw [← hcut, hr, tokens_join hsep h]
    cases hrest : tokens isIdSeparator r with
    | cons t rest => exact hno ⟨t, rest, by rw [hts, hrest]⟩
    | nil =>
      rw [hts, hrest] at hr
      have hlen : 11 + r.length = 10 := by simpa using congrArg List.length hr
      omega

/-- an id with an ASCII repo part -/
theorem familyKey_eq (u : Unicode) {org repo : Str} (horg : '/' ∉ org) (hrepo : IsAscii repo) :
    familyKey u (org ++ '/' :: repo) = ['-'].intercalate (renamed (compared repo)) := by
  have hpart : repoOf (org ++ '/' :: repo) = repo := by
    rw [repoOf, if_pos (by simp), (span_ne horg repo).2]
    rfl
  rw [familyKey, hpart, u.lower_ascii repo hrepo]
  exact stripMeta_join fun t ht => (word_of_mem_compared ht).1

/-- **Two ids have one key iff their tokens are the same after the replacement.** -/
theorem familyKey_iff (u : Unicode) {org repo org' repo' : Str} (horg : '/' ∉ org) (hrepo : IsAscii repo)
    (horg' : '/' ∉ org') (hrepo' : IsAscii repo') :
    familyKey u (org ++ '/' :: repo) = familyKey u (org' ++ '/' :: repo') ↔ renamed (compared repo) = renamed (compared repo') := by
  rw [familyKey_eq u horg hrepo, familyKey_eq u horg' hrepo']
  refine join_inj (p := isIdSeparator) rfl ?_ ?_
  · intro t ht
    exact (word_of_mem_compared (mem_renamed ht)).1
  · intro t ht
    exact (word_of_mem_compared (mem_renamed ht)).1

/-! ## What does not matter -/

theorem compared_eq (repo : Str) :
    compared repo = (tokens isIdSeparator (repo.map Char.toLower)).filter (!quantTokens.contains ·) := rfl

/-- which separators stand between tokens does not matter -/
theorem compared_around {x s y : Str} (hne : s ≠ []) (hs : ∀ c ∈ s, isIdSeparator c = true) :
    compared (x ++ s ++ y) = compared x ++ compared y := by
  have hlow : s.map Char.toLower ≠ [] := by simpa using hne
  simp only [compared_eq, List.map_append]
  rw [tokens_around hlow (map_toLower_separators hs), List.filter_append]

/-- a format marker is not compared -/
theorem compared_marker {t : Str} (ht : t.map Char.toLower ∈ quantTokens) : compared t = [] := by
  have hall : ∀ q ∈ quantTokens, tokens isIdSeparator q = [q] := by decide
  rw [compared_eq, hall _ ht]
  simp [ht]

@[simp] theorem compared_nil : compared [] = [] := rfl

/-- what stands at the edge of a token: nothing on one side, or a separator between -/
def Cut (x s y : Str) : Prop := (∀ c ∈ s, isIdSeparator c = true) ∧ (s = [] → x = [] ∨ y = [])

theorem compared_cut {x s y : Str} (h : Cut x s y) : compared (x ++ s ++ y) = compared x ++ compared y := by
  by_cases hs : s = []
  · subst hs
    rcases h.2 rfl with rfl | rfl <;> simp
  · exact compared_around hs h.1

/-- a format marker may stand at any cut -/
theorem compared_insert {x s t s' y : Str} (ht : t.map Char.toLower ∈ quantTokens) (hs : Cut x s (t ++ s' ++ y))
    (hs' : Cut t s' y) : compared (x ++ s ++ (t ++ s' ++ y)) = compared x ++ compared y := by
  rw [compared_cut hs, compared_cut hs', compared_marker ht, List.nil_append]

/-- **A key is its own key.** -/
theorem familyKey_idem (u : Unicode) {org repo : Str} (horg : '/' ∉ org) (hrepo : IsAscii repo) :
    familyKey u (familyKey u (org ++ '/' :: repo)) = familyKey u (org ++ '/' :: repo) := by
  rw [familyKey_eq u horg hrepo]
  have hts : ∀ t ∈ renamed (compared repo),
      Word isIdSeparator t ∧ (∀ c ∈ t, c ∈ repo.map Char.toLower) ∧ t ∉ quantTokens :=
    fun t ht => word_of_mem_compared (mem_renamed ht)
  generalize hgen : renamed (compared repo) = ts at hts
  -- the characters of the key are hyphens, and those of the lower-cased repo part
  have hchars : ∀ c ∈ ['-'].intercalate ts, c ≠ '/' ∧ c.toLower = c ∧ c.toNat < 128 := by
    intro c hc
    rcases mem_join hc with rfl | ⟨t, ht, hct⟩
    · decide
    · obtain ⟨hword, hsub, -⟩ := hts t ht
      obtain ⟨d, hd, rfl⟩ := List.mem_map.1 (hsub c hct)
      refine ⟨?_, toLower_toLower (hrepo d hd)⟩
      intro hslash
      have hin := hword.inside _ hct
      rw [hslash] at hin
      cases hin
  have hslash : '/' ∉ ['-'].intercalate ts := fun hmem => (hchars _ hmem).1 rfl
  have hlow : u.lower (['-'].intercalate ts) = ['-'].intercalate ts := by
    rw [u.lower_ascii _ fun c hc => (hchars c hc).2.2]
    exact (List.map_congr_left fun c hc => (hchars c hc).2.1).trans (List.map_id _)
  have htokens : (idTokens (['-'].intercalate ts)).filter (!quantTokens.contains ·) = ts := by
    rw [idTokens_eq, tokens_join rfl fun t ht => (hts t ht).1]
    exact List.filter_eq_self.2 fun t ht => by simpa using (hts t ht).2.2
  rw [familyKey, repoOf, if_neg hslash, hlow, htokens, stripMeta_join fun t ht => (hts t ht).1, ← hgen, renamed_renamed]

/-- **The family key identifies exactly the ids that differ in format.** -/
theorem family_key_ok (u : Unicode) {org repo : Str} (horg : '/' ∉ org) (hrepo : IsAscii repo) :
    (∀ org' repo', '/' ∉ org' → IsAscii repo' →
      (familyKey u (org ++ '/' :: repo) = familyKey u (org' ++ '/' :: repo') ↔
        renamed (compared repo) = renamed (compared repo'))) ∧
    (∀ org', '/' ∉ org' → familyKey u (org' ++ '/' :: repo) = familyKey u (org ++ '/' :: repo)) ∧
    (∀ repo', IsAscii repo' → repo'.map Char.toLower = repo.map Char.toLower →
      familyKey u (org ++ '/' :: repo') = familyKey u (org ++ '/' :: repo)) ∧
    (∀ x s s' y, repo = x ++ s ++ y → s ≠ [] → s' ≠ [] → (∀ c ∈ s, isIdSeparator c = true) →
      (∀ c ∈ s', isIdSeparator c = true) →
      familyKey u (org ++ '/' :: (x ++ s' ++ y)) = familyKey u (org ++ '/' :: repo)) ∧
    (∀ x s y s₁ t s₂, repo = x ++ s ++ y → Cut x s y → IsAscii t → t.map Char.toLower ∈ quantTokens →
      Cut x s₁ (t ++ s₂ ++ y) → Cut t s₂ y →
      familyKey u (org ++ '/' :: (x ++ s₁ ++ (t ++ s₂ ++ y))) = familyKey u (org ++ '/' :: repo)) ∧
    familyKey u (familyKey u (org ++ '/' :: repo)) = familyKey u (org ++ '/' :: repo) := by
  have hsep : ∀ {s : Str}, (∀ c ∈ s, isIdSeparator c = true) → IsAscii s :=
    fun hs c hc => toNat_of_isIdSeparator (hs c hc)
  refine ⟨fun org' repo' horg' hrepo' => familyKey_iff u horg hrepo horg' hrepo', fun org' horg' => ?_,
    fun repo' hrepo' hcase => ?_, fun x s s' y hsplit hne hne' hs hs' => ?_,
    fun x s y s₁ t s₂ hsplit hcut ht hmark hcut₁ hcut₂ => ?_, familyKey_idem u horg hrepo⟩
  · rw [familyKey_eq u horg hrepo, familyKey_eq u horg' hrepo]
  · rw [familyKey_eq u horg hrepo, familyKey_eq u horg hrepo', compared, compared, hcase]
  · subst hsplit
    have hascii : IsAscii (x ++ s' ++ y) := by
      intro c hc
      simp only [List.mem_append] at hc
      rcases hc with (hc | hc) | hc
      · exact hrepo c (by simp [hc])
      · exact hsep hs' c hc
      · exact hrepo c (by simp [hc])
    rw [familyKey_eq u horg hrepo, familyKey_eq u horg hascii, compared_around hne hs, compared_around hne' hs']
  · subst hsplit
    have hascii : IsAscii (x ++ s₁ ++ (t ++ s₂ ++ y)) := by
      intro c hc
      simp only [List.mem_append] at hc
      rcases hc with (hc | hc) | (hc | hc) | hc
      · exact hrepo c (by simp [hc])
      · exact hsep hcut₁.1 c hc
      · exact ht c hc
      · exact hsep hcut₂.1 c hc
      · exact hrepo c (by simp [hc])
    rw [familyKey_eq u horg hrepo, familyKey_eq u horg hascii, compared_cut hcut, compared_insert hmark hcut₁ hcut₂]

/-- an old spelling with a format marker, and a new one -/
theorem family_key_ok_llama :
    familyKey .ascii ("meta-llama".toList ++ '/' :: "Meta-Llama-3-8B-GGUF".toList) =
      familyKey .ascii ("someone".toList ++ '/' :: "llama_3.8b".toList) := by
  have horg : '/' ∉ "meta-llama".toList := by decide
  have hrepo : IsAscii "Meta-Llama-3-8B-GGUF".toList := by decide
  exact ((family_key_ok .ascii horg hrepo).1 "someone".toList "llama_3.8b".toList (by decide) (by decide)).2 (by decide)

end AgentPick.FamilyKey
