/-
The sparse-tag warning of `filter_models` (`backend/src/catalog.py`).

The warning says that a tag filter "matched only N of the whole catalog". The number that is compared with
`_SPARSE_TAG_THRESHOLD`, and that is N, is `total_matches`: it counts the rows that satisfy the task, the name and the sizes
of the request as well. `carriers` are the rows of the whole catalog that carry the tag, test artifacts aside.

Results:
- `accepted_eq`: the rows a request with a tag accepts are the carriers that satisfy its other conditions.
- `hasSparse_iff`, `sparse_number`: when the warning is there, and what its number is.
- `warned_of_few`, `right_of_tag_alone`: a tag with few carriers is always warned about, and a request for a tag alone is
  answered rightly; sorting and the limit do not matter (`hasSparse_reordered`).
- `aboutTheTag_iff`: the warning is about the tag iff the other conditions leave enough of its carriers.
- `misfiring_warning`: a tag on 25 models, asked for with a task that none of them has.
-/
import Mathlib.Tactic
import AgentPick.Catalog.FilterCall

namespace AgentPick.Catalog

open AgentPick.Text AgentPick.Sql

/-! ## The carriers of a tag -/

/-- a usable model that carries the tag -/
def carries (tag : Str) (e : Str × ModelRow) : Bool := !sqlArtifact e.1 && e.2.tags.any fun ts => ts.contains tag

/-- the models of the whole catalog that carry the tag -/
def carriers (t : Models) (tag : Str) : List (Str × ModelRow) := t.entries.filter (carries tag)

/-- the conditions of a request besides the tag -/
def meetsOthers (u : Unicode) (billion : ℚ → ℚ) (a : Args) (e : Str × ModelRow) : Bool :=
  (taskOf u a).all (fun s => e.2.pipelineTag.any fun p => lower p = s) &&
    (strippedArg a.nameContains).all (fun s => likeMatch (namePattern s) e.1) && inSize billion a e.2

variable {u : Unicode} {billion : ℚ → ℚ} {product : ℚ → Option ℚ} {t : Models} {a : Args} {tag : Str} {r : Filtered}

/-- the rows that a request with a tag accepts -/
theorem accepted_eq (htag : strippedArg a.tag = some tag) :
    accepted u billion t a = (carriers t tag).filter (meetsOthers u billion a) := by
  rw [accepted, carriers, List.filter_filter]
  apply List.filter_congr
  intro e _
  simp only [meets, carries, meetsOthers, htag, Option.all_some]
  ac_rfl

theorem accepted_length_le (htag : strippedArg a.tag = some tag) :
    (accepted u billion t a).length ≤ (carriers t tag).length := by
  rw [accepted_eq htag]
  exact List.length_filter_le _ _

/-! ## The text of the warning -/

theorem sparseWarning_ne_unknown (tag : Str) (total n : ℕ) (similar : List Str) :
    sparseWarning tag total similar ≠ unknownWarning n := by
  intro h
  have hhead := head?_sparseWarning tag total similar
  rw [h, head?_unknownWarning] at hhead
  cases hhead

/-- a request with a tag gets no smallest-model warning -/
theorem smallestWarnings_of_tag (htag : strippedArg a.tag = some tag) : smallestWarnings u a = [] := by
  refine if_neg ?_
  rintro ⟨-, -, hnone, -⟩
  rw [htag] at hnone
  cases hnone

/-- a blank follows the number -/
theorem sparseWarning_eq (tag : Str) (total : ℕ) (similar : List Str) : ∃ rest, rest.head? = some ' ' ∧
    sparseWarning tag total similar =
      "The tag filter '".toList ++ tag ++ "' matched only ".toList ++ (natText total ++ rest) := by
  unfold sparseWarning
  rw [List.append_assoc _ (natText total), List.append_assoc _ (natText total ++ _), List.append_assoc (natText total)]
  refine ⟨_, ?_, rfl⟩
  apply head?_append_of
  refine (congrArg List.head? String.toList_append).trans ?_
  apply head?_append_of
  decide +kernel

theorem takeWhile_natText (n : ℕ) {rest : Str} (hrest : rest.head? = some ' ') :
    (natText n ++ rest).takeWhile Char.isDigit = natText n := by
  have hdigits : ∀ c ∈ natText n, c.isDigit = true := by
    intro c hc
    have hc : c ∈ Nat.toDigits 10 n := by rwa [← Nat.toList_repr]
    exact Nat.isDigit_of_mem_toDigits (by decide) (by decide) hc
  have hend : ∀ c ∈ rest.head?, c.isDigit = false := by
    intro c hc
    obtain rfl := Option.some.inj (hrest.symm.trans hc)
    decide
  exact (span_append hdigits hend).1

/-- the number of a warning can be read back -/
theorem sparseWarning_inj {m n : ℕ} {similar similar' : List Str}
    (h : sparseWarning tag m similar = sparseWarning tag n similar') : m = n := by
  obtain ⟨x, hx, hm⟩ := sparseWarning_eq tag m similar
  obtain ⟨y, hy, hn⟩ := sparseWarning_eq tag n similar'
  have hrest : natText m ++ x = natText n ++ y := List.append_cancel_left (hm.symm.trans (h.trans hn))
  apply natText_inj
  calc natText m = (natText m ++ x).takeWhile Char.isDigit := (takeWhile_natText m hx).symm
    _ = (natText n ++ y).takeWhile Char.isDigit := by rw [hrest]
    _ = natText n := takeWhile_natText n hy

/-! ## When the warning is there -/

/-- the result has a sparse-tag warning of the tag -/
def HasSparse (r : Filtered) (tag : Str) : Prop := ∃ total similar, sparseWarning tag total similar ∈ r.warnings

/-- the number of the warning is that of the accepted rows -/
theorem sparse_number (htag : strippedArg a.tag = some tag) (hr : filterModels u billion t a = some r) {total : ℕ}
    {similar : List Str} (h : sparseWarning tag total similar ∈ r.warnings) :
    total = (accepted u billion t a).length ∧ total < sparseTagThreshold := by
  obtain ⟨sparse, hsparse, heq⟩ := filterModels_eq u billion t a
  rw [matching_eq] at hsparse heq
  obtain rfl := Option.some.inj (heq.symm.trans hr)
  have hmem : sparseWarning tag total similar ∈ sparse := by
    simp only [List.mem_append] at h
    rcases h with (h | h) | h
    · exact h
    · split_ifs at h
      · cases h
      · exact absurd (List.mem_singleton.1 h) (sparseWarning_ne_unknown _ _ _ _)
    · rw [smallestWarnings_of_tag htag] at h
      cases h
  simp only [sparseWarnings, htag] at hsparse
  split_ifs at hsparse with hfew
  · obtain ⟨similar', -, rfl⟩ := Option.map_eq_some_iff.1 hsparse
    obtain rfl := sparseWarning_inj (List.mem_singleton.1 hmem)
    exact ⟨rfl, hfew⟩
  · obtain rfl := Option.some.inj hsparse
    cases hmem

/-- **The warning is there iff few rows satisfy all conditions of the request.** -/
theorem hasSparse_iff (htag : strippedArg a.tag = some tag) (hr : filterModels u billion t a = some r) :
    HasSparse r tag ↔ (accepted u billion t a).length < sparseTagThreshold := by
  refine ⟨?_, ?_⟩
  · intro h
    obtain ⟨total, similar, hmem⟩ := h
    obtain ⟨rfl, hfew⟩ := sparse_number htag hr hmem
    exact hfew
  · intro hfew
    obtain ⟨sparse, hsparse, heq⟩ := filterModels_eq u billion t a
    rw [matching_eq] at hsparse heq
    obtain ⟨similar, hsome⟩ := sparseWarnings_of_tag t htag hfew
    obtain rfl := Option.some.inj (hsparse.symm.trans hsome)
    obtain rfl := Option.some.inj (heq.symm.trans hr)
    exact ⟨_, similar, List.mem_append_left _ (List.mem_append_left _ (List.mem_singleton_self _))⟩

/-! ## Calls -/

theorem filterModelsCall_eq_some :
    filterModelsCall u product t a = some r ↔
      Callable u product a ∧ filterModels u (fun b => (product b).getD 0) t a = some r := by
  by_cases h : Callable u product a
  · rw [filterModelsCall, if_pos h]
    exact (and_iff_right h).symm
  · rw [filterModelsCall, if_neg h]
    exact iff_of_false (Option.some_ne_none r).symm fun hr => h hr.1

theorem exists_filterModelsCall : (∃ r, filterModelsCall u product t a = some r) ↔ Callable u product a := by
  refine ⟨?_, ?_⟩
  · intro h
    obtain ⟨r, hr⟩ := h
    exact (filterModelsCall_eq_some.1 hr).1
  · intro h
    obtain ⟨r, hr, -⟩ := faithful_filterModels u (fun b => (product b).getD 0) t a
    exact ⟨r, filterModelsCall_eq_some.2 ⟨h, hr⟩⟩

/-- a tag that few models carry is warned about -/
theorem warned_of_few (htag : strippedArg a.tag = some tag) (hr : filterModelsCall u product t a = some r)
    (hfew : (carriers t tag).length < sparseTagThreshold) : HasSparse r tag :=
  (hasSparse_iff htag (filterModelsCall_eq_some.1 hr).2).2 ((accepted_length_le htag).trans_lt hfew)

/-- sorting and the limit do not matter -/
theorem hasSparse_reordered (htag : strippedArg a.tag = some tag) {sortBy : Option Str} {limit : ℤ} {r' : Filtered}
    (hr : filterModelsCall u product t a = some r)
    (hr' : filterModelsCall u product t { a with sortBy := sortBy, limit := limit } = some r') :
    HasSparse r' tag ↔ HasSparse r tag := by
  have htag' : strippedArg ({ a with sortBy := sortBy, limit := limit } : Args).tag = some tag := htag
  calc HasSparse r' tag
      ↔ (accepted u (fun b => (product b).getD 0) t { a with sortBy := sortBy, limit := limit }).length <
          sparseTagThreshold := hasSparse_iff htag' (filterModelsCall_eq_some.1 hr').2
    _ ↔ (accepted u (fun b => (product b).getD 0) t a).length < sparseTagThreshold := Iff.rfl
    _ ↔ HasSparse r tag := (hasSparse_iff htag (filterModelsCall_eq_some.1 hr).2).symm

/-- a call whose sparse-tag warning is there iff fewer than 25 models of the whole catalog carry the tag -/
def AboutTheTag (u : Unicode) (product : ℚ → Option ℚ) (t : Models) (a : Args) : Prop :=
  ∀ tag, strippedArg a.tag = some tag → ∀ r, filterModelsCall u product t a = some r →
    (HasSparse r tag ↔ (carriers t tag).length < 25)

/-- a request for a tag alone is answered rightly -/
theorem right_of_tag_alone (htask : taskOf u a = none) (hname : strippedArg a.nameContains = none)
    (hmin : a.minParamsB = none) (hmax : a.maxParamsB = none) : AboutTheTag u product t a := by
  intro tag htag r hr
  have hothers : ∀ e, meetsOthers u (fun b => (product b).getD 0) a e = true := by
    intro e
    simp [meetsOthers, inSize, htask, hname, hmin, hmax]
  have hall : accepted u (fun b => (product b).getD 0) t a = carriers t tag := by
    rw [accepted_eq htag]
    exact List.filter_eq_self.2 fun e _ => hothers e
  rw [← hall]
  exact hasSparse_iff htag (filterModelsCall_eq_some.1 hr).2

/-- **When the warning is about the tag.** A call returns iff nothing fails before a query is sent. Its warning is about the
tag iff few models carry the tag, or enough of those that do satisfy the other conditions of the request too. -/
theorem aboutTheTag_iff (u : Unicode) (product : ℚ → Option ℚ) (t : Models) (a : Args) :
    ((∃ r, filterModelsCall u product t a = some r) ↔ Callable u product a) ∧
      (AboutTheTag u product t a ↔
        ∀ tag, strippedArg a.tag = some tag → Callable u product a → 25 ≤ (carriers t tag).length →
          25 ≤ ((carriers t tag).filter (meetsOthers u (fun b => (product b).getD 0) a)).length) := by
  refine ⟨exists_filterModelsCall, ?_, ?_⟩
  · intro h tag htag hcall hmany
    obtain ⟨r, hr⟩ := exists_filterModelsCall.2 hcall
    have hsparse := hasSparse_iff htag (filterModelsCall_eq_some.1 hr).2
    rw [accepted_eq htag] at hsparse
    -- the warning is not there
    have hnone : ¬ HasSparse r tag := mt (h tag htag r hr).1 hmany.not_gt
    exact not_lt.1 (mt hsparse.2 hnone)
  · intro h tag htag r hr
    obtain ⟨hcall, hresult⟩ := filterModelsCall_eq_some.1 hr
    have hsparse := hasSparse_iff htag hresult
    have hle : (accepted u (fun b => (product b).getD 0) t a).length ≤ (carriers t tag).length := accepted_length_le htag
    have henough := h tag htag hcall
    rw [accepted_eq htag] at hsparse hle
    rw [hsparse, sparseTagThreshold]
    omega

/-- 25 models for text generation that carry the tag 'chat' -/
def chatTable : Models :=
  ⟨(List.range 25).map fun i =>
      ("org/".toList ++ [Char.ofNat (97 + i)], { sampleRow "text-generation".toList with tags := some ["chat".toList] }),
    by decide +kernel⟩

/-- a request for the tag, with a task that none of them has -/
def chatTranslation : Args := ⟨some "translation".toList, some "chat".toList, none, none, none, none, 8⟩

/-- 25 models carry the tag, and the tag filter is said to match only 0 of the whole catalog. -/
theorem misfiring_warning :
    (carriers chatTable "chat".toList).length = 25 ∧
      (∃ r similar, filterModelsCall Unicode.ascii doubleProduct chatTable chatTranslation = some r ∧
        sparseWarning "chat".toList 0 similar ∈ r.warnings) ∧
      ¬ AboutTheTag Unicode.ascii doubleProduct chatTable chatTranslation := by
  have htag : strippedArg chatTranslation.tag = some "chat".toList := by decide
  have hcarriers : (carriers chatTable "chat".toList).length = 25 := by decide +kernel
  have hnone : (accepted Unicode.ascii (fun b => (doubleProduct b).getD 0) chatTable chatTranslation).length = 0 := by
    decide +kernel
  have hcall : Callable Unicode.ascii doubleProduct chatTranslation := by decide +kernel
  obtain ⟨r, hr⟩ := exists_filterModelsCall (t := chatTable).2 hcall
  have hresult := (filterModelsCall_eq_some.1 hr).2
  have hwarned : HasSparse r "chat".toList := by
    rw [hasSparse_iff htag hresult, hnone]
    decide
  obtain ⟨total, similar, hmem⟩ := hwarned
  have htotal : total = 0 := (sparse_number htag hresult hmem).1.trans hnone
  refine ⟨hcarriers, ⟨r, similar, hr, htotal ▸ hmem⟩, ?_⟩
  intro hright
  have hfew := (hright _ htag r hr).1 ⟨total, similar, hmem⟩
  rw [hcarriers] at hfew
  exact absurd hfew (by decide)

end AgentPick.Catalog
