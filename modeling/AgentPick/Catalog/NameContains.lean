/-
The argument name_contains of `filter_models` (`backend/src/catalog.py`, `backend/src/tools.py`).

The tool describes it as a substring that the model id must contain, and the code puts the stripped text between two `%` of
an ILIKE pattern without escaping it. `MeansSubstring` is the description: over every table, the returned ids contain the
text up to ASCII case, and a request for nothing else counts the ids that do, test artifacts apart.

Results:
- `sqlArtifact_iff`: an id is a test artifact iff it contains one of the two markers up to case.
- `name_contains_substring`: the description is right iff the text has no character that a pattern interprets, or has a
  marker, so that neither the pattern nor the text is in the id of a usable model, or has a NUL, so that no call returns.
- `underscore_is_no_substring`: `a_b` finds `org/axb`.
-/
import Mathlib.Tactic
import AgentPick.Catalog.FilterCall

namespace AgentPick.Catalog

open AgentPick.Text AgentPick.Regex AgentPick.Sql

/-! ## Test artifacts -/

/-- the alternatives of `_TEST_ARTIFACT_PATTERN` -/
def markers : List Str := ["tiny-random".toList, "internal-testing".toList]

theorem forall₂_same {s w : Str} : List.Forall₂ (fun p x => same p x = true) s w ↔ lower s = lower w := by
  induction s generalizing w with
  | nil => cases w <;> simp [lower]
  | cons c s ih =>
    cases w with
    | nil => simp [lower]
    | cons x w =>
      rw [List.forall₂_cons, ih, same, decide_eq_true_eq]
      simp [lower]

theorem contains_iff {s text : Str} : Contains s text ↔ ∃ a w b, text = a ++ w ++ b ∧ lower s = lower w := by
  refine ⟨?_, ?_⟩
  · intro ⟨a, b, hab⟩
    obtain ⟨aw, b', rfl, haw, -⟩ := List.map_eq_append_iff.1 hab.symm
    obtain ⟨a', w, rfl, -, hw⟩ := List.map_eq_append_iff.1 haw
    exact ⟨a', w, b', rfl, hw.symm⟩
  · intro ⟨a, w, b, htext, hw⟩
    refine ⟨lower a, lower b, ?_⟩
    rw [hw, htext, lower, lower, lower, lower, List.map_append, List.map_append]

/-- an id is a test artifact iff it contains a marker -/
theorem sqlArtifact_iff {id : Str} : sqlArtifact id = true ↔ ∃ m ∈ markers, Contains m id := by
  have hlit (m : Str) : Contains m id ↔ ∃ a b, id = a ++ b ∧ run (litBy same m) ⟨a.reverse, b⟩ ≠ [] := by
    rw [contains_iff]
    refine ⟨fun h => ?_, fun h => ?_⟩
    · obtain ⟨a, w, b, hid, hw⟩ := h
      exact ⟨a, w ++ b, by rw [hid, List.append_assoc], run_litBy.2 ⟨w, b, rfl, forall₂_same.2 hw⟩⟩
    · obtain ⟨a, wb, hid, hrun⟩ := h
      obtain ⟨w, b, hwb, hw⟩ := run_litBy.1 hrun
      refine ⟨a, w, b, ?_, forall₂_same.1 hw⟩
      rw [hid, show wb = w ++ b from hwb, List.append_assoc]
  rw [sqlArtifact, search_isSome]
  simp only [sqlArtifactPattern, testArtifactPattern, run_alt_ne_nil, markers, List.mem_cons, List.not_mem_nil, or_false,
    exists_eq_or_imp, exists_eq_left, hlit]
  refine ⟨fun h => ?_, fun h => ?_⟩
  · obtain ⟨a, b, hid, h⟩ := h
    exact h.imp (fun h => ⟨a, b, hid, h⟩) (fun h => ⟨a, b, hid, h⟩)
  · rcases h with ⟨a, b, hid, h⟩ | ⟨a, b, hid, h⟩
    · exact ⟨a, b, hid, .inl h⟩
    · exact ⟨a, b, hid, .inr h⟩

theorem plain_of_lower {w : Str} (h : Plain (lower w)) : Plain w := by
  have hmem {c : Char} (hc : c.toLower = c) (hw : c ∈ w) : c ∈ lower w := List.mem_map.2 ⟨c, hw, hc⟩
  obtain ⟨h1, h2, h3⟩ := h
  exact ⟨fun hw => h1 (hmem rfl hw), fun hw => h2 (hmem rfl hw), fun hw => h3 (hmem rfl hw)⟩

/-- no marker has a character that a pattern interprets, or an x -/
theorem marker_plain {m : Str} (hm : m ∈ markers) : Plain (lower m) ∧ 'x' ∉ lower m ∧ m ≠ [] := by
  rcases List.mem_cons.1 hm with rfl | hm
  · decide
  · rw [List.mem_singleton.1 hm]
    decide

/-! ## The pattern and the text -/

/-- the pattern of s finds the usable ids that contain s -/
def Agree (s : Str) : Prop := ∀ id, sqlArtifact id = false → (likeMatch (namePattern s) id = true ↔ Contains s id)

theorem namePattern_eq (s : Str) :
    ∃ tail, (tail = [] ∨ tail = [.many]) ∧ namePattern s = .many :: (elements s ++ tail) := by
  obtain ⟨tail, htail, h⟩ := parseLike_elements s
  refine ⟨tail, htail, ?_⟩
  rw [namePattern, h]
  rfl

/-- what the elements of s take literally is in every id that the pattern finds -/
theorem contains_of_namePattern {s w id : Str} {a b : List Wild} (hs : elements s = a ++ w.map .lit ++ b)
    (h : likeMatch (namePattern s) id = true) : Contains w id := by
  obtain ⟨tail, -, hp⟩ := namePattern_eq s
  rw [hp, hs] at h
  apply contains_of_lits (a := .many :: a) (b := b ++ tail)
  simpa using h

/-- the samples of the pattern are an id that it finds -/
theorem namePattern_sample (s : Str) : likeMatch (namePattern s) ((elements s).map Wild.sample) = true := by
  obtain ⟨tail, htail, hp⟩ := namePattern_eq s
  have hempty : likeMatch tail [] := by rcases htail with rfl | rfl <;> decide
  rw [hp, likeMatch_many]
  refine ⟨[], _, rfl, likeMatch_append.2 ?_⟩
  exact ⟨_, [], (List.append_nil _).symm, likeMatch_sample _, hempty⟩

/-- a marker in s is taken literally -/
theorem artifact_of_namePattern {s id : Str} (hs : sqlArtifact s = true) (h : likeMatch (namePattern s) id = true) :
    sqlArtifact id = true := by
  obtain ⟨m, hm, hc⟩ := sqlArtifact_iff.1 hs
  obtain ⟨a, w, b, rfl, hw⟩ := contains_iff.1 hc
  obtain ⟨hplain, -, hne⟩ := marker_plain hm
  rw [hw] at hplain
  have hwne : w ≠ [] := by
    rintro rfl
    exact hne (List.map_eq_nil_iff.1 hw)
  obtain ⟨a', ha'⟩ := elements_infix (plain_of_lower hplain) hwne a b
  obtain ⟨x, v, y, hid, hv⟩ := contains_iff.1 (contains_of_namePattern ha' h)
  exact sqlArtifact_iff.2 ⟨m, hm, contains_iff.2 ⟨x, v, y, hid, hw.trans hv⟩⟩

theorem artifact_of_contains {s id : Str} (hs : sqlArtifact s = true) (h : Contains s id) : sqlArtifact id = true := by
  obtain ⟨m, hm, hc⟩ := sqlArtifact_iff.1 hs
  exact sqlArtifact_iff.2 ⟨m, hm, List.IsInfix.trans hc h⟩

theorem agree_of_plain {s : Str} (hs : Plain s) : Agree s := by
  intro id _
  refine ⟨fun h => ?_, fun h => ?_⟩
  · apply contains_of_namePattern (a := []) (b := []) _ h
    simpa [elements] using elements_plain hs []
  · obtain ⟨p, hp, hm⟩ := ilike_of_infix hs.2.2 h
    rw [namePattern, hp]
    exact hm

/-- a text without a marker that a pattern interprets is a name that the pattern misses, or the pattern finds another one -/
theorem not_agree {s : Str} (hs : ¬ Plain s) (hart : sqlArtifact s = false) : ¬ Agree s := by
  intro h
  cases hsample : sqlArtifact ((elements s).map Wild.sample) with
  | false => exact not_contains_sample hs ((h _ hsample).1 (namePattern_sample s))
  | true =>
    -- the marker of the samples is in everything that the pattern finds, but not in s
    obtain ⟨m, hm, hc⟩ := sqlArtifact_iff.1 hsample
    obtain ⟨a, w, b, hab, hw⟩ := lits_of_contains_sample (marker_plain hm).2.1 hc
    have hfind := (h s hart).2 (List.infix_refl _)
    obtain ⟨x, v, y, hid, hv⟩ := contains_iff.1 (contains_of_namePattern hab hfind)
    have hmarker := sqlArtifact_iff.2 ⟨m, hm, contains_iff.2 ⟨x, v, y, hid, hw.symm.trans hv⟩⟩
    rw [hart] at hmarker
    cases hmarker

theorem agree_iff (s : Str) : Agree s ↔ Plain s ∨ sqlArtifact s = true := by
  refine ⟨fun h => ?_, fun h => ?_⟩
  · by_contra hno
    rw [not_or, Bool.not_eq_true] at hno
    exact not_agree hno.1 hno.2 h
  · rcases h with h | h
    · exact agree_of_plain h
    · intro id hid
      have hno : sqlArtifact id ≠ true := by simp [hid]
      exact iff_of_false (fun hm => hno (artifact_of_namePattern h hm)) (fun hc => hno (artifact_of_contains h hc))

/-! ## The description of the argument -/

/-- a request for nothing but a name -/
structure NameOnly (a : Args) : Prop where
  taskType : a.taskType = none
  tag : a.tag = none
  minParamsB : a.minParamsB = none
  maxParamsB : a.maxParamsB = none

/-- the stripped name is a substring of the returned ids, and of the counted ones if nothing else is asked for -/
def MeansSubstring (u : Unicode) (product : ℚ → Option ℚ) (name : Str) : Prop :=
  ∀ (t : Models) (a : Args) (r : Filtered), a.nameContains = some name → filterModelsCall u product t a = some r →
    (∀ m ∈ r.models, ∃ id, m.modelId = some id ∧ Contains (strip name) id) ∧
      (NameOnly a → r.totalMatches = (t.keys.filter fun id => !sqlArtifact id && Contains (strip name) id).length)

theorem strippedArg_name {name : Str} (h : strip name ≠ []) {a : Args} (ha : a.nameContains = some name) :
    strippedArg a.nameContains = some (strip name) := strippedArg_eq_some.2 ⟨h, name, ha, rfl⟩

theorem NameOnly.taskOf {a : Args} (ha : NameOnly a) (u : Unicode) : taskOf u a = none := by
  have hempty : u.lower (strip (a.taskType.getD [])) = [] := by
    rw [ha.taskType]
    exact u.lower_ascii [] (by simp)
  rw [Catalog.taskOf, hempty]
  rfl

theorem NameOnly.strippedTag {a : Args} (ha : NameOnly a) : strippedArg a.tag = none := by
  rw [ha.tag]
  rfl

/-- an accepted row is not one of a test artifact, and the pattern finds its id -/
theorem of_accepted {u : Unicode} {billion : ℚ → ℚ} {t : Models} {a : Args} {s : Str}
    (hs : strippedArg a.nameContains = some s) {e : Str × ModelRow} (he : e ∈ accepted u billion t a) :
    sqlArtifact e.1 = false ∧ likeMatch (namePattern s) e.1 = true := by
  have hmeets := (Bool.and_eq_true_iff.1 (List.mem_filter.1 he).2).1
  simp only [meets, hs, Option.all_some, Bool.and_eq_true, Bool.not_eq_true'] at hmeets
  exact ⟨hmeets.1.1.1, hmeets.2⟩

/-- the accepted rows of a request for a name -/
theorem accepted_nameOnly (u : Unicode) (billion : ℚ → ℚ) (t : Models) {a : Args} {s : Str}
    (hs : strippedArg a.nameContains = some s) (ha : NameOnly a) :
    accepted u billion t a = t.entries.filter fun e => !sqlArtifact e.1 && likeMatch (namePattern s) e.1 := by
  apply List.filter_congr
  intro e _
  simp [meets, inSize, ha.taskOf u, ha.strippedTag, hs, ha.minParamsB, ha.maxParamsB]

/-- a request for a name without NUL can be sent -/
theorem callable_nameOnly {u : Unicode} {product : ℚ → Option ℚ} {a : Args} {s : Str}
    (hs : strippedArg a.nameContains = some s) (ha : NameOnly a) (hnul : '\x00' ∉ s) : Callable u product a := by
  refine ⟨?_, ?_⟩
  · simp [sizeBounds, ha.minParamsB, ha.maxParamsB]
  · simp [whereOf, Where.add, ha.taskOf u, ha.strippedTag, hs, Param.sendable, containing, hnul]

theorem means_of_agree {u : Unicode} {product : ℚ → Option ℚ} {name : Str} (hname : strip name ≠ [])
    (h : Agree (strip name)) : MeansSubstring u product name := by
  intro t a r ha hr
  have hs := strippedArg_name hname ha
  unfold filterModelsCall at hr
  split_ifs at hr
  obtain ⟨r', hr', hf⟩ := faithful_filterModels u (fun b => (product b).getD 0) t a
  obtain rfl := Option.some.inj (hr'.symm.trans hr)
  refine ⟨?_, fun honly => ?_⟩
  · intro m hm
    obtain ⟨rows, hperm, -, hmodels⟩ := hf.models
    rw [hmodels] at hm
    obtain ⟨e, he, rfl⟩ := List.mem_map.1 hm
    obtain ⟨hart, hlike⟩ := of_accepted hs (hperm.subset (List.mem_of_mem_take he))
    have hc := (h e.1 hart).1 hlike
    have hne : e.1 ≠ [] := by
      intro hnil
      rw [hnil] at hc
      exact hname (List.map_eq_nil_iff.1 (List.infix_nil.1 hc))
    exact ⟨e.1, by simp [shape, nonEmpty, hne], hc⟩
  · rw [hf.total, accepted_nameOnly u _ t hs honly, Dict.keys, List.filter_map, List.length_map]
    congr 1
    apply List.filter_congr
    intro e _
    cases hart : sqlArtifact e.1 with
    | true => simp [hart]
    | false =>
      rw [Function.comp_apply, hart, Bool.not_false, Bool.true_and, Bool.true_and]
      exact Bool.eq_iff_iff.2 ((h e.1 hart).trans decide_eq_true_iff.symm)

/-- a row of which only the id is known -/
def blankRow : ModelRow := ⟨none, none, none, none, none, none, none, none, none, none, none⟩

/-- a table of one row -/
def oneModel (id : Str) : Models := ⟨[(id, blankRow)], List.nodup_singleton _⟩

/-- a request for a name -/
def nameArgs (name : Str) : Args := ⟨none, none, some name, none, none, none, 8⟩

theorem agree_of_means {u : Unicode} {product : ℚ → Option ℚ} {name : Str} (hname : strip name ≠ [])
    (hnul : '\x00' ∉ strip name) (h : MeansSubstring u product name) : Agree (strip name) := by
  intro id hid
  have hs := strippedArg_name hname (a := nameArgs name) rfl
  have honly : NameOnly (nameArgs name) := ⟨rfl, rfl, rfl, rfl⟩
  have hcall : Callable u product (nameArgs name) := callable_nameOnly hs honly hnul
  obtain ⟨r, hr, hf⟩ := faithful_filterModels u (fun b => (product b).getD 0) (oneModel id) (nameArgs name)
  have htotal := (h (oneModel id) (nameArgs name) r rfl (by rw [filterModelsCall, if_pos hcall, hr])).2 honly
  rw [hf.total, accepted_nameOnly u _ _ hs honly] at htotal
  by_cases hm : likeMatch (namePattern (strip name)) id = true <;> by_cases hc : Contains (strip name) id <;>
    simp [oneModel, Dict.keys, hid, hm, hc] at htotal ⊢

/-- **When the argument means a substring**: iff the text has no character that a pattern interprets, or has a marker of the
test artifacts, or has a NUL. -/
theorem name_contains_substring (u : Unicode) (product : ℚ → Option ℚ) {name : Str} (hname : strip name ≠ []) :
    MeansSubstring u product name ↔ Plain (strip name) ∨ sqlArtifact (strip name) = true ∨ '\x00' ∈ strip name := by
  rw [← or_assoc, ← agree_iff]
  refine ⟨fun h => ?_, fun h => ?_⟩
  · by_cases hnul : '\x00' ∈ strip name
    · exact .inr hnul
    · exact .inl (agree_of_means hname hnul h)
  · rcases h with h | hnul
    · exact means_of_agree hname h
    · -- no call returns
      intro t a r ha hr
      have hs := strippedArg_name hname ha
      unfold filterModelsCall at hr
      split_ifs at hr with hcall
      have hparam : Param.text (containing (strip name)) ∈ (whereOf u a).params := by
        simp [whereOf, Where.add, hs]
      have hsend := hcall.2 _ hparam
      simp [Param.sendable, containing, hnul] at hsend

theorem name_contains_substring_sample :
    MeansSubstring Unicode.ascii doubleProduct " instruct".toList ↔
      Plain (strip " instruct".toList) ∨ sqlArtifact (strip " instruct".toList) = true ∨
        '\x00' ∈ strip " instruct".toList := name_contains_substring _ _ (by decide)

/-- `_` stands for any character: the model returned for `a_b` does not contain it -/
theorem underscore_is_no_substring :
    filterModelsCall Unicode.ascii doubleProduct (oneModel "org/axb".toList) (nameArgs "a_b".toList) =
        some ⟨[shape Unicode.ascii "org/axb".toList blankRow (some [])], 1, []⟩ ∧
      ¬ Contains "a_b".toList "org/axb".toList ∧ ¬ MeansSubstring Unicode.ascii doubleProduct "a_b".toList := by
  have hcall : filterModelsCall Unicode.ascii doubleProduct (oneModel "org/axb".toList) (nameArgs "a_b".toList) =
      some ⟨[shape Unicode.ascii "org/axb".toList blankRow (some [])], 1, []⟩ := by decide +kernel
  refine ⟨hcall, by decide, ?_⟩
  intro h
  have htotal := (h _ _ _ rfl hcall).2 ⟨rfl, rfl, rfl, rfl⟩
  exact absurd htotal (by decide +kernel)

end AgentPick.Catalog
