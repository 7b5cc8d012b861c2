/-
Which predicted ids are excused because the user named them (`evaluation/pooled.py`, `_system_picks`;
`evaluation/thesis_stats.py`, the same rule in `_abstention`).

An id is dropped from a system's picks when its folded text occurs anywhere in the folded question. A question names a model where
the id pattern matches it, up to case and the old and the new name of the meta-llama repos, as everywhere else in the evaluation.

Results:
- `norm_eq_iff`: one model has one spelling up to case, or the two of a meta-llama repo.
- `occurs_of_asked`: an id that is written as the user wrote it is dropped.
- `part_of_asked`: so is every part of such an id.
- `excused_iff`: the right ids are dropped iff none is found only inside other text, and none is named only in its other spelling.
- `named_between_blanks`: an id between blanks is named.
- `part_excused`: a shorter id is dropped, and an id under its other name is not.
-/
import Mathlib.Tactic
import AgentPick.Evaluation.Credit
import AgentPick.Evaluation.Reports

namespace AgentPick.Excused

open AgentPick.Text AgentPick.Regex AgentPick.Extract AgentPick.Mentions AgentPick.Credit AgentPick.Reports

/-! ## The rule -/

/-- `m.casefold() in asked` -/
def Occurs (u : Unicode) (question m : Str) : Prop := u.fold m <:+: u.fold question

/-- `picks` in `_abstention` -/
def abstentionPicks (u : Unicode) (r : Result) : List Str := r.predictedModels.filter fun m => ¬u.fold m <:+: u.fold r.question

/-- the count of `_abstention` -/
theorem abstention_eq (u : Unicode) (reports : List Report) :
    abstention u reports =
      (((reports.flatMap Report.results).filter fun r => isAbstention r.category).countP fun r => abstentionPicks u r ≠ [],
        ((reports.flatMap Report.results).filter fun r => isAbstention r.category).length) := rfl

/-! ## What the question names -/

/-- the org/repo mentions of a question, without trailing dots and hyphens -/
def asked (u : Unicode) (question : Str) : List Str := (finditer (modelIdRe u) question).map candidate

/-- the question mentions the model -/
def Names (u : Unicode) (question m : Str) : Prop := ∃ c ∈ asked u question, norm u c = norm u m

instance (u : Unicode) (question m : Str) : Decidable (Names u question m) := by
  unfold Names
  infer_instance

/-- the predictions that the question does not mention -/
def ownPicks (u : Unicode) (r : Result) : List Str := r.predictedModels.filter fun m => ¬Names u r.question m

/-! ## Spellings -/

/-- an id without white space around it, up to case -/
def spelling (u : Unicode) (m : Str) : Str := u.fold (strip m)

/-- the old and the new name of a meta-llama repo -/
def Renamed (a b : Str) : Prop := ∃ rest, a = "meta-llama/meta-llama-".toList ++ rest ∧ b = "meta-llama/llama-".toList ++ rest

/-- the two names, either way -/
def Twins (a b : Str) : Prop := Renamed a b ∨ Renamed b a

/-- `_META_LLAMA_ALIAS_RE.sub(...)` -/
def canonical (key : Str) : Str :=
  if "meta-llama/meta-llama-".toList <+: key then "meta-llama/llama-".toList ++ key.drop 22 else key

theorem norm_eq_canonical (u : Unicode) (m : Str) : norm u m = canonical (spelling u m) := rfl

theorem canonical_old (rest : Str) : canonical ("meta-llama/meta-llama-".toList ++ rest) = "meta-llama/llama-".toList ++ rest :=
  if_pos (List.prefix_append _ _)

theorem Renamed.canonical_eq {a b : Str} (h : Renamed a b) : canonical a = canonical b := by
  obtain ⟨rest, rfl, rfl⟩ := h
  have hno : ¬"meta-llama/meta-llama-".toList <+: "meta-llama/llama-".toList ++ rest := by
    intro h
    have hdrop : "meta-llama-".toList <+: "llama-".toList ++ rest := (List.prefix_append_right_inj "meta-llama/".toList).1 h
    exact absurd (List.cons_prefix_cons.1 hdrop).1 (by decide)
  rw [canonical_old, canonical, if_neg hno]

theorem canonical_eq_iff {a b : Str} : canonical a = canonical b ↔ a = b ∨ Twins a b := by
  refine ⟨fun h => ?_, fun h => ?_⟩
  · by_cases ha : "meta-llama/meta-llama-".toList <+: a <;> by_cases hb : "meta-llama/meta-llama-".toList <+: b
    · obtain ⟨x, rfl⟩ := ha
      obtain ⟨y, rfl⟩ := hb
      rw [canonical_old, canonical_old] at h
      exact Or.inl (congrArg _ (List.append_cancel_left h))
    · obtain ⟨x, rfl⟩ := ha
      rw [canonical_old, canonical, if_neg hb] at h
      exact Or.inr (Or.inl ⟨x, rfl, h.symm⟩)
    · obtain ⟨y, rfl⟩ := hb
      rw [canonical_old, canonical, if_neg ha] at h
      exact Or.inr (Or.inr ⟨y, rfl, h⟩)
    · rw [canonical, if_neg ha, canonical, if_neg hb] at h
      exact Or.inl h
  · rcases h with rfl | h | h
    · rfl
    · exact h.canonical_eq
    · exact h.canonical_eq.symm

/-- **One model has one spelling, or the two of a meta-llama repo.** -/
theorem norm_eq_iff {u : Unicode} {c m : Str} :
    norm u c = norm u m ↔ spelling u c = spelling u m ∨ Twins (spelling u c) (spelling u m) := by
  rw [norm_eq_canonical, norm_eq_canonical, canonical_eq_iff]

/-! ## Mentions in the question -/

/-- a mention stands in the question, and has no white space -/
theorem asked_spec {u : Unicode} {question c : Str} (h : c ∈ asked u question) :
    c <:+: question ∧ ∀ x ∈ c, isSpace x = false := by
  obtain ⟨m, hm, rfl⟩ := List.mem_map.1 h
  obtain ⟨hat, htext⟩ := finditer_spec (modelIdRe_consumes u) hm
  have hrun := List.mem_of_head? hat
  obtain ⟨w, hw⟩ := run_spans hrun
  obtain ⟨x, hx, -⟩ := (rstripChars_spec ['.', '-'] (m.1.upto m.2)).2
  have hcand : w = candidate m ++ x := by
    rw [← hw.upto]
    exact hx
  refine ⟨⟨m.1.before.reverse, x ++ m.2.after, ?_⟩, fun y hy => ?_⟩
  · rw [← htext, hw.text_eq, hcand]
    simp
  · by_contra hspace
    have hno := mention_no_space (by simpa using hspace) hrun hw
    exact hno (by rw [hcand]; exact List.mem_append_left x hy)

theorem spelling_of_asked {u : Unicode} {question c : Str} (h : c ∈ asked u question) : spelling u c = u.fold c := by
  rw [spelling, strip_of_no_space (asked_spec h).2]

theorem fold_infix {u : Unicode} {s t : Str} (h : s <:+: t) : u.fold s <:+: u.fold t := by
  obtain ⟨a, b, rfl⟩ := h
  exact ⟨u.fold a, u.fold b, by rw [Unicode.fold_append, Unicode.fold_append]⟩

/-- **Every part of an id that the user wrote occurs in the question.** -/
theorem part_of_asked {u : Unicode} {question c m : Str} (h : c ∈ asked u question) (hm : u.fold m <:+: u.fold c) :
    Occurs u question m := by
  have hwhole : u.fold c <:+: u.fold question := fold_infix (asked_spec h).1
  exact hm.trans hwhole

/-- so does the id, in the spelling of the user -/
theorem occurs_of_asked {u : Unicode} {question c m : Str} (h : c ∈ asked u question) (hm : strip m = m)
    (hspelling : spelling u c = spelling u m) : Occurs u question m := by
  rw [spelling_of_asked h, spelling, hm] at hspelling
  exact part_of_asked h (hspelling ▸ List.infix_refl _)

/-! ## When the rule is right -/

/-- the id is found in the question, but inside other text: no mention there is of its model -/
def OnlyInside (u : Unicode) (question m : Str) : Prop :=
  Occurs u question m ∧ ∀ c ∈ asked u question, spelling u c ≠ spelling u m ∧ ¬Twins (spelling u c) (spelling u m)

/-- the id is not found in the question, which has the other name of a meta-llama repo, or the id without the white space around
it -/
def OnlyRespelled (u : Unicode) (question m : Str) : Prop :=
  ¬Occurs u question m ∧
    ∃ c ∈ asked u question, Twins (spelling u c) (spelling u m) ∨ strip m ≠ m ∧ spelling u c = spelling u m

theorem occurs_iff_names (u : Unicode) (question m : Str) :
    (Occurs u question m ↔ Names u question m) ↔ ¬OnlyInside u question m ∧ ¬OnlyRespelled u question m := by
  have hnames : Names u question m ↔
      ∃ c ∈ asked u question, spelling u c = spelling u m ∨ Twins (spelling u c) (spelling u m) := by
    simp only [Names, norm_eq_iff]
  rw [hnames]
  refine ⟨fun h => ⟨fun ⟨hocc, hnone⟩ => ?_, fun ⟨hnot, c, hc, hother⟩ => ?_⟩, fun ⟨hinside, hrespelled⟩ => ⟨fun hocc => ?_, ?_⟩⟩
  · obtain ⟨c, hc, hsame⟩ := h.1 hocc
    exact hsame.elim (hnone c hc).1 (hnone c hc).2
  · exact hnot (h.2 ⟨c, hc, hother.symm.imp And.right id⟩)
  · by_contra hnone
    push Not at hnone
    exact hinside ⟨hocc, hnone⟩
  · intro ⟨c, hc, hsame⟩
    by_contra hnot
    rcases hsame with hsame | htwins
    · -- the same spelling is missed only for white space
      have hpadded : strip m ≠ m := fun hm => hnot (occurs_of_asked hc hm hsame)
      exact hrespelled ⟨hnot, c, hc, Or.inr ⟨hpadded, hsame⟩⟩
    · exact hrespelled ⟨hnot, c, hc, Or.inl htwins⟩

theorem filter_eq_iff {α : Type} {p q : α → Bool} {l : List α} : l.filter p = l.filter q ↔ ∀ x ∈ l, p x = q x := by
  refine ⟨fun h x hx => ?_, fun h => List.filter_congr h⟩
  have hmem : x ∈ l.filter p ↔ x ∈ l.filter q := by rw [h]
  rw [List.mem_filter, List.mem_filter, and_iff_right hx, and_iff_right hx] at hmem
  exact Bool.eq_iff_iff.2 hmem

/-- **The right ids are excused iff no predicted id is found only inside other text or named only in its other spelling.** -/
theorem excused_iff (u : Unicode) (r : Result) :
    (systemPicks u r = ownPicks u r ∧ abstentionPicks u r = ownPicks u r) ↔
      ∀ m ∈ r.predictedModels, ¬OnlyInside u r.question m ∧ ¬OnlyRespelled u r.question m := by
  have hsame : abstentionPicks u r = systemPicks u r := rfl
  rw [hsame, and_self_iff, systemPicks, ownPicks, filter_eq_iff]
  refine forall₂_congr fun m _ => ?_
  rw [← occurs_iff_names, decide_eq_decide, not_iff_not]
  rfl

/-- **An id between blanks, or before a full stop, is named**, so it is not only found inside other text. -/
theorem named_between_blanks {u : Unicode} (hu : u.PlainSpaces) {org repo P Q S : Str} (horg : IdPart org)
    (hrepo : IdPart repo) (hP : EndsBlank P) (hQ : ∀ c ∈ Q, isPunct c = true) (hS : StartsBlank S) {m : Str}
    (hm : norm u m = norm u (org ++ '/' :: repo)) :
    ¬OnlyInside u (P ++ (org ++ '/' :: repo) ++ Q ++ S) m := by
  obtain ⟨v, rest, hvr, hv, hrest⟩ := punct_split hu hQ hS
  obtain ⟨c, hc, hcand⟩ := exists_match hu horg hrepo hP hv hrest
  have hquestion : P ++ (org ++ '/' :: repo) ++ Q ++ S = P ++ ((org ++ '/' :: repo) ++ (v ++ rest)) := by
    rw [← hvr]
    simp
  have hasked : org ++ '/' :: repo ∈ asked u (P ++ (org ++ '/' :: repo) ++ Q ++ S) := by
    rw [hquestion]
    exact List.mem_map.2 ⟨c, hc, hcand⟩
  intro hinside
  obtain ⟨hne, hno⟩ := hinside.2 _ hasked
  exact (norm_eq_iff.1 hm.symm).elim hne hno

/-- an entry with a question and predictions -/
def entry (question : Str) (predictedModels : List Str) : Result := ⟨[], .impossible, question, predictedModels, Dict.empty, 0⟩

/-- **A part of the id that the user named is excused, and the other name of that id is not.** -/
theorem part_excused :
    systemPicks .ascii (entry "Is a/x-7b-chat good?".toList ["a/x-7b".toList]) = [] ∧
      ownPicks .ascii (entry "Is a/x-7b-chat good?".toList ["a/x-7b".toList]) = ["a/x-7b".toList] ∧
      systemPicks .ascii (entry "Is meta-llama/Meta-Llama-3 good?".toList ["meta-llama/Llama-3".toList]) =
        ["meta-llama/Llama-3".toList] ∧
      ownPicks .ascii (entry "Is meta-llama/Meta-Llama-3 good?".toList ["meta-llama/Llama-3".toList]) = [] := by
  decide +kernel

end AgentPick.Excused
