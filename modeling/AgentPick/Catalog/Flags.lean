/-
Re-uploads among the search results (`backend/src/catalog.py`, `_shape`, `_meta_for_ids`, `semantic_search`).

`_shape` puts a note on a re-upload, and an item without a row is not shaped. `Represents` says for which model a family's
result is, and `familiesAhead` how many families come before it, both in terms of the points and the table.

Results:
- `shown_iff`: a model is shown iff it represents its family, and few enough families come before that one.
- `entry_note`: a result has the note of its row, and none without a row.
- `reuploads_flagged_iff`: the re-uploads among the results have the note iff none without a row is shown.
- `unflagged`: a re-upload whose metadata could not be read.
-/
import Mathlib.Tactic
import AgentPick.Catalog.SemanticSearch

namespace AgentPick.Flags

open AgentPick.Text AgentPick.Catalog

variable {S : Type} [LinearOrder S]

/-- the note on a re-upload -/
def reuploadNote : Str :=
  "quantized/repackaged re-upload; prefer the original checkpoint unless this format was requested".toList

/-- a re-upload has the note -/
def Flagged (u : Unicode) (item : Item) : Prop :=
  ∀ mid ∈ item.modelId, isQuantizedReupload u mid = true → item.note = some reuploadNote

/-- of its family, mid is the one the results are about -/
def Represents (u : Unicode) (db : Option Models) (points : List (Point S)) (mid : Str) : Prop :=
  mid ∈ models points ∧ ∀ b ∈ models points, familyKey u b = familyKey u mid → b ≠ mid → Better u db points mid b

/-- a member of the family k comes before every member of the family k' -/
def FamilyBefore (u : Unicode) (points : List (Point S)) (k k' : Str) : Prop :=
  ∃ a ∈ models points, familyKey u a = k ∧ ∀ b ∈ models points, familyKey u b = k' → Before points a b

instance (points : List (Point S)) (a b : Str) : Decidable (Before points a b) :=
  inferInstanceAs (Decidable (_ ∨ _ ∧ _))

instance (u : Unicode) (points : List (Point S)) : DecidableRel (FamilyBefore u points) :=
  fun k _ => inferInstanceAs (Decidable (∃ a ∈ models points, familyKey u a = k ∧ _))

/-- the families of the points -/
def familyKeys (u : Unicode) (points : List (Point S)) : List Str := ((models points).map (familyKey u)).dedup

/-- how many families come before the family k -/
def familiesAhead (u : Unicode) (points : List (Point S)) (k : Str) : ℕ :=
  (familyKeys u points).countP fun k' => FamilyBefore u points k' k

/-- how many of n results a limit leaves, as a slice does -/
def kept (limit : ℤ) (n : ℕ) : ℕ := if 0 ≤ limit then limit.toNat else n - limit.natAbs

/-! ## The order of the families -/

theorem before_trans {points : List (Point S)} {a b c : Str} (hab : Before points a b) (hbc : Before points b c) :
    Before points a c := by
  rcases hab with hab | ⟨hab, hi⟩
  · rcases hbc with hbc | ⟨hbc, -⟩
    · exact Or.inl (hbc.trans hab)
    · exact Or.inl (hbc ▸ hab)
  · rcases hbc with hbc | ⟨hbc, hj⟩
    · exact Or.inl (hab ▸ hbc)
    · exact Or.inr ⟨hab.trans hbc, hi.trans hj⟩

theorem before_irrefl {points : List (Point S)} {a : Str} : ¬Before points a a := by
  rintro (h | ⟨-, h⟩)
  · exact lt_irrefl _ h
  · exact lt_irrefl _ h

section

variable (u : Unicode) (db : Option Models) (points : List (Point S))

/-- every family has a member that comes before the others -/
theorem exists_first {k : Str} (h : ∃ mid ∈ models points, familyKey u mid = k) :
    ∃ a ∈ models points, familyKey u a = k ∧ ∀ b ∈ models points, familyKey u b = k → b = a ∨ Before points a b := by
  obtain ⟨mid, hm, rfl⟩ := h
  have hpairwise := (ranked_pairwise points).filter fun e => decide (familyKey u e.1 = familyKey u mid)
  obtain ⟨e, he, rfl⟩ := exists_ranked hm
  have hmem : e ∈ (ranked points).filter fun x => decide (familyKey u x.1 = familyKey u e.1) :=
    List.mem_filter.2 ⟨he, by simp⟩
  obtain ⟨a, rest, hsplit⟩ := List.exists_cons_of_ne_nil (List.ne_nil_of_mem hmem)
  rw [hsplit] at hpairwise
  have ha : a ∈ (ranked points).filter fun x => decide (familyKey u x.1 = familyKey u e.1) := by simp [hsplit]
  obtain ⟨har, hak⟩ := List.mem_filter.1 ha
  refine ⟨a.1, (mem_ranked.1 har).1, by simpa using hak, fun b hb hbk => ?_⟩
  obtain ⟨y, hy, rfl⟩ := exists_ranked hb
  have hyf : y ∈ (ranked points).filter fun x => decide (familyKey u x.1 = familyKey u e.1) :=
    List.mem_filter.2 ⟨hy, by simpa using hbk⟩
  rw [hsplit] at hyf
  rcases List.mem_cons.1 hyf with rfl | hrest
  · exact Or.inl rfl
  · exact Or.inr ((List.pairwise_cons.1 hpairwise).1 y hrest)

/-- the families come in that order -/
theorem found_pairwise : (found u db points).keys.Pairwise (FamilyBefore u points) := by
  refine (Rank.champions_pairwise _ _ (ranked_pairwise points)).imp_of_mem fun {k k'} hk _ h => ?_
  obtain ⟨a, ha, hak, hfirst⟩ := exists_first u points ((mem_keys_found u db points k).1 hk)
  refine ⟨a, ha, hak, fun b hb hbk => ?_⟩
  obtain ⟨y, hy, rfl⟩ := exists_ranked hb
  obtain ⟨x, hx, hxk, hbefore⟩ := h y hy hbk
  rcases hfirst x.1 (mem_ranked.1 hx).1 hxk with heq | hax
  · rwa [heq] at hbefore
  · exact before_trans hax hbefore

theorem familyBefore_asymm {k k' : Str} (h : FamilyBefore u points k k') : ¬FamilyBefore u points k' k := by
  rintro ⟨b, hb, hbk, hb'⟩
  obtain ⟨a, ha, hak, ha'⟩ := h
  exact before_irrefl (before_trans (ha' b hb hbk) (hb' a ha hak))

theorem perm_familyKeys : (found u db points).keys.Perm (familyKeys u points) := by
  refine (List.perm_ext_iff_of_nodup (Dict.nodup_keys _) (List.nodup_dedup _)).2 fun key => ?_
  rw [mem_keys_found, List.mem_dedup, List.mem_map]

/-! ## Which models are shown -/

/-- two models do not both represent a family -/
theorem represents_unique {a b : Str} (ha : Represents u db points a) (hb : Represents u db points b)
    (hk : familyKey u a = familyKey u b) : a = b := by
  by_contra hne
  rcases ha.2 b hb.1 hk.symm (Ne.symm hne) with hab | ⟨hab, hbefore⟩
  · rcases hb.2 a ha.1 hk hne with hba | ⟨hba, -⟩
    · exact lt_asymm hab hba
    · exact hab.ne hba.symm
  · rcases hb.2 a ha.1 hk hne with hba | ⟨-, hbefore'⟩
    · exact hba.ne hab.symm
    · exact before_irrefl (before_trans hbefore hbefore')

/-- **Which models are shown**: the representatives of the families that have fewer than n families before them. -/
theorem shown_iff (mid : Str) (n : ℕ) : (∃ e ∈ shown u db points n, e.1 = mid) ↔
    Represents u db points mid ∧ familiesAhead u points (familyKey u mid) < n := by
  have hrank : ∀ k ∈ (found u db points).keys, k ∈ (found u db points).keys.take n ↔ familiesAhead u points k < n := by
    intro k hk
    rw [Rank.mem_take_iff (found_pairwise u db points) (fun a _ b _ => familyBefore_asymm u points) hk,
      (perm_familyKeys u db points).countP_eq]
    rfl
  refine ⟨?_, ?_⟩
  · intro hshown
    obtain ⟨e, he, rfl⟩ := hshown
    obtain ⟨her, hbest⟩ := mem_shown u db points n he
    have hm := (mem_ranked.1 her).1
    have hin : familyKey u e.1 ∈ (found u db points).keys.take n := by
      rw [← map_familyKey_shown]
      exact List.mem_map.2 ⟨e, he, rfl⟩
    exact ⟨⟨hm, hbest⟩, (hrank _ ((mem_keys_found u db points _).2 ⟨e.1, hm, rfl⟩)).1 hin⟩
  · rintro ⟨hrep, hlt⟩
    have hin := (hrank _ ((mem_keys_found u db points _).2 ⟨mid, hrep.1, rfl⟩)).2 hlt
    rw [← map_familyKey_shown] at hin
    obtain ⟨e, he, hk⟩ := List.mem_map.1 hin
    obtain ⟨her, hbest⟩ := mem_shown u db points n he
    exact ⟨e, he, represents_unique u db points ⟨(mem_ranked.1 her).1, hbest⟩ hrep hk⟩

theorem sliceTo_eq {α : Type} (l : List α) (limit : ℤ) : sliceTo l limit = l.take (kept limit l.length) := by
  rw [sliceTo, kept]
  split_ifs <;> rfl

theorem semanticSearch_eq_shown (limit : ℤ) :
    semanticSearch u db points limit =
      (shown u db points (kept limit (familyKeys u points).length)).map (entry (metadata u db (ranked points))) := by
  have hlen : (found u db points).values.length = (familyKeys u points).length := by
    rw [← List.length_map (fun e => familyKey u e.1), map_familyKey_values]
    exact (perm_familyKeys u db points).length_eq
  rw [shown, ← hlen, ← sliceTo_eq]
  rfl

/-! ## Notes -/

/-- **A result has the note of its row, and none without a row.** -/
theorem entry_note {e : Str × Agg S} (h : e ∈ ranked points) :
    (entry (metadata u db (ranked points)) e).note = (db.bind (·.get? e.1)).bind fun _ => noteFor u e.1 := by
  have hitem : (((metadata u db (ranked points)).get? e.1).getD (bare e.1)).note =
      (db.bind (·.get? e.1)).bind fun _ => noteFor u e.1 := by
    rw [get?_metadata u db points (mem_ranked.1 h).1]
    cases db.bind (·.get? e.1) with
    | none => rfl
    | some row => rfl
  dsimp only [entry]
  split_ifs <;> exact hitem

/-- a result is flagged iff it has a row, if it is a re-upload -/
theorem flagged_iff {e : Str × Agg S} (h : e ∈ ranked points) :
    Flagged u (entry (metadata u db (ranked points)) e) ↔
      (isQuantizedReupload u e.1 = true → (db.bind (·.get? e.1)).isSome) := by
  have hmodel := of_mem_models (mem_ranked.1 h).1
  rw [Flagged, entry_modelId u db points h, entry_note u db points h]
  simp only [Option.mem_def, Option.some.injEq, forall_eq']
  refine forall_congr' fun hq => ?_
  have hnote : noteFor u e.1 = some reuploadNote := by
    rw [noteFor, if_neg hmodel.1, hmodel.2, if_neg (by decide), if_pos hq]
    rfl
  cases db.bind (·.get? e.1) with
  | none => simp
  | some row => simp [hnote]

end

/-- **The re-uploads among the results have the note iff none without a row is shown.** -/
theorem reuploads_flagged_iff (u : Unicode) (db : Option Models) (points : List (Point S)) (limit : ℤ) :
    (∀ item ∈ semanticSearch u db points limit, Flagged u item) ↔
      ∀ mid, isQuantizedReupload u mid = true → (db.bind (·.get? mid)) = none → Represents u db points mid →
        kept limit (familyKeys u points).length ≤ familiesAhead u points (familyKey u mid) := by
  rw [semanticSearch_eq_shown, List.forall_mem_map]
  refine ⟨fun h mid hq hrow hrep => ?_, fun h e he => ?_⟩
  · by_contra hlt
    obtain ⟨e, he, rfl⟩ := (shown_iff u db points mid _).2 ⟨hrep, not_le.1 hlt⟩
    have hflag := (flagged_iff u db points (mem_shown u db points _ he).1).1 (h e he) hq
    rw [hrow] at hflag
    cases hflag
  · rw [flagged_iff u db points (mem_shown u db points _ he).1]
    intro hq
    by_contra hrow
    obtain ⟨hrep, hlt⟩ := (shown_iff u db points e.1 _).1 ⟨e, he, rfl⟩
    exact absurd hlt (not_lt.2 (h e.1 hq (by simpa using hrow) hrep))

/-- **A re-upload whose metadata cannot be read has no note.** -/
theorem unflagged :
    ∃ item ∈ semanticSearch Unicode.ascii none [(⟨1, some "b/X-7b-GGUF".toList, some "text".toList⟩ : Point ℕ)] 8,
      item.modelId = some "b/X-7b-GGUF".toList ∧ item.note = none ∧ ¬Flagged Unicode.ascii item := by
  refine ⟨_, List.mem_of_getElem? (i := 0) rfl, by decide, by decide, fun h => ?_⟩
  exact absurd (h "b/X-7b-GGUF".toList (by decide) (by decide)) (by decide)

end AgentPick.Flags
