/-
Calling `filter_models` (`backend/src/catalog.py`) with any arguments: when it returns, and what it then says.

Two calls fail before a query is sent. `int(float(b) * 1_000_000_000)` raises OverflowError when the product of a size bound
is infinite in floating point; the product is a parameter, `none` standing for an infinity. And the driver refuses a
text with a NUL character, which PostgreSQL cannot hold.

`Faithful` says what a result must be, over the rows of the table: `meets` and `inSize` are the conditions of a row, a
NULL never satisfying one.

Results:
- `matching_eq`, `ofUnknownSize_eq`: the two queries select the rows by these conditions.
- `SortKey.total`, `SortKey.trans`: every sort key orders the rows.
- `mem_unknownWarning`: the unknown-size warning is there iff there are such rows, with their number.
- `filter_models_faithful`: a call returns iff nothing of this fails, and what it returns is faithful.
- `failing_calls`: a finite size bound whose product overflows, and a text with a NUL.
-/
import Mathlib.Tactic
import AgentPick.Catalog.FilterModels

namespace AgentPick.Catalog

open AgentPick.Text AgentPick.Sql

/-! ## Calls -/

/-- the size bounds that are given -/
def sizeBounds (a : Args) : List ℚ := a.minParamsB.toList ++ a.maxParamsB.toList

/-- a text without NUL -/
def Param.sendable : Param → Bool
  | .text s => !s.contains '\x00'
  | _ => true

/-- the products of the size bounds are finite and the texts can be sent -/
def Callable (u : Unicode) (product : ℚ → Option ℚ) (a : Args) : Prop :=
  (∀ b ∈ sizeBounds a, product b ≠ none) ∧ ∀ p ∈ (whereOf u a).params, p.sendable

instance (u : Unicode) (product : ℚ → Option ℚ) (a : Args) : Decidable (Callable u product a) :=
  inferInstanceAs (Decidable (_ ∧ _))

/-- `filter_models` called with any arguments; `none` is an exception -/
def filterModelsCall (u : Unicode) (product : ℚ → Option ℚ) (t : Models) (a : Args) : Option Filtered :=
  if Callable u product a then filterModels u (fun b => (product b).getD 0) t a else none

/-! ## Conditions of a row -/

/-- the conditions other than the size bounds -/
def meets (u : Unicode) (a : Args) (e : Str × ModelRow) : Bool :=
  !sqlArtifact e.1 &&
    (taskOf u a).all (fun s => e.2.pipelineTag.any fun p => lower p = s) &&
    (strippedArg a.tag).all (fun s => e.2.tags.any fun ts => ts.contains s) &&
    (strippedArg a.nameContains).all fun s => likeMatch (namePattern s) e.1

/-- the size bounds -/
def inSize (billion : ℚ → ℚ) (a : Args) (row : ModelRow) : Bool :=
  a.minParamsB.all (fun b => row.parameterCount.any fun c => truncate (billion b) ≤ c) &&
    a.maxParamsB.all fun b => row.parameterCount.any fun c => c ≤ truncate (billion b)

/-- the rows that satisfy all conditions -/
def accepted (u : Unicode) (billion : ℚ → ℚ) (t : Models) (a : Args) : List (Str × ModelRow) :=
  t.entries.filter fun e => meets u a e && inSize billion a e.2

/-- the rows of unknown size that satisfy the others -/
def unknownSize (u : Unicode) (t : Models) (a : Args) : List (Str × ModelRow) :=
  t.entries.filter fun e => meets u a e && e.2.parameterCount.isNone

theorem map_eq_some_true {α : Type} {o : Option α} {p : α → Bool} : o.map p = some true ↔ o.any p = true := by
  cases o with
  | none => simp
  | some x => simp

/-- an optional condition is true of a row that passes the test, if there is one -/
theorem optional_true {α : Type} {id : Str} {row : ModelRow} {f : α → Cond} {p : α → Bool}
    (h : ∀ s, (f s).truth id row = some true ↔ p s = true) (o : Option α) :
    (∀ c ∈ (o.map f).toList, c.truth id row = some true) ↔ o.all p = true := by
  cases o with
  | none => simp
  | some s => simp [h s]

theorem baseConds_true (u : Unicode) (a : Args) (e : Str × ModelRow) :
    (∀ c ∈ baseConds u a, c.truth e.1 e.2 = some true) ↔ meets u a e = true := by
  have hart : (Cond.notPattern sqlArtifactPattern).truth e.1 e.2 = some true ↔ sqlArtifact e.1 = false := by
    rw [Cond.truth, sqlArtifact, Option.some.injEq, Option.isNone_iff_eq_none, Option.isSome_eq_false_iff,
      Option.isNone_iff_eq_none]
  simp only [baseConds, List.forall_mem_append, List.forall_mem_singleton, meets, Bool.and_eq_true, Bool.not_eq_true']
  refine and_congr (and_congr (and_congr hart ?_) ?_) ?_
  · apply optional_true
    intro s
    exact map_eq_some_true
  · apply optional_true
    intro s
    exact map_eq_some_true
  · apply optional_true
    intro s
    exact Option.some_inj

theorem sizeConds_true (billion : ℚ → ℚ) (a : Args) (e : Str × ModelRow) :
    (∀ c ∈ sizeConds billion a, c.truth e.1 e.2 = some true) ↔ inSize billion a e.2 = true := by
  simp only [sizeConds, List.forall_mem_append, inSize, Bool.and_eq_true]
  apply and_congr
  · apply optional_true
    intro b
    exact map_eq_some_true
  · apply optional_true
    intro b
    exact map_eq_some_true

/-- a query selects the rows of which its conditions are true -/
theorem selectWhere_eq {t : Models} {conds : List Cond} {p : Str × ModelRow → Bool}
    (h : ∀ e, (∀ c ∈ conds, c.truth e.1 e.2 = some true) ↔ p e = true) : selectWhere t conds = t.entries.filter p := by
  apply List.filter_congr
  intro e _
  have hconj : conj (conds.map (Cond.truth e.1 e.2)) = some true ↔ p e = true := by
    rw [conj_eq_true, List.forall_mem_map]
    exact h e
  exact Bool.eq_iff_iff.2 (decide_eq_true_iff.trans hconj)

theorem matching_eq (u : Unicode) (billion : ℚ → ℚ) (t : Models) (a : Args) :
    matching u billion t a = accepted u billion t a := by
  apply selectWhere_eq
  intro e
  rw [List.forall_mem_append, baseConds_true, sizeConds_true, Bool.and_eq_true]

theorem ofUnknownSize_eq (u : Unicode) (t : Models) (a : Args) : ofUnknownSize u t a = unknownSize u t a := by
  apply selectWhere_eq
  intro e
  rw [List.forall_mem_append, baseConds_true, List.forall_mem_singleton, Bool.and_eq_true, Cond.truth, Option.some_inj]

/-! ## Order -/

/-- every key orders the rows -/
theorem SortKey.total (k : SortKey) (a b : ModelRow) : k.le a b ∨ k.le b a := by
  cases k <;> apply nullsLast_total <;> intro x y <;> simp only [decide_eq_true_eq]
  case smallest => exact le_total x y
  all_goals exact le_total y x

theorem SortKey.trans (k : SortKey) {a b c : ModelRow} (hab : k.le a b) (hbc : k.le b c) : k.le a c := by
  cases k
  case smallest =>
    refine nullsLast_trans ?_ hab hbc
    intro x y z hxy hyz
    exact decide_eq_true ((of_decide_eq_true hxy).trans (of_decide_eq_true hyz))
  all_goals
    refine nullsLast_trans ?_ hab hbc
    intro x y z hxy hyz
    exact decide_eq_true ((of_decide_eq_true hyz).trans (of_decide_eq_true hxy))

/-! ## Warnings -/

/-- the decimal of a number can be read back -/
theorem natText_inj {m n : ℕ} (h : natText m = natText n) : m = n := by
  have hdigits (k : ℕ) : natText k = Nat.toDigits 10 k := Nat.toList_repr
  rw [hdigits, hdigits] at h
  calc m = Nat.ofDigitChars 10 (Nat.toDigits 10 m) 0 := Nat.ofDigitChars_ten_toDigits.symm
    _ = Nat.ofDigitChars 10 (Nat.toDigits 10 n) 0 := by rw [h]
    _ = n := Nat.ofDigitChars_ten_toDigits

theorem unknownWarning_inj {m n : ℕ} (h : unknownWarning m = unknownWarning n) : m = n :=
  natText_inj (List.append_cancel_left (List.append_cancel_right h))

theorem head?_append_of {c : Char} {x : Str} (h : x.head? = some c) (y : Str) : (x ++ y).head? = some c := by
  rw [List.head?_append, h]
  rfl

theorem head?_unknownWarning (n : ℕ) : (unknownWarning n).head? = some 'N' := by
  unfold unknownWarning
  apply head?_append_of
  apply head?_append_of
  decide

theorem head?_sparseWarning (tag : Str) (total : ℕ) (similar : List Str) :
    (sparseWarning tag total similar).head? = some 'T' := by
  unfold sparseWarning
  iterate 5 apply head?_append_of
  decide

theorem head?_smallestWarning : smallestWarning.head? = some 'T' := by
  refine (congrArg List.head? String.toList_append).trans ?_
  apply head?_append_of
  decide +kernel

/-- the other warnings begin differently -/
theorem unknownWarning_notMem (u : Unicode) {t : Models} {a : Args} {total : ℕ} {sparse : List Str}
    (h : sparseWarnings t a total = some sparse) (n : ℕ) :
    unknownWarning n ∉ sparse ∧ unknownWarning n ∉ smallestWarnings u a := by
  have hhead {w : Str} (hw : w.head? = some 'T') : unknownWarning n ≠ w := by
    intro heq
    rw [← heq, head?_unknownWarning] at hw
    cases hw
  refine ⟨?_, ?_⟩
  · intro hmem
    unfold sparseWarnings at h
    split at h
    · obtain rfl := Option.some.inj h
      cases hmem
    · split_ifs at h
      · obtain ⟨similar, -, rfl⟩ := Option.map_eq_some_iff.1 h
        exact hhead (head?_sparseWarning _ _ _) (List.mem_singleton.1 hmem)
      · obtain rfl := Option.some.inj h
        cases hmem
  · intro hmem
    unfold smallestWarnings at hmem
    split_ifs at hmem
    · exact hhead (w := smallestWarning) head?_smallestWarning (List.mem_singleton.1 hmem)
    · cases hmem

/-- a size filter is one with a bound -/
theorem sizeConds_eq_nil (billion : ℚ → ℚ) (a : Args) : sizeConds billion a = [] ↔ sizeBounds a = [] := by
  cases hmin : a.minParamsB <;> cases hmax : a.maxParamsB <;> simp [sizeConds, sizeBounds, hmin, hmax]

/-- the unknown-size warning is there iff a bound is given and there are such rows, with their number -/
theorem mem_unknownWarning (u : Unicode) (billion : ℚ → ℚ) {t : Models} {a : Args} {total : ℕ} {sparse : List Str}
    (h : sparseWarnings t a total = some sparse) (n : ℕ) :
    (unknownWarning n ∈ sparse ++
        (if sizeConds billion a = [] ∨ ofUnknownSize u t a = [] then []
          else [unknownWarning (ofUnknownSize u t a).length]) ++ smallestWarnings u a) ↔
      sizeBounds a ≠ [] ∧ 0 < n ∧ n = (unknownSize u t a).length := by
  obtain ⟨hsparse, hsmallest⟩ := unknownWarning_notMem u h n
  simp only [List.mem_append, ofUnknownSize_eq, sizeConds_eq_nil, hsparse, hsmallest, or_false, false_or]
  split_ifs with hno
  · simp only [List.not_mem_nil, false_iff]
    intro ⟨hb, hpos, hn⟩
    rcases hno with hno | hno
    · exact hb hno
    · rw [hn, hno] at hpos
      exact lt_irrefl _ hpos
  · rw [not_or] at hno
    rw [List.mem_singleton]
    have hpos := List.length_pos_iff.2 hno.2
    refine ⟨?_, ?_⟩
    · intro heq
      have hn := unknownWarning_inj heq
      exact ⟨hno.1, hn ▸ hpos, hn⟩
    · intro ⟨_, _, hn⟩
      rw [hn]

/-! ## What a call says -/

/-- a result that is faithful to its request -/
structure Faithful (u : Unicode) (billion : ℚ → ℚ) (t : Models) (a : Args) (r : Filtered) : Prop where
  /-- the placeholders of the main query are bound to the arguments of their conditions, the last one to the limit -/
  bound : bindAll ((whereOf u a).clauses ++ (sizeOf billion a).clauses)
      ((whereOf u a).params ++ (sizeOf billion a).params ++ [.int (clampLimit a.limit)]) =
    some (baseConds u a ++ sizeConds billion a, [.int (clampLimit a.limit)])
  /-- so are those of the unknown-size query -/
  boundUnknown : bindAll ((whereOf u a).clauses ++ [.unknown]) (whereOf u a).params = some (baseConds u a ++ [.unknown], [])
  total : r.totalMatches = (accepted u billion t a).length
  length : (r.models.length : ℤ) = min (r.totalMatches : ℤ) (clampLimit a.limit)
  /-- the models are a prefix of an ordering of the accepted rows by the sort key -/
  models : ∃ rows : List (Str × ModelRow), rows.Perm (accepted u billion t a) ∧
    rows.Pairwise (fun x y => (sortKey (sortText u a)).le x.2 y.2) ∧
    r.models = (rows.take (clampLimit a.limit).toNat).map fun e => shape u e.1 e.2 (some (cardExcerpt e.2))
  /-- an unrecognised key is that of the downloads -/
  unrecognised : sortText u a ∉ ["likes".toList, "smallest".toList, "largest".toList, "newest".toList] →
    sortKey (sortText u a) = .downloads
  /-- the warning of the rows of unknown size -/
  warning : ∀ n, unknownWarning n ∈ r.warnings ↔ sizeBounds a ≠ [] ∧ 0 < n ∧ n = (unknownSize u t a).length

theorem faithful_filterModels (u : Unicode) (billion : ℚ → ℚ) (t : Models) (a : Args) :
    ∃ r, filterModels u billion t a = some r ∧ Faithful u billion t a r := by
  obtain ⟨sparse, hsparse, heq⟩ := filterModels_eq u billion t a
  rw [matching_eq] at hsparse heq
  have hperm := List.perm_insertionSort (fun x y => (sortKey (sortText u a)).le x.2 y.2 = true) (accepted u billion t a)
  have : Std.Total fun x y : Str × ModelRow => (sortKey (sortText u a)).le x.2 y.2 = true :=
    ⟨fun x y => SortKey.total _ x.2 y.2⟩
  have : IsTrans (Str × ModelRow) fun x y => (sortKey (sortText u a)).le x.2 y.2 = true :=
    ⟨fun x y z => SortKey.trans _⟩
  refine ⟨_, heq, ?_⟩
  constructor
  case bound => exact (bound_whereOf u a).append (bound_sizeOf billion a) _
  case boundUnknown =>
    have hu : (Where.mk [.unknown] []).Bound [.unknown] := fun rest => rfl
    simpa using (bound_whereOf u a).append hu []
  case total => rfl
  case length =>
    have hpos := clampLimit_pos a.limit
    simp only [List.length_map, List.length_take, hperm.length_eq]
    omega
  case models => exact ⟨_, hperm, List.pairwise_insertionSort _ _, rfl⟩
  case unrecognised =>
    intro h
    simp only [List.mem_cons, List.not_mem_nil, or_false, not_or] at h
    simp only [sortKey, h.1, h.2.1, h.2.2.1, h.2.2.2, if_false]
  case warning => exact mem_unknownWarning u billion hsparse

/-- **A call returns iff nothing fails before a query is sent, and its result is faithful to its filters.** -/
theorem filter_models_faithful (u : Unicode) (product : ℚ → Option ℚ) (t : Models) (a : Args) :
    (Callable u product a ∧
        ∃ r, filterModelsCall u product t a = some r ∧ Faithful u (fun b => (product b).getD 0) t a r) ∨
      (¬ Callable u product a ∧ filterModelsCall u product t a = none) := by
  by_cases h : Callable u product a
  · left
    obtain ⟨r, hr, hfaithful⟩ := faithful_filterModels u (fun b => (product b).getD 0) t a
    exact ⟨h, r, by rw [filterModelsCall, if_pos h, hr], hfaithful⟩
  · right
    exact ⟨h, by rw [filterModelsCall, if_neg h]⟩

/-- the product of a double that rounding leaves alone; from 2^1024 - 2^970 on it is infinite -/
def doubleProduct (b : ℚ) : Option ℚ := if |exactBillion b| < 2 ^ 1024 - 2 ^ 970 then some (exactBillion b) else none

/-- a request for a size of at least b billion -/
def atLeastArgs (b : ℚ) : Args := ⟨none, none, none, some b, none, none, 8⟩

/-- a request for ids that contain a text -/
def containingArgs (s : Str) : Args := ⟨none, none, some s, none, none, none, 8⟩

/-- Calls that fail: 10^300 is a finite bound, but its product is infinite; and a text has a NUL. Nothing is returned. -/
theorem failing_calls :
    (doubleProduct (10 ^ 300) = none ∧
      ¬ ∃ r, filterModelsCall Unicode.ascii doubleProduct (sampleTable "translation".toList) (atLeastArgs (10 ^ 300)) =
          some r ∧
        Faithful Unicode.ascii exactBillion (sampleTable "translation".toList) (atLeastArgs (10 ^ 300)) r) ∧
    ¬ ∃ r, filterModelsCall Unicode.ascii doubleProduct (sampleTable "translation".toList) (containingArgs ['a', '\x00']) =
        some r ∧
      Faithful Unicode.ascii exactBillion (sampleTable "translation".toList) (containingArgs ['a', '\x00']) r := by
  have hinf : doubleProduct (10 ^ 300) = none := by
    have hbig : (2 : ℚ) ^ 1024 - 2 ^ 970 ≤ |10 ^ 300 * 1000000000| := by
      have hnat : 2 ^ 1024 ≤ 10 ^ 300 * 1000000000 + 2 ^ 970 := by decide +kernel
      rw [abs_of_nonneg (by positivity), sub_le_iff_le_add]
      exact_mod_cast hnat
    exact if_neg hbig.not_gt
  have hnone {a : Args} (hcall : ¬ Callable Unicode.ascii doubleProduct a) (r : Filtered) :
      filterModelsCall Unicode.ascii doubleProduct (sampleTable "translation".toList) a ≠ some r := by
    rw [filterModelsCall, if_neg hcall]
    exact (Option.some_ne_none r).symm
  refine ⟨⟨hinf, fun h => ?_⟩, fun h => ?_⟩
  · obtain ⟨r, hr, -⟩ := h
    refine hnone (fun hcall => ?_) r hr
    exact hcall.1 (10 ^ 300) (List.mem_append_left _ (Option.mem_toList.2 rfl)) hinf
  · obtain ⟨r, hr, -⟩ := h
    refine hnone (fun hcall => ?_) r hr
    exact absurd hcall.2 (by decide)

end AgentPick.Catalog
