/-
When `compare` is reproducible.

The seed fixes the positions that are drawn, and the iteration order of the shared ids, which changes from process to process,
decides what stands at these positions. So a row is the same in every order only where the order does not matter to it.

Results:
- `compare_of_orderFree`: the rows are the same in every order if the differences of every selected metric are `OrderFree`, and
  if there is an IndexError.
- `reproducible_iff`: and in no other case, over all generators.
- `order_changes_rows`: two questions, two orders, two intervals.
-/
import Mathlib.Tactic
import Mathlib.Data.Bool.Count
import AgentPick.Evaluation.Compare

namespace AgentPick.Compare

open Generator

/-- an order in which the set of the shared ids can be iterated -/
def Shared (a b : Report) (ids : List Str) : Prop := ids.Perm (sharedIds a b)

/-- the same rows for every order of the shared ids, every seed and every stream of draws -/
def Reproducible (R : Rounding) (a b : Report) (metricsFilter : Option (List Str)) (nResamples : ℤ) : Prop :=
  ∀ (S : Type) (g : Generator S) (seed : ℤ) (ids ids' : List Str), Shared a b ids → Shared a b ids' →
    compare R g a b metricsFilter nResamples seed ids = compare R g a b metricsFilter nResamples seed ids'

/-- the differences of a metric, in the order of the first file -/
def metricDiffs (R : Rounding) (a b : Report) (metric : Str) : List ℚ :=
  diffsOf R ((sharedIds a b).filterMap (pairOf R a b metric))

/-- an index that does not raise -/
def InRange (length : ℕ) (i : ℤ) : Prop := 0 ≤ length + i ∧ i < length

/-- both percentiles stand at a position of the sorted means -/
def Indexed (R : Rounding) (nResamples : ℤ) : Prop :=
  InRange nResamples.toNat (position R (25 / 1000) nResamples) ∧
    InRange nResamples.toNat (position R (975 / 1000) nResamples)

/-- differences whose order does not matter: they round alike, and whether a flip of signs reaches the observed mean is a
question of how many signs are flipped -/
structure OrderFree (R : Rounding) (diffs : List ℚ) : Prop where
  rounds : ∀ x ∈ diffs, ∀ y ∈ diffs, R.round4 x = R.round4 y
  signs : ∀ σ τ : List Bool, σ.length = diffs.length → τ.length = diffs.length → σ.count true = τ.count true →
    (Reaches R diffs (flipped diffs σ) ↔ Reaches R diffs (flipped diffs τ))

section Rows

variable {R : Rounding} {S : Type} {g : Generator S} {nResamples seed : ℤ}

/-! ## The interval -/

theorem item?_isSome {xs : List ℚ} {i : ℤ} : (item? xs i).isSome ↔ InRange xs.length i := by
  unfold item? InRange
  split_ifs with h0 hneg
  · rw [isSome_getElem?]
    omega
  · rw [isSome_getElem?]
    omega
  · simp only [Option.isSome_none, Bool.false_eq_true, false_iff]
    omega

theorem mem_of_item? {xs : List ℚ} {i : ℤ} {x : ℚ} (h : item? xs i = some x) : x ∈ xs := by
  unfold item? at h
  split_ifs at h
  · exact List.mem_of_getElem? h
  · exact List.mem_of_getElem? h

/-- the resampled means -/
def means (R : Rounding) (g : Generator S) (nResamples : ℤ) (diffs : List ℚ) (s : S) : List ℚ × S :=
  repeated (meanResample R g diffs) nResamples.toNat s

theorem bootstrapDiffCi_eq (diffs : List ℚ) (s : S) :
    bootstrapDiffCi R g diffs nResamples s =
      (item? ((means R g nResamples diffs s).1.insertionSort (· ≤ ·)) (position R (25 / 1000) nResamples)).bind fun lo =>
        (item? ((means R g nResamples diffs s).1.insertionSort (· ≤ ·)) (position R (975 / 1000) nResamples)).bind fun hi =>
          some ((lo, hi), (means R g nResamples diffs s).2) := rfl

theorem isSome_percentile (diffs : List ℚ) (s : S) (i : ℤ) :
    (item? ((means R g nResamples diffs s).1.insertionSort (· ≤ ·)) i).isSome ↔ InRange nResamples.toNat i := by
  rw [item?_isSome, List.length_insertionSort, means, length_repeated]

theorem bootstrapDiffCi_of_not_indexed (h : ¬ Indexed R nResamples) (diffs : List ℚ) (s : S) :
    bootstrapDiffCi R g diffs nResamples s = none := by
  rw [bootstrapDiffCi_eq]
  by_contra hsome
  obtain ⟨r, hr⟩ := Option.ne_none_iff_exists'.1 hsome
  obtain ⟨lo, hlo, hr⟩ := Option.bind_eq_some_iff.1 hr
  obtain ⟨hi, hhi, -⟩ := Option.bind_eq_some_iff.1 hr
  apply h
  exact ⟨(isSome_percentile diffs s _).1 (by rw [hlo]; rfl), (isSome_percentile diffs s _).1 (by rw [hhi]; rfl)⟩

/-- the ends of the interval are resampled means -/
theorem bootstrapDiffCi_of_indexed (h : Indexed R nResamples) (diffs : List ℚ) (s : S) :
    ∃ lo ∈ (means R g nResamples diffs s).1, ∃ hi ∈ (means R g nResamples diffs s).1,
      bootstrapDiffCi R g diffs nResamples s = some ((lo, hi), (means R g nResamples diffs s).2) := by
  obtain ⟨lo, hlo⟩ := Option.isSome_iff_exists.1 ((isSome_percentile (g := g) diffs s _).2 h.1)
  obtain ⟨hi, hhi⟩ := Option.isSome_iff_exists.1 ((isSome_percentile (g := g) diffs s _).2 h.2)
  refine ⟨lo, (List.mem_insertionSort _).1 (mem_of_item? hlo), hi, (List.mem_insertionSort _).1 (mem_of_item? hhi), ?_⟩
  rw [bootstrapDiffCi_eq, hlo, hhi]
  rfl

/-! ## Orders that do not matter -/

/-- a resampled mean lies between the bounds of the differences -/
theorem le_of_mem_means {diffs : List ℚ} {s : S} {m b : ℚ} (hm : m ∈ (means R g nResamples diffs s).1)
    (hne : diffs ≠ []) (hb : R.fl b = b) (hle : ∀ x ∈ diffs, b ≤ x) : b ≤ m := by
  obtain ⟨s', -, rfl⟩ := of_mem_repeated (p := fun _ => True) (fun _ _ => trivial) trivial hm
  exact R.le_mean (g.choices_ne_nil hne s') hb fun y hy => hle y (g.mem_choices hne hy)

theorem mem_means_le {diffs : List ℚ} {s : S} {m b : ℚ} (hm : m ∈ (means R g nResamples diffs s).1)
    (hne : diffs ≠ []) (hb : R.fl b = b) (hle : ∀ x ∈ diffs, x ≤ b) : m ≤ b := by
  obtain ⟨s', -, rfl⟩ := of_mem_repeated (p := fun _ => True) (fun _ _ => trivial) trivial hm
  exact R.mean_le (g.choices_ne_nil hne s') hb fun y hy => hle y (g.mem_choices hne hy)

/-- a resampled mean rounds as the differences do -/
theorem round4_of_mem_means {diffs : List ℚ} (hround : ∀ x ∈ diffs, ∀ y ∈ diffs, R.round4 x = R.round4 y)
    (hfl : ∀ x ∈ diffs, R.fl x = x) {s : S} {m : ℚ} (hm : m ∈ (means R g nResamples diffs s).1) :
    ∀ x ∈ diffs, R.round4 m = R.round4 x := by
  intro x hx
  have hne : diffs ≠ [] := List.ne_nil_of_mem hx
  -- it lies between the smallest and the largest difference
  obtain ⟨least, hleast, hmin⟩ := diffs.toFinset.exists_min_image id ⟨x, List.mem_toFinset.2 hx⟩
  obtain ⟨most, hmost, hmax⟩ := diffs.toFinset.exists_max_image id ⟨x, List.mem_toFinset.2 hx⟩
  rw [List.mem_toFinset] at hleast hmost
  have hlow : least ≤ m := le_of_mem_means hm hne (hfl least hleast) fun y hy => hmin y (List.mem_toFinset.2 hy)
  have hhigh : m ≤ most := mem_means_le hm hne (hfl most hmost) fun y hy => hmax y (List.mem_toFinset.2 hy)
  apply le_antisymm
  · exact (R.round4_mono hhigh).trans (hround most hmost x hx).le
  · exact (hround x hx least hleast).le.trans (R.round4_mono hlow)

theorem flipped_perm {ds ds' : List ℚ} {σ σ' : List Bool} (h : (ds.zip σ).Perm (ds'.zip σ')) :
    (flipped ds σ).Perm (flipped ds' σ') := by
  have hmap := h.map fun p => if p.2 then -p.1 else p.1
  rw [List.map_zip_eq_zipWith, List.map_zip_eq_zipWith] at hmap
  exact hmap

theorem reaches_congr {ds ds' es es' : List ℚ} (h : ds.Perm ds') (he : es.Perm es') :
    Reaches R ds es ↔ Reaches R ds' es' := by
  rw [Reaches, Reaches, R.mean_perm h, R.mean_perm he]

/-- a flip of signs reaches the observed mean in both orders or in none -/
theorem OrderFree.reaches {ds ds' : List ℚ} (h : OrderFree R ds) (hperm : ds'.Perm ds) {σ : List Bool}
    (hσ : σ.length = ds.length) : Reaches R ds' (flipped ds' σ) ↔ Reaches R ds (flipped ds σ) := by
  obtain ⟨τ, hτ, hzip⟩ := exists_zip_perm hperm.symm (hσ.trans hperm.length_eq.symm)
  calc Reaches R ds' (flipped ds' σ) ↔ Reaches R ds (flipped ds τ) := reaches_congr hperm (flipped_perm hzip).symm
    _ ↔ Reaches R ds (flipped ds σ) := h.signs τ σ (hτ.length_eq.trans hσ) hσ (hτ.count_eq true)

theorem OrderFree.permutationPValue_eq {ds ds' : List ℚ} (h : OrderFree R ds) (hperm : ds'.Perm ds) (s : S) :
    permutationPValue R g ds' nResamples s = permutationPValue R g ds nResamples s := by
  have hresample : signResample R g ds' = signResample R g ds := by
    funext s
    have hreaches := h.reaches hperm (g.length_signs ds.length s)
    rw [signResample, signResample, g.signed_eq, g.signed_eq, hperm.length_eq]
    exact Prod.ext (decide_eq_decide.2 hreaches) rfl
  rw [permutationPValue, permutationPValue, hresample]

theorem means_state {ds ds' : List ℚ} (h : ds'.length = ds.length) (s : S) :
    (means R g nResamples ds' s).2 = (means R g nResamples ds s).2 := by
  refine (repeated_rel (r := fun _ _ => True) (fun _ => trivial) (fun s => ?_) _ s).2
  simp only [meanResample, h]
  exact g.choices_state h ds.length s

theorem fl_diffsOf (R : Rounding) (pairs : List (ℚ × ℚ)) : ∀ x ∈ diffsOf R pairs, R.fl x = x := by
  intro x hx
  obtain ⟨p, -, rfl⟩ := List.mem_map.1 hx
  exact R.idem _

/-- the row of a metric whose differences are free of order -/
theorem row_congr (metric : Str) {pairs pairs' : List (ℚ × ℚ)} (hperm : pairs'.Perm pairs)
    (h : ¬ Indexed R nResamples ∨ OrderFree R (diffsOf R pairs)) (hne : pairs ≠ []) :
    row R g nResamples seed (metric, pairs') = row R g nResamples seed (metric, pairs) := by
  by_cases hindexed : Indexed R nResamples
  · have hfree := h.resolve_left (not_not.2 hindexed)
    have hdiffs : (diffsOf R pairs').Perm (diffsOf R pairs) := hperm.map _
    obtain ⟨lo, hlo, hi, hhi, hci⟩ := bootstrapDiffCi_of_indexed (g := g) hindexed (diffsOf R pairs) (g.seeded seed)
    obtain ⟨lo', hlo', hi', hhi', hci'⟩ := bootstrapDiffCi_of_indexed (g := g) hindexed (diffsOf R pairs') (g.seeded seed)
    obtain ⟨x, hx⟩ := List.exists_mem_of_ne_nil _ (show diffsOf R pairs ≠ [] from by simpa [diffsOf] using hne)
    have hround' : ∀ x ∈ diffsOf R pairs', ∀ y ∈ diffsOf R pairs', R.round4 x = R.round4 y :=
      fun x hx y hy => hfree.rounds x (hdiffs.subset hx) y (hdiffs.subset hy)
    have hends {m m' : ℚ} (hm : m ∈ (means R g nResamples (diffsOf R pairs) (g.seeded seed)).1)
        (hm' : m' ∈ (means R g nResamples (diffsOf R pairs') (g.seeded seed)).1) : R.round4 m' = R.round4 m :=
      (round4_of_mem_means hround' (fl_diffsOf R pairs') hm' x (hdiffs.symm.subset hx)).trans
        (round4_of_mem_means hfree.rounds (fl_diffsOf R pairs) hm x hx).symm
    simp only [row, hci, hci', Option.bind_eq_bind, Option.bind_some, hends hlo hlo', hends hhi hhi', hperm.length_eq,
      R.mean_perm (hperm.map Prod.fst), R.mean_perm (hperm.map Prod.snd), R.mean_perm hdiffs,
      means_state hdiffs.length_eq, hfree.permutationPValue_eq hdiffs]
  · have hnone (ps : List (ℚ × ℚ)) : row R g nResamples seed (metric, ps) = none := by
      rw [row, bootstrapDiffCi_of_not_indexed hindexed]
      rfl
    rw [hnone, hnone]

end Rows

theorem mapM_congr {α β : Type} {f f' : α → Option β} {xs : List α} (h : ∀ x ∈ xs, f x = f' x) : xs.mapM f = xs.mapM f' := by
  induction xs with
  | nil => rfl
  | cons x xs ih =>
    obtain ⟨hx, hxs⟩ := List.forall_mem_cons.1 h
    rw [List.mapM_cons, List.mapM_cons, hx, ih hxs]

/-- the rows are those of the order of the first file -/
theorem compare_of_orderFree {R : Rounding} {a b : Report} {metricsFilter : Option (List Str)} {nResamples : ℤ}
    (h : ¬ Indexed R nResamples ∨ ∀ metric, Selected metricsFilter metric → OrderFree R (metricDiffs R a b metric))
    {S : Type} (g : Generator S) (seed : ℤ) {ids : List Str} (hids : Shared a b ids) :
    compare R g a b metricsFilter nResamples seed ids = compare R g a b metricsFilter nResamples seed (sharedIds a b) := by
  rw [compare_eq, compare_eq, metricsOf_perm R a b metricsFilter hids]
  refine mapM_congr fun metric hmetric => ?_
  obtain ⟨hne, hselected⟩ := (mem_metricsOf R a b metricsFilter _ _).1 hmetric
  exact row_congr metric (hids.filterMap _) (h.imp_right fun hall => hall metric hselected) hne

/-! ## Orders that matter -/

section Streams

variable {R : Rounding} {nResamples : ℤ}

/-- every call draws position 0 -/
def first : Generator ℕ := counter (fun _ _ => 0) fun _ _ h => h

/-- the i-th call for a sign draws the one that the pattern has at i, modulo its length -/
def pattern (σ : List Bool) : Generator ℕ :=
  counter (fun i n => if σ.getD (i % σ.length) false then 0 else n - 1) fun i n hn => by split <;> omega

/-- the first difference is the only one that is resampled -/
theorem mem_means_first {x : ℚ} {ds : List ℚ} (hx : R.fl x = x) {s : ℕ} {m : ℚ}
    (hm : m ∈ (means R first nResamples (x :: ds) s).1) : m = x := by
  obtain ⟨s', -, rfl⟩ := of_mem_repeated (p := fun _ => True) (fun _ _ => trivial) trivial hm
  have hall : ∀ y ∈ (first.choices (x :: ds) (x :: ds).length s').1, y = x := by
    intro y hy
    obtain ⟨_, -, rfl⟩ := of_mem_repeated (p := fun _ => True) (fun _ _ => trivial) trivial hy
    rfl
  have hne : (first.choices (x :: ds) (x :: ds).length s').1 ≠ [] := by
    rw [← List.length_pos_iff, length_choices]
    exact Nat.succ_pos _
  apply le_antisymm
  · exact R.mean_le hne hx fun y hy => (hall y hy).le
  · exact R.le_mean hne hx fun y hy => (hall y hy).ge

/-- from a multiple of its length on, the signs are the pattern -/
theorem signs_pattern {σ : List Bool} {s : ℕ} (hs : s % σ.length = 0) :
    (pattern σ).signs σ.length s = (σ, s + σ.length) := by
  have hminus (i : ℕ) : decide (((pattern σ).drawOne i 2).1 = 0) = σ.getD (i % σ.length) false := by
    cases h : σ.getD (i % σ.length) false <;> simp only [pattern, counter, h] <;> rfl
  refine (repeated_counter _ σ.length s).trans (Prod.ext ?_ rfl)
  refine List.ext_getElem (by simp) fun j hj hjσ => ?_
  have hmod : (s + j) % σ.length = j := by
    rw [Nat.add_mod, hs, Nat.zero_add, Nat.mod_mod, Nat.mod_eq_of_lt hjσ]
  rw [List.getElem_map, List.getElem_range', Nat.one_mul, hminus, hmod, List.getD_eq_getElem?_getD,
    List.getElem?_eq_getElem hjσ, Option.getD_some]

/-- the state after the bootstrap is a multiple of the length of the pattern -/
theorem means_pattern_state (R : Rounding) (nResamples : ℤ) {σ : List Bool} {ds : List ℚ} (hσ : σ.length = ds.length) :
    (means R (pattern σ) nResamples ds 0).2 % σ.length = 0 := by
  refine inv_repeated (p := fun s : ℕ => s % σ.length = 0) (fun s hs => ?_) (Nat.zero_mod _)
  have hstate : (meanResample R (pattern σ) ds s).2 = s + ds.length :=
    congrArg Prod.snd (repeated_counter (fun i => ds.getD (if σ.getD (i % σ.length) false then 0 else ds.length - 1) 0) _ s)
  rw [hstate, ← hσ, Nat.add_mod_right, hs]

/-- all resamples reach the observed mean, or none does -/
theorem permutationPValue_pattern (R : Rounding) (nResamples : ℤ) {ds : List ℚ} {σ : List Bool}
    (hσ : σ.length = ds.length) :
    permutationPValue R (pattern σ) ds nResamples (means R (pattern σ) nResamples ds 0).2 =
      R.fl (((if Reaches R ds (flipped ds σ) then nResamples.toNat else 0 : ℕ) + 1) / (nResamples + 1)) := by
  have hstart := means_pattern_state R nResamples hσ
  have hsigned {s : ℕ} (hs : s % σ.length = 0) : (pattern σ).signed ds s = (flipped ds σ, s + σ.length) := by
    rw [signed_eq, ← hσ, signs_pattern hs]
  have hall : ∀ x ∈ (repeated (signResample R (pattern σ) ds) nResamples.toNat (means R (pattern σ) nResamples ds 0).2).1,
      x = decide (Reaches R ds (flipped ds σ)) := by
    intro x hx
    have hinv : ∀ s : ℕ, s % σ.length = 0 → (signResample R (pattern σ) ds s).2 % σ.length = 0 := by
      intro s hs
      rw [signResample, hsigned hs, Nat.add_mod_right, hs]
    obtain ⟨s', hs', rfl⟩ := of_mem_repeated (p := fun s : ℕ => s % σ.length = 0) hinv hstart hx
    rw [signResample, hsigned hs']
  have hcount : (repeated (signResample R (pattern σ) ds) nResamples.toNat
      (means R (pattern σ) nResamples ds 0).2).1.count true = if Reaches R ds (flipped ds σ) then nResamples.toNat else 0 := by
    rw [List.eq_replicate_of_mem hall, length_repeated, List.count_replicate]
    by_cases h : Reaches R ds (flipped ds σ) <;> simp [h]
  rw [permutationPValue, hcount]

end Streams

/-! ## The condition is exact -/

section Exact

variable {R : Rounding} {a b : Report} {metricsFilter : Option (List Str)} {nResamples : ℤ}

theorem row_of_indexed (h : Indexed R nResamples) {S : Type} (g : Generator S) (seed : ℤ) (metric : Str)
    (pairs : List (ℚ × ℚ)) :
    ∃ r, row R g nResamples seed (metric, pairs) = some r ∧
      (∃ lo ∈ (means R g nResamples (diffsOf R pairs) (g.seeded seed)).1, r.diffCi95.1 = R.round4 lo) ∧
      r.pValue = R.round4 (permutationPValue R g (diffsOf R pairs) nResamples
        (means R g nResamples (diffsOf R pairs) (g.seeded seed)).2) := by
  obtain ⟨lo, hlo, hi, -, hci⟩ := bootstrapDiffCi_of_indexed (g := g) h (diffsOf R pairs) (g.seeded seed)
  have hrow : row R g nResamples seed (metric, pairs) = some {
      metric := metric
      n := pairs.length
      meanA := R.round4 (R.mean (pairs.map Prod.fst))
      meanB := R.round4 (R.mean (pairs.map Prod.snd))
      diff := R.round4 (R.mean (diffsOf R pairs))
      diffCi95 := (R.round4 lo, R.round4 hi)
      pValue := R.round4 (permutationPValue R g (diffsOf R pairs) nResamples
        (means R g nResamples (diffsOf R pairs) (g.seeded seed)).2) } := by
    rw [row, hci]
    rfl
  exact ⟨_, hrow, ⟨lo, hlo, rfl⟩, rfl⟩

theorem eq_of_mapM_eq {α β : Type} {f f' : α → Option β} {xs : List α} (h : xs.mapM f = xs.mapM f')
    (hsome : ∀ x ∈ xs, (f x).isSome ∧ (f' x).isSome) : ∀ x ∈ xs, f x = f' x := by
  have hmap {k : α → Option β} {ys : List α} (hk : ∀ y ∈ ys, (k y).isSome) : ∃ zs, ys.mapM k = some zs ∧ ys.map k = zs.map some := by
    induction ys with
    | nil => exact ⟨[], rfl, rfl⟩
    | cons y ys ih =>
      obtain ⟨hy, hys⟩ := List.forall_mem_cons.1 hk
      obtain ⟨z, hz⟩ := Option.isSome_iff_exists.1 hy
      obtain ⟨zs, hzs, hmap⟩ := ih hys
      refine ⟨z :: zs, ?_, ?_⟩
      · rw [List.mapM_cons, hz, hzs]
        rfl
      · rw [List.map_cons, List.map_cons, hz, hmap]
  obtain ⟨zs, hzs, hf⟩ := hmap fun x hx => (hsome x hx).1
  obtain ⟨zs', hzs', hf'⟩ := hmap fun x hx => (hsome x hx).2
  rw [hzs, hzs'] at h
  rw [← Option.some.inj h, ← hf] at hf'
  exact fun x hx => (List.map_inj_left.1 hf' x hx).symm

/-- an order of the differences comes from an order of the ids -/
theorem exists_ids {metric : Str} {ds : List ℚ} (h : ds.Perm (metricDiffs R a b metric)) :
    ∃ ids, Shared a b ids ∧ diffsOf R (ids.filterMap (pairOf R a b metric)) = ds := by
  rw [metricDiffs, diffsOf, List.map_filterMap] at h
  obtain ⟨ids, hids, hds⟩ := exists_perm_filterMap _ h
  refine ⟨ids, hids, ?_⟩
  rw [diffsOf, List.map_filterMap]
  exact hds

/-- the row of a metric is the same in every order -/
theorem Reproducible.row_eq (h : Reproducible R a b metricsFilter nResamples) (hindexed : Indexed R nResamples) {metric : Str}
    (hselected : Selected metricsFilter metric) (hne : metricDiffs R a b metric ≠ []) {S : Type} (g : Generator S) (seed : ℤ)
    {ids ids' : List Str} (hids : Shared a b ids) (hids' : Shared a b ids') :
    row R g nResamples seed (metric, ids.filterMap (pairOf R a b metric)) =
      row R g nResamples seed (metric, ids'.filterMap (pairOf R a b metric)) := by
  have hall := h S g seed ids ids' hids hids'
  rw [compare_eq, compare_eq, metricsOf_perm R a b metricsFilter (hids'.trans hids.symm)] at hall
  refine eq_of_mapM_eq hall (fun m _ => ?_) metric ?_
  · obtain ⟨r, hr, -⟩ := row_of_indexed hindexed g seed m (ids.filterMap (pairOf R a b m))
    obtain ⟨r', hr', -⟩ := row_of_indexed hindexed g seed m (ids'.filterMap (pairOf R a b m))
    rw [hr, hr']
    exact ⟨rfl, rfl⟩
  · refine (mem_metricsOf R a b metricsFilter ids metric).2 ⟨?_, hselected⟩
    have hlen := (hids.filterMap (pairOf R a b metric)).length_eq
    rw [← List.length_pos_iff, hlen, List.length_pos_iff]
    intro hnil
    exact hne (by rw [metricDiffs, hnil]; rfl)

/-- otherwise the stream that draws the first question only tells the orders apart -/
theorem Reproducible.rounds (h : Reproducible R a b metricsFilter nResamples) (hindexed : Indexed R nResamples) {metric : Str}
    (hselected : Selected metricsFilter metric) :
    ∀ x ∈ metricDiffs R a b metric, ∀ y ∈ metricDiffs R a b metric, R.round4 x = R.round4 y := by
  intro x hx y hy
  have hlo {z : ℚ} (hz : z ∈ metricDiffs R a b metric) : ∃ ids, Shared a b ids ∧
      ∃ r, row R first nResamples 0 (metric, ids.filterMap (pairOf R a b metric)) = some r ∧
        r.diffCi95.1 = R.round4 z := by
    obtain ⟨ids, hids, hds⟩ := exists_ids (List.perm_cons_erase hz).symm
    obtain ⟨r, hr, ⟨lo, hlo, hr95⟩, -⟩ := row_of_indexed hindexed first 0 metric (ids.filterMap (pairOf R a b metric))
    rw [hds] at hlo
    exact ⟨ids, hids, r, hr, by rw [hr95, mem_means_first (fl_diffsOf R _ z hz) hlo]⟩
  obtain ⟨ids, hids, r, hr, hrx⟩ := hlo hx
  obtain ⟨ids', hids', r', hr', hry⟩ := hlo hy
  have heq := h.row_eq hindexed hselected (List.ne_nil_of_mem hx) first 0 hids hids'
  rw [hr, hr'] at heq
  rw [← hrx, ← hry, Option.some.inj heq]

theorem Indexed.pos (h : Indexed R nResamples) : 0 < nResamples.toNat := by
  obtain ⟨hlow, hhigh⟩ := h.1
  omega

/-- a share of the last position is a position -/
theorem inRange_position {share : ℚ} (h0 : 0 ≤ share) (h1 : share ≤ 1) (hpos : 0 < nResamples) (hle : nResamples ≤ 2 ^ 53) :
    InRange nResamples.toNat (position R share nResamples) := by
  have hnatural := R.natural (nResamples - 1).toNat (by omega)
  have hcast : (((nResamples - 1).toNat : ℕ) : ℚ) = nResamples - 1 := by
    exact_mod_cast Int.toNat_of_nonneg (show 0 ≤ nResamples - 1 by omega)
  rw [hcast] at hnatural
  have hzero : R.fl 0 = 0 := by exact_mod_cast R.natural 0 (by norm_num)
  have hlast : (0 : ℚ) ≤ nResamples - 1 := by exact_mod_cast (show 0 ≤ nResamples - 1 by omega)
  have hshare0 : 0 ≤ R.fl share := hzero.symm.le.trans (R.mono h0)
  have hshare1 : R.fl share ≤ 1 := (R.mono h1).trans R.fl_one.le
  have hlow : 0 ≤ R.fl (R.fl share * R.fl (nResamples - 1)) := by
    rw [← hzero, hnatural]
    exact R.mono (mul_nonneg hshare0 hlast)
  have hhigh : R.fl (R.fl share * R.fl (nResamples - 1)) ≤ ((nResamples - 1 : ℤ) : ℚ) := by
    rw [hnatural]
    push_cast
    exact (R.mono (mul_le_of_le_one_left hlast hshare1)).trans hnatural.le
  have hround0 := roundHalfEven_mono hlow
  have hround1 := roundHalfEven_mono hhigh
  rw [roundHalfEven_intCast] at hround1
  rw [show roundHalfEven 0 = 0 from by exact_mod_cast roundHalfEven_intCast 0] at hround0
  rw [InRange, position]
  omega

/-- the IndexError is that of no resamples -/
theorem indexed_iff (h : nResamples ≤ 2 ^ 53) : Indexed R nResamples ↔ 0 < nResamples := by
  refine ⟨fun hindexed => ?_, fun hpos => ?_⟩
  · have hnat := hindexed.pos
    omega
  · exact ⟨inRange_position (by norm_num) (by norm_num) hpos h, inRange_position (by norm_num) (by norm_num) hpos h⟩

/-- the p-value is 1 if all resamples reach the observed mean, and less if none does -/
theorem round4_pValue_ne (hn : 0 < nResamples.toNat) :
    R.round4 (R.fl (((nResamples.toNat : ℕ) + 1) / (nResamples + 1))) ≠ R.round4 (R.fl (((0 : ℕ) + 1) / (nResamples + 1))) := by
  have hcast : (nResamples : ℚ) = nResamples.toNat := by exact_mod_cast (Int.toNat_of_nonneg (by omega)).symm
  have hone : (1 : ℚ) ≤ nResamples.toNat := by exact_mod_cast hn
  have hall : R.round4 (R.fl (((nResamples.toNat : ℕ) + 1) / (nResamples + 1))) = 1 := by
    rw [hcast, div_self (by linarith), R.fl_one, R.round4_one]
  have hnone : R.round4 (R.fl (((0 : ℕ) + 1) / (nResamples + 1))) ≤ 1 / 2 := by
    apply R.round4_le_half
    rw [← R.half]
    apply R.mono
    rw [hcast, div_le_iff₀ (by linarith)]
    push_cast
    linarith
  intro h
  rw [hall] at h
  rw [← h] at hnone
  norm_num at hnone

/-- and the stream that always draws one pattern tells the orders apart, if a pattern with as many signs has another answer -/
theorem Reproducible.signs (h : Reproducible R a b metricsFilter nResamples) (hindexed : Indexed R nResamples) {metric : Str}
    (hselected : Selected metricsFilter metric) {σ τ : List Bool} (hσ : σ.length = (metricDiffs R a b metric).length)
    (hτ : τ.length = (metricDiffs R a b metric).length) (hcount : σ.count true = τ.count true)
    (hreach : Reaches R (metricDiffs R a b metric) (flipped (metricDiffs R a b metric) σ)) :
    Reaches R (metricDiffs R a b metric) (flipped (metricDiffs R a b metric) τ) := by
  by_contra hno
  have hne : metricDiffs R a b metric ≠ [] := by
    intro hnil
    rw [hnil, List.length_nil, List.length_eq_zero_iff] at hσ hτ
    rw [hσ, ← hτ] at hreach
    exact hno hreach
  have hperm : σ.Perm τ := by
    refine List.perm_iff_count.2 fun b => ?_
    have hσ' := List.count_false_add_count_true σ
    have hτ' := List.count_false_add_count_true τ
    cases b with
    | false => omega
    | true => exact hcount
  -- an order of the differences that puts the signs of τ at the positions of σ
  obtain ⟨ds, hds, hzip⟩ := exists_zip_perm hperm hτ.symm
  have hswap : (ds.zip σ).Perm ((metricDiffs R a b metric).zip τ) := by
    have hmap := hzip.map Prod.swap
    rwa [List.zip_swap, List.zip_swap] at hmap
  have hno' : ¬ Reaches R ds (flipped ds σ) := fun hr => hno ((reaches_congr hds (flipped_perm hswap)).1 hr)
  have hσ' : σ.length = ds.length := hσ.trans hds.length_eq.symm
  obtain ⟨ids, hids, hids'⟩ := exists_ids hds
  have heq := h.row_eq hindexed hselected hne (pattern σ) 0 (List.Perm.refl (sharedIds a b)) hids
  obtain ⟨r, hr, -, hp⟩ := row_of_indexed hindexed (pattern σ) 0 metric ((sharedIds a b).filterMap (pairOf R a b metric))
  obtain ⟨r', hr', -, hp'⟩ := row_of_indexed hindexed (pattern σ) 0 metric (ids.filterMap (pairOf R a b metric))
  have hpattern := permutationPValue_pattern R nResamples hσ
  have hpattern' := permutationPValue_pattern R nResamples hσ'
  rw [if_pos hreach] at hpattern
  rw [if_neg hno'] at hpattern'
  rw [hids'] at hp'
  rw [hr, hr'] at heq
  apply round4_pValue_ne (R := R) hindexed.pos
  calc R.round4 (R.fl (((nResamples.toNat : ℕ) + 1) / (nResamples + 1))) = r.pValue := by
        rw [hp, ← hpattern]
        rfl
    _ = r'.pValue := by rw [Option.some.inj heq]
    _ = R.round4 (R.fl (((0 : ℕ) + 1) / (nResamples + 1))) := by
        rw [hp', ← hpattern']
        rfl

/-- **The comparison of two files is reproducible exactly if there is an IndexError or the order of the differences does not
matter**, whatever the metrics and the resamples. -/
theorem reproducible_iff (R : Rounding) (a b : Report) (metricsFilter : Option (List Str)) (nResamples : ℤ) :
    Reproducible R a b metricsFilter nResamples ↔
      ¬ Indexed R nResamples ∨ ∀ metric, Selected metricsFilter metric → OrderFree R (metricDiffs R a b metric) := by
  refine ⟨fun h => ?_, fun h S g seed ids ids' hids hids' => ?_⟩
  · by_cases hindexed : Indexed R nResamples
    · refine .inr fun metric hselected => ⟨h.rounds hindexed hselected, fun σ τ hσ hτ hcount => ?_⟩
      exact ⟨h.signs hindexed hselected hσ hτ hcount, h.signs hindexed hselected hτ hσ hcount.symm⟩
    · exact .inl hindexed
  · rw [compare_of_orderFree h g seed hids, compare_of_orderFree h g seed hids']

end Exact

/-! ## Two questions in two orders -/

/-- a file with one score for each of two questions -/
def twoQuestions (x y : ℚ) : Report where
  results := [⟨"q1".toList, ⟨[("mrr".toList, .number x)], List.nodup_singleton _⟩, .number 2⟩,
    ⟨"q2".toList, ⟨[("mrr".toList, .number y)], List.nodup_singleton _⟩, .number 2⟩]

/-- the differences are 1 and 0 -/
def fileA : Report := twoQuestions 1 0

def fileB : Report := twoQuestions 0 0

/-- the row of mrr from the stream that draws position 0 -/
def mrrRow (ci : ℚ × ℚ) : Row := ⟨"mrr".toList, 2, 1 / 2, 0, 1 / 2, ci, 1⟩

/-- **The order changes the rows**: one resample, drawn at position 0, is the difference of the question that comes first. -/
theorem order_changes_rows :
    Shared fileA fileB ["q1".toList, "q2".toList] ∧ Shared fileA fileB ["q2".toList, "q1".toList] ∧
      compare .exact first fileA fileB (some ["mrr".toList]) 1 0 ["q1".toList, "q2".toList] = some [mrrRow (1, 1)] ∧
      compare .exact first fileA fileB (some ["mrr".toList]) 1 0 ["q2".toList, "q1".toList] = some [mrrRow (0, 0)] ∧
      ¬ Reproducible .exact fileA fileB (some ["mrr".toList]) 1 := by
  have hids : Shared fileA fileB ["q1".toList, "q2".toList] := by
    rw [Shared, show sharedIds fileA fileB = ["q1".toList, "q2".toList] from by decide]
  have hids' : Shared fileA fileB ["q2".toList, "q1".toList] :=
    (List.Perm.swap _ _ []).trans hids
  have hrows : compare .exact first fileA fileB (some ["mrr".toList]) 1 0 ["q1".toList, "q2".toList] =
      some [mrrRow (1, 1)] := by decide +kernel
  have hrows' : compare .exact first fileA fileB (some ["mrr".toList]) 1 0 ["q2".toList, "q1".toList] =
      some [mrrRow (0, 0)] := by decide +kernel
  refine ⟨hids, hids', hrows, hrows', fun h => ?_⟩
  have heq := h ℕ first 0 _ _ hids hids'
  rw [hrows, hrows'] at heq
  exact absurd heq (by decide +kernel)

end AgentPick.Compare
