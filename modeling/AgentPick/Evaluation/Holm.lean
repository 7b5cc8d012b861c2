/-
Holm-Bonferroni adjusted p-values (`evaluation/pooled.py`, `holm`), over any ordered field.

The code sorts the positions by p-value, walks them with a running maximum of (m - rank) p, and writes each adjusted value
back at its position. Holm's procedure is its own definition here (`rejected`): along an ascending order of the positions, the
one at rank r is rejected while its p-value is at most α / (m - r), and the first failure ends it.

Results:
- `adjusted_le_iff`: after the loop the value at a position is at most α exactly if all products up to its rank are.
- `adjustedAlong_mono`: the adjusted values are ordered as the raw ones, even between two orders and two permuted inputs.
- `holm_step_down`: the adjusted values at most α are those of the rejected positions; they do not depend on the order of ties,
  do not decrease as the raw values increase, and follow a permutation of the input.
-/
import Mathlib.Tactic
import AgentPick.Core.Rank
import AgentPick.Core.StepDown

namespace AgentPick.Holm

variable {K : Type} [Field K] [LinearOrder K]

/-! ## The code -/

/-- a pass of the loop: the running maximum, and the adjusted values with the one at `index` written -/
def holmStep (pValues : List K) (st : K × List K) (e : ℕ × ℕ) : K × List K :=
  let running := max st.1 (((pValues.length - e.2 : ℤ) : K) * pValues.getD e.1 0)
  (running, st.2.set e.1 (min 1 running))

/-- the loop over `enumerate(order)`, from the given rank and state on -/
def adjusted (pValues : List K) (order : List ℕ) (rank : ℕ) (st : K × List K) : List K :=
  ((order.zipIdx rank).foldl (holmStep pValues) st).2

/-- `sorted(range(len(p_values)), key=lambda i: p_values[i])` -/
def sortedPositions (pValues : List K) : List ℕ :=
  (List.range pValues.length).insertionSort fun i j => pValues.getD i 0 ≤ pValues.getD j 0

/-- the adjusted values, with the order of the positions as an argument -/
def adjustedAlong (pValues : List K) (order : List ℕ) : List K :=
  adjusted pValues order 0 (0, List.replicate pValues.length 0)

/-- `holm` -/
def holm (pValues : List K) : List K := adjustedAlong pValues (sortedPositions pValues)

/-! ## The procedure -/

/-- an order of the positions with ascending values; ties stand in any order -/
structure Ascending (pValues : List K) (order : List ℕ) : Prop where
  perm : order.Perm (List.range pValues.length)
  sorted : order.Pairwise fun i j => pValues.getD i 0 ≤ pValues.getD j 0

/-- Holm's procedure at level α, from a rank on: it rejects until the first failure -/
def rejectedFrom (pValues : List K) (α : K) : ℕ → List ℕ → List ℕ
  | _, [] => []
  | rank, index :: order =>
    if pValues.getD index 0 ≤ α / (pValues.length - rank) then index :: rejectedFrom pValues α (rank + 1) order else []

def rejected (pValues : List K) (α : K) (order : List ℕ) : List ℕ := rejectedFrom pValues α 0 order

/-! ## The loop -/

section Loop

variable {pValues : List K}

theorem length_adjusted (order : List ℕ) (rank : ℕ) (st : K × List K) :
    (adjusted pValues order rank st).length = st.2.length := by
  induction order generalizing rank st with
  | nil => rfl
  | cons index order ih => exact (ih (rank + 1) _).trans List.length_set

/-- a position that the order does not name is left alone -/
theorem adjusted_of_notMem {order : List ℕ} {i : ℕ} (hi : i ∉ order) (rank : ℕ) (st : K × List K) :
    (adjusted pValues order rank st)[i]? = st.2[i]? := by
  induction order generalizing rank st with
  | nil => rfl
  | cons index order ih =>
    rw [List.mem_cons, not_or] at hi
    exact (ih hi.2 (rank + 1) _).trans (List.getElem?_set_ne (Ne.symm hi.1))

theorem length_adjustedAlong (pValues : List K) (order : List ℕ) : (adjustedAlong pValues order).length = pValues.length :=
  (length_adjusted order 0 _).trans List.length_replicate

/-- adjusted values stay between the bounds of the loop's start -/
theorem mem_adjusted (order : List ℕ) (rank : ℕ) (st : K × List K) {x : K} (h : x ∈ adjusted pValues order rank st)
    (hrunning : 0 ≤ st.1) (h01 : (0 : K) ≤ 1) (hst : ∀ y ∈ st.2, 0 ≤ y ∧ y ≤ 1) : 0 ≤ x ∧ x ≤ 1 := by
  induction order generalizing rank st with
  | nil => exact hst x h
  | cons index order ih =>
    refine ih (rank + 1) (holmStep pValues st (index, rank)) h (hrunning.trans (le_max_left _ _)) fun y hy => ?_
    rcases List.mem_or_eq_of_mem_set hy with hy | rfl
    · exact hst y hy
    · exact ⟨le_min h01 (hrunning.trans (le_max_left _ _)), min_le_left _ _⟩

/-- the product at a rank -/
def product (pValues : List K) (rank index : ℕ) : K := ((pValues.length - rank : ℤ) : K) * pValues.getD index 0

/-- all products along the order are at most α, from the given rank on and over r further ones -/
def AllWithin (pValues : List K) (α : K) (rank : ℕ) (order : List ℕ) (r : ℕ) : Prop :=
  ∀ s (h : s < order.length), s ≤ r → product pValues (rank + s) order[s] ≤ α

theorem allWithin_zero (α : K) (rank index : ℕ) (order : List ℕ) :
    AllWithin pValues α rank (index :: order) 0 ↔ product pValues rank index ≤ α := by
  refine ⟨fun h => h 0 (Nat.succ_pos _) le_rfl, fun h s hs hsr => ?_⟩
  obtain rfl : s = 0 := Nat.le_zero.1 hsr
  exact h

theorem allWithin_succ (α : K) (rank index : ℕ) (order : List ℕ) (r : ℕ) :
    AllWithin pValues α rank (index :: order) (r + 1) ↔
      product pValues rank index ≤ α ∧ AllWithin pValues α (rank + 1) order r := by
  refine ⟨fun h => ⟨h 0 (Nat.succ_pos _) (Nat.zero_le _), fun s hs hsr => ?_⟩, fun h s hs hsr => ?_⟩
  · have hs' := h (s + 1) (Nat.succ_lt_succ hs) (Nat.succ_le_succ hsr)
    rwa [← Nat.add_assoc, Nat.add_right_comm] at hs'
  · cases s with
    | zero => exact h.1
    | succ s =>
      have hs' := h.2 s (Nat.lt_of_succ_lt_succ hs) (Nat.le_of_succ_le_succ hsr)
      rwa [Nat.add_right_comm] at hs'

/-- the value written at the position of rank r is at most α exactly if all products up to r are -/
theorem adjusted_le_iff {order : List ℕ} (hn : order.Nodup) (st : K × List K) (hlt : ∀ i ∈ order, i < st.2.length)
    {α : K} (hα : α < 1) (rank : ℕ) {r : ℕ} (hr : r < order.length) :
    (∃ x, (adjusted pValues order rank st)[order[r]]? = some x ∧ x ≤ α) ↔
      st.1 ≤ α ∧ AllWithin pValues α rank order r := by
  induction order generalizing rank st r with
  | nil => cases hr
  | cons index order ih =>
    obtain ⟨hnotMem, hn⟩ := List.nodup_cons.1 hn
    obtain ⟨hindex, hlt⟩ := List.forall_mem_cons.1 hlt
    cases r with
    | zero =>
      -- what is written here stays
      have hset : (adjusted pValues (index :: order) rank st)[index]? =
          some (min 1 (max st.1 (product pValues rank index))) :=
        (adjusted_of_notMem hnotMem (rank + 1) _).trans (List.getElem?_set_self hindex)
      simp only [List.getElem_cons_zero, hset, Option.some.injEq, exists_eq_left', min_le_iff, not_le.2 hα, false_or,
        max_le_iff, allWithin_zero]
    | succ r =>
      have hstep := ih hn (holmStep pValues st (index, rank))
        (fun i hi => (hlt i hi).trans_eq List.length_set.symm) (rank + 1) (Nat.lt_of_succ_lt_succ hr)
      have hmax : (holmStep pValues st (index, rank)).1 = max st.1 (product pValues rank index) := rfl
      rw [hmax, max_le_iff, and_assoc] at hstep
      rw [allWithin_succ]
      exact hstep

/-- the procedure rejects the position of rank r exactly if all products up to r are at most α -/
theorem mem_rejectedFrom [IsStrictOrderedRing K] {order : List ℕ} (hn : order.Nodup) (α : K) {rank : ℕ}
    (hlen : rank + order.length ≤ pValues.length) {r : ℕ} (hr : r < order.length) :
    order[r] ∈ rejectedFrom pValues α rank order ↔ AllWithin pValues α rank order r := by
  induction order generalizing rank r with
  | nil => cases hr
  | cons index order ih =>
    obtain ⟨hnotMem, hn⟩ := List.nodup_cons.1 hn
    rw [List.length_cons] at hlen
    have hpos : (0 : K) < pValues.length - rank := by
      rw [sub_pos, Nat.cast_lt]
      omega
    have hfirst : pValues.getD index 0 ≤ α / (pValues.length - rank) ↔ product pValues rank index ≤ α := by
      rw [le_div_iff₀ hpos, mul_comm, product]
      push_cast
      rfl
    simp only [rejectedFrom, hfirst]
    split_ifs with hle
    · cases r with
      | zero => exact iff_of_true List.mem_cons_self ((allWithin_zero α rank index order).2 hle)
      | succ r =>
        have hr' : r < order.length := Nat.lt_of_succ_lt_succ hr
        have hne : order[r] ≠ index := fun h => hnotMem (h ▸ List.getElem_mem hr')
        rw [List.getElem_cons_succ, List.mem_cons, or_iff_right hne, ih hn (by omega) hr', allWithin_succ,
          and_iff_right hle]
    · refine iff_of_false List.not_mem_nil fun h => hle ?_
      have hzero := h 0 (Nat.succ_pos _) (Nat.zero_le _)
      exact hzero

theorem subset_rejectedFrom (order : List ℕ) (α : K) (rank : ℕ) : rejectedFrom pValues α rank order ⊆ order := by
  induction order generalizing rank with
  | nil => exact List.Subset.refl _
  | cons index order ih =>
    rw [rejectedFrom]
    split_ifs
    · exact List.cons_subset_cons _ (ih (rank + 1))
    · exact List.nil_subset _

end Loop

/-! ## Any ascending order -/

section Orders

variable {pValues : List K} {order : List ℕ} {α : K}

theorem ascending_sortedPositions (pValues : List K) : Ascending pValues (sortedPositions pValues) := by
  have : Std.Total fun i j : ℕ => pValues.getD i 0 ≤ pValues.getD j 0 := ⟨fun _ _ => le_total _ _⟩
  have : IsTrans ℕ fun i j => pValues.getD i 0 ≤ pValues.getD j 0 := ⟨fun _ _ _ h h' => h.trans h'⟩
  exact ⟨List.perm_insertionSort _ _, List.pairwise_insertionSort _ _⟩

theorem Ascending.nodup (h : Ascending pValues order) : order.Nodup := h.perm.nodup_iff.2 List.nodup_range

theorem Ascending.mem_iff (h : Ascending pValues order) {i : ℕ} : i ∈ order ↔ i < pValues.length := by
  rw [h.perm.mem_iff, List.mem_range]

theorem Ascending.length_eq (h : Ascending pValues order) : order.length = pValues.length := by
  rw [h.perm.length_eq, List.length_range]

theorem Ascending.map_perm (h : Ascending pValues order) : (order.map fun i => pValues.getD i 0).Perm pValues := by
  have hperm := h.perm.map fun i => pValues.getD i 0
  rwa [Rank.map_getD_range] at hperm

variable [IsStrictOrderedRing K]

/-- the weight of a rank -/
def weight (K : Type) [Field K] (n : ℕ) (rank : ℕ) : K := ((n - rank : ℤ) : K)

theorem weight_antitone (n : ℕ) : Antitone (weight K n) := by
  intro r s h
  refine Int.cast_le.2 ?_
  omega

/-- at every rank the products so far decide what the value there decides by itself -/
theorem Ascending.allWithin_iff (h : Ascending pValues order) (hpos : ∀ x ∈ pValues, 0 ≤ x) {r : ℕ} (hr : r < order.length) :
    AllWithin pValues α 0 order r ↔
      StepDown.Passes (weight K pValues.length) pValues α (pValues.getD order[r] 0) := by
  have hsorted : (order.map fun i => pValues.getD i 0).Pairwise (· ≤ ·) := List.pairwise_map.2 h.sorted
  have hrank := StepDown.forall_rank_iff (α := α) (weight_antitone pValues.length) hsorted
    (fun x hx => hpos x (h.map_perm.mem_iff.1 hx)) (r := r) (by rwa [List.length_map])
  rw [StepDown.passes_perm h.map_perm, List.getElem_map] at hrank
  rw [← hrank]
  refine ⟨fun hall s hs hsr => ?_, fun hall s hs hsr => ?_⟩
  · rw [List.getElem_map]
    have hs' := hall s (by rwa [List.length_map] at hs) hsr
    rwa [Nat.zero_add] at hs'
  · have hs' := hall s (by rwa [List.length_map]) hsr
    rw [List.getElem_map] at hs'
    rwa [Nat.zero_add]

theorem Ascending.adjusted_le_iff (h : Ascending pValues order) (hpos : ∀ x ∈ pValues, 0 ≤ x) (hα : 0 ≤ α) (hα1 : α < 1)
    {i : ℕ} (hi : i < pValues.length) :
    (∃ x, (adjustedAlong pValues order)[i]? = some x ∧ x ≤ α) ↔
      StepDown.Passes (weight K pValues.length) pValues α (pValues.getD i 0) := by
  obtain ⟨r, hr, rfl⟩ := List.getElem_of_mem (h.mem_iff.2 hi)
  have hstart : ∀ j ∈ order, j < ((0, List.replicate pValues.length 0) : K × List K).2.length :=
    fun j hj => (h.mem_iff.1 hj).trans_eq List.length_replicate.symm
  rw [← h.allWithin_iff hpos hr]
  exact (Holm.adjusted_le_iff h.nodup _ hstart hα1 0 hr).trans (and_iff_right hα)

theorem Ascending.mem_rejected (h : Ascending pValues order) (hpos : ∀ x ∈ pValues, 0 ≤ x) (α : K) {i : ℕ}
    (hi : i < pValues.length) :
    i ∈ rejected pValues α order ↔ StepDown.Passes (weight K pValues.length) pValues α (pValues.getD i 0) := by
  obtain ⟨r, hr, rfl⟩ := List.getElem_of_mem (h.mem_iff.2 hi)
  rw [rejected, mem_rejectedFrom h.nodup α (by rw [Nat.zero_add, h.length_eq]) hr, h.allWithin_iff hpos hr]

theorem mem_adjustedAlong {x : K} (h : x ∈ adjustedAlong pValues order) : 0 ≤ x ∧ x ≤ 1 := by
  refine mem_adjusted order 0 _ h le_rfl zero_le_one fun y hy => ?_
  rw [List.eq_of_mem_replicate hy]
  exact ⟨le_rfl, zero_le_one⟩

/-- **The adjusted values are ordered as the raw ones**, between any two ascending orders of a list and of a permuted one. -/
theorem adjustedAlong_mono {pValues' : List K} {order' : List ℕ} (hp : pValues.Perm pValues')
    (h : Ascending pValues order) (h' : Ascending pValues' order') (hpos : ∀ x ∈ pValues, 0 ≤ x) {i j : ℕ} {x y : K}
    (hx : (adjustedAlong pValues order)[i]? = some x) (hy : (adjustedAlong pValues' order')[j]? = some y)
    (hle : pValues.getD i 0 ≤ pValues'.getD j 0) : x ≤ y := by
  obtain ⟨hi, -⟩ := List.getElem?_eq_some_iff.1 hx
  obtain ⟨hj, -⟩ := List.getElem?_eq_some_iff.1 hy
  rw [length_adjustedAlong] at hi hj
  have hy01 := mem_adjustedAlong (List.mem_of_getElem? hy)
  rcases hy01.2.lt_or_eq with hlt | rfl
  · -- y is a level at which the value at j is rejected, so the one at i is too
    have hpass := (h'.adjusted_le_iff (fun z hz => hpos z (hp.mem_iff.2 hz)) hy01.1 hlt hj).1 ⟨y, hy, le_rfl⟩
    rw [← hp.length_eq, ← StepDown.passes_perm hp] at hpass
    obtain ⟨x', hx', hxy⟩ := (h.adjusted_le_iff hpos hy01.1 hlt hi).2 (hpass.mono hle)
    rw [hx] at hx'
    rwa [Option.some.inj hx']
  · exact (mem_adjustedAlong (List.mem_of_getElem? hx)).2

theorem adjustedAlong_eq {pValues' : List K} {order' : List ℕ} (hp : pValues.Perm pValues')
    (h : Ascending pValues order) (h' : Ascending pValues' order') (hpos : ∀ x ∈ pValues, 0 ≤ x) {i j : ℕ} {x y : K}
    (hx : (adjustedAlong pValues order)[i]? = some x) (hy : (adjustedAlong pValues' order')[j]? = some y)
    (heq : pValues.getD i 0 = pValues'.getD j 0) : x = y := by
  apply le_antisymm
  · exact adjustedAlong_mono hp h h' hpos hx hy heq.le
  · exact adjustedAlong_mono hp.symm h' h (fun z hz => hpos z (hp.mem_iff.2 hz)) hy hx heq.ge

end Orders

/-! ## The procedure and the code -/

section StepDownProcedure

variable [IsStrictOrderedRing K]

/-- **holm implements the step-down procedure.** For p-values in [0, 1] and a level in [0, 1), the positions whose adjusted
value is at most the level are those that Holm's procedure rejects along any ascending order. The order of ties does not
matter, greater raw values have no smaller adjusted ones, and permuting the input permutes the output. -/
theorem holm_step_down (pValues : List K) (hp : ∀ x ∈ pValues, 0 ≤ x ∧ x ≤ 1) :
    (∀ order, Ascending pValues order → ∀ α : K, 0 ≤ α → α < 1 →
      ∀ i, (∃ x, (holm pValues)[i]? = some x ∧ x ≤ α) ↔ i ∈ rejected pValues α order) ∧
    (∀ order, Ascending pValues order → adjustedAlong pValues order = holm pValues) ∧
    (∀ i j x y, (holm pValues)[i]? = some x → (holm pValues)[j]? = some y → pValues.getD i 0 ≤ pValues.getD j 0 → x ≤ y) ∧
    (∀ positions : List ℕ, positions.Perm (List.range pValues.length) →
      holm (positions.map fun i => pValues.getD i 0) = positions.map fun i => (holm pValues).getD i 0) := by
  have hpos : ∀ x ∈ pValues, 0 ≤ x := fun x hx => (hp x hx).1
  have hsort := ascending_sortedPositions pValues
  have hlen : (holm pValues).length = pValues.length := length_adjustedAlong _ _
  refine ⟨fun order h α hα hα1 i => ?_, fun order h => ?_, fun i j x y hx hy hle => ?_, fun positions hperm => ?_⟩
  · by_cases hi : i < pValues.length
    · rw [h.mem_rejected hpos α hi]
      exact hsort.adjusted_le_iff hpos hα hα1 hi
    · refine iff_of_false (fun hex => ?_) fun hmem => hi (h.mem_iff.1 (subset_rejectedFrom order α 0 hmem))
      obtain ⟨x, hx, -⟩ := hex
      obtain ⟨hlt, -⟩ := List.getElem?_eq_some_iff.1 hx
      exact hi (hlen ▸ hlt)
  · refine List.ext_getElem ((length_adjustedAlong _ _).trans hlen.symm) fun i hi hi' => ?_
    exact adjustedAlong_eq (List.Perm.refl _) h hsort hpos (List.getElem?_eq_getElem hi) (List.getElem?_eq_getElem hi') rfl
  · exact adjustedAlong_mono (List.Perm.refl _) hsort hsort hpos hx hy hle
  · have hlen' : positions.length = pValues.length := by rw [hperm.length_eq, List.length_range]
    have hvalues : (positions.map fun i => pValues.getD i 0).Perm pValues := by
      have hmap := hperm.map fun i => pValues.getD i 0
      rwa [Rank.map_getD_range] at hmap
    refine List.ext_getElem (by rw [holm, length_adjustedAlong, List.length_map, List.length_map]) fun k hk hk' => ?_
    rw [List.length_map] at hk'
    have hat : positions[k] < (holm pValues).length := by
      rw [hlen, ← List.mem_range, ← hperm.mem_iff]
      exact List.getElem_mem hk'
    rw [List.getElem_map]
    refine adjustedAlong_eq hvalues (ascending_sortedPositions _) hsort (fun x hx => hpos x (hvalues.mem_iff.1 hx))
      (List.getElem?_eq_getElem hk) (j := positions[k]) ?_ ?_
    · rw [List.getD_eq_getElem?_getD, List.getElem?_eq_getElem hat, Option.getD_some]
      exact List.getElem?_eq_getElem hat
    · rw [List.getD_eq_getElem?_getD, List.getElem?_map, List.getElem?_eq_getElem hk']
      rfl

end StepDownProcedure

/-- ties at positions 0 and 2, where the positions are walked in either order -/
theorem holm_step_down_ties :
    (∃ x, (holm [1 / 50, 1 / 2, (1 / 50 : ℚ)])[0]? = some x ∧ x ≤ 3 / 50) ↔
      0 ∈ rejected [1 / 50, 1 / 2, (1 / 50 : ℚ)] (3 / 50) [2, 0, 1] :=
  (holm_step_down [1 / 50, 1 / 2, (1 / 50 : ℚ)] (by norm_num)).1 [2, 0, 1] ⟨by decide, by norm_num⟩ (3 / 50)
    (by norm_num) (by norm_num) 0

end AgentPick.Holm
