/-
Sums with decreasing weights. LIBRARY: nothing in this file names the pipeline.

A ranking is worth the sum of the grades of its places, each discounted by the weight of the place. Weights are positive and
decrease strictly.

- `sum_mul_le`: a ranking whose first j grades never add up to more than another's, for every j, is worth at most as much.
- `eq_of_sum_mul_eq`: and is worth as much only if it has the same grades.
- `sum_le_top`: grades of at most n, the positive ones distinct, add up to at most n + (n - 1) + ...
-/
import Mathlib.Tactic

namespace AgentPick

namespace Discount

open Finset

/-! ## Weights -/

section Weights

variable {K : Type} [Field K] [LinearOrder K] [IsStrictOrderedRing K]

omit [LinearOrder K] [IsStrictOrderedRing K] in
/-- summation by parts -/
theorem sum_mul_eq (d w : ℕ → K) (k : ℕ) :
    ∑ r ∈ range (k + 1), d r * w r =
      ∑ j ∈ range k, (∑ r ∈ range (j + 1), d r) * (w j - w (j + 1)) + (∑ r ∈ range (k + 1), d r) * w k := by
  induction k with
  | zero => simp
  | succ k ih =>
    have hlast := sum_range_succ d (k + 1)
    have hparts := sum_range_succ (fun j => (∑ r ∈ range (j + 1), d r) * (w j - w (j + 1))) k
    rw [sum_range_succ, ih, hparts, hlast]
    ring

variable {w : ℕ → K} (hw : StrictAnti w) (hpos : ∀ r, 0 < w r)

include hw hpos

/-- differences whose partial sums are not negative -/
theorem sum_mul_nonneg {d : ℕ → K} {k : ℕ} (hd : ∀ j ≤ k, 0 ≤ ∑ r ∈ range j, d r) : 0 ≤ ∑ r ∈ range k, d r * w r := by
  cases k with
  | zero => simp
  | succ k =>
    rw [sum_mul_eq]
    apply add_nonneg
    · apply sum_nonneg
      intro j hj
      exact mul_nonneg (hd _ (by have := mem_range.1 hj; omega)) (sub_nonneg.2 (hw (Nat.lt_succ_self j)).le)
    · exact mul_nonneg (hd _ le_rfl) (hpos k).le

/-- they vanish if the weighted sum does -/
theorem eq_zero_of_sum_mul {d : ℕ → K} {k : ℕ} (hd : ∀ j ≤ k, 0 ≤ ∑ r ∈ range j, d r)
    (h : ∑ r ∈ range k, d r * w r = 0) : ∀ r < k, d r = 0 := by
  cases k with
  | zero =>
    intro r hr
    omega
  | succ k =>
    have hterm : ∀ j ∈ range k, 0 ≤ (∑ r ∈ range (j + 1), d r) * (w j - w (j + 1)) := by
      intro j hj
      exact mul_nonneg (hd _ (by have := mem_range.1 hj; omega)) (sub_nonneg.2 (hw (Nat.lt_succ_self j)).le)
    have hlast : 0 ≤ (∑ r ∈ range (k + 1), d r) * w k := mul_nonneg (hd _ le_rfl) (hpos k).le
    rw [sum_mul_eq] at h
    obtain ⟨hsum, hlast0⟩ := (add_eq_zero_iff_of_nonneg (sum_nonneg hterm) hlast).1 h
    -- every partial sum is 0
    have hsums : ∀ j ≤ k + 1, ∑ r ∈ range j, d r = 0 := by
      intro j hj
      rcases Nat.eq_zero_or_pos j with rfl | hj0
      · rfl
      obtain ⟨i, rfl⟩ := Nat.exists_eq_succ_of_ne_zero hj0.ne'
      rcases Nat.lt_or_ge i k with hi | hi
      · have h0 := (sum_eq_zero_iff_of_nonneg hterm).1 hsum i (mem_range.2 hi)
        exact (mul_eq_zero.1 h0).resolve_right (sub_pos.2 (hw (Nat.lt_succ_self i))).ne'
      · obtain rfl : i = k := by omega
        exact (mul_eq_zero.1 hlast0).resolve_right (hpos i).ne'
    intro r hr
    have hsucc := sum_range_succ d r
    rw [hsums (r + 1) (by omega), hsums r (by omega), zero_add] at hsucc
    exact hsucc.symm

variable {g t : ℕ → K} {k : ℕ} (h : ∀ j ≤ k, ∑ r ∈ range j, g r ≤ ∑ r ∈ range j, t r)

include h

/-- **A ranking whose partial sums never exceed another's is worth at most as much.** -/
theorem sum_mul_le : ∑ r ∈ range k, g r * w r ≤ ∑ r ∈ range k, t r * w r := by
  have hd : ∀ j ≤ k, 0 ≤ ∑ r ∈ range j, (t r - g r) := by
    intro j hj
    rw [sum_sub_distrib]
    exact sub_nonneg.2 (h j hj)
  have hnonneg := sum_mul_nonneg hw hpos hd
  simp only [sub_mul, sum_sub_distrib] at hnonneg
  exact sub_nonneg.1 hnonneg

/-- **It is worth as much only if it has the same grades.** -/
theorem eq_of_sum_mul_eq (heq : ∑ r ∈ range k, g r * w r = ∑ r ∈ range k, t r * w r) : ∀ r < k, g r = t r := by
  have hd : ∀ j ≤ k, 0 ≤ ∑ r ∈ range j, (t r - g r) := by
    intro j hj
    rw [sum_sub_distrib]
    exact sub_nonneg.2 (h j hj)
  have hzero : ∑ r ∈ range k, (t r - g r) * w r = 0 := by
    simp only [sub_mul, sum_sub_distrib]
    exact sub_eq_zero.2 heq.symm
  intro r hr
  exact (sub_eq_zero.1 (eq_zero_of_sum_mul hw hpos hd hzero r hr)).symm

end Weights

/-! ## Grades -/

/-- **Distinct grades of at most n** add up to at most the greatest ones. -/
theorem sum_le_top {n : ℕ} {gs : List ℕ} (hle : ∀ g ∈ gs, g ≤ n) (hdistinct : (gs.filter (0 < ·)).Nodup) :
    gs.sum ≤ ∑ i ∈ range gs.length, (n - i) := by
  induction n generalizing gs with
  | zero =>
    have hsum : gs.sum = 0 := List.sum_eq_zero fun g hg => Nat.le_zero.1 (hle g hg)
    rw [hsum]
    exact Nat.zero_le _
  | succ n ih =>
    by_cases hmem : n + 1 ∈ gs
    · -- the greatest grade is there once
      have hperm := List.perm_cons_erase hmem
      have hdistinct' := ((hperm.filter (0 < ·)).nodup_iff.1 hdistinct)
      rw [List.filter_cons_of_pos (by simp), List.nodup_cons] at hdistinct'
      have hle' : ∀ g ∈ gs.erase (n + 1), g ≤ n := by
        intro g hg
        have hne : g ≠ n + 1 := by
          rintro rfl
          exact hdistinct'.1 (List.mem_filter.2 ⟨hg, by simp⟩)
        have := hle g (List.mem_of_mem_erase hg)
        omega
      have hrest := ih hle' hdistinct'.2
      calc gs.sum = n + 1 + (gs.erase (n + 1)).sum := by rw [hperm.sum_eq, List.sum_cons]
        _ ≤ n + 1 + ∑ i ∈ range (gs.erase (n + 1)).length, (n - i) := by omega
        _ = ∑ i ∈ range gs.length, (n + 1 - i) := by
          rw [hperm.length_eq, List.length_cons, sum_range_succ', Nat.add_comm]
          simp only [Nat.add_sub_add_right, Nat.sub_zero]
    · have hle' : ∀ g ∈ gs, g ≤ n := by
        intro g hg
        have hne : g ≠ n + 1 := fun he => hmem (he ▸ hg)
        have := hle g hg
        omega
      calc gs.sum ≤ ∑ i ∈ range gs.length, (n - i) := ih hle' hdistinct
        _ ≤ ∑ i ∈ range gs.length, (n + 1 - i) := by
          apply sum_le_sum
          intro i _
          omega

end Discount

end AgentPick
