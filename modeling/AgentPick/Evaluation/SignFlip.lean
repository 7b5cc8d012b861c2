/-
The exact sign-flip test (`evaluation/pooled.py`, `_signed_sums` and `exact_sign_flip_p`), in exact rational arithmetic.

The code enumerates the signed sums of the two halves of the differences, sorts one half and counts, for each sum of the
other half, the matches by two binary searches. A total within the tolerance returns 1 at once.

Results:
- `sum_signedSums`: the enumerated sums are the sums over all sign assignments.
- `hits_eq`: the two searches count the pairs whose sum reaches the observed value.
- `exactSignFlipP_eq`: the code computes the p-value of the randomisation test of the sign group, early return included.
- `sign_flip_brute_force`: this p-value is the share of the 2^n sign assignments that reach the observed value.
- `sign_flip_valid`: at every level α at most α 2^n of the 2^n assignments get a p-value of at most α.
-/
import Mathlib.Tactic
import AgentPick.Core.Bisect
import AgentPick.Core.Randomisation

namespace AgentPick.SignFlip

open AgentPick.Bisect Finset

/-! ## The code -/

/-- `_signed_sums` -/
def signedSums (values : List ℚ) : List ℚ :=
  values.foldl (fun sums value => sums.map (· + value) ++ sums.map (· - value)) [0]

/-- the tolerance, `1e-12` -/
def tolerance : ℚ := 1 / 10 ^ 12

/-- the loop over the sums of the left half -/
def hits (left right : List ℚ) (observed : ℚ) : ℕ :=
  left.foldl (fun hits value =>
    hits + (right.length - bisectLeft right (observed - value)) + bisectRight right (-observed - value)) 0

/-- `exact_sign_flip_p` -/
def exactSignFlipP (diffs : List ℚ) : ℚ :=
  let total := |diffs.sum|
  if total ≤ tolerance then 1
  else
    let observed := total - tolerance
    let half := diffs.length / 2
    let left := signedSums (diffs.take half)
    let right := (signedSums (diffs.drop half)).insertionSort (· ≤ ·)
    (hits left right observed : ℚ) / 2 ^ diffs.length

/-! ## The enumerated sums -/

/-- the enumeration from given sums is the one from 0, added to each of them -/
theorem foldl_signedSums (sums values : List ℚ) (g : ℚ → ℕ) :
    ((values.foldl (fun sums value => sums.map (· + value) ++ sums.map (· - value)) sums).map g).sum =
      (sums.map fun x => ((signedSums values).map fun y => g (x + y)).sum).sum := by
  induction values generalizing sums g with
  | nil => simp [signedSums]
  | cons v vs ih =>
    have hcons (x : ℚ) : ((signedSums (v :: vs)).map fun y => g (x + y)).sum =
        ((signedSums vs).map fun y => g (x + v + y)).sum + ((signedSums vs).map fun y => g (x - v + y)).sum := by
      rw [signedSums, List.foldl_cons, ih]
      simp [add_assoc, sub_eq_add_neg]
    simp only [List.foldl_cons, ih, hcons, List.map_append, List.sum_append, List.map_map, Function.comp_def,
      List.sum_map_add]

theorem signedSums_append (xs ys : List ℚ) (g : ℚ → ℕ) :
    ((signedSums (xs ++ ys)).map g).sum =
      ((signedSums xs).map fun x => ((signedSums ys).map fun y => g (x + y)).sum).sum := by
  rw [signedSums, List.foldl_append]
  exact foldl_signedSums _ _ _

/-- a sign assignment applied to the differences -/
def resign {n : ℕ} (s : Fin n → ℤˣ) (d : Fin n → ℚ) : Fin n → ℚ := fun i => ((s i : ℤ) : ℚ) * d i

/-- the enumerated sums are those of all sign assignments -/
theorem sum_signedSums {n : ℕ} (d : Fin n → ℚ) (g : ℚ → ℕ) :
    ((signedSums (List.ofFn d)).map g).sum = ∑ s : Fin n → ℤˣ, g (∑ i, resign s d i) := by
  induction n generalizing g with
  | zero => simp [signedSums]
  | succ n ih =>
    have hcons (u : ℤˣ) (s : Fin n → ℤˣ) : ∑ i, resign ((Fin.consEquiv fun _ => ℤˣ) (u, s)) d i =
        ((u : ℤ) : ℚ) * d 0 + ∑ i, resign s (fun i => d i.succ) i := Fin.sum_univ_succ _
    rw [List.ofFn_succ, signedSums, List.foldl_cons, foldl_signedSums,
      ← (Fin.consEquiv fun _ => ℤˣ).sum_comp, Fintype.sum_prod_type]
    simp only [hcons, UnitsInt.univ]
    simp [ih, sub_eq_add_neg]

/-! ## The two searches -/

theorem countP_eq_sum (p : ℚ → Prop) [DecidablePred p] (l : List ℚ) :
    l.countP (fun y => decide (p y)) = (l.map fun y => if p y then 1 else 0).sum := by
  induction l with
  | nil => rfl
  | cons x l ih => by_cases hx : p x <;> simp [hx, ih, Nat.add_comm]

/-- the sums at or above `observed - value` and those at or below `-observed - value` -/
theorem searches_eq {right : List ℚ} (h : right.Pairwise (· ≤ ·)) {observed : ℚ} (ho : 0 < observed) (value : ℚ) :
    (right.length - bisectLeft right (observed - value)) + bisectRight right (-observed - value) =
      right.countP fun y => decide (observed ≤ |value + y|) := by
  rw [length_sub_bisectLeft h, bisectRight_eq h]
  induction right with
  | nil => rfl
  | cons y right ih =>
    have hy : observed ≤ |value + y| ↔ observed - value ≤ y ∨ y ≤ -observed - value := by
      rw [le_abs]
      constructor <;> rintro (h | h) <;> first | (left; linarith) | (right; linarith)
    have hne : ¬ (observed - value ≤ y ∧ y ≤ -observed - value) := by
      rintro ⟨h1, h2⟩
      linarith
    have := ih (List.pairwise_cons.1 h).2
    simp only [List.countP_cons, decide_eq_true_eq, hy]
    by_cases h1 : observed - value ≤ y
    · have h2 : ¬ y ≤ -observed - value := fun h2 => hne ⟨h1, h2⟩
      simp only [h1, h2, true_or, if_true, if_false]
      omega
    · by_cases h2 : y ≤ -observed - value
      · simp only [h1, h2, or_true, if_true, if_false]
        omega
      · simp only [h1, h2, or_false, if_false]
        omega

/-- the loop adds up, over the sums of the left half, the matches in the right half -/
theorem hits_eq {left right : List ℚ} {observed : ℚ} (ho : 0 < observed) :
    hits left (right.insertionSort (· ≤ ·)) observed =
      (left.map fun value => (right.map fun y => if observed ≤ |value + y| then 1 else 0).sum).sum := by
  have hs : (right.insertionSort (· ≤ ·)).Pairwise (· ≤ ·) := List.pairwise_insertionSort _ _
  have hstep (n : ℕ) (value : ℚ) :
      n + ((right.insertionSort (· ≤ ·)).length - bisectLeft (right.insertionSort (· ≤ ·)) (observed - value)) +
          bisectRight (right.insertionSort (· ≤ ·)) (-observed - value) =
        n + (right.map fun y => if observed ≤ |value + y| then 1 else 0).sum := by
    rw [Nat.add_assoc, searches_eq hs ho, (List.perm_insertionSort _ right).countP_eq,
      countP_eq_sum fun y => observed ≤ |value + y|]
  simp only [hits, hstep]
  rw [List.sum_eq_foldl, List.foldl_map]

/-! ## The p-value -/

/-- the statistic of the test -/
def statistic {n : ℕ} (d : Fin n → ℚ) : ℚ := |∑ i, d i|

theorem smul_eq_resign {n : ℕ} (s : Fin n → ℤˣ) (d : Fin n → ℚ) : s • d = resign s d := by
  funext i
  simp [resign, Units.smul_def]

theorem card_signs (n : ℕ) : Fintype.card (Fin n → ℤˣ) = 2 ^ n := by simp

/-- **The code computes the p-value of the randomisation test of the sign group.** -/
theorem exactSignFlipP_eq {n : ℕ} (d : Fin n → ℚ) :
    exactSignFlipP (List.ofFn d) = Randomisation.pValue (Fin n → ℤˣ) statistic tolerance d := by
  have hpow : ((2 : ℚ) ^ n) ≠ 0 := by positivity
  rw [Randomisation.pValue, card_signs, Randomisation.reach]
  simp only [smul_eq_resign]
  unfold exactSignFlipP
  have htot : |(List.ofFn d).sum| = statistic d := by rw [List.sum_ofFn, statistic]
  simp only [htot, List.length_ofFn]
  split_ifs with hle
  · -- every assignment reaches a threshold that is not positive
    have hall : (univ.filter fun s : Fin n → ℤˣ => statistic d - tolerance ≤ statistic (resign s d)) = univ := by
      apply Finset.filter_true_of_mem
      intro s _
      have : 0 ≤ statistic (resign s d) := abs_nonneg _
      linarith
    rw [hall, Finset.card_univ, card_signs]
    push_cast
    rw [div_self hpow]
  · rw [hits_eq (by linarith), ← signedSums_append _ _ fun x => if statistic d - tolerance ≤ |x| then 1 else 0,
      List.take_append_drop, sum_signedSums, Finset.card_filter]
    push_cast
    rfl

/-- **The two searches count by brute force.** The code returns the share of the 2^n sign assignments whose sum reaches the
observed one, up to the tolerance. -/
theorem sign_flip_brute_force (diffs : List ℚ) :
    exactSignFlipP diffs =
      ((univ.filter fun s : Fin diffs.length → ℤˣ =>
        |diffs.sum| - 1 / 10 ^ 12 ≤ |∑ i, ((s i : ℤ) : ℚ) * diffs.get i|).card : ℚ) / 2 ^ diffs.length := by
  have hsum : |diffs.sum| = statistic diffs.get := by
    rw [statistic, ← List.sum_ofFn, List.ofFn_get]
  calc exactSignFlipP diffs
      = exactSignFlipP (List.ofFn diffs.get) := by rw [List.ofFn_get]
    _ = Randomisation.pValue (Fin diffs.length → ℤˣ) statistic tolerance diffs.get := exactSignFlipP_eq _
    _ = _ := by
      rw [Randomisation.pValue, card_signs, Randomisation.reach, hsum]
      simp only [smul_eq_resign]
      push_cast
      rfl

/-- **Validity.** At every level α, at most α 2^n of the 2^n sign assignments get a p-value of at most α. -/
theorem sign_flip_valid {n : ℕ} (d : Fin n → ℚ) {α : ℚ} (hα : 0 ≤ α) :
    ((univ.filter fun s : Fin n → ℤˣ => exactSignFlipP (List.ofFn (resign s d)) ≤ α).card : ℚ) ≤ α * 2 ^ n := by
  have h := Randomisation.valid (G := Fin n → ℤˣ) statistic (by norm_num [tolerance] : (0 : ℚ) ≤ tolerance) d hα
  simp only [card_signs, smul_eq_resign, ← exactSignFlipP_eq] at h
  exact_mod_cast h

theorem sign_flip_valid_sample :
    ((univ.filter fun s : Fin 3 → ℤˣ => exactSignFlipP (List.ofFn (resign s ![1, 2, 0])) ≤ 1 / 4).card : ℚ) ≤
      1 / 4 * 2 ^ 3 := sign_flip_valid _ (by norm_num)

end AgentPick.SignFlip
