/-
Rounded arithmetic. LIBRARY: nothing in this file names the pipeline.

A float operation rounds its exact result. `Rounding` is that rounding: it is monotone, leaves rounded numbers alone, and is
exact on 1/2 and on the naturals up to 2^53. `roundHalfEven` is `round(x)`, ties to the even neighbour, and `round4` is
`round(x, 4)`: the nearest multiple of 1/10000 and the float next to it.

A `Double` is a float with its two infinities and its NaN. Results round to an infinity from 2^1024 - 2^970 on, where the
conversion of an integer raises instead.

- `roundHalfEven_mono`, `Rounding.round4_mono`: both are monotone.
- `Rounding.round4_one`, `Rounding.round4_le_half`: what `round4` does to 1 and to numbers up to 1/2.
- `Double.isSome_toInt_scale`: when a product can be made an integer.
-/
import Mathlib.Tactic

namespace AgentPick

/-- `round(x)` -/
def roundHalfEven (x : ℚ) : ℤ :=
  if x - ⌊x⌋ < 1 / 2 then ⌊x⌋
  else if 1 / 2 < x - ⌊x⌋ then ⌊x⌋ + 1
  else if ⌊x⌋ % 2 = 0 then ⌊x⌋
  else ⌊x⌋ + 1

theorem floor_le_roundHalfEven (x : ℚ) : ⌊x⌋ ≤ roundHalfEven x := by
  unfold roundHalfEven
  split_ifs <;> omega

theorem roundHalfEven_le (x : ℚ) : roundHalfEven x ≤ ⌊x⌋ + 1 := by
  unfold roundHalfEven
  split_ifs <;> omega

theorem roundHalfEven_intCast (n : ℤ) : roundHalfEven n = n := by
  unfold roundHalfEven
  rw [Int.floor_intCast, if_pos (by norm_num)]

theorem roundHalfEven_mono : Monotone roundHalfEven := by
  intro x y h
  rcases (Int.floor_le_floor h).lt_or_eq with hlt | heq
  · calc roundHalfEven x ≤ ⌊x⌋ + 1 := roundHalfEven_le x
      _ ≤ ⌊y⌋ := hlt
      _ ≤ roundHalfEven y := floor_le_roundHalfEven y
  · -- between the same two integers the fractions decide
    have hfraction : x - ⌊x⌋ ≤ y - ⌊x⌋ := by linarith
    unfold roundHalfEven
    rw [← heq]
    split_ifs <;> first | omega | linarith

/-- the rounding of float operations -/
structure Rounding where
  fl : ℚ → ℚ
  mono : Monotone fl
  idem : ∀ x, fl (fl x) = fl x
  natural : ∀ n : ℕ, n ≤ 2 ^ 53 → fl n = n
  half : fl (1 / 2) = 1 / 2

namespace Rounding

/-- arithmetic without rounding -/
def exact : Rounding := ⟨id, monotone_id, fun _ => rfl, fun _ _ => rfl, rfl⟩

variable (R : Rounding)

/-- `round(x, 4)` -/
def round4 (x : ℚ) : ℚ := R.fl ((roundHalfEven (x * 10000) : ℚ) / 10000)

/-- `statistics.mean(xs)`: the exact mean, rounded once -/
def mean (xs : List ℚ) : ℚ := R.fl (xs.sum / xs.length)

theorem fl_one : R.fl 1 = 1 := by exact_mod_cast R.natural 1 (by norm_num)

theorem round4_mono : Monotone R.round4 := by
  intro x y h
  apply R.mono
  have hscaled : x * 10000 ≤ y * 10000 := by linarith
  have hround : (roundHalfEven (x * 10000) : ℚ) ≤ roundHalfEven (y * 10000) := by
    exact_mod_cast roundHalfEven_mono hscaled
  linarith

theorem round4_one : R.round4 1 = 1 := by
  have h : roundHalfEven (1 * 10000) = 10000 := by
    have hcast := roundHalfEven_intCast 10000
    norm_num at hcast ⊢
    exact hcast
  rw [round4, h]
  norm_num [R.fl_one]

theorem round4_le_half {x : ℚ} (h : x ≤ 1 / 2) : R.round4 x ≤ 1 / 2 := by
  calc R.round4 x ≤ R.round4 (1 / 2) := R.round4_mono h
    _ = 1 / 2 := by
      have hhalf : roundHalfEven (1 / 2 * 10000) = 5000 := by
        have hcast := roundHalfEven_intCast 5000
        norm_num at hcast ⊢
        exact hcast
      rw [round4, hhalf]
      norm_num [R.half]

/-- the mean of rounded numbers lies between their bounds -/
theorem mean_le {xs : List ℚ} {b : ℚ} (hne : xs ≠ []) (hb : R.fl b = b) (h : ∀ x ∈ xs, x ≤ b) : R.mean xs ≤ b := by
  have hlen : (0 : ℚ) < xs.length := by exact_mod_cast List.length_pos_of_ne_nil hne
  have hsum : xs.sum ≤ xs.length • b := List.sum_le_card_nsmul xs b h
  rw [nsmul_eq_mul] at hsum
  calc R.mean xs ≤ R.fl b := R.mono ((div_le_iff₀ hlen).2 (by linarith))
    _ = b := hb

theorem le_mean {xs : List ℚ} {b : ℚ} (hne : xs ≠ []) (hb : R.fl b = b) (h : ∀ x ∈ xs, b ≤ x) : b ≤ R.mean xs := by
  have hlen : (0 : ℚ) < xs.length := by exact_mod_cast List.length_pos_of_ne_nil hne
  have hsum : xs.length • b ≤ xs.sum := List.card_nsmul_le_sum xs b h
  rw [nsmul_eq_mul] at hsum
  calc b = R.fl b := hb.symm
    _ ≤ R.mean xs := R.mono ((le_div_iff₀ hlen).2 (by linarith))

theorem mean_perm {xs ys : List ℚ} (h : xs.Perm ys) : R.mean xs = R.mean ys := by
  rw [mean, mean, h.sum_eq, h.length_eq]

end Rounding

/-! ## Doubles -/

/-- a float; zero has no sign here -/
inductive Double where
  | finite (x : ℚ)
  | inf (neg : Bool)
  | nan
deriving DecidableEq, Repr

namespace Double

/-- results of this size round to an infinity -/
def overflow : ℚ := 2 ^ 1024 - 2 ^ 970

variable (R : Rounding)

/-- the float next to x -/
def ofRat (x : ℚ) : Double := if |x| < overflow then .finite (R.fl x) else .inf (x < 0)

/-- `float(n)`; `none` is OverflowError -/
def ofInt (n : ℤ) : Option Double := if |(n : ℚ)| < overflow then some (.finite (R.fl n)) else none

/-- `x * k`, for a positive k -/
def scale (k : ℚ) : Double → Double
  | .finite x => ofRat R (x * k)
  | .inf neg => .inf neg
  | .nan => .nan

/-- `int(x)`; `none` is OverflowError for an infinity and ValueError for NaN -/
def toInt : Double → Option ℤ
  | .finite x => some (if 0 ≤ x then ⌊x⌋ else ⌈x⌉)
  | .inf _ => none
  | .nan => none

theorem isSome_toInt_ofRat (x : ℚ) : (ofRat R x).toInt.isSome = true ↔ |x| < overflow := by
  unfold ofRat
  split_ifs with h
  · simp [toInt, h]
  · simp [toInt, h]

/-- the product of a float can be made an integer iff the float is finite and the product does not overflow -/
theorem isSome_toInt_scale (k : ℚ) (x : Double) :
    (scale R k x).toInt.isSome = true ↔ ∃ q, x = .finite q ∧ |q * k| < overflow := by
  cases x with
  | finite q =>
    rw [scale, isSome_toInt_ofRat]
    simp
  | inf neg => simp [scale, toInt]
  | nan => simp [scale, toInt]

end Double

end AgentPick
