/-
Step-down multiple testing. LIBRARY: nothing in this file names the pipeline.

Values are tested in ascending order; the one at rank r is multiplied by a weight w r that does not grow with the rank, and
the procedure rejects until the first product above the level. A rank depends on how ties are broken. `Passes` does not: it
multiplies a value by the weight of the number of smaller values.

- `forall_rank_iff`: along a sorted list all products up to a rank stay within the level exactly if the value there passes.
- `Passes.mono`, `passes_perm`: smaller values pass too, and only the multiset of the values matters.
-/
import Mathlib.Tactic
import AgentPick.Core.Bisect

namespace AgentPick

namespace StepDown

variable {K : Type} [Field K] [LinearOrder K] [IsStrictOrderedRing K]

/-- how many values are smaller -/
def below (vs : List K) (x : K) : ℕ := vs.countP fun y => decide (y < x)

/-- no value up to x exceeds the level, weighted by the number of smaller values -/
def Passes (w : ℕ → K) (vs : List K) (α x : K) : Prop := ∀ y ∈ vs, y ≤ x → w (below vs y) * y ≤ α

variable {w : ℕ → K} {vs : List K} {α : K}

omit [IsStrictOrderedRing K] in
theorem Passes.mono {x y : K} (h : Passes w vs α y) (hxy : x ≤ y) : Passes w vs α x :=
  fun z hz hzx => h z hz (hzx.trans hxy)

omit [IsStrictOrderedRing K] in
theorem passes_perm {vs' : List K} (h : vs.Perm vs') (x : K) : Passes w vs α x ↔ Passes w vs' α x := by
  have hbelow (y : K) : below vs y = below vs' y := h.countP_eq _
  simp only [Passes, hbelow, h.mem_iff]

omit [Field K] [IsStrictOrderedRing K] in
/-- a value stands at the rank that counts the smaller ones -/
theorem lt_iff_lt_below (hs : vs.Pairwise (· ≤ ·)) {r : ℕ} (hr : r < vs.length) (x : K) :
    vs[r] < x ↔ r < below vs x := by
  have hi : Bisect.Initial (fun y => decide (y < x)) vs := hs.imp fun {y z} hyz hz => by
    simp only [decide_eq_true_eq] at hz ⊢
    exact lt_of_le_of_lt hyz hz
  have h := Bisect.any_getElem?_iff hi r
  rwa [List.getElem?_eq_getElem hr, Option.any_some, decide_eq_true_eq] at h

omit [Field K] [IsStrictOrderedRing K] in
theorem below_le_rank (hs : vs.Pairwise (· ≤ ·)) {r : ℕ} (hr : r < vs.length) {x : K} (hx : x ≤ vs[r]) :
    below vs x ≤ r := by
  by_contra hlt
  exact absurd ((lt_iff_lt_below hs hr x).2 (not_le.1 hlt)) (not_lt.2 hx)

omit [Field K] [IsStrictOrderedRing K] in
theorem getElem_below (hs : vs.Pairwise (· ≤ ·)) {x : K} (hx : x ∈ vs) :
    ∃ h : below vs x < vs.length, vs[below vs x] = x := by
  obtain ⟨s, hs', rfl⟩ := List.getElem_of_mem hx
  have hle : below vs vs[s] ≤ s := below_le_rank hs hs' le_rfl
  refine ⟨hle.trans_lt hs', le_antisymm ?_ ?_⟩
  · exact hs.rel_get_of_le (a := ⟨_, hle.trans_lt hs'⟩) (b := ⟨s, hs'⟩) hle
  · refine not_lt.1 fun hlt => ?_
    exact absurd ((lt_iff_lt_below hs _ _).1 hlt) (lt_irrefl _)

/-- **The procedure does not depend on how ties are broken**: along a sorted list, all products up to rank r stay within the
level exactly if the value at rank r passes. -/
theorem forall_rank_iff (hw : Antitone w) (hs : vs.Pairwise (· ≤ ·)) (hpos : ∀ x ∈ vs, 0 ≤ x) {r : ℕ}
    (hr : r < vs.length) : (∀ s (h : s < vs.length), s ≤ r → w s * vs[s] ≤ α) ↔ Passes w vs α vs[r] := by
  refine ⟨fun h y hy hyr => ?_, fun h s hsl hsr => ?_⟩
  · -- the first of the values equal to y stands at rank `below vs y`
    obtain ⟨hlt, hget⟩ := getElem_below hs hy
    have hrank := h _ hlt (below_le_rank hs hr hyr)
    rwa [hget] at hrank
  · have hle : vs[s] ≤ vs[r] := hs.rel_get_of_le (a := ⟨s, hsl⟩) (b := ⟨r, hr⟩) hsr
    calc w s * vs[s] ≤ w (below vs vs[s]) * vs[s] :=
          mul_le_mul_of_nonneg_right (hw (below_le_rank hs hsl le_rfl)) (hpos _ (List.getElem_mem hsl))
      _ ≤ α := h _ (List.getElem_mem hsl) hle

end StepDown

end AgentPick
