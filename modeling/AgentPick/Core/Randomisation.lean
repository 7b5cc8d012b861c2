/-
Randomisation tests. LIBRARY: nothing in this file names the pipeline.

A finite group G acts on the data; the p-value of data x for a statistic T is the share of the group elements g whose
T (g • x) reaches T x, up to a tolerance ε. Under the null hypothesis all g • x are equally likely, so the test is valid when
at most α |G| of the g give g • x a p-value of at most α.

- `reach_smul`: acting on the data permutes the enumerated values, so the whole orbit is compared with one set of values.
- `valid`: the test is valid at every level, whatever the ties and the tolerance. The element of the rejected set with the
  least statistic is reached by all the others.
-/
import Mathlib.Tactic

namespace AgentPick

namespace Randomisation

open Finset

variable {G X K : Type} [Group G] [Fintype G] [MulAction G X] [Field K] [LinearOrder K] [IsStrictOrderedRing K]

/-- the group elements that take x to a value of at least t -/
def reach (T : X → K) (x : X) (t : K) : Finset G := univ.filter fun g => t ≤ T (g • x)

/-- the p-value of x, with tolerance ε -/
def pValue (G : Type) [Group G] [Fintype G] [MulAction G X] (T : X → K) (ε : K) (x : X) : K :=
  (reach (G := G) T x (T x - ε)).card / Fintype.card G

omit [Field K] [IsStrictOrderedRing K] in
/-- the values are the same ones for every point of an orbit -/
theorem reach_smul (T : X → K) (x : X) (g : G) (t : K) :
    (reach (G := G) T (g • x) t).card = (reach (G := G) T x t).card := by
  refine Finset.card_equiv (Equiv.mulRight g) ?_
  intro h
  simp only [reach, mem_filter, mem_univ, true_and, Equiv.coe_mulRight, mul_smul]

omit [IsStrictOrderedRing K] in
theorem pValue_smul (T : X → K) (ε : K) (x : X) (g : G) :
    pValue G T ε (g • x) = (reach (G := G) T x (T (g • x) - ε)).card / Fintype.card G := by
  rw [pValue, reach_smul]

/-- **A randomisation test is valid at every level.** -/
theorem valid (T : X → K) {ε : K} (hε : 0 ≤ ε) (x : X) {α : K} (hα : 0 ≤ α) :
    ((univ.filter fun g : G => pValue G T ε (g • x) ≤ α).card : K) ≤ α * Fintype.card G := by
  have hcard : (0 : K) < Fintype.card G := by exact_mod_cast Fintype.card_pos
  rcases (univ.filter fun g : G => pValue G T ε (g • x) ≤ α).eq_empty_or_nonempty with h | h
  · rw [h, card_empty, Nat.cast_zero]
    positivity
  · -- g0 is rejected and has the least statistic among the rejected
    obtain ⟨g0, hg0, hmin⟩ := exists_min_image _ (fun g : G => T (g • x)) h
    have hsub : (univ.filter fun g : G => pValue G T ε (g • x) ≤ α) ⊆ reach T x (T (g0 • x) - ε) := by
      intro g hg
      simp only [reach, mem_filter, mem_univ, true_and]
      have := hmin g hg
      linarith
    have hp : pValue G T ε (g0 • x) ≤ α := (mem_filter.1 hg0).2
    rw [pValue_smul, div_le_iff₀ hcard] at hp
    calc ((univ.filter fun g : G => pValue G T ε (g • x) ≤ α).card : K)
        ≤ (reach (G := G) T x (T (g0 • x) - ε)).card := by exact_mod_cast card_le_card hsub
      _ ≤ α * Fintype.card G := hp

end Randomisation

end AgentPick
