/-
Pruning a dictionary in place. LIBRARY: nothing in this file names the pipeline.

A loop visits some keys of a dictionary, in any order, and deletes a visited key when at least t of the keys still present
extend it (`above k e`: e extends k). The dictionary shrinks while the loop runs, so a key may have lost extensions before
it is visited. For a transitive and irreflexive extension relation this makes no difference:

- `many_minimal`: a key with at least t extensions has at least t extensions that have fewer than t themselves. Those are
  never deleted.
- `prune_eq`: so the loop keeps exactly the keys that are not visited or have fewer than t extensions in the ORIGINAL
  dictionary, whatever the order of the visits and of the keys.
-/
import Mathlib.Tactic
import AgentPick.Core.Dict

namespace AgentPick

namespace Dict

variable {κ ν : Type} [DecidableEq κ] (above : κ → κ → Bool) (t : ℕ)

/-- `for k in order: if sum(1 for other in d if above(k, other)) >= t: del d[k]` -/
def prune (order : List κ) (d : Dict κ ν) : Dict κ ν :=
  order.foldl (fun d k => if t ≤ d.keys.countP (above k) then d.erase k else d) d

/-- the one-shot rule, on the original keys -/
def stays (order keys : List κ) (k : κ) : Bool := !(decide (k ∈ order) && decide (t ≤ keys.countP (above k)))

section Transitive

variable {above : κ → κ → Bool} (htrans : ∀ a b c, above a b = true → above b c = true → above a c = true)
  (hirrefl : ∀ a, above a a = false)

include htrans hirrefl

omit [DecidableEq κ] in
/-- an extension has fewer extensions -/
theorem countP_lt {keys : List κ} {k e : κ} (he : e ∈ keys) (hke : above k e = true) :
    keys.countP (above e) < keys.countP (above k) := by
  have hle : (keys.filter (above e)).Sublist (keys.filter (above k)) :=
    List.monotone_filter_right keys fun x hx => htrans k e x hke hx
  have hmem : e ∈ keys.filter (above k) := List.mem_filter.2 ⟨he, hke⟩
  have hnot : e ∉ keys.filter (above e) := fun h => by
    have := (List.mem_filter.1 h).2
    rw [hirrefl] at this
    cases this
  rw [List.countP_eq_length_filter, List.countP_eq_length_filter]
  refine lt_of_le_of_ne hle.length_le ?_
  intro hlen
  exact hnot (hle.eq_of_length hlen ▸ hmem)

omit [DecidableEq κ] in
/-- among the extensions of a key with many of them, many have few extensions themselves -/
theorem many_minimal {keys : List κ} {k : κ} (hk : t ≤ keys.countP (above k)) :
    t ≤ keys.countP fun e => above k e && decide (keys.countP (above e) < t) := by
  -- by induction on the number of extensions
  induction hn : keys.countP (above k) using Nat.strong_induction_on generalizing k with
  | h n ih =>
    by_cases hall : ∀ e ∈ keys, above k e = true → keys.countP (above e) < t
    · calc t ≤ keys.countP (above k) := hk
        _ = keys.countP fun e => above k e && decide (keys.countP (above e) < t) := by
          apply List.countP_congr
          intro e he
          simp only [Bool.and_eq_true, decide_eq_true_eq]
          exact ⟨fun h => ⟨h, hall e he h⟩, fun h => h.1⟩
    · -- some extension e has many extensions: they are extensions of k as well
      push Not at hall
      obtain ⟨e, he, hke, hte⟩ := hall
      have hlt := countP_lt htrans hirrefl he hke
      calc t ≤ keys.countP fun x => above e x && decide (keys.countP (above x) < t) := ih _ (hn ▸ hlt) hte rfl
        _ ≤ keys.countP fun x => above k x && decide (keys.countP (above x) < t) := by
          apply List.countP_mono_left
          intro x _ hx
          simp only [Bool.and_eq_true] at hx ⊢
          exact ⟨htrans k e x hke hx.1, hx.2⟩

/-- at any moment of the loop a key has many extensions left if and only if it had many at the start -/
theorem count_left {keys order : List κ} (k : κ) :
    t ≤ (keys.filter (stays above t order keys)).countP (above k) ↔ t ≤ keys.countP (above k) := by
  refine ⟨?_, ?_⟩
  · intro h
    exact h.trans (List.filter_sublist.countP_le)
  · intro h
    calc t ≤ keys.countP fun e => above k e && decide (keys.countP (above e) < t) := many_minimal t htrans hirrefl h
      _ ≤ keys.countP fun e => above k e && stays above t order keys e := by
        apply List.countP_mono_left
        intro e _ he
        simp only [Bool.and_eq_true, decide_eq_true_eq] at he
        simp [stays, he.1, he.2]
      _ = (keys.filter (stays above t order keys)).countP (above k) := by rw [List.countP_filter]

/-- **The loop is the one-shot rule**, in whatever order it visits the keys. -/
theorem prune_eq (order : List κ) (d : Dict κ ν) : prune above t order d = d.filterKeys (stays above t order d.keys) := by
  induction order using List.reverseRecOn with
  | nil => exact (filterKeys_of_forall fun k _ => by simp [stays]).symm
  | append_singleton order k ih =>
    have hsnoc : prune above t (order ++ [k]) d =
        if t ≤ (prune above t order d).keys.countP (above k) then (prune above t order d).erase k else prune above t order d := by
      rw [prune, List.foldl_append]
      rfl
    rw [hsnoc, ih, keys_filterKeys]
    simp only [count_left t htrans hirrefl]
    split_ifs with h
    · rw [erase, filterKeys_filterKeys]
      apply filterKeys_congr
      intro x _
      by_cases hx : x = k
      · subst hx
        simp [stays, h]
      · simp [stays, hx]
    · apply filterKeys_congr
      intro x _
      by_cases hx : x = k
      · subst hx
        simp [stays, h]
      · simp [stays, hx]

end Transitive

end Dict

end AgentPick
