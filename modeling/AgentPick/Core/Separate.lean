/-
A system whose events belong to different owners.

Every owner has a part of the state, and states agree on a part. An event of an owner needs and changes its own part only.

Result:
- `Separation.project`: what a run does to a part is what the events of its owner do alone.
-/
import Mathlib.Tactic

namespace AgentPick

/-- events keep to the part of their owner, as long as they are `Fine` and the state is as `Inv` says -/
structure Separation {S E ι : Type} (step : S → E → Option S) (owner : E → ι) (Fine : E → Prop) (Inv : S → Prop)
    (Agree : ι → S → S → Prop) : Prop where
  inv : ∀ {s s' e}, Fine e → Inv s → step s e = some s' → Inv s'
  own : ∀ {s s' t e}, Fine e → Inv s → Inv t → Agree (owner e) s t → step s e = some s' →
    ∃ t', step t e = some t' ∧ Agree (owner e) s' t'
  other : ∀ {s s' t e i}, Fine e → Inv s → i ≠ owner e → Agree i s t → step s e = some s' → Agree i s' t

variable {S E ι : Type} [DecidableEq ι] {step : S → E → Option S} {owner : E → ι} {Fine : E → Prop} {Inv : S → Prop}
  {Agree : ι → S → S → Prop}

/-- **What a run does to a part is what the events of its owner do alone.** -/
theorem Separation.project (h : Separation step owner Fine Inv Agree) {es : List E} (hes : ∀ e ∈ es, Fine e) {s s' t : S} {i : ι}
    (hs : Inv s) (ht : Inv t) (hagree : Agree i s t) (hrun : es.foldlM step s = some s') :
    ∃ t', (es.filter fun e => owner e = i).foldlM step t = some t' ∧ Agree i s' t' := by
  induction es generalizing s t with
  | nil =>
    cases hrun
    exact ⟨t, rfl, hagree⟩
  | cons e es ih =>
    obtain ⟨he, hrest⟩ := List.forall_mem_cons.1 hes
    obtain ⟨s₁, hstep, hrun⟩ := Option.bind_eq_some_iff.1 hrun
    have hs₁ := h.inv he hs hstep
    by_cases howner : owner e = i
    · subst howner
      obtain ⟨t₁, hown, hagree₁⟩ := h.own he hs ht hagree hstep
      obtain ⟨t', ht', hagree'⟩ := ih hrest hs₁ (h.inv he ht hown) hagree₁ hrun
      refine ⟨t', ?_, hagree'⟩
      rw [List.filter_cons_of_pos (by simp), List.foldlM_cons, hown]
      exact ht'
    · obtain ⟨t', ht', hagree'⟩ := ih hrest hs₁ ht (h.other he hs (Ne.symm howner) hagree hstep) hrun
      refine ⟨t', ?_, hagree'⟩
      rwa [List.filter_cons_of_neg (by simpa using howner)]

end AgentPick
