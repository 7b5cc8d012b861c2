/-
Binary search in a sorted list (`bisect_left`, `bisect_right`). LIBRARY: nothing in this file names the pipeline.

Both searches are one loop that narrows `[lo, hi)` and goes right when a predicate holds at the middle. If the predicate
holds on an initial part of the list and nowhere else, the loop ends at the length of that part (`bisectLoop_eq`).

- `bisectLeft_eq`, `bisectRight_eq`: in a sorted list the searches count the elements below x, and those not above x.
-/
import Mathlib.Tactic

namespace AgentPick

namespace Bisect

variable {α : Type}

/-- `while lo < hi: mid = (lo + hi) // 2; ...`, going right when the predicate holds at mid -/
def bisectLoop (right : α → Bool) (l : List α) (lo hi : ℕ) : ℕ :=
  if lo < hi then
    let mid := (lo + hi) / 2
    if (l[mid]?).any right then bisectLoop right l (mid + 1) hi else bisectLoop right l lo mid
  else lo
termination_by hi - lo

/-- the predicate holds on an initial part of the list only -/
def Initial (p : α → Bool) (l : List α) : Prop := l.Pairwise fun x y => p y = true → p x = true

/-- the elements with the property are those at the positions below their number -/
theorem any_getElem?_iff {p : α → Bool} {l : List α} (h : Initial p l) (i : ℕ) :
    (l[i]?).any p = true ↔ i < l.countP p := by
  induction l generalizing i with
  | nil => simp
  | cons x l ih =>
    obtain ⟨h1, h2⟩ := List.pairwise_cons.1 h
    by_cases hx : p x = true
    · cases i with
      | zero => simp [hx]
      | succ i =>
        rw [List.getElem?_cons_succ, ih h2, List.countP_cons_of_pos hx]
        omega
    · -- nothing after a failing element has the property
      have h0 : l.countP p = 0 := List.countP_eq_zero.2 fun y hy hp => hx (h1 y hy hp)
      cases i with
      | zero => simp [hx, h0]
      | succ i =>
        rw [List.getElem?_cons_succ, ih h2, List.countP_cons_of_neg hx]
        omega

/-- the loop ends at the length of the initial part, which it keeps between lo and hi -/
theorem bisectLoop_eq {p : α → Bool} {l : List α} (h : Initial p l) (lo hi : ℕ) (hlo : lo ≤ l.countP p)
    (hhi : l.countP p ≤ hi) : bisectLoop p l lo hi = l.countP p := by
  induction lo, hi using bisectLoop.induct p l with
  | case1 lo hi hlt mid hp ih =>
    have hm := (any_getElem?_iff h mid).1 hp
    rw [bisectLoop, if_pos hlt]
    simp only [show (lo + hi) / 2 = mid from rfl, hp, if_true]
    exact ih (by omega) hhi
  | case2 lo hi hlt mid hp ih =>
    have hm := (any_getElem?_iff h mid).not.1 hp
    rw [bisectLoop, if_pos hlt]
    simp only [show (lo + hi) / 2 = mid from rfl, hp]
    exact ih hlo (by omega)
  | case3 lo hi hge =>
    rw [bisectLoop, if_neg hge]
    omega

section Order

variable [LinearOrder α]

def bisectLeft (l : List α) (x : α) : ℕ := bisectLoop (fun y => decide (y < x)) l 0 l.length

def bisectRight (l : List α) (x : α) : ℕ := bisectLoop (fun y => !decide (x < y)) l 0 l.length

theorem bisectLeft_eq {l : List α} (h : l.Pairwise (· ≤ ·)) (x : α) :
    bisectLeft l x = l.countP fun y => decide (y < x) := by
  have hi : Initial (fun y => decide (y < x)) l := h.imp fun {y z} hyz hz => by
    simp only [decide_eq_true_eq] at hz ⊢
    exact lt_of_le_of_lt hyz hz
  exact bisectLoop_eq hi _ _ (Nat.zero_le _) List.countP_le_length

theorem bisectRight_eq {l : List α} (h : l.Pairwise (· ≤ ·)) (x : α) :
    bisectRight l x = l.countP fun y => decide (y ≤ x) := by
  have hi : Initial (fun y => !decide (x < y)) l := h.imp fun {y z} hyz hz => by
    simp only [Bool.not_eq_true', decide_eq_false_iff_not, not_lt] at hz ⊢
    exact hyz.trans hz
  refine (bisectLoop_eq hi _ _ (Nat.zero_le _) List.countP_le_length).trans ?_
  simp only [← not_lt, decide_not]

/-- what is right of a left search is what is not below x -/
theorem length_sub_bisectLeft {l : List α} (h : l.Pairwise (· ≤ ·)) (x : α) :
    l.length - bisectLeft l x = l.countP fun y => decide (x ≤ y) := by
  rw [bisectLeft_eq h, List.length_eq_countP_add_countP fun y => decide (y < x), Nat.add_sub_cancel_left]
  exact List.countP_congr fun y _ => by simp

end Order

end Bisect

end AgentPick
