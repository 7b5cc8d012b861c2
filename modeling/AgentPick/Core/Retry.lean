/-
Calling again what raises. LIBRARY: nothing in this file names the pipeline.

A call changes a state, and returns or raises. `retry fn n` calls `fn` until it returns, n times at most; what the last call
raises is raised. The time between two calls is left out.

- `retry_eq_ok`: it returns what the first call returns that does not raise.
- `retry_ok`: if all calls return the same, it returns this as soon as one of n calls does not raise.
- `retry_returned`: what it returns is something that one of the calls returned.
-/
import Mathlib.Tactic

namespace AgentPick.Retry

variable {σ ε α : Type}

/-- `none`: there is no call to make -/
def retry (fn : σ → Except ε α × σ) : ℕ → σ → Option (Except ε α) × σ
  | 0, s => (none, s)
  | n + 1, s =>
    match fn s with
    | (.ok a, s') => (some (.ok a), s')
    | (.error e, s') => if n = 0 then (some (.error e), s') else retry fn n s'

/-- what was returned, if anything was -/
def returned : Option (Except ε α) → Option α
  | some (.ok a) => some a
  | _ => none

/-- the state after k calls -/
def after (fn : σ → Except ε α × σ) (k : ℕ) (s : σ) : σ := (fun s => (fn s).2)^[k] s

theorem returned_eq_some {r : Option (Except ε α)} {a : α} : returned r = some a ↔ r = some (.ok a) := by
  unfold returned
  split
  next b => simp
  next hno => simpa using hno a

section

variable {fn : σ → Except ε α × σ} {n : ℕ} {s : σ}

theorem retry_of_ok {a : α} {s' : σ} (h : fn s = (.ok a, s')) : retry fn (n + 1) s = (some (.ok a), s') := by
  rw [retry, h]

theorem retry_of_error {e : ε} {s' : σ} (h : fn s = (.error e, s')) (hn : n ≠ 0) : retry fn (n + 1) s = retry fn n s' := by
  rw [retry, h]
  exact if_neg hn

/-- **What is returned is what the first call returns that does not raise.** -/
theorem retry_eq_ok {a : α} {s' : σ} : retry fn n s = (some (.ok a), s') ↔
    ∃ k < n, (∀ j < k, ∃ e, (fn (after fn j s)).1 = .error e) ∧ fn (after fn k s) = (.ok a, s') := by
  induction n generalizing s with
  | zero => simp [retry]
  | succ n ih =>
    rcases hfn : fn s with ⟨_ | b, t⟩
    · next e =>
      have hshift : ∀ k, after fn (k + 1) s = after fn k t := by
        intro k
        rw [after, Function.iterate_succ_apply, hfn]
        rfl
      have hzero : fn (after fn 0 s) = (.error e, t) := hfn
      by_cases hn : n = 0
      · have hretry : retry fn (n + 1) s = (some (.error e), t) := by
          rw [retry, hfn]
          exact if_pos hn
        rw [hretry]
        refine iff_of_false (by simp) fun h => ?_
        obtain ⟨k, hk, -, hok⟩ := h
        obtain rfl : k = 0 := by omega
        rw [hzero] at hok
        cases hok
      · rw [retry_of_error hfn hn, ih]
        constructor
        · intro h
          obtain ⟨k, hk, hfail, hok⟩ := h
          refine ⟨k + 1, by omega, fun j hj => ?_, by rw [hshift, hok]⟩
          cases j with
          | zero => exact ⟨e, by rw [hzero]⟩
          | succ j => exact (hshift j).symm ▸ hfail j (by omega)
        · intro h
          obtain ⟨k, hk, hfail, hok⟩ := h
          cases k with
          | zero =>
            rw [hzero] at hok
            cases hok
          | succ k =>
            refine ⟨k, by omega, fun j hj => ?_, by rw [← hshift, hok]⟩
            have h := hfail (j + 1) (by omega)
            rwa [hshift] at h
    · rw [retry_of_ok hfn]
      constructor
      · intro h
        exact ⟨0, by omega, fun j hj => absurd hj (by omega), hfn.trans (by simpa using h)⟩
      · intro h
        obtain ⟨k, -, hfail, hok⟩ := h
        cases k with
        | zero => simpa using hfn.symm.trans hok
        | succ k =>
          obtain ⟨e, he⟩ := hfail 0 (by omega)
          have hzero : (fn (after fn 0 s)).1 = .ok b := by rw [show fn (after fn 0 s) = _ from hfn]
          rw [he] at hzero
          cases hzero

/-- one of n calls returns, and all that return agree -/
theorem retry_ok {a : α} (hsame : ∀ s b, (fn s).1 = .ok b → b = a) (hsome : ∃ k < n, (fn (after fn k s)).1 = .ok a) :
    returned (retry fn n s).1 = some a := by
  classical
  rw [returned_eq_some]
  obtain ⟨hk, hok⟩ := Nat.find_spec hsome
  set k := Nat.find hsome
  refine congrArg Prod.fst (retry_eq_ok.2 ⟨k, hk, fun j hj => ?_, Prod.ext hok rfl⟩ : retry fn n s = _)
  cases hfn : (fn (after fn j s)).1 with
  | error e => exact ⟨e, rfl⟩
  | ok b =>
    have hmin := Nat.find_min hsome hj
    rw [hsame _ b hfn] at hfn
    exact absurd ⟨hj.trans hk, hfn⟩ hmin

/-- what holds of everything that a call returns -/
theorem retry_returned {P : α → Prop} (h : ∀ s a, (fn s).1 = .ok a → P a) {a : α} (ha : returned (retry fn n s).1 = some a) :
    P a := by
  obtain ⟨k, -, -, hok⟩ := retry_eq_ok.1 (Prod.ext (returned_eq_some.1 ha) rfl : retry fn n s = (_, (retry fn n s).2))
  exact h _ a (by rw [hok])

end

end AgentPick.Retry
