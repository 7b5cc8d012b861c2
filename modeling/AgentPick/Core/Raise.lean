/-
Computations that may raise. LIBRARY: nothing in this file names the pipeline.

A computation is an `Except`, with Python's exceptions (`Exc`) for instance; it completes if it returns a value. Completing goes
through binds and traversals.

- `bind_eq_ok`, `bind_eq_error`, `map_eq_ok`, `map_eq_error`: where a value or an exception comes from.
- `completes_bind`, `completes_mapM`: a bind completes if its first part and what follows do, a traversal if every item does.
- `forall₂_of_mapM`, `mapM_eq_ok`: a traversal of items that all return collects what they return.
-/
import Mathlib.Tactic
import AgentPick.Core.Text

namespace AgentPick

/-- exceptions of Python and its library -/
inductive Exc where
  | keyError (key : Str)
  | indexError
  | typeError
  | valueError
  | zeroDivisionError
  | statisticsError
deriving DecidableEq, Repr

/-- the computation returns a value -/
def Completes {ε α : Type} (x : Except ε α) : Prop := ∃ a, x = .ok a

namespace Raise

variable {ε α β : Type}

@[simp] theorem completes_ok (a : α) : Completes (.ok a : Except ε α) := ⟨a, rfl⟩

@[simp] theorem completes_pure (a : α) : Completes (pure a : Except ε α) := ⟨a, rfl⟩

theorem bind_eq_ok {x : Except ε α} {f : α → Except ε β} {b : β} : x >>= f = .ok b ↔ ∃ a, x = .ok a ∧ f a = .ok b := by
  cases x with
  | error e => simp [bind, Except.bind]
  | ok a => simp [bind, Except.bind]

theorem bind_eq_error {x : Except ε α} {f : α → Except ε β} {e : ε} :
    x >>= f = .error e ↔ x = .error e ∨ ∃ a, x = .ok a ∧ f a = .error e := by
  cases x with
  | error e => simp [bind, Except.bind]
  | ok a => simp [bind, Except.bind]

theorem map_eq_ok {x : Except ε α} {f : α → β} {b : β} : x.map f = .ok b ↔ ∃ a, x = .ok a ∧ f a = b := by
  cases x <;> simp [Except.map]

theorem map_eq_error {x : Except ε α} {f : α → β} {e : ε} : x.map f = .error e ↔ x = .error e := by
  cases x <;> simp [Except.map]

@[simp] theorem not_completes_error (e : ε) : ¬ Completes (.error e : Except ε α) := by simp [Completes]

theorem completes_bind {x : Except ε α} {f : α → Except ε β} : Completes (x >>= f) ↔ ∃ a, x = .ok a ∧ Completes (f a) := by
  cases x with
  | error e => simp [Completes, bind, Except.bind]
  | ok a => simp [Completes, bind, Except.bind]

@[simp] theorem completes_map {x : Except ε α} {f : α → β} : Completes (x.map f) ↔ Completes x := by
  cases x <;> simp [Completes, Except.map]

theorem completes_mapM {f : α → Except ε β} {xs : List α} : Completes (xs.mapM f) ↔ ∀ x ∈ xs, Completes (f x) := by
  induction xs with
  | nil => simp
  | cons x xs ih =>
    rw [List.mapM_cons, completes_bind, List.forall_mem_cons, ← ih]
    refine ⟨fun ⟨y, hy, hrest⟩ => ?_, fun ⟨⟨y, hy⟩, hrest⟩ => ⟨y, hy, ?_⟩⟩
    · obtain ⟨ys, hys, -⟩ := completes_bind.1 hrest
      exact ⟨⟨y, hy⟩, ys, hys⟩
    · obtain ⟨ys, hys⟩ := hrest
      exact completes_bind.2 ⟨ys, hys, completes_pure _⟩

theorem completes_bind_of {x : Except ε α} {f : α → Except ε β} (hx : Completes x) (hf : ∀ a, x = .ok a → Completes (f a)) :
    Completes (x >>= f) := by
  obtain ⟨a, ha⟩ := hx
  exact completes_bind.2 ⟨a, ha, hf a ha⟩

/-- where what follows completes or not whatever the first part returns -/
theorem completes_bind_iff {x : Except ε α} {f : α → Except ε β} {P : Prop} (h : ∀ a, x = .ok a → (Completes (f a) ↔ P)) :
    Completes (x >>= f) ↔ Completes x ∧ P := by
  rw [completes_bind]
  refine ⟨fun ⟨a, ha, hf⟩ => ⟨⟨a, ha⟩, (h a ha).1 hf⟩, fun ⟨⟨a, ha⟩, hP⟩ => ⟨a, ha, (h a ha).2 hP⟩⟩

/-- what a traversal collects, its items returned -/
theorem forall₂_of_mapM {f : α → Except ε β} {xs : List α} {ys : List β} (h : xs.mapM f = .ok ys) :
    List.Forall₂ (fun x y => f x = .ok y) xs ys := by
  induction xs generalizing ys with
  | nil =>
    obtain rfl := Except.ok.inj h
    exact .nil
  | cons x xs ih =>
    rw [List.mapM_cons] at h
    cases hx : f x with
    | error e =>
      rw [hx] at h
      cases h
    | ok y =>
      cases hxs : xs.mapM f with
      | error e =>
        rw [hx, hxs] at h
        cases h
      | ok ys' =>
        rw [hx, hxs] at h
        obtain rfl := Except.ok.inj h
        exact .cons hx (ih hxs)

theorem exists_of_mem_mapM {f : α → Except ε β} {xs : List α} {ys : List β} (h : xs.mapM f = .ok ys) {y : β} (hy : y ∈ ys) :
    ∃ x ∈ xs, f x = .ok y := by
  obtain ⟨i, hi, rfl⟩ := List.getElem_of_mem hy
  have hall := forall₂_of_mapM h
  have hi' : i < xs.length := hall.length_eq ▸ hi
  exact ⟨xs[i], List.getElem_mem hi', hall.get hi' hi⟩

/-- items that all return are collected -/
theorem mapM_eq_ok {f : α → Except ε β} {k : α → β} {xs : List α} (h : ∀ x ∈ xs, f x = .ok (k x)) :
    xs.mapM f = .ok (xs.map k) := by
  induction xs with
  | nil => rfl
  | cons x xs ih =>
    obtain ⟨hx, hxs⟩ := List.forall_mem_cons.1 h
    rw [List.mapM_cons, hx, ih hxs]
    rfl

end Raise

end AgentPick
