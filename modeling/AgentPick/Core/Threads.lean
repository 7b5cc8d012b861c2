/-
Threads that share a state.

A program says what a thread may do next: from its own state and the shared one to its own and the shared one. A run
interleaves the steps of any number of threads in any order. A step is atomic.

Results:
- `Threads.invariant`: what holds at the start and is kept by every step holds in every state reached.
- `Threads.assertions`: an assertion about each thread and the shared state holds, when a thread that steps keeps its own and
  does not interfere with those of the others.
- `Threads.Alone.reaches`: what a thread can do while the others wait is a run.
-/
import Mathlib.Tactic

namespace AgentPick

/-- thread, its state and the shared state, and both after the step -/
abbrev Program (L G : Type) := ℕ → L → G → L → G → Prop

/-- the states of all threads and the shared state -/
structure Threads (L G : Type) where
  locals : ℕ → L
  shared : G

namespace Threads

variable {L G : Type} {P : Program L G} {c d : Threads L G}

/-- one thread steps -/
inductive Step (P : Program L G) (c : Threads L G) : Threads L G → Prop where
  | run {t : ℕ} {l : L} {g : G} (h : P t (c.locals t) c.shared l g) : Step P c ⟨Function.update c.locals t l, g⟩

/-- any number of steps -/
def Reaches (P : Program L G) : Threads L G → Threads L G → Prop := Relation.ReflTransGen (Step P)

/-- an invariant of every step is one of every run -/
theorem invariant {I : Threads L G → Prop} (hstep : ∀ c d, Step P c d → I c → I d) (h : Reaches P c d) (hc : I c) : I d := by
  induction h with
  | refl => exact hc
  | tail _ hs ih => exact hstep _ _ hs ih

/-- **Assertions of threads hold in every run**, if the thread that steps keeps its own, and those of the others, and the
invariant of the shared state. -/
theorem assertions {I : G → Prop} {A : ℕ → L → G → Prop}
    (own : ∀ t l g l' g', P t l g l' g' → I g → A t l g → I g' ∧ A t l' g')
    (others : ∀ t l g l' g', P t l g l' g' → I g → A t l g → ∀ u m, u ≠ t → A u m g → A u m g')
    (h : Reaches P c d) (hI : I c.shared) (hA : ∀ t, A t (c.locals t) c.shared) :
    I d.shared ∧ ∀ t, A t (d.locals t) d.shared := by
  have hkept : ∀ c d : Threads L G, Step P c d → (I c.shared ∧ ∀ t, A t (c.locals t) c.shared) →
      I d.shared ∧ ∀ t, A t (d.locals t) d.shared := by
    intro c d hs hc
    obtain ⟨hI, hA⟩ := hc
    cases hs with
    | @run t l g hp =>
      obtain ⟨hI', hown⟩ := own t _ _ _ _ hp hI (hA t)
      refine ⟨hI', fun u => ?_⟩
      by_cases hu : u = t
      · subst hu
        simpa only [Function.update_self] using hown
      · simpa only [Function.update_of_ne hu] using others t _ _ _ _ hp hI (hA t) u _ hu (hA u)
  exact invariant (I := fun c => I c.shared ∧ ∀ t, A t (c.locals t) c.shared) hkept h ⟨hI, hA⟩

/-- steps of one thread while the others wait -/
def Alone (P : Program L G) (t : ℕ) : L × G → L × G → Prop :=
  Relation.ReflTransGen fun x y => P t x.1 x.2 y.1 y.2

theorem Alone.step {t : ℕ} {x : L × G} {l l' : L} {g g' : G} (h : Alone P t x (l, g)) (hp : P t l g l' g') :
    Alone P t x (l', g') := h.tail hp

/-- what a thread can do alone is a run -/
theorem Alone.reaches {t : ℕ} {l : L} {g : G} (h : Alone P t (c.locals t, c.shared) (l, g)) :
    Reaches P c ⟨Function.update c.locals t l, g⟩ := by
  generalize hx : (l, g) = x at h
  induction h generalizing l g with
  | refl =>
    cases hx
    rw [Function.update_eq_self]
    exact .refl
  | @tail x y _ hstep ih =>
    cases hx
    have hlast : P t (Function.update c.locals t x.1 t) x.2 l g := by
      rwa [Function.update_self]
    have hrun := (ih rfl).tail (.run hlast)
    rwa [Function.update_idem] at hrun

end Threads

end AgentPick
