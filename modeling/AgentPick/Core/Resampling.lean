/-
Resampling with a seeded generator. LIBRARY: nothing in this file names the pipeline.

A generator is a state that every call changes: a call names a size and draws a position below it, one way in `choice` and
another in `choices`. The same seed and the same calls draw the same positions. `choices` picks values by position, `signed` puts a drawn sign before every value, `repeated`
resamples; all of them pass the state on.

- `repeated_rel`: two resamplings that treat the state alike give results that are related one by one.
- `signed_eq`: the signs do not depend on the values.
- `repeated_counter`: what a generator with given draws makes of a loop.
- `exists_perm_filterMap`: an order of what is picked from a list comes from an order of the list.
-/
import Mathlib.Tactic

namespace AgentPick

/-- a seeded generator: the position that a call draws, and the state after it -/
structure Generator (S : Type) where
  seeded : ℤ → S
  /-- as `choice` draws it -/
  drawOne : S → ℕ → ℕ × S
  /-- as `choices` draws each of its positions -/
  drawEach : S → ℕ → ℕ × S
  drawOne_lt : ∀ s n, 0 < n → (drawOne s n).1 < n
  drawEach_lt : ∀ s n, 0 < n → (drawEach s n).1 < n

/-! ## Repetition -/

section Repeated

variable {S α β : Type}

/-- `[f() for _ in range(n)]`, with the state passed on -/
def repeated (f : S → α × S) : ℕ → S → List α × S
  | 0, s => ([], s)
  | n + 1, s => ((f s).1 :: (repeated f n (f s).2).1, (repeated f n (f s).2).2)

theorem length_repeated (f : S → α × S) (n : ℕ) (s : S) : (repeated f n s).1.length = n := by
  induction n generalizing s with
  | zero => rfl
  | succ n ih => rw [repeated, List.length_cons, ih]

/-- two repetitions that treat the state alike -/
theorem repeated_rel {f : S → α × S} {f' : S → β × S} {r : α → β → Prop} (hrel : ∀ s, r (f s).1 (f' s).1)
    (hstate : ∀ s, (f s).2 = (f' s).2) (n : ℕ) (s : S) :
    List.Forall₂ r (repeated f n s).1 (repeated f' n s).1 ∧ (repeated f n s).2 = (repeated f' n s).2 := by
  induction n generalizing s with
  | zero => exact ⟨.nil, rfl⟩
  | succ n ih =>
    obtain ⟨hrest, hlast⟩ := ih (f s).2
    rw [hstate] at hrest hlast
    refine ⟨.cons (hrel s) ?_, ?_⟩
    · rw [hstate]
      exact hrest
    · rw [repeated, repeated, hstate]
      exact hlast

/-- results taken through a function, with the state unchanged -/
theorem repeated_map {f : S → α × S} {f' : S → β × S} (k : α → β) (h : ∀ s, f' s = (k (f s).1, (f s).2)) (n : ℕ) (s : S) :
    repeated f' n s = ((repeated f n s).1.map k, (repeated f n s).2) := by
  induction n generalizing s with
  | zero => rfl
  | succ n ih => simp [repeated, h, ih]

/-- every result comes from a state that satisfies what the calls keep -/
theorem of_mem_repeated {f : S → α × S} {p : S → Prop} (hinv : ∀ s, p s → p (f s).2) {n : ℕ} {s : S} (hs : p s)
    {x : α} (hx : x ∈ (repeated f n s).1) : ∃ s', p s' ∧ x = (f s').1 := by
  induction n generalizing s with
  | zero => cases hx
  | succ n ih =>
    rcases List.mem_cons.1 hx with rfl | hx
    · exact ⟨s, hs, rfl⟩
    · exact ih (hinv s hs) hx

theorem inv_repeated {f : S → α × S} {p : S → Prop} (hinv : ∀ s, p s → p (f s).2) {n : ℕ} {s : S} (hs : p s) :
    p (repeated f n s).2 := by
  induction n generalizing s with
  | zero => exact hs
  | succ n ih => exact ih (hinv s hs)

end Repeated

/-! ## Drawing -/

namespace Generator

variable {S : Type} (g : Generator S)

/-- `rng.choices(xs, k=k)` -/
def choices (xs : List ℚ) (k : ℕ) (s : S) : List ℚ × S :=
  repeated (fun s => (xs.getD (g.drawEach s xs.length).1 0, (g.drawEach s xs.length).2)) k s

/-- `[d * rng.choice((-1.0, 1.0)) for d in ds]` -/
def signed : List ℚ → S → List ℚ × S
  | [], s => ([], s)
  | d :: ds, s =>
    ((if (g.drawOne s 2).1 = 0 then -d else d) :: (signed ds (g.drawOne s 2).2).1, (signed ds (g.drawOne s 2).2).2)

/-- the drawn signs: is it the minus sign? -/
def signs (n : ℕ) (s : S) : List Bool × S :=
  repeated (fun s => (decide ((g.drawOne s 2).1 = 0), (g.drawOne s 2).2)) n s

/-- signs put before the values -/
def flipped (ds : List ℚ) (signs : List Bool) : List ℚ := List.zipWith (fun d minus => if minus then -d else d) ds signs

/-- the signs do not depend on the values -/
theorem signed_eq (ds : List ℚ) (s : S) :
    g.signed ds s = (flipped ds (g.signs ds.length s).1, (g.signs ds.length s).2) := by
  induction ds generalizing s with
  | nil => rfl
  | cons d ds ih =>
    rw [signed, ih]
    by_cases h : (g.drawOne s 2).1 = 0 <;> simp [signs, repeated, flipped, h]

theorem mem_choices {xs : List ℚ} (hne : xs ≠ []) {k : ℕ} {s : S} {x : ℚ} (hx : x ∈ (g.choices xs k s).1) :
    x ∈ xs := by
  obtain ⟨s', -, rfl⟩ := of_mem_repeated (p := fun _ => True) (fun _ _ => trivial) trivial hx
  have hlt := g.drawEach_lt s' xs.length (List.length_pos_of_ne_nil hne)
  rw [List.getD_eq_getElem?_getD, List.getElem?_eq_getElem hlt]
  exact List.getElem_mem hlt

theorem length_choices (xs : List ℚ) (k : ℕ) (s : S) : (g.choices xs k s).1.length = k := length_repeated _ _ _

theorem choices_ne_nil {xs : List ℚ} (hne : xs ≠ []) (s : S) : (g.choices xs xs.length s).1 ≠ [] := by
  rw [← List.length_pos_iff, length_choices]
  exact List.length_pos_of_ne_nil hne

/-- values taken through a function are drawn at the same positions -/
theorem choices_map (f : ℚ → ℚ) {xs : List ℚ} (hne : xs ≠ []) (k : ℕ) (s : S) :
    g.choices (xs.map f) k s = ((g.choices xs k s).1.map f, (g.choices xs k s).2) := by
  refine repeated_map f (fun s => ?_) k s
  have hlt := g.drawEach_lt s xs.length (List.length_pos_of_ne_nil hne)
  simp [List.getD_eq_getElem?_getD, List.getElem?_eq_getElem hlt]

theorem length_signs (n : ℕ) (s : S) : (g.signs n s).1.length = n := length_repeated _ _ _

/-- the state after it depends on the number of values only -/
theorem choices_state {xs ys : List ℚ} (h : xs.length = ys.length) (k : ℕ) (s : S) :
    (g.choices xs k s).2 = (g.choices ys k s).2 :=
  (repeated_rel (r := fun _ _ => True) (fun _ => trivial) (fun s => by rw [h]) k s).2

/-- the generator whose i-th call draws what is given -/
def counter (position : ℕ → ℕ → ℕ) (hlt : ∀ i n, 0 < n → position i n < n) : Generator ℕ :=
  ⟨fun _ => 0, fun i n => (position i n, i + 1), fun i n => (position i n, i + 1), hlt, hlt⟩

theorem repeated_counter {α : Type} (f : ℕ → α) (n s : ℕ) :
    repeated (fun i => (f i, i + 1)) n s = ((List.range' s n).map f, s + n) := by
  induction n generalizing s with
  | zero => rfl
  | succ n ih =>
    rw [repeated, ih, List.range'_succ, List.map_cons]
    exact Prod.ext rfl (by simp only; omega)

end Generator

/-! ## Orders -/

/-- an order of what is picked from a list comes from an order of the list -/
theorem exists_perm_filterMap {α β : Type} (f : α → Option β) {ys : List β} {xs : List α} (h : ys.Perm (xs.filterMap f)) :
    ∃ xs' : List α, xs'.Perm xs ∧ xs'.filterMap f = ys := by
  induction ys generalizing xs with
  | nil => exact ⟨xs, List.Perm.refl _, h.nil_eq.symm⟩
  | cons y ys ih =>
    obtain ⟨x, hx, hfx⟩ := List.mem_filterMap.1 (h.subset List.mem_cons_self)
    obtain ⟨l, r, rfl⟩ := List.append_of_mem hx
    have hsplit : ((l ++ x :: r).filterMap f).Perm (y :: (l ++ r).filterMap f) := by
      rw [List.filterMap_append, List.filterMap_cons_some hfx, List.filterMap_append]
      exact List.perm_middle
    obtain ⟨xs', hperm, hpick⟩ := ih (h.trans hsplit).cons_inv
    refine ⟨x :: xs', (hperm.cons x).trans List.perm_middle.symm, ?_⟩
    rw [List.filterMap_cons_some hfx, hpick]

/-- values in another order take their partners with them -/
theorem exists_zip_perm {α β : Type} {xs xs' : List α} {ys : List β} (h : xs'.Perm xs) (hlen : ys.length = xs.length) :
    ∃ ys', ys'.Perm ys ∧ (xs'.zip ys').Perm (xs.zip ys) := by
  have hfst : xs'.Perm ((xs.zip ys).filterMap fun p => some p.1) := by
    rw [List.filterMap_eq_map', List.map_fst_zip hlen.ge]
    exact h
  obtain ⟨zs, hperm, hpick⟩ := exists_perm_filterMap (fun p : α × β => some p.1) hfst
  rw [List.filterMap_eq_map'] at hpick
  refine ⟨zs.map Prod.snd, ?_, ?_⟩
  · have hsnd := hperm.map Prod.snd
    rwa [List.map_snd_zip hlen.le] at hsnd
  · rw [← hpick, ← List.unzip_fst, ← List.unzip_snd, List.zip_unzip]
    exact hperm

end AgentPick
