/-
First elements by key, and a loop that gathers them. LIBRARY: nothing in this file names the pipeline.

`firsts key xs` keeps the first element of every key. `collect` is the loop that puts them into a dictionary. `gather` is a
loop over a list that stops at an element, passes over the ones that do not qualify or whose key was seen, and breaks when it
has enough.

- `mem_map_firsts`, `nodup_firsts`: the keys are those of the list, once each; `length_firsts` counts them.
- `firsts_pairwise`: they come in the order of the list.
- `firsts_prefix`: a longer list has more of them, after the ones of the shorter.
- `values_collect`: what the dictionary holds.
- `gather_eq`, `gather_zero`: what the loop gathers.
-/
import Mathlib.Tactic
import AgentPick.Core.Dict

namespace AgentPick.Gather

variable {α κ : Type} [DecidableEq κ] (key : α → κ)

/-- the first element of each key that is not among those seen -/
def firstsFrom (seen : List κ) : List α → List α
  | [] => []
  | x :: xs => if key x ∈ seen then firstsFrom seen xs else x :: firstsFrom (key x :: seen) xs

/-- the first element of each key -/
def firsts (xs : List α) : List α := firstsFrom key [] xs

theorem mem_map_firstsFrom {seen : List κ} {xs : List α} {k : κ} :
    k ∈ (firstsFrom key seen xs).map key ↔ k ∉ seen ∧ k ∈ xs.map key := by
  induction xs generalizing seen with
  | nil => simp [firstsFrom]
  | cons x xs ih =>
    rw [firstsFrom]
    split_ifs with hx
    · rw [ih, List.map_cons, List.mem_cons]
      refine and_congr_right fun hk => ?_
      have hne : k ≠ key x := fun h => hk (h ▸ hx)
      exact (or_iff_right hne).symm
    · rw [List.map_cons, List.mem_cons, ih, List.map_cons, List.mem_cons, List.mem_cons, not_or]
      by_cases hk : k = key x
      · simp [hk, hx]
      · simp [hk]

theorem nodup_firstsFrom (seen : List κ) (xs : List α) : ((firstsFrom key seen xs).map key).Nodup := by
  induction xs generalizing seen with
  | nil => exact List.nodup_nil
  | cons x xs ih =>
    rw [firstsFrom]
    split_ifs with hx
    · exact ih seen
    · rw [List.map_cons, List.nodup_cons, mem_map_firstsFrom]
      exact ⟨fun h => h.1 (by simp), ih _⟩

theorem firstsFrom_prefix (seen : List κ) {xs ys : List α} (h : xs <+: ys) :
    firstsFrom key seen xs <+: firstsFrom key seen ys := by
  induction xs generalizing seen ys with
  | nil => exact List.nil_prefix
  | cons x xs ih =>
    obtain ⟨zs, rfl⟩ := h
    rw [List.cons_append, firstsFrom, firstsFrom]
    split_ifs with hx
    · exact ih seen (List.prefix_append _ _)
    · exact (List.prefix_cons_inj x).2 (ih _ (List.prefix_append _ _))

/-- a key's elements come after the first elements before its own -/
theorem firstsFrom_pairwise {R : α → α → Prop} (seen : List κ) {xs : List α} (h : xs.Pairwise R) :
    (firstsFrom key seen xs).Pairwise fun x x' => ∀ y ∈ xs, key y = key x' → R x y := by
  induction xs generalizing seen with
  | nil => exact List.Pairwise.nil
  | cons x xs ih =>
    obtain ⟨hx, hxs⟩ := List.pairwise_cons.1 h
    have hnew : ∀ {s : List κ} {x' : α}, x' ∈ firstsFrom key s xs → key x' ∉ s := fun hx' =>
      ((mem_map_firstsFrom key).1 (List.mem_map_of_mem hx')).1
    rw [firstsFrom]
    split_ifs with hseen
    · refine (ih seen hxs).imp_of_mem fun {a b} _ hb hab y hy hkey => ?_
      rcases List.mem_cons.1 hy with rfl | hy
      · exact absurd (hkey ▸ hseen) (hnew hb)
      · exact hab y hy hkey
    · refine List.pairwise_cons.2 ⟨fun b hb y hy hkey => ?_, ?_⟩
      · rcases List.mem_cons.1 hy with rfl | hy
        · exact absurd (hkey ▸ List.mem_cons_self) (hnew hb)
        · exact hx y hy
      · refine (ih (key x :: seen) hxs).imp_of_mem fun {a b} _ hb hab y hy hkey => ?_
        rcases List.mem_cons.1 hy with rfl | hy
        · exact absurd (hkey ▸ List.mem_cons_self) (hnew hb)
        · exact hab y hy hkey

theorem firsts_pairwise {R : α → α → Prop} {xs : List α} (h : xs.Pairwise R) :
    (firsts key xs).Pairwise fun x x' => ∀ y ∈ xs, key y = key x' → R x y := firstsFrom_pairwise key [] h

theorem mem_of_mem_firstsFrom {seen : List κ} {xs : List α} {x : α} (h : x ∈ firstsFrom key seen xs) : x ∈ xs := by
  induction xs generalizing seen with
  | nil => exact h
  | cons y xs ih =>
    rw [firstsFrom] at h
    split_ifs at h with hy
    · exact List.mem_cons_of_mem y (ih h)
    · rcases List.mem_cons.1 h with rfl | h
      · exact List.mem_cons_self
      · exact List.mem_cons_of_mem y (ih h)

theorem mem_map_firsts {xs : List α} {k : κ} : k ∈ (firsts key xs).map key ↔ k ∈ xs.map key := by
  simp [firsts, mem_map_firstsFrom]

theorem nodup_firsts (xs : List α) : ((firsts key xs).map key).Nodup := nodup_firstsFrom key [] xs

theorem firsts_prefix {xs ys : List α} (h : xs <+: ys) : firsts key xs <+: firsts key ys := firstsFrom_prefix key [] h

/-- **There is one for each key.** -/
theorem length_firsts (xs : List α) : (firsts key xs).length = (xs.map key).toFinset.card := by
  rw [← List.length_map key, ← List.toFinset_card_of_nodup (nodup_firsts key xs)]
  congr 1
  ext k
  rw [List.mem_toFinset, List.mem_toFinset, mem_map_firsts]

theorem firsts_eq_nil {xs : List α} : firsts key xs = [] ↔ xs = [] := by
  rw [← List.length_eq_zero_iff, length_firsts, Finset.card_eq_zero, List.toFinset_eq_empty_iff, List.map_eq_nil_iff]

theorem firstsFrom_congr {seen seen' : List κ} (h : ∀ k, k ∈ seen ↔ k ∈ seen') (xs : List α) :
    firstsFrom key seen xs = firstsFrom key seen' xs := by
  induction xs generalizing seen seen' with
  | nil => rfl
  | cons x xs ih =>
    have hcons : ∀ k, k ∈ key x :: seen ↔ k ∈ key x :: seen' := fun k => by rw [List.mem_cons, List.mem_cons, h]
    rw [firstsFrom, firstsFrom, ih h, ih hcons]
    exact if_congr (h _) rfl rfl

/-! ## Into a dictionary -/

/-- `if k not in d: d[k] = f(x)` -/
def addFirst {ν : Type} (f : α → ν) (d : Dict κ ν) (x : α) : Dict κ ν :=
  if key x ∈ d.keys then d else d.set (key x) (f x)

def collect {ν : Type} (f : α → ν) (xs : List α) : Dict κ ν := xs.foldl (addFirst key f) Dict.empty

theorem values_foldl_addFirst {ν : Type} (f : α → ν) (d : Dict κ ν) (xs : List α) :
    (xs.foldl (addFirst key f) d).values = d.values ++ (firstsFrom key d.keys xs).map f := by
  induction xs generalizing d with
  | nil => simp [firstsFrom]
  | cons x xs ih =>
    rw [List.foldl_cons, ih, firstsFrom, addFirst]
    split_ifs with hx
    · rfl
    · have hkeys : ∀ k, k ∈ (d.set (key x) (f x)).keys ↔ k ∈ key x :: d.keys := by
        intro k
        rw [Dict.keys_set, if_neg hx, List.mem_append, List.mem_singleton, List.mem_cons, or_comm]
      have hvalues : (d.set (key x) (f x)).values = d.values ++ [f x] := by
        rw [Dict.set, dif_neg hx, Dict.values, Dict.values, List.map_append]
        rfl
      rw [hvalues, firstsFrom_congr key hkeys, List.map_cons, List.append_assoc, List.singleton_append]

/-- **It holds the first element of each key**, in order. -/
theorem values_collect {ν : Type} (f : α → ν) (xs : List α) : (collect key f xs).values = (firsts key xs).map f :=
  values_foldl_addFirst key f Dict.empty xs

/-! ## The loop -/

/-- the loop, with the keys seen and the number of results so far -/
def gatherFrom (stop good : α → Bool) (limit : ℕ) (seen : List κ) (n : ℕ) : List α → List α
  | [] => []
  | x :: xs =>
    if stop x then []
    else if key x ∉ seen ∧ good x = true then
      if limit ≤ n + 1 then [x] else x :: gatherFrom stop good limit (key x :: seen) (n + 1) xs
    else if limit ≤ n then [] else gatherFrom stop good limit seen n xs

def gather (stop good : α → Bool) (limit : ℕ) (xs : List α) : List α := gatherFrom key stop good limit [] 0 xs

theorem gatherFrom_eq (stop good : α → Bool) {limit : ℕ} (seen : List κ) {n : ℕ} (hn : n < limit) (xs : List α) :
    gatherFrom key stop good limit seen n xs =
      (firstsFrom key seen ((xs.takeWhile fun x => !stop x).filter good)).take (limit - n) := by
  induction xs generalizing seen n with
  | nil => simp [gatherFrom, firstsFrom]
  | cons x xs ih =>
    rw [gatherFrom]
    split_ifs with hstop hnew henough hover
    · simp [hstop, firstsFrom]
    · -- the last result
      obtain rfl : limit = n + 1 := by omega
      simp [hstop, hnew.2, firstsFrom, hnew.1]
    · obtain ⟨k, rfl⟩ : ∃ k, limit = n + 1 + (k + 1) := ⟨limit - n - 2, by omega⟩
      rw [ih _ (by omega), List.takeWhile_cons_of_pos (by simp [hstop]), List.filter_cons_of_pos hnew.2, firstsFrom,
        if_neg hnew.1, show n + 1 + (k + 1) - n = k + 1 + 1 by omega, List.take_succ_cons,
        show n + 1 + (k + 1) - (n + 1) = k + 1 by omega]
    · omega
    · rw [ih seen hn, List.takeWhile_cons_of_pos (by simp [hstop])]
      by_cases hgood : good x = true
      · have hseen : key x ∈ seen := not_not.1 fun h => hnew ⟨h, hgood⟩
        rw [List.filter_cons_of_pos hgood, firstsFrom, if_pos hseen]
      · rw [List.filter_cons_of_neg hgood]

/-- **The loop gathers the first elements of each key, as many as it may**, of what qualifies before it stops. -/
theorem gather_eq (stop good : α → Bool) {limit : ℕ} (h : 1 ≤ limit) (xs : List α) :
    gather key stop good limit xs = (firsts key ((xs.takeWhile fun x => !stop x).filter good)).take limit := by
  rw [gather, gatherFrom_eq key stop good [] h, firsts, Nat.sub_zero]

/-- a limit of zero is looked at after the first element only -/
theorem gather_zero (stop good : α → Bool) (xs : List α) :
    gather key stop good 0 xs = (xs.head?.filter fun x => !stop x && good x).toList := by
  cases xs with
  | nil => rfl
  | cons x xs =>
    rw [gather, gatherFrom, if_pos (Nat.zero_le _)]
    cases hstop : stop x <;> cases hgood : good x <;> simp [hstop, hgood, Option.filter]

end AgentPick.Gather
