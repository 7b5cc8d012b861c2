/-
The best groups of a list of scored elements, from its n best elements. LIBRARY: nothing in this file names the pipeline.

Elements have a key and a score. `Ranked` lists the keys that reach a threshold, by their best score. A search looks at the n best
elements only, stops at the threshold and gathers the first of each key, up to a limit.

- `ranked_unique`, `ranked_firsts`: there is one such list of keys; it is what the sorted elements show first.
- `take_eq_take_iff`: when a prefix has the same first elements.
- `search_eq_iff`: the search finds the best keys iff enough keys stand among the n best elements.
-/
import Mathlib.Tactic
import AgentPick.Core.Gather
import AgentPick.Core.Rank

namespace AgentPick.Overfetch

open AgentPick.Gather

/-- a prefix has the same first n elements iff it has as many of them -/
theorem take_eq_take_iff {α : Type} {xs ys : List α} (h : xs <+: ys) (n : ℕ) :
    xs.take n = ys.take n ↔ min n ys.length ≤ xs.length := by
  have hlength : xs.length ≤ ys.length := h.length_le
  obtain ⟨zs, rfl⟩ := h
  refine ⟨fun heq => ?_, fun hmin => ?_⟩
  · have := congrArg List.length heq
    simp only [List.length_take] at this
    omega
  · rcases le_total n xs.length with hn | hn
    · rw [List.take_append_of_le_length hn]
    · have hzs : zs = [] ∨ n = xs.length := by
        rw [List.length_append] at hmin
        rcases Nat.eq_zero_or_pos zs.length with hz | hz
        · exact Or.inl (List.length_eq_zero_iff.1 hz)
        · exact Or.inr (by omega)
      rcases hzs with rfl | rfl
      · rw [List.append_nil]
      · rw [List.take_append_of_le_length le_rfl]

variable {α κ β : Type} [DecidableEq κ] [LinearOrder β] (key : α → κ) (score : α → β)

/-- the elements that reach the threshold -/
def reaching (t : β) (xs : List α) : List α := xs.filter fun x => t ≤ score x

/-- those of them with fewer than n elements above -/
def within (n : ℕ) (t : β) (xs : List α) : List α :=
  xs.filter fun x => t ≤ score x ∧ xs.countP (fun y => score x < score y) < n

/-- how many keys they have -/
def keyCount (xs : List α) : ℕ := (xs.map key).toFinset.card

/-- the keys that reach the threshold, by their best score -/
structure Ranked (t : β) (xs : List α) (keys : List κ) : Prop where
  nodup : keys.Nodup
  mem : ∀ k, k ∈ keys ↔ ∃ x ∈ xs, key x = k ∧ t ≤ score x
  desc : keys.Pairwise fun k k' => ∃ x ∈ xs, key x = k ∧ ∀ x' ∈ xs, key x' = k' → score x' < score x

/-- the loop over the n best elements -/
def search (n limit : ℕ) (t : β) (xs : List α) : List α :=
  gather key (fun x => decide (score x < t)) (fun _ => true) limit ((Rank.byDesc score xs).take n)

variable {key score}

omit [DecidableEq κ] in
theorem ranked_unique {t : β} {xs : List α} {keys keys' : List κ} (h : Ranked key score t xs keys)
    (h' : Ranked key score t xs keys') : keys = keys' := by
  have hmem : ∀ k, k ∈ keys ↔ k ∈ keys' := fun k => (h.mem k).trans (h'.mem k).symm
  refine List.Perm.eq_of_pairwise ?_ h.desc h'.desc ((List.perm_ext_iff_of_nodup h.nodup h'.nodup).2 hmem)
  intro k k' _ _ hkk hkk'
  obtain ⟨x, hx, hxk, hbest⟩ := hkk
  obtain ⟨x', hx', hxk', hbest'⟩ := hkk'
  exact absurd (hbest x' hx' hxk') (hbest' x hx hxk).asymm

/-! ## The sorted elements -/

section Sorted

variable {xs : List α} (hdistinct : (xs.map score).Nodup) (t : β)

include hdistinct in
theorem byDesc_strict : (Rank.byDesc score xs).Pairwise fun a b => score b < score a := by
  have hnodup : ((Rank.byDesc score xs).map score).Nodup := ((Rank.byDesc_perm score xs).map score).nodup_iff.2 hdistinct
  have hne : (Rank.byDesc score xs).Pairwise fun a b => score a ≠ score b := List.pairwise_map.1 hnodup
  refine (Rank.byDesc_pairwise score xs).imp₂ (fun a b hle hne => ?_) hne
  exact lt_of_le_of_ne hle (Ne.symm hne)

/-- below the threshold all is below it -/
theorem takeWhile_byDesc :
    (Rank.byDesc score xs).takeWhile (fun x => !decide (score x < t)) = reaching score t (Rank.byDesc score xs) := by
  have hsorted := Rank.byDesc_pairwise score xs
  generalize Rank.byDesc score xs = ys at hsorted
  unfold reaching
  induction ys with
  | nil => rfl
  | cons y ys ih =>
    obtain ⟨hy, hys⟩ := List.pairwise_cons.1 hsorted
    by_cases ht : t ≤ score y
    · rw [List.takeWhile_cons_of_pos (by simpa using ht), List.filter_cons_of_pos (by simpa using ht), ih hys]
    · have hnone : ys.filter (fun x => decide (t ≤ score x)) = [] := by
        rw [List.filter_eq_nil_iff]
        intro x hx
        rw [decide_eq_true_eq]
        exact fun htx => ht (htx.trans (hy x hx))
      rw [List.takeWhile_cons_of_neg (by simpa using ht), List.filter_cons_of_neg (by simpa using ht), hnone]

theorem mem_reaching_byDesc {x : α} : x ∈ reaching score t (Rank.byDesc score xs) ↔ x ∈ xs ∧ t ≤ score x := by
  rw [reaching, List.mem_filter, decide_eq_true_eq, (Rank.byDesc_perm score xs).mem_iff]

include hdistinct in
/-- **The best keys are those that the sorted elements show first.** -/
theorem ranked_firsts :
    Ranked key score t xs ((firsts key (reaching score t (Rank.byDesc score xs))).map key) where
  nodup := nodup_firsts key _
  mem k := by
    rw [mem_map_firsts, List.mem_map]
    simp only [mem_reaching_byDesc]
    exact ⟨fun ⟨x, ⟨hx, ht⟩, hk⟩ => ⟨x, hx, hk, ht⟩, fun ⟨x, hx, hk, ht⟩ => ⟨x, ⟨hx, ht⟩, hk⟩⟩
  desc := by
    have hstrict : (reaching score t (Rank.byDesc score xs)).Pairwise fun a b => score b < score a :=
      (byDesc_strict hdistinct).filter _
    rw [List.pairwise_map]
    refine (firsts_pairwise key hstrict).imp_of_mem fun {a b} ha _ hab => ?_
    obtain ⟨hax, hat⟩ := (mem_reaching_byDesc t).1 (mem_of_mem_firstsFrom key ha)
    refine ⟨a, hax, rfl, fun x' hx' hkey => ?_⟩
    rcases le_or_gt t (score x') with ht | ht
    · exact hab x' ((mem_reaching_byDesc t).2 ⟨hx', ht⟩) hkey
    · exact ht.trans_le hat

/-- what stands above an element that reaches the threshold reaches it -/
theorem countP_reaching {x : α} (hx : t ≤ score x) :
    (reaching score t (Rank.byDesc score xs)).countP (fun y => score x < score y) =
      xs.countP fun y => score x < score y := by
  rw [reaching, List.countP_filter, ← (Rank.byDesc_perm score xs).countP_eq]
  refine List.countP_congr fun y _ => ?_
  simp only [Bool.and_eq_true, decide_eq_true_eq]
  exact ⟨And.left, fun h => ⟨h, hx.trans h.le⟩⟩

include hdistinct in
/-- the n best elements, so far as they reach the threshold -/
theorem mem_take_reaching {n : ℕ} {x : α} :
    x ∈ (reaching score t (Rank.byDesc score xs)).take n ↔ x ∈ within score n t xs := by
  have hstrict : (reaching score t (Rank.byDesc score xs)).Pairwise fun a b => score b < score a :=
    (byDesc_strict hdistinct).filter _
  rw [within, List.mem_filter, decide_eq_true_eq]
  refine ⟨fun h => ?_, fun ⟨hx, ht, hcount⟩ => ?_⟩
  · have hmem := List.mem_of_mem_take h
    obtain ⟨hx, ht⟩ := (mem_reaching_byDesc t).1 hmem
    rw [Rank.mem_take_iff hstrict (fun a _ b _ hab => hab.asymm) hmem, countP_reaching t ht] at h
    exact ⟨hx, ht, h⟩
  · rw [Rank.mem_take_iff hstrict (fun a _ b _ hab => hab.asymm) ((mem_reaching_byDesc t).2 ⟨hx, ht⟩),
      countP_reaching t ht]
    exact hcount

include hdistinct in
/-- **The search finds the best keys iff enough keys stand among the n best elements.** -/
theorem search_eq_iff (n : ℕ) {limit : ℕ} (hlimit : 1 ≤ limit) :
    (∃ keys, Ranked key score t xs keys ∧ (search key score n limit t xs).map key = keys.take limit) ↔
      min limit (keyCount key (reaching score t xs)) ≤ keyCount key (within score n t xs) := by
  set sorted := reaching score t (Rank.byDesc score xs) with hsorted
  have hsearch : search key score n limit t xs = (firsts key (sorted.take n)).take limit := by
    rw [search, gather_eq _ _ _ hlimit, ← List.take_takeWhile, takeWhile_byDesc, ← hsorted, List.filter_true]
  have hall : (firsts key sorted).length = keyCount key (reaching score t xs) := by
    rw [length_firsts, keyCount]
    congr 1
    exact List.toFinset_eq_of_perm _ _ (((Rank.byDesc_perm score xs).filter _).map key)
  have hsome : (firsts key (sorted.take n)).length = keyCount key (within score n t xs) := by
    rw [length_firsts, keyCount]
    congr 1
    ext k
    simp only [List.mem_toFinset, List.mem_map, hsorted, mem_take_reaching hdistinct t]
  have hfirst : firsts key (sorted.take n) <+: firsts key sorted := firsts_prefix key (List.take_prefix n sorted)
  have hkeys : (firsts key (sorted.take n)).map key <+: (firsts key sorted).map key := hfirst.map key
  have hranked : Ranked key score t xs ((firsts key sorted).map key) := ranked_firsts hdistinct t
  have htake := take_eq_take_iff hkeys limit
  rw [List.length_map, List.length_map, hall, hsome] at htake
  rw [← htake, hsearch, List.map_take]
  refine ⟨fun ⟨keys, hbest, heq⟩ => ?_, fun heq => ⟨_, hranked, heq⟩⟩
  rw [heq, ranked_unique hbest hranked]

end Sorted

end AgentPick.Overfetch
