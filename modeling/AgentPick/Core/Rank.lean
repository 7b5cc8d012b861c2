/-
Ranking and picking champions. LIBRARY: nothing in this file names the pipeline.

`byDesc score l` is the stable sort by descending score (`sorted(..., reverse=True)`). `champions key pref l` walks a list
and keeps, per key, the element with the least preference, the earlier one on a tie; a key stands where its first element
stood, whoever is its champion.

- `mem_take_iff`: the first n of a list in a strict order are those with fewer than n before them.
- `byDesc_append`: a list whose second part scores lower is sorted part by part.
- `byDesc_take_best`: the first n of the sort score best.
- `byDesc_stable`: ties keep the order of the list.
- `byDesc_eq_of_perm`: without ties the sort depends on the elements only.
- `champion_spec`: the champion of a key is least for the preference, and comes before every other least one.
- `champions_pairwise`: the keys stand in the order of their first elements; `keys_champions_isPrefix`: more elements add keys at
  the end.
-/
import Mathlib.Tactic
import AgentPick.Core.Dict

namespace AgentPick

namespace Rank

variable {α β κ π : Type}

theorem rel_of_idxOf_lt [DecidableEq α] {R : α → α → Prop} {l : List α} (h : l.Pairwise R) {a b : α}
    (hb : b ∈ l) (hlt : l.idxOf a < l.idxOf b) : R a b := by
  have hb' := List.idxOf_lt_length_iff.2 hb
  have := List.pairwise_iff_getElem.1 h _ _ (hlt.trans hb') hb' hlt
  simpa using this

/-- in a list in a strict order, an element is among the first n iff fewer than n elements come before it -/
theorem mem_take_iff {R : α → α → Prop} [DecidableRel R] {l : List α} (h : l.Pairwise R)
    (hR : ∀ a ∈ l, ∀ b ∈ l, R a b → ¬R b a) {k : α} (hk : k ∈ l) (n : ℕ) :
    k ∈ l.take n ↔ l.countP (fun a => R a k) < n := by
  induction l generalizing n with
  | nil => cases hk
  | cons x l ih =>
    obtain ⟨hx, hl⟩ := List.pairwise_cons.1 h
    have hirr : ¬R x x := fun hxx => hR x (by simp) x (by simp) hxx hxx
    cases n with
    | zero => simp
    | succ n =>
      rw [List.take_succ_cons, List.mem_cons]
      rcases List.mem_cons.1 hk with rfl | hkl
      · -- nothing comes before the first element
        have hzero : (k :: l).countP (fun a => R a k) = 0 := by
          rw [List.countP_eq_zero]
          intro a ha
          rcases List.mem_cons.1 ha with rfl | hal
          · simpa using hirr
          · simpa using hR k (by simp) a (by simp [hal]) (hx a hal)
        simp [hzero]
      · have hne : k ≠ x := by
          rintro rfl
          exact hirr (hx k hkl)
        rw [List.countP_cons_of_pos (by simpa using hx k hkl), Nat.succ_lt_succ_iff, or_iff_right hne]
        exact ih hl (fun a ha b hb => hR a (by simp [ha]) b (by simp [hb])) hkl n

/-- a list is what stands at its positions -/
theorem map_getD_range (xs : List α) (d : α) : (List.range xs.length).map (fun i => xs.getD i d) = xs := by
  refine List.ext_getElem (by simp) fun i _ hi => ?_
  simp [List.getD_eq_getElem?_getD, List.getElem?_eq_getElem hi]

/-! ## Sorting -/

section Desc

variable [LinearOrder β] (score : α → β)

def byDesc (l : List α) : List α := l.insertionSort fun a b => score b ≤ score a

theorem byDesc_perm (l : List α) : (byDesc score l).Perm l := List.perm_insertionSort _ _

theorem byDesc_pairwise (l : List α) : (byDesc score l).Pairwise fun a b => score b ≤ score a := by
  have : Std.Total fun a b : α => score b ≤ score a := ⟨fun a b => le_total (score b) (score a)⟩
  have : IsTrans α fun a b : α => score b ≤ score a := ⟨fun _ _ _ h h' => h'.trans h⟩
  exact List.pairwise_insertionSort _ _

/-- inserting an element that stood before all of a sorted list -/
theorem orderedInsert_stable {R : α → α → Prop} {x : α} {l : List α} (hx : ∀ y ∈ l, R x y)
    (h : l.Pairwise fun a b => score b < score a ∨ score a = score b ∧ R a b) :
    (l.orderedInsert (fun a b => score b ≤ score a) x).Pairwise
      fun a b => score b < score a ∨ score a = score b ∧ R a b := by
  induction l with
  | nil => simp
  | cons b l ih =>
    obtain ⟨h1, h2⟩ := List.pairwise_cons.1 h
    rw [List.orderedInsert_cons]
    split_ifs with hb
    · -- x goes first: nothing after it scores more than b
      refine List.pairwise_cons.2 ⟨fun y hy => ?_, h⟩
      have hyb : score y ≤ score b := by
        rcases List.mem_cons.1 hy with rfl | hy
        · exact le_rfl
        · exact (h1 y hy).elim le_of_lt fun e => e.1.ge
      rcases (hyb.trans hb).lt_or_eq with hlt | heq
      · exact Or.inl hlt
      · exact Or.inr ⟨heq.symm, hx y hy⟩
    · refine List.pairwise_cons.2 ⟨fun y hy => ?_, ih (fun y hy => hx y (List.mem_cons_of_mem _ hy)) h2⟩
      rcases (List.mem_orderedInsert _).1 hy with rfl | hy
      · exact Or.inl (not_le.1 hb)
      · exact h1 y hy

/-- ties keep the order of the list -/
theorem byDesc_stable {R : α → α → Prop} {l : List α} (h : l.Pairwise R) :
    (byDesc score l).Pairwise fun a b => score b < score a ∨ score a = score b ∧ R a b := by
  induction l with
  | nil => exact List.Pairwise.nil
  | cons x l ih =>
    obtain ⟨h1, h2⟩ := List.pairwise_cons.1 h
    exact orderedInsert_stable score (fun y hy => h1 y ((byDesc_perm score l).subset hy)) (ih h2)

/-- without ties the sort depends on the elements only -/
theorem byDesc_eq_of_perm {l l' : List α} (h : l.Perm l') (hinj : ∀ a ∈ l, ∀ b ∈ l, score a = score b → a = b) :
    byDesc score l = byDesc score l' := by
  refine List.Perm.eq_of_pairwise ?_ (byDesc_pairwise score l) (byDesc_pairwise score l')
    (((byDesc_perm score l).trans h).trans (byDesc_perm score l').symm)
  intro a b ha hb hab hba
  exact hinj a ((byDesc_perm score l).subset ha) b (h.symm.subset ((byDesc_perm score l').subset hb)) (le_antisymm hba hab)

/-- an element goes before all that it scores as high as -/
theorem orderedInsert_append {x : α} {l l' : List α} (h : ∀ b ∈ l', score b ≤ score x) :
    (l ++ l').orderedInsert (fun a b => score b ≤ score a) x = l.orderedInsert (fun a b => score b ≤ score a) x ++ l' := by
  induction l with
  | nil =>
    cases l' with
    | nil => rfl
    | cons b l' => exact List.orderedInsert_cons_of_le _ l' (h b (by simp))
  | cons a l ih =>
    rw [List.cons_append, List.orderedInsert_cons, List.orderedInsert_cons]
    split_ifs
    · rfl
    · rw [ih, List.cons_append]

/-- a list whose second part scores lower is sorted part by part -/
theorem byDesc_append {l l' : List α} (h : ∀ a ∈ l, ∀ b ∈ l', score b ≤ score a) :
    byDesc score (l ++ l') = byDesc score l ++ byDesc score l' := by
  induction l with
  | nil => rfl
  | cons a l ih =>
    have ih := ih fun x hx => h x (List.mem_cons_of_mem a hx)
    have hl' : ∀ b ∈ byDesc score l', score b ≤ score a := by
      intro b hb
      exact h a (by simp) b ((byDesc_perm score l').subset hb)
    rw [byDesc] at ih
    rw [List.cons_append, byDesc, List.insertionSort_cons, ih, orderedInsert_append score hl']
    rfl

/-- what is not among the first n scores no more than what is -/
theorem byDesc_take_best {l : List α} {n : ℕ} {a b : α} (ha : a ∈ l) (hn : a ∉ (byDesc score l).take n)
    (hb : b ∈ (byDesc score l).take n) : score a ≤ score b := by
  have hsplit := byDesc_pairwise score l
  rw [← List.take_append_drop n (byDesc score l), List.pairwise_append] at hsplit
  have hmem : a ∈ (byDesc score l).take n ++ (byDesc score l).drop n := by
    rw [List.take_append_drop]
    exact (byDesc_perm score l).mem_iff.2 ha
  exact hsplit.2.2 b hb a ((List.mem_append.1 hmem).resolve_left hn)

end Desc

/-! ## Champions -/

section Champions

variable [DecidableEq κ] [LinearOrder π] (key : α → κ) (pref : α → π)

/-- `if cur is None or pref(x) < pref(cur): champions[key(x)] = x` -/
def champions (xs : List α) : Dict κ α :=
  xs.foldl (fun d x =>
    match d.get? (key x) with
    | none => d.set (key x) x
    | some cur => if pref x < pref cur then d.set (key x) x else d) Dict.empty

/-- the better of the champion so far and the next element -/
def better (old : Option α) (x : α) : α :=
  match old with
  | none => x
  | some cur => if pref x < pref cur then x else cur

/-- leaving the champion in place is assigning it again -/
theorem champions_eq_group (xs : List α) : champions key pref xs = Dict.group key (better pref) xs := by
  unfold champions Dict.group Dict.accumulate
  congr 1
  funext d x
  cases hd : d.get? (key x) with
  | none => rfl
  | some cur =>
    simp only [better]
    split_ifs
    · rfl
    · exact (Dict.set_of_get? hd).symm

theorem get?_champions (xs : List α) (k : κ) :
    (champions key pref xs).get? k = (xs.filter fun x => key x = k).argmin pref := by
  rw [champions_eq_group, Dict.get?_group, List.argmin]
  congr 1
  funext o x
  cases o with
  | none => rfl
  | some cur => exact apply_ite some (pref x < pref cur) x cur

/-- the champion of a key is least for the preference, and before every other one that is -/
theorem champion_spec {R : α → α → Prop} {xs : List α} (hR : xs.Pairwise R) {k : κ} {x : α}
    (h : (champions key pref xs).get? k = some x) :
    x ∈ xs ∧ key x = k ∧ ∀ y ∈ xs, key y = k → y ≠ x → pref x < pref y ∨ pref x = pref y ∧ R x y := by
  classical
  rw [get?_champions, List.argmin_eq_some_iff] at h
  obtain ⟨hx, hle, hfirst⟩ := h
  obtain ⟨hx, hk⟩ := List.mem_filter.1 hx
  refine ⟨hx, by simpa using hk, fun y hy hyk hne => ?_⟩
  have hyf : y ∈ xs.filter fun x => decide (key x = k) := List.mem_filter.2 ⟨hy, by simpa using hyk⟩
  rcases (hle y hyf).lt_or_eq with hlt | heq
  · exact Or.inl hlt
  refine Or.inr ⟨heq, ?_⟩
  have hidx := hfirst y hyf heq.ge
  refine rel_of_idxOf_lt (hR.filter _) hyf (lt_of_le_of_ne hidx fun e => ?_)
  exact hne ((List.idxOf_inj hyf).1 e.symm)

theorem mem_keys_champions (xs : List α) (k : κ) : k ∈ (champions key pref xs).keys ↔ ∃ x ∈ xs, key x = k := by
  rw [champions_eq_group, Dict.mem_keys_group]

/-- the keys stand in the order of their first elements -/
theorem champions_pairwise {R : α → α → Prop} {xs : List α} (h : xs.Pairwise R) :
    (champions key pref xs).keys.Pairwise fun k k' => ∀ x' ∈ xs, key x' = k' → ∃ x ∈ xs, key x = k ∧ R x x' := by
  rw [champions_eq_group]
  exact Dict.keys_group_pairwise key (better pref) h

/-- more elements add their keys at the end, whatever is preferred -/
theorem keys_champions_isPrefix (pref' : α → π) {xs ys : List α} (h : xs <+: ys) :
    (champions key pref xs).keys <+: (champions key pref' ys).keys := by
  rw [champions_eq_group, champions_eq_group]
  exact Dict.keys_group_isPrefix key _ _ h

end Champions

end Rank

end AgentPick
