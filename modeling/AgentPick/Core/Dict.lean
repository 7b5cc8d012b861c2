/-
Insertion-ordered dictionaries (the `dict` of the language the pipeline is written in). LIBRARY: nothing in this file
names the pipeline.

A `Dict` is an association list that carries the proof that its keys are distinct. Assigning to a key that is present
keeps the key's position; assigning to a new key appends it; deleting removes the key.

- `get?_set`, `keys_set`, `get?_modify`, `keys_modify`, `get?_filterKeys`, `keys_filterKeys`: what one operation does to lookup
  and to the order of the keys.
- `get?_mapValues`: lookup after a change of the values.
- `get?_foldl_setSome`: lookup after a pass that assigns some of several new keys.
- `get?_foldl_modify`: a pass over the dictionary that modifies each key at most once.
- `ext_get?`: a dictionary is determined by its key order and its lookup function.
- `accumulate`: the loop `for x in xs: d[key(x)] = f(d.get(key(x)), x)`, and `group`, the loop from the empty dictionary.
  `get?_accumulate` gives the value of a key as a fold over the elements of that key alone, `accumulate_of_fixed` says
  when the loop changes nothing, `mem_keys_group` gives the keys, `keys_group_idxOf` and `keys_group_pairwise` their
  order: what holds of every element of `xs` and a later one also holds of a key (through its first element) and a later
  key. `keys_group_isPrefix`: more elements add keys at the end.
- `entries_isPrefix`: a dictionary that keeps keys and values begins with the old entries.
-/
import Mathlib.Tactic

namespace AgentPick

/-- an insertion-ordered dictionary: entries in order of first assignment, keys distinct -/
@[ext]
structure Dict (κ ν : Type) where
  entries : List (κ × ν)
  nodup : (entries.map Prod.fst).Nodup
deriving DecidableEq, Repr

namespace Dict

variable {κ ν α : Type}

def empty : Dict κ ν := ⟨[], List.nodup_nil⟩

def keys (d : Dict κ ν) : List κ := d.entries.map Prod.fst

def values (d : Dict κ ν) : List ν := d.entries.map Prod.snd

@[simp] theorem keys_empty : (empty : Dict κ ν).keys = [] := rfl

theorem nodup_keys (d : Dict κ ν) : d.keys.Nodup := d.nodup

theorem mem_keys {d : Dict κ ν} {k : κ} : k ∈ d.keys ↔ ∃ v, (k, v) ∈ d.entries := by
  simp [keys]

/-- keep the entries whose key satisfies p -/
def filterKeys (p : κ → Bool) (d : Dict κ ν) : Dict κ ν :=
  ⟨d.entries.filter fun e => p e.1, d.nodup.sublist ((List.filter_sublist).map _)⟩

theorem keys_filterKeys (p : κ → Bool) (d : Dict κ ν) : (d.filterKeys p).keys = d.keys.filter p := by
  simp [keys, filterKeys, List.filter_map, Function.comp_def]

theorem filterKeys_filterKeys (p q : κ → Bool) (d : Dict κ ν) :
    (d.filterKeys p).filterKeys q = d.filterKeys fun k => p k && q k := by
  refine Dict.ext ?_
  simp [filterKeys, List.filter_filter, Bool.and_comm]

theorem filterKeys_congr {p q : κ → Bool} {d : Dict κ ν} (h : ∀ k ∈ d.keys, p k = q k) :
    d.filterKeys p = d.filterKeys q :=
  Dict.ext (List.filter_congr fun e he => h e.1 (List.mem_map_of_mem he))

theorem filterKeys_of_forall {p : κ → Bool} {d : Dict κ ν} (h : ∀ k ∈ d.keys, p k = true) : d.filterKeys p = d :=
  Dict.ext (List.filter_eq_self.2 fun e he => h e.1 (List.mem_map_of_mem he))

/-- `{k: f(k, v) for k, v in d.items()}` -/
def mapValues {μ : Type} (f : κ → ν → μ) (d : Dict κ ν) : Dict κ μ :=
  ⟨d.entries.map fun e => (e.1, f e.1 e.2), by simpa [List.map_map, Function.comp_def] using d.nodup⟩

section Lookup

variable [DecidableEq κ]

def get? (d : Dict κ ν) (k : κ) : Option ν := (d.entries.find? fun e => e.1 = k).map Prod.snd

/-- replacing values in place keeps the keys -/
theorem map_fst_replace (l : List (κ × ν)) (k : κ) (v : ν) :
    (l.map fun e => if e.1 = k then (k, v) else e).map Prod.fst = l.map Prod.fst := by
  rw [List.map_map]
  apply List.map_congr_left
  intro e _
  by_cases h : e.1 = k <;> simp [h]

/-- `d[k] = v` -/
def set (d : Dict κ ν) (k : κ) (v : ν) : Dict κ ν :=
  if h : k ∈ d.keys then ⟨d.entries.map fun e => if e.1 = k then (k, v) else e, by rw [map_fst_replace]; exact d.nodup⟩
  else ⟨d.entries ++ [(k, v)], by
    rw [List.map_append, List.nodup_append]
    exact ⟨d.nodup, by simp, by rintro a ha b hb rfl; simp at hb; subst hb; exact h ha⟩⟩

/-- apply f to the value of k, if k is present -/
def modify (d : Dict κ ν) (k : κ) (f : ν → ν) : Dict κ ν :=
  match d.get? k with
  | none => d
  | some v => d.set k (f v)

/-- `del d[k]` -/
def erase (d : Dict κ ν) (k : κ) : Dict κ ν := d.filterKeys fun k' => k' ≠ k

theorem get?_eq_some {d : Dict κ ν} {k : κ} {v : ν} : d.get? k = some v ↔ (k, v) ∈ d.entries := by
  refine ⟨?_, ?_⟩
  · intro h
    obtain ⟨e, he, rfl⟩ := Option.map_eq_some_iff.1 h
    have hk : e.1 = k := by simpa using List.find?_some he
    rw [← hk]; exact List.mem_of_find?_eq_some he
  · intro h
    obtain ⟨e, he⟩ : ∃ e, d.entries.find? (fun e => e.1 = k) = some e := by
      cases hf : d.entries.find? (fun e => e.1 = k) with
      | some e => exact ⟨e, rfl⟩
      | none => rw [List.find?_eq_none] at hf; exact absurd (by simp) (hf _ h)
    have hk : e.1 = k := by simpa using List.find?_some he
    -- distinct keys: the entry found is the entry given
    have : e = (k, v) := List.inj_on_of_nodup_map d.nodup (List.mem_of_find?_eq_some he) h hk
    simp [get?, he, this]

theorem get?_eq_none {d : Dict κ ν} {k : κ} : d.get? k = none ↔ k ∉ d.keys := by
  rw [mem_keys, not_exists, Option.eq_none_iff_forall_ne_some]
  exact forall_congr' fun v => not_congr get?_eq_some

theorem get?_isSome {d : Dict κ ν} {k : κ} : (d.get? k).isSome ↔ k ∈ d.keys := by
  rw [← not_iff_not, Bool.not_eq_true, Option.isSome_eq_false_iff, Option.isNone_iff_eq_none, get?_eq_none]

@[simp] theorem get?_empty (k : κ) : (empty : Dict κ ν).get? k = none := rfl

theorem keys_set (d : Dict κ ν) (k : κ) (v : ν) :
    (d.set k v).keys = if k ∈ d.keys then d.keys else d.keys ++ [k] := by
  unfold set
  split_ifs with h
  · exact map_fst_replace _ _ _
  · simp [keys]

theorem get?_set (d : Dict κ ν) (k k' : κ) (v : ν) :
    (d.set k v).get? k' = if k' = k then some v else d.get? k' := by
  ext w
  rw [get?_eq_some]
  unfold set
  split_ifs with h hk hk <;> try subst hk
  · obtain ⟨v0, h0⟩ := mem_keys.1 h
    simp only [List.mem_map, Option.some.injEq]
    refine ⟨?_, ?_⟩
    · rintro ⟨e, -, he⟩
      split_ifs at he with h1
      · exact (Prod.ext_iff.1 he).2
      · subst he; exact absurd rfl h1
    · rintro rfl; exact ⟨_, h0, by simp⟩
  · rw [get?_eq_some]
    simp only [List.mem_map]
    refine ⟨?_, ?_⟩
    · rintro ⟨e, he, hw⟩
      split_ifs at hw with h1
      · exact absurd (Prod.ext_iff.1 hw).1.symm hk
      · subst hw; exact he
    · intro hm; exact ⟨_, hm, by simp [hk]⟩
  · have hn : ∀ w, (k', w) ∉ d.entries := fun w hw => h (mem_keys.2 ⟨w, hw⟩)
    simp [hn, eq_comm]
  · rw [get?_eq_some]; simp [hk]

/-- `d[k] = v`, if there is a v -/
def setSome (d : Dict κ ν) (k : κ) : Option ν → Dict κ ν
  | none => d
  | some v => d.set k v

theorem get?_setSome (d : Dict κ ν) (k k' : κ) (o : Option ν) :
    (d.setSome k o).get? k' = if k' = k then o.or (d.get? k') else d.get? k' := by
  cases o with
  | none => simp [setSome]
  | some v => simp [setSome, get?_set]

/-- assigning new keys, each at most once, where there is a value -/
theorem get?_foldl_setSome {es : List (κ × Option ν)} (hn : (es.map Prod.fst).Nodup) {d : Dict κ ν}
    (hd : ∀ e ∈ es, d.get? e.1 = none) {k : κ} {v : ν} :
    (es.foldl (fun d e => d.setSome e.1 e.2) d).get? k = some v ↔ d.get? k = some v ∨ (k, some v) ∈ es := by
  induction es generalizing d with
  | nil => simp
  | cons e es ih =>
    rw [List.map_cons, List.nodup_cons] at hn
    obtain ⟨hfresh, hn⟩ := hn
    obtain ⟨hde, hdes⟩ := List.forall_mem_cons.1 hd
    have hrest : ∀ e' ∈ es, (d.setSome e.1 e.2).get? e'.1 = none := by
      intro e' he'
      have hne : e'.1 ≠ e.1 := by
        intro heq
        exact hfresh (heq ▸ List.mem_map_of_mem he')
      rw [get?_setSome, if_neg hne, hdes e' he']
    rw [List.foldl_cons, ih hn hrest, get?_setSome, List.mem_cons]
    split_ifs with hk
    · subst hk
      simp [hde, Prod.ext_iff, eq_comm]
    · simp [Prod.ext_iff, hk]

theorem keys_modify (d : Dict κ ν) (k : κ) (f : ν → ν) : (d.modify k f).keys = d.keys := by
  unfold modify
  split
  · rfl
  · rename_i v hv
    rw [keys_set, if_pos (get?_isSome.1 (by rw [hv]; rfl))]

theorem get?_modify (d : Dict κ ν) (k k' : κ) (f : ν → ν) :
    (d.modify k f).get? k' = if k' = k then (d.get? k').map f else d.get? k' := by
  unfold modify
  split
  · rename_i hn
    split_ifs with h
    · rw [h, hn]; rfl
    · rfl
  · rename_i v hv
    rw [get?_set]
    split_ifs with h
    · rw [h, hv]; rfl
    · rfl

theorem get?_filterKeys (p : κ → Bool) (d : Dict κ ν) (k : κ) :
    (d.filterKeys p).get? k = if p k then d.get? k else none := by
  ext v
  rw [get?_eq_some]
  split_ifs with h
  · rw [get?_eq_some]
    simp [filterKeys, h]
  · simp [filterKeys, h]

/-- a pass that modifies keys leaves the other keys alone -/
theorem get?_foldl_modify_of_notMem {β : Type} (g : β → ν → ν) (ps : List (κ × β)) (d : Dict κ ν) {k : κ}
    (hk : k ∉ ps.map Prod.fst) : (ps.foldl (fun d p => d.modify p.1 (g p.2)) d).get? k = d.get? k := by
  induction ps generalizing d with
  | nil => rfl
  | cons p ps ih =>
    rw [List.map_cons, List.mem_cons, not_or] at hk
    rw [List.foldl_cons, ih _ hk.2, get?_modify, if_neg hk.1]

/-- a pass that modifies each key at most once -/
theorem get?_foldl_modify {β : Type} (g : β → ν → ν) {ps : List (κ × β)} (hn : (ps.map Prod.fst).Nodup)
    (d : Dict κ ν) {p : κ × β} (hp : p ∈ ps) :
    (ps.foldl (fun d p => d.modify p.1 (g p.2)) d).get? p.1 = (d.get? p.1).map (g p.2) := by
  induction ps generalizing d with
  | nil => simp at hp
  | cons q ps ih =>
    obtain ⟨h1, h2⟩ := List.nodup_cons.1 (by simpa using hn : (q.1 :: ps.map Prod.fst).Nodup)
    rw [List.foldl_cons]
    rcases List.mem_cons.1 hp with rfl | hp
    · rw [get?_foldl_modify_of_notMem g ps _ h1, get?_modify, if_pos rfl]
    · have hne : p.1 ≠ q.1 := fun e => h1 (e ▸ List.mem_map_of_mem hp)
      rw [ih h2 _ hp, get?_modify, if_neg hne]

/-- two dictionaries with the same key order and the same lookup are equal -/
theorem ext_get? {d d' : Dict κ ν} (hk : d.keys = d'.keys) (hg : ∀ k, d.get? k = d'.get? k) : d = d' := by
  have key : ∀ e : Dict κ ν, e.entries.map (fun x => (x.1, e.get? x.1)) = e.entries.map fun x => (x.1, some x.2) :=
    fun e => List.map_congr_left fun x hx => by rw [get?_eq_some.2 (show (x.1, x.2) ∈ e.entries from hx)]
  have h1 : ∀ e : Dict κ ν, e.entries.map (fun x => (x.1, some x.2)) = e.keys.map fun k => (k, e.get? k) :=
    fun e => by rw [← key e, keys, List.map_map]; rfl
  have h2 : d.entries.map (fun x => (x.1, some x.2)) = d'.entries.map fun x => (x.1, some x.2) := by
    rw [h1, h1, hk]; exact List.map_congr_left fun k _ => by rw [hg]
  refine Dict.ext (List.map_injective_iff.2 ?_ h2)
  rintro ⟨a, b⟩ ⟨a', b'⟩ h
  simpa using h

/-- modifying a value to itself changes nothing -/
theorem modify_of_fixed {d : Dict κ ν} {k : κ} {f : ν → ν} (h : ∀ v, d.get? k = some v → f v = v) :
    d.modify k f = d := by
  refine ext_get? (keys_modify d k f) ?_
  intro k'
  rw [get?_modify]
  split_ifs with hk
  · subst hk
    cases hv : d.get? k' with
    | none => rfl
    | some v => rw [Option.map_some, h v hv]
  · rfl

/-- assigning the value a key already has changes nothing -/
theorem set_of_get? {d : Dict κ ν} {k : κ} {v : ν} (h : d.get? k = some v) : d.set k v = d := by
  refine ext_get? ?_ fun k' => ?_
  · rw [keys_set, if_pos (get?_isSome.1 (by rw [h]; rfl))]
  · rw [get?_set]
    split_ifs with hk
    · rw [hk, h]
    · rfl

theorem get?_mapValues {μ : Type} (f : κ → ν → μ) (d : Dict κ ν) (k : κ) :
    (d.mapValues f).get? k = (d.get? k).map (f k) := by
  ext w
  rw [get?_eq_some, Option.map_eq_some_iff]
  simp only [mapValues, List.mem_map, Prod.mk.injEq]
  refine ⟨?_, ?_⟩
  · rintro ⟨e, he, rfl, rfl⟩
    exact ⟨e.2, get?_eq_some.2 he, rfl⟩
  · rintro ⟨v, hv, rfl⟩
    exact ⟨(k, v), get?_eq_some.1 hv, rfl, rfl⟩

/-! ## Accumulation loops -/

/-- `for x in xs: d[key(x)] = f(d.get(key(x)), x)` -/
def accumulate (key : α → κ) (f : Option ν → α → ν) (d : Dict κ ν) (xs : List α) : Dict κ ν :=
  xs.foldl (fun d x => d.set (key x) (f (d.get? (key x)) x)) d

/-- the loop from the empty dictionary -/
def group (key : α → κ) (f : Option ν → α → ν) (xs : List α) : Dict κ ν := accumulate key f empty xs

variable (key : α → κ) (f : Option ν → α → ν)

theorem accumulate_append (d : Dict κ ν) (xs ys : List α) :
    accumulate key f d (xs ++ ys) = accumulate key f (accumulate key f d xs) ys := List.foldl_append

theorem accumulate_snoc (d : Dict κ ν) (xs : List α) (x : α) :
    accumulate key f d (xs ++ [x]) =
      (accumulate key f d xs).set (key x) (f ((accumulate key f d xs).get? (key x)) x) := by
  simp [accumulate, List.foldl_append]

/-- a key's value is the fold over the elements of that key, in order, from the value it had -/
theorem get?_accumulate (d : Dict κ ν) (xs : List α) (k : κ) :
    (accumulate key f d xs).get? k = (xs.filter fun x => key x = k).foldl (fun o x => some (f o x)) (d.get? k) := by
  induction xs using List.reverseRecOn with
  | nil => rfl
  | append_singleton xs x ih =>
    rw [accumulate_snoc, get?_set, List.filter_append, List.foldl_append]
    by_cases h : k = key x
    · subst h; simp [ih]
    · simp [h, Ne.symm h, ih]

/-- a loop that reassigns every value it meets changes nothing -/
theorem accumulate_of_fixed {d : Dict κ ν} {xs : List α}
    (h : ∀ x ∈ xs, d.get? (key x) = some (f (d.get? (key x)) x)) : accumulate key f d xs = d := by
  induction xs with
  | nil => rfl
  | cons x xs ih =>
    have hx : d.set (key x) (f (d.get? (key x)) x) = d := set_of_get? (h x List.mem_cons_self)
    rw [accumulate, List.foldl_cons, hx]
    exact ih fun y hy => h y (List.mem_cons_of_mem x hy)

theorem filter_key_eq_nil {xs : List α} {k : κ} (hk : k ∉ xs.map key) : (xs.filter fun y => key y = k) = [] :=
  List.filter_eq_nil_iff.2 fun y hy => by
    simp only [decide_eq_true_eq]
    rintro rfl
    exact hk (List.mem_map_of_mem hy)

theorem get?_accumulate_of_notMem (d : Dict κ ν) {xs : List α} {k : κ} (hk : k ∉ xs.map key) :
    (accumulate key f d xs).get? k = d.get? k := by
  rw [get?_accumulate, filter_key_eq_nil key hk]
  rfl

/-- over distinct keys each value is made from the value the key had before the loop -/
theorem get?_accumulate_of_mem {xs : List α} (hn : (xs.map key).Nodup) (d : Dict κ ν) {x : α} (hx : x ∈ xs) :
    (accumulate key f d xs).get? (key x) = some (f (d.get? (key x)) x) := by
  obtain ⟨l, l', rfl⟩ := List.append_of_mem hx
  rw [List.map_append, List.map_cons, List.nodup_middle, List.nodup_cons, List.mem_append, not_or] at hn
  rw [get?_accumulate, List.filter_append, List.filter_cons_of_pos (by simp), filter_key_eq_nil key hn.1.1,
    filter_key_eq_nil key hn.1.2]
  rfl

theorem group_snoc (xs : List α) (x : α) :
    group key f (xs ++ [x]) = (group key f xs).set (key x) (f ((group key f xs).get? (key x)) x) :=
  accumulate_snoc key f empty xs x

theorem get?_group (xs : List α) (k : κ) :
    (group key f xs).get? k = (xs.filter fun x => key x = k).foldl (fun o x => some (f o x)) none :=
  get?_accumulate key f empty xs k

/-- a value of a comprehension `{key(x): g(x) for x in xs}` is that of an element of its key -/
theorem of_get?_group {g : α → ν} {xs : List α} {k : κ} {v : ν} (h : (group key (fun _ x => g x) xs).get? k = some v) :
    ∃ x ∈ xs, key x = k ∧ g x = v := by
  induction xs using List.reverseRecOn with
  | nil => cases h
  | append_singleton xs x ih =>
    rw [group_snoc, get?_set] at h
    split_ifs at h with hk
    · exact ⟨x, by simp, hk.symm, Option.some.inj h⟩
    · obtain ⟨y, hy, hyk, hv⟩ := ih h
      exact ⟨y, by simp [hy], hyk, hv⟩

theorem mem_keys_group (xs : List α) (k : κ) : k ∈ (group key f xs).keys ↔ ∃ x ∈ xs, key x = k := by
  rw [← List.mem_map]
  induction xs using List.reverseRecOn generalizing k with
  | nil => simp [group, accumulate]
  | append_singleton xs x ih =>
    rw [group_snoc, keys_set]
    split_ifs with h
    · rw [ih] at h ⊢
      rw [List.map_append, List.mem_append, List.map_singleton, List.mem_singleton]
      exact ⟨Or.inl, fun hk => hk.elim id fun e => e ▸ h⟩
    · simp [ih]

/-- keys stand in order of first occurrence -/
theorem keys_group_idxOf [BEq κ] [LawfulBEq κ] (xs : List α) :
    (group key f xs).keys.Pairwise fun k k' => (xs.map key).idxOf k < (xs.map key).idxOf k' := by
  induction xs using List.reverseRecOn with
  | nil => simp [group, accumulate]
  | append_singleton xs x ih =>
    have hmem : ∀ k ∈ (group key f xs).keys, k ∈ xs.map key := fun k hk =>
      List.mem_map.2 ((mem_keys_group key f xs k).1 hk)
    have hold : (group key f xs).keys.Pairwise
        fun k k' => ((xs ++ [x]).map key).idxOf k < ((xs ++ [x]).map key).idxOf k' := by
      refine ih.imp_of_mem fun {k k'} hk hk' hlt => ?_
      rw [List.map_append, List.idxOf_append_of_mem (hmem k hk), List.idxOf_append_of_mem (hmem k' hk')]
      exact hlt
    rw [group_snoc, keys_set]
    split_ifs with hx
    · exact hold
    · refine List.pairwise_append.2 ⟨hold, List.pairwise_singleton _ _, fun k hk k' hk' => ?_⟩
      rw [List.mem_singleton.1 hk']
      have hnew : key x ∉ xs.map key := fun h => hx ((mem_keys_group key f xs _).2 (List.mem_map.1 h))
      rw [List.map_append, List.idxOf_append_of_mem (hmem k hk), List.idxOf_append_of_notMem hnew]
      exact (List.idxOf_lt_length_iff.2 (hmem k hk)).trans_le (Nat.le_add_right _ _)

/-- keys stand in order of first occurrence: if R holds of every element and a later one, every key's first element is
R-before every element of a later key -/
theorem keys_group_pairwise {R : α → α → Prop} {xs : List α} (h : xs.Pairwise R) :
    (group key f xs).keys.Pairwise fun k k' => ∀ x' ∈ xs, key x' = k' → ∃ x ∈ xs, key x = k ∧ R x x' := by
  induction xs using List.reverseRecOn with
  | nil => simp [group, accumulate]
  | append_singleton xs x ih =>
    obtain ⟨h1, -, h2⟩ := List.pairwise_append.1 h
    have hx : ∀ y ∈ xs, R y x := fun y hy => h2 y hy x (by simp)
    have hold : (group key f xs).keys.Pairwise
        fun k k' => ∀ x' ∈ xs ++ [x], key x' = k' → ∃ x0 ∈ xs ++ [x], key x0 = k ∧ R x0 x' := by
      refine (ih h1).imp_of_mem fun {k k'} hk _ hkk => ?_
      intro x' hx' hkx
      rcases List.mem_append.1 hx' with hx' | hx'
      · obtain ⟨x0, hx0, e, r⟩ := hkk x' hx' hkx
        exact ⟨x0, List.mem_append_left _ hx0, e, r⟩
      · obtain ⟨x0, hx0, e⟩ := (mem_keys_group key f xs k).1 hk
        simp only [List.mem_singleton] at hx'; subst hx'
        exact ⟨x0, List.mem_append_left _ hx0, e, hx x0 hx0⟩
    rw [group_snoc, keys_set]
    split_ifs with hk
    · exact hold
    · refine List.pairwise_append.2 ⟨hold, List.pairwise_singleton _ _, ?_⟩
      -- the new key: its only element is the last one
      intro k hkm k' hk' x' hx' hkx
      simp only [List.mem_singleton] at hk'; subst hk'
      obtain ⟨x0, hx0, e⟩ := (mem_keys_group key f xs k).1 hkm
      rcases List.mem_append.1 hx' with hx' | hx'
      · exact absurd ((mem_keys_group key f xs _).2 ⟨x', hx', hkx⟩) hk
      · simp only [List.mem_singleton] at hx'; subst hx'
        exact ⟨x0, List.mem_append_left _ hx0, e, hx x0 hx0⟩

/-- the keys and their order depend on the keys of the elements only -/
theorem keys_group_congr (g : Option ν → α → ν) (xs : List α) : (group key f xs).keys = (group key g xs).keys := by
  induction xs using List.reverseRecOn with
  | nil => rfl
  | append_singleton xs x ih => rw [group_snoc, group_snoc, keys_set, keys_set, ih]

/-- later elements add their keys at the end -/
theorem keys_group_isPrefix (g : Option ν → α → ν) {xs ys : List α} (h : xs <+: ys) :
    (group key f xs).keys <+: (group key g ys).keys := by
  obtain ⟨zs, rfl⟩ := h
  induction zs using List.reverseRecOn with
  | nil => rw [List.append_nil, keys_group_congr key f g]
  | append_singleton zs z ih =>
    rw [← List.append_assoc, group_snoc, keys_set]
    split_ifs
    · exact ih
    · exact ih.trans (List.prefix_append _ _)

/-- a dictionary that keeps the keys and their values begins with the old entries -/
theorem entries_isPrefix {d d' : Dict κ ν} (hk : d.keys <+: d'.keys) (hg : ∀ k ∈ d.keys, d'.get? k = d.get? k) :
    d.entries <+: d'.entries := by
  have hentries : ∀ e : Dict κ ν, e.keys.filterMap (fun k => (e.get? k).map fun v => (k, v)) = e.entries := by
    intro e
    rw [keys, List.filterMap_map]
    refine (List.filterMap_congr fun x hx => ?_).trans List.filterMap_some
    rw [Function.comp_apply, get?_eq_some.2 (show (x.1, x.2) ∈ e.entries from hx)]
    rfl
  obtain ⟨ks, hks⟩ := hk
  have hsame : d.keys.filterMap (fun k => (d'.get? k).map fun v => (k, v)) = d.entries := by
    rw [← hentries d]
    exact List.filterMap_congr fun k hk => by rw [hg k hk]
  rw [← hentries d', ← hks, List.filterMap_append, hsame]
  exact List.prefix_append _ _

end Lookup

end Dict

end AgentPick
