/-
A cache that keeps what was used last (`functools.lru_cache`), called by threads.

The entries stand in the order of their last use. A call that finds its key moves it to the front. A call that does not computes
the value, while other threads call the cache too, and stores it at the front, unless the key has come in meanwhile; an entry
beyond the size of the cache is dropped at the back. A lookup and a store are atomic. What is computed for a key may vary, and
computing may raise, which stores nothing.

Results:
- `take_use`: the keys used last, cut to the size of the cache, are what a use of the cache makes of them.
- `cached`: in any interleaving the cache holds the `size` different keys that were used last, all answers are values computed
  for their keys, and a call computes iff its key is not among these.
-/
import AgentPick.Core.Threads

namespace AgentPick.Lru

/-! ## Keys by their last use -/

section Recent

variable {κ : Type} [DecidableEq κ]

/-- the different keys of a history, the one used last first -/
def recent : List κ → List κ
  | [] => []
  | k :: ks => k :: (recent ks).filter (· ≠ k)

theorem nodup_recent (ks : List κ) : (recent ks).Nodup := by
  induction ks with
  | nil => exact List.nodup_nil
  | cons x ks ih => exact List.nodup_cons.2 ⟨fun h => by simpa using (List.mem_filter.1 h).2, ih.filter _⟩

/-- a key that is not among the first n leaves them as they are -/
theorem take_filter_of_notMem {ks : List κ} {k : κ} {n : ℕ} (h : k ∉ ks.take (n + 1)) :
    (ks.filter (· ≠ k)).take n = ks.take n := by
  induction ks generalizing n with
  | nil => rfl
  | cons x ks ih =>
    rw [List.take_succ_cons, List.mem_cons, not_or] at h
    obtain ⟨hx, hrest⟩ := h
    rw [List.filter_cons_of_pos (by simpa using Ne.symm hx)]
    cases n with
    | zero => rfl
    | succ n => rw [List.take_succ_cons, List.take_succ_cons, ih hrest]

/-- one that is goes from them -/
theorem take_filter_of_mem {ks : List κ} (hks : ks.Nodup) {k : κ} {n : ℕ} (h : k ∈ ks.take (n + 1)) :
    (ks.filter (· ≠ k)).take n = (ks.take (n + 1)).filter (· ≠ k) := by
  induction ks generalizing n with
  | nil => exact absurd h List.not_mem_nil
  | cons x ks ih =>
    obtain ⟨hnot, hnodup⟩ := List.nodup_cons.1 hks
    by_cases hx : x = k
    · subst hx
      have hsame : ∀ l : List κ, x ∉ l → l.filter (· ≠ x) = l := by
        intro l hl
        rw [List.filter_eq_self]
        intro y hy
        exact decide_eq_true fun heq => hl (heq ▸ hy)
      rw [List.take_succ_cons, List.filter_cons_of_neg (by simp), List.filter_cons_of_neg (by simp), hsame ks hnot,
        hsame _ fun hmem => hnot (List.mem_of_mem_take hmem)]
    · rw [List.take_succ_cons, List.mem_cons] at h
      have hmem := h.resolve_left (Ne.symm hx)
      cases n with
      | zero => exact absurd hmem List.not_mem_nil
      | succ n =>
        rw [List.filter_cons_of_pos (by simpa using hx), List.take_succ_cons, ih hnodup hmem, List.take_succ_cons,
          List.filter_cons_of_pos (by simpa using hx)]

/-- **The keys used last, cut to the size of the cache**: a key that is there goes to the front, one that is not comes in there,
and the last one falls out. -/
theorem take_use (ks : List κ) (k : κ) (n : ℕ) :
    (recent (k :: ks)).take (n + 1) =
      if k ∈ (recent ks).take (n + 1) then k :: ((recent ks).take (n + 1)).filter (· ≠ k)
      else (k :: (recent ks).take (n + 1)).take (n + 1) := by
  rw [recent, List.take_succ_cons]
  split_ifs with h
  · rw [take_filter_of_mem (nodup_recent ks) h]
  · rw [take_filter_of_notMem h, List.take_succ_cons, List.take_take, min_eq_left (Nat.le_succ n)]

end Recent

/-! ## The cache -/

/-- the entries, the one used last first, and the history of uses, the last one first -/
structure Cache (κ ν : Type) where
  entries : List (κ × ν)
  used : List κ

/-- where a call is -/
inductive At (ν ε : Type) where
  | lookup
  | compute
  | store (v : ν)
  | done (answer : Except ε ν)

/-- a thread: the call that it is in, and what its calls answered -/
structure Caller (κ ν ε : Type) where
  call : Option (κ × At ν ε)
  answers : List (κ × Except ε ν)

variable {κ ν ε : Type} [DecidableEq κ]

def Cache.keys (c : Cache κ ν) : List κ := c.entries.map Prod.fst

/-- a key that is found is used -/
def Cache.hit (c : Cache κ ν) (k : κ) (v : ν) : Cache κ ν := ⟨(k, v) :: c.entries.filter fun e => e.1 ≠ k, k :: c.used⟩

/-- a value that was computed is stored, unless there is one -/
def Cache.store (size : ℕ) (c : Cache κ ν) (k : κ) (v : ν) : Cache κ ν :=
  if k ∈ c.keys then c else ⟨((k, v) :: c.entries).take size, k :: c.used⟩

/-- a step of a call for a key; `computes` says what may be computed for a key -/
inductive Moves (size : ℕ) (computes : κ → ν → Prop) (k : κ) (c : Cache κ ν) : At ν ε → At ν ε → Cache κ ν → Prop where
  | hit {v : ν} (h : (k, v) ∈ c.entries) : Moves size computes k c .lookup (.done (.ok v)) (c.hit k v)
  | miss (h : k ∉ c.keys) : Moves size computes k c .lookup .compute c
  | value {v : ν} (h : computes k v) : Moves size computes k c .compute (.store v) c
  | raise (e : ε) : Moves size computes k c .compute (.done (.error e)) c
  | store (v : ν) : Moves size computes k c (.store v) (.done (.ok v)) (c.store size k v)

/-- a thread begins a call, steps in it, or leaves it -/
inductive program (size : ℕ) (computes : κ → ν → Prop) (_t : ℕ) :
    Caller κ ν ε → Cache κ ν → Caller κ ν ε → Cache κ ν → Prop where
  | begin {as c} (k : κ) : program size computes _t ⟨none, as⟩ c ⟨some (k, .lookup), as⟩ c
  | move {as c k a a' c'} (h : Moves size computes k c a a' c') :
    program size computes _t ⟨some (k, a), as⟩ c ⟨some (k, a'), as⟩ c'
  | leave {as c k r} : program size computes _t ⟨some (k, .done r), as⟩ c ⟨none, as ++ [(k, r)]⟩ c

/-- no call was made -/
def start : Threads (Caller κ ν ε) (Cache κ ν) := ⟨fun _ => ⟨none, []⟩, ⟨[], []⟩⟩

/-! ## The invariant -/

variable {size : ℕ} {computes : κ → ν → Prop}

/-- the cache holds the keys used last, with values computed for them -/
structure Cache.Sound (size : ℕ) (computes : κ → ν → Prop) (c : Cache κ ν) : Prop where
  keys : c.keys = (recent c.used).take size
  values : ∀ e ∈ c.entries, computes e.1 e.2

/-- what a call knows -/
def Knows (computes : κ → ν → Prop) (k : κ) : At ν ε → Prop
  | .lookup | .compute => True
  | .store v => computes k v
  | .done r => ∀ v, r = .ok v → computes k v

/-- what holds of a thread -/
structure Fits (computes : κ → ν → Prop) (l : Caller κ ν ε) : Prop where
  knows : ∀ k a, l.call = some (k, a) → Knows computes k a
  answered : ∀ k v, (k, .ok v) ∈ l.answers → computes k v

theorem keys_hit (c : Cache κ ν) (k : κ) (v : ν) : (c.hit k v).keys = k :: c.keys.filter (· ≠ k) := by
  rw [Cache.keys, Cache.hit, List.map_cons, Cache.keys, List.filter_map]
  rfl

theorem Cache.Sound.hit {c : Cache κ ν} (h : c.Sound (size + 1) computes) {k : κ} {v : ν} (hv : (k, v) ∈ c.entries) :
    (c.hit k v).Sound (size + 1) computes := by
  refine ⟨?_, fun e he => ?_⟩
  · have hmem : k ∈ (recent c.used).take (size + 1) := h.keys ▸ List.mem_map.2 ⟨(k, v), hv, rfl⟩
    calc (c.hit k v).keys = k :: c.keys.filter (· ≠ k) := keys_hit c k v
      _ = k :: ((recent c.used).take (size + 1)).filter (· ≠ k) := by rw [h.keys]
      _ = (recent (k :: c.used)).take (size + 1) := by rw [take_use, if_pos hmem]
  · rcases List.mem_cons.1 he with rfl | he
    · exact h.values _ hv
    · exact h.values e (List.mem_of_mem_filter he)

theorem Cache.Sound.store {c : Cache κ ν} (h : c.Sound (size + 1) computes) {k : κ} {v : ν} (hv : computes k v) :
    (c.store (size + 1) k v).Sound (size + 1) computes := by
  rw [Cache.store]
  split_ifs with hmem
  · exact h
  · refine ⟨?_, fun e he => ?_⟩
    · have hnot : k ∉ (recent c.used).take (size + 1) := h.keys ▸ hmem
      calc (((k, v) :: c.entries).take (size + 1)).map Prod.fst = (k :: c.keys).take (size + 1) := by
            rw [List.map_take, List.map_cons]
            rfl
        _ = (k :: (recent c.used).take (size + 1)).take (size + 1) := by rw [h.keys]
        _ = (recent (k :: c.used)).take (size + 1) := by rw [take_use, if_neg hnot]
    · rcases List.mem_cons.1 (List.mem_of_mem_take he) with rfl | he
      · exact hv
      · exact h.values e he

/-- a step of a call keeps the cache sound and what the call knows -/
theorem moves_sound {c c' : Cache κ ν} {k : κ} {a a' : At ν ε} (h : Moves (size + 1) computes k c a a' c')
    (hc : c.Sound (size + 1) computes) (ha : Knows computes k a) : c'.Sound (size + 1) computes ∧ Knows computes k a' := by
  cases h with
  | @hit v hv =>
    refine ⟨hc.hit hv, fun w hw => ?_⟩
    cases hw
    exact hc.values _ hv
  | miss hmem => exact ⟨hc, trivial⟩
  | value hv => exact ⟨hc, hv⟩
  | raise e =>
    refine ⟨hc, fun w hw => ?_⟩
    cases hw
  | store v =>
    refine ⟨hc.store ha, fun w hw => ?_⟩
    cases hw
    exact ha

theorem program_sound {t : ℕ} {l l' : Caller κ ν ε} {c c' : Cache κ ν} (h : program (size + 1) computes t l c l' c')
    (hc : c.Sound (size + 1) computes) (hl : Fits computes l) : c'.Sound (size + 1) computes ∧ Fits computes l' := by
  cases h with
  | begin k =>
    refine ⟨hc, fun k' a ha => ?_, hl.answered⟩
    cases ha
    exact trivial
  | move hm =>
    obtain ⟨hsound, hknows⟩ := moves_sound hm hc (hl.knows _ _ rfl)
    refine ⟨hsound, fun k' a ha => ?_, hl.answered⟩
    cases ha
    exact hknows
  | @leave as c k r =>
    refine ⟨hc, fun k' a ha => (Option.some_ne_none _ ha.symm).elim, fun k' v hv => ?_⟩
    rcases List.mem_append.1 hv with hv | hv
    · exact hl.answered k' v hv
    · cases List.mem_singleton.1 hv
      exact hl.knows k _ rfl v rfl

/-- what holds in every state reached -/
theorem fits {c : Threads (Caller κ ν ε) (Cache κ ν)} (h : Threads.Reaches (program (size + 1) computes) start c) :
    c.shared.Sound (size + 1) computes ∧ ∀ t, Fits computes (c.locals t) := by
  refine Threads.assertions (A := fun _ l _ => Fits computes l) (fun t l g l' g' h hg hl => program_sound h hg hl)
    (fun t l g l' g' h hg hl u m _ hm => hm) h ?_ ?_
  · exact ⟨rfl, fun e he => absurd he List.not_mem_nil⟩
  · exact fun t => ⟨fun k a ha => (Option.some_ne_none _ ha.symm).elim, fun k v hv => absurd hv List.not_mem_nil⟩

/-- **In any interleaving the cache holds the keys that were used last**, one entry each, at most as many as its size; every
answer was computed for its key; and a lookup goes on to compute iff its key is not one of these. -/
theorem cached {c : Threads (Caller κ ν ε) (Cache κ ν)} (h : Threads.Reaches (program (size + 1) computes) start c) :
    c.shared.keys = (recent c.shared.used).take (size + 1) ∧
      (∀ t k v, (k, .ok v) ∈ (c.locals t).answers → computes k v) ∧
      ∀ t k, (c.locals t).call = some (k, .lookup) →
        ((∃ l g, program (size + 1) computes t (c.locals t) c.shared l g ∧ l.call = some (k, .compute)) ↔
          k ∉ (recent c.shared.used).take (size + 1)) := by
  obtain ⟨hsound, hfits⟩ := fits h
  refine ⟨hsound.keys, fun t k v hv => (hfits t).answered k v hv, fun t k hcall => ?_⟩
  have hlocal : c.locals t = ⟨some (k, .lookup), (c.locals t).answers⟩ := by rw [← hcall]
  rw [← hsound.keys]
  constructor
  · intro hstep
    obtain ⟨l, g, hp, hl⟩ := hstep
    rw [hlocal] at hp
    cases hp with
    | move hm =>
      cases hm with
      | hit hv => cases hl
      | miss hmem => exact hmem
  · intro hmem
    rw [hlocal]
    exact ⟨_, _, .move (.miss hmem), rfl⟩

end AgentPick.Lru
