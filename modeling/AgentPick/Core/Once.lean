/-
Values that are made once (double-checked locking).

A global variable per key starts as None. A call reads it; if it is None, the call takes the lock of the key, reads it again,
makes a value if it still is None, assigns it, gives the lock back and reads the variable for its answer. Making a value may
raise; the lock is given back then too. Reads, assignments and the operations of a lock are atomic. A thread makes calls one
after another, for any keys.

Results:
- `mutual_exclusion`: at most one thread is inside the lock of a key.
- `made_once`: at most one value is made for a key in any run.
- `answers_agree`: every call that returns gives the value of the variable, all calls for a key give the same.
- `unblocked`: while a call waits for a lock, the thread that holds it can step.
- `unguarded_made`: without the lock and the second read, each call may make a value.
-/
import AgentPick.Core.Threads

namespace AgentPick.Once

/-- what the threads share for a key -/
structure Cell (α : Type) where
  /-- the global variable -/
  value : Option α
  /-- the thread that has the lock -/
  lock : Option ℕ
  /-- the values that were made, the last one first -/
  made : List α

/-- where a call is -/
inductive At (α ε : Type) where
  /-- before the first read -/
  | check
  | acquire
  /-- inside the lock, before the second read -/
  | recheck
  /-- inside the lock, at a `return` of the variable -/
  | early
  | make
  | assign (a : α)
  /-- at the end of the `with`, maybe with an answer -/
  | release (answer : Option (Except ε (Option α)))
  /-- at the last `return` of the variable -/
  | last
  | done (answer : Except ε (Option α))

variable {κ α ε : Type} [DecidableEq κ]

/-- between taking the lock and giving it back -/
def At.Inside : At α ε → Prop
  | .recheck | .early | .make | .assign _ | .release _ => True
  | _ => False

/-- a step of a call of thread t. `early` says whether the second read returns at once; `raises` what making a value may
raise. A value that is made is a new object. -/
inductive Moves (early : Bool) (raises : ε → Prop) (t : ℕ) (g : Cell α) : At α ε → At α ε → Cell α → Prop where
  | hit (h : g.value ≠ none) : Moves early raises t g .check .last g
  | miss (h : g.value = none) : Moves early raises t g .check .acquire g
  | acquire (h : g.lock = none) : Moves early raises t g .acquire .recheck { g with lock := some t }
  | again (h : g.value ≠ none) : Moves early raises t g .recheck (if early then .early else .release none) g
  | absent (h : g.value = none) : Moves early raises t g .recheck .make g
  | early : Moves early raises t g .early (.release (some (.ok g.value))) g
  | make (a : α) (h : a ∉ g.made) : Moves early raises t g .make (.assign a) { g with made := a :: g.made }
  | raise (e : ε) (h : raises e) : Moves early raises t g .make (.release (some (.error e))) g
  | assign (a : α) : Moves early raises t g (.assign a) (.release none) { g with value := some a }
  | release (r : Option (Except ε (Option α))) :
    Moves early raises t g (.release r) (r.elim .last .done) { g with lock := none }
  | last : Moves early raises t g .last (.done (.ok g.value)) g

/-- a thread: the call that it is in, and what its calls answered -/
structure Caller (κ α ε : Type) where
  call : Option (κ × At α ε)
  answers : List (κ × Except ε (Option α))

/-- `early` and `raises` for each key -/
structure Resource (ε : Type) where
  early : Bool
  raises : ε → Prop

/-- a thread begins a call, steps in it, or leaves it -/
inductive program (R : κ → Resource ε) (t : ℕ) : Caller κ α ε → (κ → Cell α) → Caller κ α ε → (κ → Cell α) → Prop where
  | begin {as g} (k : κ) : program R t ⟨none, as⟩ g ⟨some (k, .check), as⟩ g
  | move {as g k l l' c} (h : Moves (R k).early (R k).raises t (g k) l l' c) :
    program R t ⟨some (k, l), as⟩ g ⟨some (k, l'), as⟩ (Function.update g k c)
  | leave {as g k r} : program R t ⟨some (k, .done r), as⟩ g ⟨none, as ++ [(k, r)]⟩ g

/-- no call was made -/
def start : Threads (Caller κ α ε) (κ → Cell α) := ⟨fun _ => ⟨none, []⟩, fun _ => ⟨none, none, []⟩⟩

/-! ## The invariant -/

/-- a variable that is set has the only value made; before that nothing is made outside of the lock -/
structure Cell.Sound (c : Cell α) : Prop where
  set : ∀ a, c.value = some a → c.made = [a]
  unset : c.value = none → c.lock = none → c.made = []

/-- an answer is the value of the variable, which is set -/
def Answered (c : Cell α) (r : Except ε (Option α)) : Prop := ∀ v, r = .ok v → v = c.value ∧ c.value ≠ none

/-- what a call knows of its key -/
def Knows (c : Cell α) : At α ε → Prop
  | .check | .acquire => True
  | .recheck => c.value = none → c.made = []
  | .early | .last | .release none => c.value ≠ none
  | .make => c.value = none ∧ c.made = []
  | .assign a => c.value = none ∧ c.made = [a]
  | .release (some r) => Answered c r ∧ (c.value = none → c.made = [])
  | .done r => Answered c r

/-- what holds of a thread: it has the lock of a key iff it is inside, and its answers are right -/
structure Fits (t : ℕ) (l : Caller κ α ε) (g : κ → Cell α) : Prop where
  owns : ∀ k, (g k).lock = some t ↔ ∃ a, l.call = some (k, a) ∧ a.Inside
  knows : ∀ k a, l.call = some (k, a) → Knows (g k) a
  answered : ∀ k r, (k, r) ∈ l.answers → Answered (g k) r

/-- what a step of another thread leaves a call: the variable, once it is set, and all of it, inside the lock -/
structure Cell.Grows (c c' : Cell α) : Prop where
  value : c.value ≠ none → c'.value = c.value
  made : c.value ≠ none → c'.made = c.made

theorem Cell.Grows.refl (c : Cell α) : c.Grows c := ⟨fun _ => rfl, fun _ => rfl⟩

theorem Answered.grows {c c' : Cell α} {r : Except ε (Option α)} (h : Answered c r) (hc : c.Grows c') : Answered c' r := by
  intro v hv
  obtain ⟨hval, hset⟩ := h v hv
  rw [hc.value hset]
  exact ⟨hval, hset⟩

/-- outside of the lock a call knows what stays -/
theorem Knows.grows {c c' : Cell α} {l : At α ε} (h : Knows c l) (hl : ¬l.Inside) (hc : c.Grows c') : Knows c' l := by
  cases l with
  | check | acquire => exact trivial
  | last =>
    have hset : c.value ≠ none := h
    change c'.value ≠ none
    rwa [hc.value hset]
  | done r => exact Answered.grows h hc
  | recheck | early | make | assign _ | release _ => exact absurd trivial hl

section

variable {early : Bool} {raises : ε → Prop} {t : ℕ} {c c' : Cell α} {l l' : At α ε}

/-- **A step of a call keeps what holds of its cell and of the call.** -/
theorem moves_knows (h : Moves early raises t c l l' c') (hc : c.Sound) (hk : Knows c l) (hl : c.lock = some t ↔ l.Inside) :
    c'.Sound ∧ Knows c' l' ∧ c.Grows c' := by
  cases h with
  | hit hset => exact ⟨hc, hset, .refl c⟩
  | miss _ => exact ⟨hc, trivial, .refl c⟩
  | acquire hfree => exact ⟨⟨hc.set, fun _ hlock => by simp at hlock⟩, fun hnone => hc.unset hnone hfree, fun _ => rfl, fun _ => rfl⟩
  | again hset =>
    refine ⟨hc, ?_, .refl c⟩
    split_ifs
    · exact hset
    · exact hset
  | absent hnone => exact ⟨hc, ⟨hnone, hk hnone⟩, .refl c⟩
  | early =>
    have hset : c.value ≠ none := hk
    refine ⟨hc, ⟨?_, fun hnone => absurd hnone hset⟩, .refl c⟩
    intro v hv
    cases hv
    exact ⟨rfl, hset⟩
  | make a _ =>
    obtain ⟨hnone, hmade⟩ : c.value = none ∧ c.made = [] := hk
    have hlock : c.lock ≠ none := by
      rw [hl.2 trivial]
      exact Option.some_ne_none t
    refine ⟨⟨fun b hb => ?_, fun _ hfree => absurd hfree hlock⟩, ⟨hnone, ?_⟩, ?_, ?_⟩
    · exact absurd (hnone.symm.trans hb) (Option.some_ne_none b).symm
    · change a :: c.made = [a]
      rw [hmade]
    · exact fun hset => absurd hnone hset
    · exact fun hset => absurd hnone hset
  | raise e _ =>
    obtain ⟨_, hmade⟩ : c.value = none ∧ c.made = [] := hk
    refine ⟨hc, ⟨?_, fun _ => hmade⟩, .refl c⟩
    intro v hv
    cases hv
  | assign a =>
    obtain ⟨hnone, hmade⟩ : c.value = none ∧ c.made = [a] := hk
    refine ⟨⟨?_, fun hfalse => ?_⟩, Option.some_ne_none a, fun hset => absurd hnone hset, fun hset => absurd hnone hset⟩
    · intro b hb
      cases hb
      exact hmade
    · exact absurd hfalse (Option.some_ne_none a)
  | release r =>
    cases r with
    | none =>
      have hset : c.value ≠ none := hk
      exact ⟨⟨hc.set, fun hnone => absurd hnone hset⟩, hset, fun _ => rfl, fun _ => rfl⟩
    | some r =>
      obtain ⟨hr, hmade⟩ : Answered c r ∧ (c.value = none → c.made = []) := hk
      exact ⟨⟨hc.set, fun hnone _ => hmade hnone⟩, hr, fun _ => rfl, fun _ => rfl⟩
  | last =>
    have hset : c.value ≠ none := hk
    refine ⟨hc, ?_, .refl c⟩
    intro v hv
    cases hv
    exact ⟨rfl, hset⟩

/-- a step keeps who has the lock: the thread has it afterwards iff the call is inside -/
theorem moves_lock (h : Moves early raises t c l l' c') (hl : c.lock = some t ↔ l.Inside) :
    (c'.lock = some t ↔ l'.Inside) ∧ ∀ u ≠ t, (c'.lock = some u ↔ c.lock = some u) := by
  cases h with
  | hit _ | miss _ | absent _ | early | raise _ _ | last => exact ⟨hl, fun _ _ => Iff.rfl⟩
  | make _ _ | assign _ => exact ⟨hl, fun _ _ => Iff.rfl⟩
  | acquire hfree =>
    refine ⟨⟨fun _ => trivial, fun _ => rfl⟩, fun u hu => ?_⟩
    rw [hfree]
    simpa using hu.symm
  | again _ =>
    refine ⟨?_, fun _ _ => Iff.rfl⟩
    split_ifs
    · exact hl
    · exact hl
  | release r =>
    have hlock : c.lock = some t := hl.2 trivial
    refine ⟨?_, fun u hu => ?_⟩
    · cases r <;> simp [At.Inside]
    · rw [hlock]
      simpa using hu.symm

/-- a step of a thread that is inside leaves nothing to those who are outside but what grows; one that is outside leaves the
cell to the thread inside -/
theorem moves_frame (h : Moves early raises t c l l' c') (hl : c.lock = some t ↔ l.Inside) {u : ℕ} (hu : u ≠ t)
    (hlock : c.lock = some u) : c' = c := by
  have hout : ¬l.Inside := by
    intro hin
    rw [hl.2 hin] at hlock
    exact hu (Option.some.inj hlock).symm
  cases h with
  | hit _ | miss _ | last => rfl
  | acquire hfree =>
    rw [hfree] at hlock
    cases hlock
  | again _ | absent _ | early | make _ _ | raise _ _ | assign _ | release _ => exact absurd trivial hout

end

variable {R : κ → Resource ε} {t : ℕ} {l l' : Caller κ α ε} {g g' : κ → Cell α}

/-- a thread that steps keeps its own assertion -/
theorem program_own (h : program R t l g l' g') (hg : ∀ k, (g k).Sound) (hl : Fits t l g) :
    (∀ k, (g' k).Sound) ∧ Fits t l' g' := by
  cases h with
  | @begin as g k =>
    refine ⟨hg, ⟨fun k' => ?_, ?_, hl.answered⟩⟩
    · rw [hl.owns k']
      constructor
      · intro h
        obtain ⟨a, ha, -⟩ := h
        cases ha
      · intro h
        obtain ⟨a, ha, hin⟩ := h
        cases ha
        exact hin.elim
    · intro k' a ha
      cases ha
      exact trivial
  | @move as g k a a' c hm =>
    have hlock : (g k).lock = some t ↔ a.Inside := by
      rw [hl.owns k]
      simp
    obtain ⟨hc, hk, hgrows⟩ := moves_knows hm (hg k) (hl.knows k a rfl) hlock
    have hlock' := (moves_lock hm hlock).1
    refine ⟨fun k' => ?_, ⟨fun k' => ?_, fun k' b hb => ?_, fun k' r hr => ?_⟩⟩
    · by_cases hk' : k' = k
      · subst hk'
        rwa [Function.update_self]
      · rw [Function.update_of_ne hk']
        exact hg k'
    · by_cases hk' : k' = k
      · subst hk'
        rw [Function.update_self, hlock']
        simp
      · rw [Function.update_of_ne hk', hl.owns k']
        simp [Ne.symm hk']
    · cases hb
      rwa [Function.update_self]
    · have hold := hl.answered k' r hr
      by_cases hk' : k' = k
      · subst hk'
        rw [Function.update_self]
        exact hold.grows hgrows
      · rwa [Function.update_of_ne hk']
  | @leave as g k r =>
    refine ⟨hg, ⟨fun k' => ?_, fun k' a ha => (Option.some_ne_none _ ha.symm).elim, fun k' r' hr => ?_⟩⟩
    · rw [hl.owns k']
      constructor
      · intro h
        obtain ⟨a, ha, hin⟩ := h
        cases ha
        exact hin.elim
      · intro h
        obtain ⟨a, ha, -⟩ := h
        cases ha
    · rcases List.mem_append.1 hr with hr | hr
      · exact hl.answered k' r' hr
      · cases List.mem_singleton.1 hr
        exact hl.knows k (.done r) rfl

/-- and does not interfere with that of another thread -/
theorem program_others (h : program R t l g l' g') (hg : ∀ k, (g k).Sound) (hl : Fits t l g) {u : ℕ} {m : Caller κ α ε}
    (hu : u ≠ t) (hm : Fits u m g) : Fits u m g' := by
  cases h with
  | begin _ => exact hm
  | leave => exact hm
  | @move as g k a a' c hmove =>
    have hlock : (g k).lock = some t ↔ a.Inside := by
      rw [hl.owns k]
      simp
    obtain ⟨-, -, hgrows⟩ := moves_knows hmove (hg k) (hl.knows k a rfl) hlock
    have howner := (moves_lock hmove hlock).2 u hu
    refine ⟨fun k' => ?_, fun k' b hb => ?_, fun k' r hr => ?_⟩
    · by_cases hk' : k' = k
      · subst hk'
        rw [Function.update_self, howner, hm.owns]
      · rw [Function.update_of_ne hk', hm.owns k']
    · have hold := hm.knows k' b hb
      by_cases hk' : k' = k
      · subst hk'
        rw [Function.update_self]
        by_cases hin : b.Inside
        · rwa [moves_frame hmove hlock hu ((hm.owns k').2 ⟨b, hb, hin⟩)]
        · exact hold.grows hin hgrows
      · rwa [Function.update_of_ne hk']
    · have hold := hm.answered k' r hr
      by_cases hk' : k' = k
      · subst hk'
        rw [Function.update_self]
        exact hold.grows hgrows
      · rwa [Function.update_of_ne hk']

/-! ## Every run -/

variable {c : Threads (Caller κ α ε) (κ → Cell α)}

/-- the assertions hold in every state reached -/
theorem fits (h : Threads.Reaches (program R) start c) : (∀ k, (c.shared k).Sound) ∧ ∀ t, Fits t (c.locals t) c.shared := by
  refine Threads.assertions (I := fun g : κ → Cell α => ∀ k, (g k).Sound) (fun t l g l' g' h => program_own h)
    (fun t l g l' g' h hg hl u m hu => program_others h hg hl hu) h ?_ ?_
  · intro k
    exact ⟨fun a ha => (Option.some_ne_none a ha.symm).elim, fun _ _ => rfl⟩
  · intro t
    refine ⟨fun k => ⟨fun hlock => (Option.some_ne_none t hlock.symm).elim, fun h => ?_⟩,
      fun k a ha => (Option.some_ne_none _ ha.symm).elim, fun k r hr => (List.not_mem_nil hr).elim⟩
    obtain ⟨a, ha, -⟩ := h
    exact (Option.some_ne_none _ ha.symm).elim

/-- **At most one thread is inside the lock of a key.** -/
theorem mutual_exclusion (h : Threads.Reaches (program R) start c) {k : κ} {t u : ℕ} {a b : At α ε}
    (ht : (c.locals t).call = some (k, a)) (ha : a.Inside) (hu : (c.locals u).call = some (k, b)) (hb : b.Inside) : t = u := by
  obtain ⟨-, hfits⟩ := fits h
  have htlock := ((hfits t).owns k).2 ⟨a, ht, ha⟩
  have hulock := ((hfits u).owns k).2 ⟨b, hu, hb⟩
  exact Option.some.inj (htlock.symm.trans hulock)

/-- **At most one value is made for a key.** -/
theorem made_once (h : Threads.Reaches (program R) start c) (k : κ) : (c.shared k).made.length ≤ 1 := by
  obtain ⟨hsound, hfits⟩ := fits h
  cases hvalue : (c.shared k).value with
  | some a =>
    rw [(hsound k).set a hvalue]
    exact le_refl 1
  | none =>
    cases hlock : (c.shared k).lock with
    | none =>
      rw [(hsound k).unset hvalue hlock]
      exact Nat.zero_le 1
    | some t =>
      -- the thread inside knows whether it made one
      obtain ⟨a, hcall, hin⟩ := ((hfits t).owns k).1 hlock
      have hknows := (hfits t).knows k a hcall
      cases a with
      | check | acquire | last | done _ => exact hin.elim
      | recheck =>
        rw [hknows hvalue]
        exact Nat.zero_le 1
      | early => exact absurd hvalue hknows
      | make =>
        rw [hknows.2]
        exact Nat.zero_le 1
      | assign a =>
        rw [hknows.2]
        exact le_refl 1
      | release r =>
        cases r with
        | none => exact absurd hvalue hknows
        | some r =>
          rw [hknows.2 hvalue]
          exact Nat.zero_le 1

/-- a call that returns gives the value of the variable, and it is the only one made -/
theorem answer_eq (h : Threads.Reaches (program R) start c) {t : ℕ} {k : κ} {v : Option α}
    (hans : (k, .ok v) ∈ (c.locals t).answers) : ∃ a, v = some a ∧ (c.shared k).value = some a ∧ (c.shared k).made = [a] := by
  obtain ⟨hsound, hfits⟩ := fits h
  obtain ⟨hv, hset⟩ := (hfits t).answered k _ hans v rfl
  obtain ⟨a, ha⟩ := Option.ne_none_iff_exists'.1 hset
  exact ⟨a, hv.trans ha, ha, (hsound k).set a ha⟩

/-- **All calls for a key give the same value.** -/
theorem answers_agree (h : Threads.Reaches (program R) start c) {t u : ℕ} {k : κ} {v w : Option α}
    (hv : (k, .ok v) ∈ (c.locals t).answers) (hw : (k, .ok w) ∈ (c.locals u).answers) : v = w := by
  obtain ⟨a, rfl, ha, -⟩ := answer_eq h hv
  obtain ⟨b, rfl, hb, -⟩ := answer_eq h hw
  exact ha.symm.trans hb

/-- a call inside the lock can step, when values can be made -/
theorem moves_inside (early : Bool) (raises : ε → Prop) [Infinite α] (t : ℕ) (c : Cell α) {a : At α ε} (ha : a.Inside) :
    ∃ a' c', Moves early raises t c a a' c' := by
  cases a with
  | check | acquire | last | done _ => exact ha.elim
  | recheck =>
    by_cases h : c.value = none
    · exact ⟨_, _, .absent h⟩
    · exact ⟨_, _, .again h⟩
  | early => exact ⟨_, _, .early⟩
  | make =>
    classical
    obtain ⟨a, ha⟩ := Infinite.exists_notMem_finset c.made.toFinset
    exact ⟨_, _, .make a fun hmem => ha (List.mem_toFinset.2 hmem)⟩
  | assign a => exact ⟨_, _, .assign a⟩
  | release r => exact ⟨_, _, .release r⟩

/-- **A call waits for a thread that can step.** A call that is not at its end can step itself, or the lock is held by a
thread that can. -/
theorem unblocked [Infinite α] (h : Threads.Reaches (program R) start c) {t : ℕ} {k : κ} {a : At α ε}
    (hcall : (c.locals t).call = some (k, a)) :
    ∃ u l g, (u = t ∨ a = .acquire ∧ (c.shared k).lock = some u) ∧ program R u (c.locals u) c.shared l g := by
  obtain ⟨-, hfits⟩ := fits h
  have hmove : ∀ {u : ℕ} {b b' : At α ε} {x : Cell α}, (c.locals u).call = some (k, b) →
      Moves (R k).early (R k).raises u (c.shared k) b b' x → ∃ l g, program R u (c.locals u) c.shared l g := by
    intro u b b' x hu hb
    have hlocal : c.locals u = ⟨some (k, b), (c.locals u).answers⟩ := by rw [← hu]
    rw [hlocal]
    exact ⟨_, _, .move hb⟩
  by_cases hin : a.Inside
  · obtain ⟨a', x, hstep⟩ := moves_inside (R k).early (R k).raises t (c.shared k) hin
    obtain ⟨l, g, hp⟩ := hmove hcall hstep
    exact ⟨t, l, g, Or.inl rfl, hp⟩
  · cases a with
    | recheck | early | make | assign _ | release _ => exact absurd trivial hin
    | check =>
      by_cases hset : (c.shared k).value = none
      · obtain ⟨l, g, hp⟩ := hmove hcall (.miss hset)
        exact ⟨t, l, g, Or.inl rfl, hp⟩
      · obtain ⟨l, g, hp⟩ := hmove hcall (.hit hset)
        exact ⟨t, l, g, Or.inl rfl, hp⟩
    | last =>
      obtain ⟨l, g, hp⟩ := hmove hcall .last
      exact ⟨t, l, g, Or.inl rfl, hp⟩
    | done r =>
      refine ⟨t, ⟨none, (c.locals t).answers ++ [(k, r)]⟩, c.shared, Or.inl rfl, ?_⟩
      have hlocal : c.locals t = ⟨some (k, .done r), (c.locals t).answers⟩ := by rw [← hcall]
      nth_rewrite 1 [hlocal]
      exact .leave
    | acquire =>
      cases hlock : (c.shared k).lock with
      | none =>
        obtain ⟨l, g, hp⟩ := hmove hcall (.acquire hlock)
        exact ⟨t, l, g, Or.inl rfl, hp⟩
      | some u =>
        -- the thread that has the lock is inside
        obtain ⟨b, hu, hb⟩ := ((hfits u).owns k).1 hlock
        obtain ⟨b', x, hstep⟩ := moves_inside (R k).early (R k).raises u (c.shared k) hb
        obtain ⟨l, g, hp⟩ := hmove hu hstep
        exact ⟨u, l, g, Or.inr ⟨rfl, rfl⟩, hp⟩

/-! ## Without a lock -/

namespace Unguarded

/-- the variable, and the values that were made, with their threads -/
structure Global (α : Type) where
  value : Option α
  made : List (ℕ × α)

/-- where a call is -/
inductive At (α ε : Type) where
  | check
  | make
  | assign (a : α)
  | last
  | done (answer : Except ε (Option α))

/-- a step of a call of thread t -/
inductive Moves (t : ℕ) (g : Global α) : At α ε → At α ε → Global α → Prop where
  | hit (h : g.value ≠ none) : Moves t g .check .last g
  | miss (h : g.value = none) : Moves t g .check .make g
  | make (a : α) : Moves t g .make (.assign a) { g with made := (t, a) :: g.made }
  | raise (e : ε) : Moves t g .make (.done (.error e)) g
  | assign (a : α) : Moves t g (.assign a) .last { g with value := some a }
  | last : Moves t g .last (.done (.ok g.value)) g

/-- a thread: the call that it is in, and what its calls answered -/
structure Caller (α ε : Type) where
  call : Option (At α ε)
  answers : List (Except ε (Option α))

/-- a thread begins a call, steps in it, or leaves it -/
inductive program (t : ℕ) : Caller α ε → Global α → Caller α ε → Global α → Prop where
  | begin {as g} : program t ⟨none, as⟩ g ⟨some .check, as⟩ g
  | move {as g l l' g'} (h : Moves t g l l' g') : program t ⟨some l, as⟩ g ⟨some l', as⟩ g'
  | leave {as g r} : program t ⟨some (.done r), as⟩ g ⟨none, as ++ [r]⟩ g

def start : Threads (Caller α ε) (Global α) := ⟨fun _ => ⟨none, []⟩, ⟨none, []⟩⟩

/-- the variable has a value that was made, and no thread made two -/
structure Global.Sound (g : Global α) : Prop where
  set : ∀ a, g.value = some a → ∃ u, (u, a) ∈ g.made
  nodup : (g.made.map Prod.fst).Nodup

/-- an answer is a value that was made -/
def Answered (g : Global α) (r : Except ε (Option α)) : Prop := ∀ v, r = .ok v → ∃ u a, v = some a ∧ (u, a) ∈ g.made

/-- what a call of thread t knows: if the thread made a value, the variable is set or about to be -/
def Knows (t : ℕ) (g : Global α) : At α ε → Prop
  | .check => t ∈ g.made.map Prod.fst → g.value ≠ none
  | .make => t ∉ g.made.map Prod.fst
  | .assign a => (t, a) ∈ g.made
  | .last => g.value ≠ none
  | .done r => Answered g r ∧ (t ∈ g.made.map Prod.fst → g.value ≠ none)

structure Fits (t : ℕ) (l : Caller α ε) (g : Global α) : Prop where
  idle : l.call = none → t ∈ g.made.map Prod.fst → g.value ≠ none
  knows : ∀ a, l.call = some a → Knows t g a
  answered : ∀ r ∈ l.answers, Answered g r

/-- what a step leaves to the others: what was made, the variable set, and who made something -/
structure Leaves (t : ℕ) (g g' : Global α) : Prop where
  made : g.made ⊆ g'.made
  set : g.value ≠ none → g'.value ≠ none
  others : ∀ u ≠ t, u ∈ g'.made.map Prod.fst → u ∈ g.made.map Prod.fst

variable {t : ℕ} {g g' : Global α}

theorem Answered.leaves {r : Except ε (Option α)} (h : Answered g r) (hg : Leaves t g g') : Answered g' r := by
  intro v hv
  obtain ⟨u, a, hva, hmade⟩ := h v hv
  exact ⟨u, a, hva, hg.made hmade⟩

/-- a step of a call keeps what holds of the variable and of the call -/
theorem moves_knows {l l' : At α ε} (h : Moves t g l l' g') (hg : g.Sound) (hl : Knows t g l) :
    g'.Sound ∧ Knows t g' l' ∧ Leaves t g g' := by
  have hsame : Leaves t g g := ⟨fun _ hm => hm, id, fun _ _ hm => hm⟩
  cases h with
  | hit hset => exact ⟨hg, hset, hsame⟩
  | miss hnone => exact ⟨hg, fun hmem => absurd hnone (hl hmem), hsame⟩
  | make a =>
    have hnew : t ∉ g.made.map Prod.fst := hl
    refine ⟨⟨fun b hb => ?_, List.nodup_cons.2 ⟨hnew, hg.nodup⟩⟩, List.mem_cons_self, List.subset_cons_self _ _, id, ?_⟩
    · obtain ⟨u, hu⟩ := hg.set b hb
      exact ⟨u, List.mem_cons_of_mem _ hu⟩
    · intro u hu hmem
      exact (List.mem_cons.1 hmem).resolve_left hu
  | raise e =>
    refine ⟨hg, ⟨fun v hv => ?_, fun hmem => absurd hmem hl⟩, hsame⟩
    cases hv
  | assign a =>
    refine ⟨⟨fun b hb => ?_, hg.nodup⟩, Option.some_ne_none a, fun _ hm => hm, fun _ => Option.some_ne_none a, fun _ _ hm => hm⟩
    cases hb
    exact ⟨t, hl⟩
  | last =>
    have hset : g.value ≠ none := hl
    refine ⟨hg, ⟨fun v hv => ?_, fun _ => hset⟩, hsame⟩
    cases hv
    obtain ⟨a, ha⟩ := Option.ne_none_iff_exists'.1 hset
    obtain ⟨u, hu⟩ := hg.set a ha
    exact ⟨u, a, ha, hu⟩

theorem Fits.leaves {u : ℕ} {m : Caller α ε} (h : Fits u m g) (hu : u ≠ t) (hg : Leaves t g g') : Fits u m g' := by
  have hmine : (u ∈ g.made.map Prod.fst → g.value ≠ none) → u ∈ g'.made.map Prod.fst → g'.value ≠ none :=
    fun h hmem => hg.set (h (hg.others u hu hmem))
  refine ⟨fun hidle => hmine (h.idle hidle), fun a ha => ?_, fun r hr => (h.answered r hr).leaves hg⟩
  have hold := h.knows a ha
  cases a with
  | check => exact hmine hold
  | make => exact fun hmem => hold (hg.others u hu hmem)
  | assign a => exact hg.made hold
  | last => exact hg.set hold
  | done r => exact ⟨hold.1.leaves hg, hmine hold.2⟩

/-- a thread that steps keeps its own assertion -/
theorem program_own {l l' : Caller α ε} (h : program t l g l' g') (hg : g.Sound) (hl : Fits t l g) :
    (g'.Sound ∧ Fits t l' g') ∧ Leaves t g g' := by
  have hsame : Leaves t g g := ⟨fun _ hm => hm, id, fun _ _ hm => hm⟩
  cases h with
  | begin =>
    refine ⟨⟨hg, fun h => (Option.some_ne_none _ h).elim, fun a ha => ?_, hl.answered⟩, hsame⟩
    cases ha
    exact hl.idle rfl
  | move hm =>
    obtain ⟨hsound, hknows, hleaves⟩ := moves_knows hm hg (hl.knows _ rfl)
    refine ⟨⟨hsound, fun h => (Option.some_ne_none _ h).elim, fun a ha => ?_, fun r hr => ?_⟩, hleaves⟩
    · cases ha
      exact hknows
    · exact (hl.answered r hr).leaves hleaves
  | @leave as g r =>
    obtain ⟨hans, hset⟩ : Answered g r ∧ _ := hl.knows _ rfl
    refine ⟨⟨hg, fun _ => hset, fun a ha => (Option.some_ne_none a ha.symm).elim, fun r' hr' => ?_⟩, hsame⟩
    rcases List.mem_append.1 hr' with hr' | hr'
    · exact hl.answered r' hr'
    · cases List.mem_singleton.1 hr'
      exact hans

variable {c : Threads (Caller α ε) (Global α)}

theorem fits (h : Threads.Reaches (program (α := α) (ε := ε)) start c) :
    c.shared.Sound ∧ ∀ t, Fits t (c.locals t) c.shared := by
  refine Threads.assertions (I := Global.Sound) (fun t l g l' g' h hg hl => (program_own h hg hl).1)
    (fun t l g l' g' h hg hl u m hu hm => hm.leaves hu (program_own h hg hl).2) h ?_ ?_
  · exact ⟨fun a ha => (Option.some_ne_none a ha.symm).elim, List.nodup_nil⟩
  · intro t
    exact ⟨fun _ hmem => (List.not_mem_nil hmem).elim, fun a ha => (Option.some_ne_none a ha.symm).elim,
      fun r hr => (List.not_mem_nil hr).elim⟩

/-- **Without a lock a thread makes at most one value**, and a call that returns gives one of those made. -/
theorem unguarded_made (h : Threads.Reaches (program (α := α) (ε := ε)) start c) :
    (c.shared.made.map Prod.fst).Nodup ∧
      ∀ t v, .ok v ∈ (c.locals t).answers → ∃ u a, v = some a ∧ (u, a) ∈ c.shared.made := by
  obtain ⟨hsound, hfits⟩ := fits h
  exact ⟨hsound.nodup, fun t v hv => (hfits t).answered _ hv v rfl⟩

/-- two calls that both read None make two values, and the variable has the one assigned last -/
theorem two_made (a b : α) : ∃ c : Threads (Caller α ε) (Global α), Threads.Reaches program start c ∧
    c.shared = ⟨some b, [(1, b), (0, a)]⟩ := by
  have step : ∀ {c : Threads (Caller α ε) (Global α)} (t : ℕ) {l g}, program t (c.locals t) c.shared l g →
      Threads.Reaches program start c → Threads.Reaches program start ⟨Function.update c.locals t l, g⟩ :=
    fun t _ _ hp h => h.tail (.run hp)
  have hread := step 1 (.move (.miss rfl)) (step 1 .begin (step 0 (.move (.miss rfl)) (step 0 .begin .refl)))
  have hmade := step 1 (.move (.make b)) (step 0 (.move (.make a)) hread)
  exact ⟨_, step 1 (.move (.assign b)) (step 0 (.move (.assign a)) hmade), rfl⟩

end Unguarded

end AgentPick.Once
