/-
The connection pool and the vector store client of the process (`backend/src/catalog.py`, `_get_pool`, `_qdrant`, `warm`).

Both are made by the first call that needs them, in whatever worker thread that is: tools run in a thread pool, and so does the
warm-up. A thread makes calls for either of them one after another. What opening a pool raises is what `Select.getPool` raises
when there is none yet; the client may raise anything.

ASSUMED OF PYTHON: reading or assigning a global is atomic, and so are the operations of `threading.Lock`.

Results:
- `connections_shared`: in any interleaving of calls each of the two is made at most once, all calls that return get it, and a
  call waits only for a thread that can step.
- `retries`: an attempt that failed leaves nothing behind: while there is no pool, a call can open one.
- `connections_bounded`: the process has one pool at most, so it opens and uses at most as many connections as the pool has.
-/
import AgentPick.Core.Once
import AgentPick.Catalog.Select

namespace AgentPick.Connections

open AgentPick.Select AgentPick.Once

inductive Source where
  /-- `_pool` and `_pool_lock` -/
  | pool
  /-- `_qclient` and `_qclient_lock` -/
  | client
deriving DecidableEq, Repr

/-- what `_get_pool` raises when it finds no pool -/
def poolRaises (e : Select.Exc) : Prop := ∃ o : Outcome, o.cached = false ∧ getPool o = .error e

/-- `_get_pool` returns inside the lock when the second read finds a pool; `_qdrant` has one `return` behind the lock -/
def source : Source → Resource Select.Exc
  | .pool => ⟨true, poolRaises⟩
  | .client => ⟨false, fun _ => True⟩

/-- a state of the process: the threads, and the two globals. Objects are numbered. -/
abbrev Process := Threads (Caller Source ℕ Select.Exc) (Source → Cell ℕ)

/-- what interleaved calls of `_get_pool` and `_qdrant` lead to -/
def Reached (c : Process) : Prop := Threads.Reaches (program source) start c

/-- **In any interleaving of calls the pool and the client are each made at most once.** Every call that returns gets the one
that was made; a call that waits for a lock waits for a thread that can step. -/
theorem connections_shared {c : Process} (h : Reached c) (s : Source) :
    (c.shared s).made.length ≤ 1 ∧
      (∀ t v, (s, .ok v) ∈ (c.locals t).answers → ∃ a, v = some a ∧ (c.shared s).made = [a]) ∧
      ∀ t a, (c.locals t).call = some (s, a) →
        ∃ u l g, (u = t ∨ a = .acquire ∧ (c.shared s).lock = some u) ∧ program source u (c.locals u) c.shared l g := by
  refine ⟨made_once h s, fun t v hv => ?_, fun t a hcall => unblocked h hcall⟩
  obtain ⟨a, ha, -, hmade⟩ := answer_eq h hv
  exact ⟨a, ha, hmade⟩

/-- a step of thread t -/
theorem Reached.step {c : Process} (h : Reached c) (t : ℕ) {l g} (hp : program source t (c.locals t) c.shared l g) :
    Reached ⟨Function.update c.locals t l, g⟩ := h.tail (.run hp)

/-- two calls for the pool that both read None: the second finds the pool of the first -/
theorem connections_shared_race : ∃ c : Process, (Source.pool, Except.ok (some 7)) ∈ (c.locals 0).answers ∧
    (Source.pool, Except.ok (some 7)) ∈ (c.locals 1).answers ∧ (c.shared .pool).made.length ≤ 1 := by
  have hstart : Reached start := .refl
  have hread := (((hstart.step 0 (.begin .pool)).step 0 (.move (.miss rfl))).step 1 (.begin .pool)).step 1 (.move (.miss rfl))
  have hfirst := ((hread.step 0 (.move (.acquire rfl))).step 0 (.move (.absent rfl))).step 0
    (.move (.make 7 List.not_mem_nil))
  have hleft := (((hfirst.step 0 (.move (.assign 7))).step 0 (.move (.release none))).step 0 (.move .last)).step 0 .leave
  have hagain := ((hleft.step 1 (.move (.acquire rfl))).step 1 (.move (.again (Option.some_ne_none 7)))).step 1 (.move .early)
  have hend := (hagain.step 1 (.move (.release (some (.ok (some 7)))))).step 1 .leave
  exact ⟨_, List.mem_singleton.2 rfl, List.mem_singleton.2 rfl, (connections_shared hend .pool).1⟩

/-- **A failed attempt is not remembered**: in every state reached in which there is no pool and its lock is free, a call that
comes to the lock can go on to make one and to return it. -/
theorem retries {c : Process} (h : Reached c) {t : ℕ} {as : List (Source × Except Select.Exc (Option ℕ))}
    (hcall : c.locals t = ⟨some (.pool, .acquire), as⟩) (hnone : (c.shared .pool).value = none)
    (hfree : (c.shared .pool).lock = none) (a : ℕ) :
    ∃ d : Process, Threads.Reaches (program source) c d ∧ (Source.pool, Except.ok (some a)) ∈ (d.locals t).answers ∧
      (d.shared .pool).made = [a] := by
  have hmade : (c.shared .pool).made = [] := ((fits h).1 .pool).unset hnone hfree
  have halone : Threads.Alone (program source) t (c.locals t, c.shared)
      (⟨none, as ++ [(.pool, .ok (some a))]⟩, Function.update c.shared .pool ⟨some a, none, [a]⟩) := by
    rw [hcall]
    have hwaiting : Threads.Alone (program source) t (⟨some (.pool, .acquire), as⟩, c.shared)
        (⟨some (.pool, .acquire), as⟩, c.shared) := .refl
    have hinside := (hwaiting.step (.move (.acquire hfree))).step (.move (.absent hnone))
    have hnew : a ∉ (c.shared .pool).made := by simp [hmade]
    have hassigned := (hinside.step (.move (.make a hnew))).step (.move (.assign a))
    have hleft := ((hassigned.step (.move (.release none))).step (.move .last)).step .leave
    simpa [hmade] using hleft
  exact ⟨_, halone.reaches, by simp, by simp⟩

/-- **The process uses at most `size` connections**: the pools that were made, each of `size` connections, are one at most, and
calls that overlap use no more of it. -/
theorem connections_bounded {c : Process} (h : Reached c) {size : ℕ} {pools : ℕ → Pool}
    (hpools : ∀ p ∈ (c.shared .pool).made, ∃ events, run size ⟨[], []⟩ events = some (pools p)) :
    ((c.shared .pool).made.map fun p => (pools p).used.length).sum ≤ size := by
  have honce := made_once h .pool
  cases hmade : (c.shared .pool).made with
  | nil => exact Nat.zero_le size
  | cons p rest =>
    rw [hmade, List.length_cons] at honce
    have hrest : rest = [] := List.eq_nil_of_length_eq_zero (by omega)
    subst hrest
    obtain ⟨events, hrun⟩ := hpools p (by rw [hmade]; exact List.mem_singleton.2 rfl)
    have hbound := (pool_inv ⟨List.Perm.refl _, List.nodup_nil, Nat.zero_le _⟩ hrun).bounded
    simpa using hbound

end AgentPick.Connections
