/-
Cutting a text into overlapping token windows (`hf_vectorizer/parsing.py`, `chunk_text_tokens`).

The loop advances by `max_tokens - overlap`, decodes the window at each start, keeps the decoded text unless it is blank, and
breaks once a window reaches the end. The tokenizer is a parameter, and so is the type of the tokens. The loop runs on fuel: with
`overlap >= max_tokens` the code does not end.

Results:
- `chunkLoop_eq`: the chunks are the decoded windows without the blank ones.
- `windows_spec`: from a start before the end, the windows cover the rest of the tokens.
- `chunks_cover`: with 0 <= overlap < max_tokens the loop ends and the windows cover the tokens without gaps, each one sharing
  exactly `overlap` tokens with the one before and reaching beyond it.
-/
import Mathlib.Tactic
import AgentPick.Core.Text

namespace AgentPick.Chunking

open Text (strip)

variable {τ : Type}

/-! ## The code -/

/-- an end of a slice: below 0 it counts from the end of the list -/
def sliceBound (length : ℕ) (i : ℤ) : ℕ := if 0 ≤ i then i.toNat else (length + i).toNat

/-- `tokens[start:stop]` -/
def slice (tokens : List τ) (start stop : ℤ) : List τ :=
  (tokens.take (sliceBound tokens.length stop)).drop (sliceBound tokens.length start)

/-- `DEFAULT_MAX_TOKENS_PER_CHUNK`, the default of `max_tokens` -/
def defaultMaxTokens : ℤ := 512

/-- `DEFAULT_CHUNK_OVERLAP_TOKENS`, the default of `overlap` -/
def defaultOverlap : ℤ := 64

/-- `if chunk_text.strip(): chunks.append(chunk_text)` -/
def keep (chunks : List Str) (chunkText : Str) : List Str :=
  if strip chunkText = [] then chunks else chunks ++ [chunkText]

/-- the loop from a start and the chunks so far; `none` when the fuel runs out -/
def chunkLoop (decode : List τ → Str) (tokens : List τ) (maxTokens overlap : ℤ) : ℕ → ℤ → List Str → Option (List Str)
  | 0, _, _ => none
  | fuel + 1, start, chunks =>
    if start < tokens.length then
      let chunks := keep chunks (decode (slice tokens start (start + maxTokens)))
      if tokens.length ≤ start + maxTokens then some chunks
      else chunkLoop decode tokens maxTokens overlap fuel (start + (maxTokens - overlap)) chunks
    else some chunks

/-- `chunk_text_tokens` -/
def chunkTextTokens (encode : Str → List τ) (decode : List τ → Str) (text : Str) (maxTokens overlap : ℤ) (fuel : ℕ) :
    Option (List Str) :=
  chunkLoop decode (encode text) maxTokens overlap fuel 0 []

/-! ## The windows -/

/-- what a pass of the loop cuts out, with its start -/
structure Window (τ : Type) where
  start : ℤ
  tokens : List τ

/-- the windows of the loop from a start on -/
def windows (tokens : List τ) (maxTokens overlap : ℤ) : ℕ → ℤ → Option (List (Window τ))
  | 0, _ => none
  | fuel + 1, start =>
    if start < tokens.length then
      if tokens.length ≤ start + maxTokens then some [⟨start, slice tokens start (start + maxTokens)⟩]
      else (windows tokens maxTokens overlap fuel (start + (maxTokens - overlap))).map
        (⟨start, slice tokens start (start + maxTokens)⟩ :: ·)
    else some []

/-- the decoded windows without the blank ones -/
def texts (decode : List τ → Str) (ws : List (Window τ)) : List Str :=
  (ws.map fun w => decode w.tokens).filter fun text => strip text ≠ []

theorem keep_append (decode : List τ → Str) (chunks : List Str) (w : Window τ) (ws : List (Window τ)) :
    keep chunks (decode w.tokens) ++ texts decode ws = chunks ++ texts decode (w :: ws) := by
  unfold keep
  by_cases hblank : strip (decode w.tokens) = [] <;> simp [texts, hblank]

/-- the loop decodes its windows and drops the blank texts -/
theorem chunkLoop_eq (decode : List τ → Str) (tokens : List τ) (maxTokens overlap : ℤ) (fuel : ℕ) (start : ℤ)
    (chunks : List Str) :
    chunkLoop decode tokens maxTokens overlap fuel start chunks =
      (windows tokens maxTokens overlap fuel start).map fun ws => chunks ++ texts decode ws := by
  induction fuel generalizing start chunks with
  | zero => rfl
  | succ fuel ih =>
    rw [chunkLoop, windows]
    split_ifs with hlt hend
    · rw [Option.map_some, ← keep_append]
      simp [texts]
    · rw [ih, Option.map_map]
      congr 1
      funext ws
      exact keep_append decode chunks ⟨start, slice tokens start (start + maxTokens)⟩ ws
    · simp [texts]

theorem windows_fuel {tokens : List τ} {maxTokens overlap : ℤ} {fuel fuel' : ℕ} (hle : fuel ≤ fuel') {start : ℤ}
    {ws : List (Window τ)} (h : windows tokens maxTokens overlap fuel start = some ws) :
    windows tokens maxTokens overlap fuel' start = some ws := by
  induction fuel generalizing fuel' start ws with
  | zero => cases h
  | succ fuel ih =>
    obtain ⟨fuel', rfl⟩ := Nat.exists_eq_add_of_lt hle
    rw [windows] at h
    rw [show fuel + fuel' + 1 = (fuel + fuel').succ from rfl, windows]
    split_ifs at h ⊢ with hlt hend
    · exact h
    · obtain ⟨ws', hws', rfl⟩ := Option.map_eq_some_iff.1 h
      rw [ih (by omega) hws', Option.map_some]
    · exact h

/-! ## Covering -/

/-- the tokens put together again: the first window, and of every later one what follows the overlap -/
def joined (overlap : ℕ) : List (Window τ) → List τ
  | [] => []
  | w :: ws => w.tokens ++ ws.flatMap fun w => w.tokens.drop overlap

/-- the next window starts `overlap` tokens before the end of this one, begins with these tokens, and goes on beyond them -/
structure Next (overlap : ℤ) (w w' : Window τ) : Prop where
  start : w'.start + overlap = w.start + w.tokens.length
  shared : w'.tokens.take overlap.toNat = w.tokens.drop (w.tokens.length - overlap.toNat)
  within : overlap ≤ w.tokens.length
  beyond : overlap < w'.tokens.length

/-- windows that cover the tokens without gaps -/
structure Covers (tokens : List τ) (maxTokens overlap : ℤ) (ws : List (Window τ)) : Prop where
  nonempty : ∀ w ∈ ws, w.tokens ≠ []
  bounded : ∀ w ∈ ws, (w.tokens.length : ℤ) ≤ maxTokens
  placed : ∀ w ∈ ws, w.tokens = slice tokens w.start (w.start + w.tokens.length)
  next : ws.IsChain (Next overlap)
  joined : joined overlap.toNat ws = tokens

section Spec

variable {tokens : List τ} {m o : ℕ}

theorem slice_natCast (tokens : List τ) (s k : ℕ) : slice tokens s (s + k) = (tokens.drop s).take k := by
  have hstop : ((s : ℤ) + k).toNat = s + k := by omega
  rw [slice, sliceBound, sliceBound, if_pos (by omega), if_pos (by omega), hstop, Int.toNat_natCast, List.drop_take,
    Nat.add_sub_cancel_left]

/-- a window of the loop lies where it starts -/
theorem placed_slice (tokens : List τ) (s m : ℕ) :
    slice tokens s (s + m) = slice tokens s (s + (slice tokens s (s + m)).length) := by
  rw [slice_natCast, slice_natCast, List.length_take, List.take_eq_take_iff, List.length_drop]
  omega

/-- the window after a full one -/
theorem next_slice (ho : o < m) {s : ℕ} (hend : s + m < tokens.length) :
    Next (o : ℤ) (⟨s, slice tokens s (s + m)⟩ : Window τ)
      ⟨((s + (m - o) : ℕ) : ℤ), slice tokens (s + (m - o) : ℕ) ((s + (m - o) : ℕ) + m)⟩ := by
  rw [slice_natCast, slice_natCast]
  have hfull : ((tokens.drop s).take m).length = m := by
    rw [List.length_take, List.length_drop]
    omega
  refine ⟨?_, ?_, ?_, ?_⟩
  · rw [hfull]
    push_cast
    omega
  · rw [hfull, Int.toNat_natCast, List.take_take, List.drop_take, List.drop_drop, Nat.min_eq_left ho.le,
      show m - (m - o) = o by omega]
  · rw [hfull]
    omega
  · rw [List.length_take, List.length_drop]
    omega

/-- what the windows of the loop satisfy, from a start before the end on -/
structure From (tokens : List τ) (m o s : ℕ) (w : Window τ) (ws : List (Window τ)) : Prop where
  first : w = ⟨s, slice tokens s (s + m)⟩
  nonempty : ∀ w' ∈ w :: ws, w'.tokens ≠ []
  bounded : ∀ w' ∈ w :: ws, w'.tokens.length ≤ m
  placed : ∀ w' ∈ w :: ws, w'.tokens = slice tokens w'.start (w'.start + w'.tokens.length)
  next : (w :: ws).IsChain (Next o)
  joined : joined o (w :: ws) = tokens.drop s

theorem slice_ne_nil (ho : o < m) {s : ℕ} (hs : s < tokens.length) : slice tokens s (s + m) ≠ [] := by
  rw [slice_natCast, ← List.length_pos_iff, List.length_take, List.length_drop]
  omega

theorem length_slice_le (tokens : List τ) (s m : ℕ) : (slice tokens s (s + m)).length ≤ m := by
  rw [slice_natCast, List.length_take]
  omega

/-- the last window -/
theorem From.last (ho : o < m) {s : ℕ} (hs : s < tokens.length) (hend : tokens.length ≤ s + m) :
    From tokens m o s ⟨s, slice tokens s (s + m)⟩ [] where
  first := rfl
  nonempty := by simpa using slice_ne_nil ho hs
  bounded := by simpa using length_slice_le tokens s m
  placed := by simpa using placed_slice tokens s m
  next := List.isChain_singleton _
  joined := by
    rw [Chunking.joined, List.flatMap_nil, List.append_nil, slice_natCast, List.take_of_length_le]
    rw [List.length_drop]
    omega

/-- a full window before the others -/
theorem From.cons (ho : o < m) {s : ℕ} (hs : s < tokens.length) (hend : s + m < tokens.length) {w : Window τ}
    {ws : List (Window τ)} (h : From tokens m o (s + (m - o)) w ws) :
    From tokens m o s ⟨s, slice tokens s (s + m)⟩ (w :: ws) where
  first := rfl
  nonempty := List.forall_mem_cons.2 ⟨slice_ne_nil ho hs, h.nonempty⟩
  bounded := List.forall_mem_cons.2 ⟨length_slice_le tokens s m, h.bounded⟩
  placed := List.forall_mem_cons.2 ⟨placed_slice tokens s m, h.placed⟩
  next := by
    refine List.isChain_cons_cons.2 ⟨?_, h.next⟩
    rw [h.first]
    exact next_slice ho hend
  joined := by
    have hnext : Next (o : ℤ) ⟨s, slice tokens s (s + m)⟩ w := by
      rw [h.first]
      exact next_slice ho hend
    have hlong : o ≤ w.tokens.length := by
      have := hnext.beyond
      omega
    -- behind the overlap the later windows go on where this one ends
    have hrest : w.tokens.drop o ++ ws.flatMap (fun w => w.tokens.drop o) = tokens.drop (s + m) := by
      have hjoined := congrArg (List.drop o) h.joined
      rw [Chunking.joined, List.drop_append_of_le_length hlong, List.drop_drop,
        show s + (m - o) + o = s + m by omega] at hjoined
      exact hjoined
    rw [Chunking.joined, List.flatMap_cons, hrest, slice_natCast, ← List.drop_drop, List.take_append_drop]

/-- from a start before the end, enough fuel gives windows that cover the rest of the tokens -/
theorem windows_spec (ho : o < m) {fuel s : ℕ} (hs : s < tokens.length) (hfuel : tokens.length - s < fuel) :
    ∃ w ws, windows tokens m o fuel s = some (w :: ws) ∧ From tokens m o s w ws := by
  induction fuel generalizing s with
  | zero => omega
  | succ fuel ih =>
    rw [windows, if_pos (by exact_mod_cast hs)]
    by_cases hend : tokens.length ≤ s + m
    · rw [if_pos (by exact_mod_cast hend)]
      exact ⟨_, [], rfl, From.last ho hs hend⟩
    · obtain ⟨w, ws, hws, hfrom⟩ := ih (s := s + (m - o)) (by omega) (by omega)
      have hstart : ((s : ℤ) + (m - o)) = ((s + (m - o) : ℕ) : ℤ) := by omega
      rw [if_neg (by exact_mod_cast hend), hstart, hws]
      exact ⟨_, w :: ws, rfl, hfrom.cons ho hs (not_le.1 hend)⟩

end Spec

/-- **Token chunking covers without gaps.** For all tokens and all integers 0 <= overlap < max_tokens the loop ends, its
windows cover the tokens, and the chunks are the decoded windows without the blank ones. -/
theorem chunks_cover (tokens : List τ) {maxTokens overlap : ℤ} (h0 : 0 ≤ overlap) (hlt : overlap < maxTokens) :
    ∃ ws, Covers tokens maxTokens overlap ws ∧
      ∀ fuel, tokens.length < fuel → windows tokens maxTokens overlap fuel 0 = some ws ∧
        ∀ (encode : Str → List τ) (decode : List τ → Str) (text : Str), encode text = tokens →
          chunkTextTokens encode decode text maxTokens overlap fuel = some (texts decode ws) := by
  obtain ⟨o, rfl⟩ := Int.eq_ofNat_of_zero_le h0
  obtain ⟨m, rfl⟩ := Int.eq_ofNat_of_zero_le (h0.trans hlt.le)
  have ho : o < m := by exact_mod_cast hlt
  obtain ⟨ws, hcovers, hws⟩ : ∃ ws, Covers tokens m o ws ∧ windows tokens m o (tokens.length + 1) 0 = some ws := by
    rcases tokens.length.eq_zero_or_pos with hzero | hpos
    · obtain rfl := List.length_eq_zero_iff.1 hzero
      exact ⟨[], ⟨by simp, by simp, by simp, List.isChain_nil, rfl⟩, rfl⟩
    · obtain ⟨w, ws, hws, hfrom⟩ := windows_spec ho hpos (Nat.lt_succ_self _)
      exact ⟨w :: ws, ⟨hfrom.nonempty, by exact_mod_cast hfrom.bounded, hfrom.placed, hfrom.next, hfrom.joined⟩, hws⟩
  refine ⟨ws, hcovers, fun fuel hfuel => ⟨windows_fuel hfuel hws, fun encode decode text hencode => ?_⟩⟩
  rw [chunkTextTokens, chunkLoop_eq, hencode, windows_fuel hfuel hws]
  rfl

/-- five tokens in windows of three with an overlap of one -/
theorem chunks_cover_five : ∃ ws, Covers [1, 2, 3, 4, 5] 3 1 ws ∧
    ∀ fuel, [1, 2, 3, 4, 5].length < fuel → windows [1, 2, 3, 4, 5] 3 1 fuel 0 = some ws ∧
      ∀ (encode : Str → List ℕ) (decode : List ℕ → Str) (text : Str), encode text = [1, 2, 3, 4, 5] →
        chunkTextTokens encode decode text 3 1 fuel = some (texts decode ws) :=
  chunks_cover [1, 2, 3, 4, 5] (by norm_num) (by norm_num)

/-- the defaults satisfy what the windows need -/
theorem defaults_valid : 0 ≤ defaultOverlap ∧ defaultOverlap < defaultMaxTokens := by decide

end AgentPick.Chunking
