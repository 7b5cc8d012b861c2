/-
Searching a text word by word. LIBRARY: nothing in this file names the pipeline.

The words of a text are its pieces between separators. `ByWord r sep ok read` says that the matches of r, in texts of the
characters that are ok, start at the beginnings of words, and that the one at a word depends on the word alone: it reads
`read w`, or there is none. What r looks at before and after a match is then a matter of the separators.

- `ByWord.searchFrom_word`, `ByWord.searchFrom_separator`: how a search goes past a word, and past a separator.
- `ByWord.search_eq`: a search finds what is read of the first word of which something is read.
-/
import Mathlib.Tactic
import AgentPick.Core.Scan
import AgentPick.Core.Tokens

namespace AgentPick.Regex

open AgentPick.Tokens

/-- `m.group()` -/
def matched (m : Cursor × Cursor) : Str := m.1.upto m.2

/-- a pattern whose matches belong to single words -/
structure ByWord (r : Regex) (sep : Char → Bool) (ok : Char → Prop) (read : Str → Option Str) : Prop where
  /-- no match starts after a character of a word -/
  inside : ∀ {s : Cursor} {c : Char}, s.before.head? = some c → sep c = false → matchAt r s = none
  separator : ∀ {before rest : Str} {c : Char}, sep c = true → ok c → matchAt r ⟨before, c :: rest⟩ = none
  ending : ∀ before, matchAt r ⟨before, []⟩ = none
  word : ∀ {before w rest : Str}, (∀ c ∈ before.head?, sep c = true) → Word sep w → (∀ c ∈ rest.head?, sep c = true) →
    (∀ c ∈ w ++ rest, ok c) → (matchAt r ⟨before, w ++ rest⟩).map (Cursor.upto ⟨before, w ++ rest⟩) = read w

namespace ByWord

variable {r : Regex} {sep : Char → Bool} {ok : Char → Prop} {read : Str → Option Str}

theorem noStart (h : ByWord r sep ok read) {before w rest : Str} {c : Char} (hs : before.head? = some c)
    (hc : sep c = false) (hw : ∀ c ∈ w, sep c = false) : NoStart r before w rest := by
  induction w generalizing before c with
  | nil => exact noStart_nil
  | cons d w ih =>
    obtain ⟨hd, hw⟩ := List.forall_mem_cons.1 hw
    exact noStart_cons.2 ⟨h.inside hs hc, ih rfl hd hw⟩

/-- a search goes past a separator -/
theorem searchFrom_separator (h : ByWord r sep ok read) {before rest : Str} {c : Char} (hc : sep c = true) (hok : ok c) :
    searchFrom r before (c :: rest) = searchFrom r (c :: before) rest := by
  rw [searchFrom, h.separator hc hok]

theorem searchFrom_nil (h : ByWord r sep ok read) (before : Str) : searchFrom r before [] = none := by
  rw [searchFrom, h.ending]
  rfl

/-- a search at the beginning of a word finds what is read of it, or goes past the word -/
theorem searchFrom_word (h : ByWord r sep ok read) {before w rest : Str} (hb : ∀ c ∈ before.head?, sep c = true)
    (hw : Word sep w) (hrest : ∀ c ∈ rest.head?, sep c = true) (hok : ∀ c ∈ w ++ rest, ok c) :
    (searchFrom r before (w ++ rest)).map matched =
      (read w).or ((searchFrom r (w.reverse ++ before) rest).map matched) := by
  rw [← h.word hb hw hrest hok]
  obtain ⟨c, x, rfl⟩ := List.exists_cons_of_ne_nil hw.ne_nil
  obtain ⟨hc, hx⟩ := List.forall_mem_cons.1 hw.inside
  cases hm : matchAt r ⟨before, c :: x ++ rest⟩ with
  | some e =>
    have hfound : searchFrom r before (c :: x ++ rest) = some (⟨before, c :: x ++ rest⟩, e) := by
      rw [List.cons_append, searchFrom, ← List.cons_append, hm]
    rw [hfound]
    rfl
  | none =>
    have hnext : searchFrom r before (c :: x ++ rest) = searchFrom r (c :: before) (x ++ rest) := by
      rw [List.cons_append, searchFrom, ← List.cons_append, hm]
    rw [hnext, searchFrom_of_noStart (h.noStart rfl hc hx), List.reverse_cons, List.append_assoc]
    rfl

theorem searchFrom_eq (h : ByWord r sep ok read) {before text : Str} (hb : ∀ c ∈ before.head?, sep c = true)
    (hok : ∀ c ∈ text, ok c) : (searchFrom r before text).map matched = (tokens sep text).findSome? read := by
  induction hn : text.length using Nat.strongRecOn generalizing before text with
  | ind n ih =>
    rcases exists_cut sep text with hall | ⟨w, c, rest, rfl, hin, hc⟩
    · by_cases hne : text = []
      · rw [hne, h.searchFrom_nil, tokens_nil]
        rfl
      · -- one word to the end
        have hword : Word sep text := ⟨hne, hall⟩
        have hend : ∀ c ∈ ([] : Str).head?, sep c = true := by simp
        calc (searchFrom r before text).map matched = (searchFrom r before (text ++ [])).map matched := by
              rw [List.append_nil]
          _ = (read text).or ((searchFrom r (text.reverse ++ before) []).map matched) :=
              h.searchFrom_word hb hword hend (by simpa using hok)
          _ = read text := by rw [h.searchFrom_nil, Option.map_none, Option.or_none]
          _ = (tokens sep text).findSome? read := by rw [hword.tokens, List.findSome?_singleton]
    · -- after the word and the separator
      have hrest (before' : Str) : (searchFrom r before' (c :: rest)).map matched = (tokens sep rest).findSome? read := by
        have hlt : rest.length < n := by
          rw [← hn, List.length_append, List.length_cons]
          omega
        rw [h.searchFrom_separator hc (hok c (by simp))]
        exact ih rest.length hlt (by simpa using hc) (fun d hd => hok d (by simp [hd])) rfl
      by_cases hne : w = []
      · rw [hne, List.nil_append, hrest, ← List.nil_append (c :: rest), tokens_append_cons hc, tokens_nil, List.nil_append]
      · have hword : Word sep w := ⟨hne, hin⟩
        have hnext : ∀ d ∈ (c :: rest).head?, sep d = true := by simpa using hc
        calc (searchFrom r before (w ++ c :: rest)).map matched
            = (read w).or ((searchFrom r (w.reverse ++ before) (c :: rest)).map matched) :=
              h.searchFrom_word hb hword hnext hok
          _ = ([w].findSome? read).or ((tokens sep rest).findSome? read) := by rw [hrest, List.findSome?_singleton]
          _ = (tokens sep (w ++ c :: rest)).findSome? read := by
              rw [tokens_append_cons hc, hword.tokens, List.findSome?_append]

/-- **A search finds what is read of the first word of which something is read.** -/
theorem search_eq (h : ByWord r sep ok read) {text : Str} (hok : ∀ c ∈ text, ok c) :
    (search r text).map matched = (tokens sep text).findSome? read :=
  h.searchFrom_eq (by simp) hok

end ByWord

end AgentPick.Regex
