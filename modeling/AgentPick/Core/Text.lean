/-
Text operations of the language the repository is written in, over lists of characters. LIBRARY: nothing in this file
names the pipeline.

`isSpace` is the whitespace class of `str.strip` and `str.isspace`; `strip`, `rstripChars`, `joinLines` follow the
methods they model; splitting at a separator is `List.splitOn`. `texts` reads a text the way a line-oriented reader sees
it: the stripped lines that are not blank.

- `texts_strip`: stripping a text keeps its `texts`.
- `texts_joinLines`: joining lines keeps their `texts`.
- `span_append`, `stretch_unique`, `within_stretch`: where a stretch of a class of characters ends.
-/
import Mathlib.Tactic
import Mathlib.Data.List.DropRight
import Mathlib.Data.List.Lex
import Mathlib.Data.Char

namespace AgentPick

abbrev Str := List Char

/-- what `text in texts` decides is equality -/
instance Str.lawfulBEq : LawfulBEq Str := inferInstance

namespace Text

/-- the characters with `str.isspace()` -/
def isSpace (c : Char) : Bool :=
  let n := c.toNat
  (0x09 ≤ n && n ≤ 0x0d) || (0x1c ≤ n && n ≤ 0x20) || n == 0x85 || n == 0xa0 || n == 0x1680 ||
    (0x2000 ≤ n && n ≤ 0x200a) || n == 0x2028 || n == 0x2029 || n == 0x202f || n == 0x205f || n == 0x3000

/-- `s.strip()` -/
def strip (s : Str) : Str := (s.dropWhile isSpace).rdropWhile isSpace

/-- `s.rstrip(chars)` -/
def rstripChars (chars : Str) (s : Str) : Str := s.rdropWhile fun c => chars.contains c

/-- `'\n'.join(lines)` -/
def joinLines (lines : List Str) : Str := ['\n'].intercalate lines

/-- the stripped non-blank lines of a list of lines -/
def stripped (lines : List Str) : List Str := (lines.map strip).filter (· ≠ [])

/-- the stripped non-blank lines of a text -/
def texts (s : Str) : List Str := stripped (s.splitOn '\n')

theorem strip_eq_nil {s : Str} : strip s = [] ↔ ∀ c ∈ s, isSpace c := by
  rw [strip, List.rdropWhile_eq_nil_iff]
  refine ⟨?_, ?_⟩
  · intro h
    rcases List.eq_nil_or_concat (s.dropWhile isSpace) with h0 | ⟨l, x, hx⟩
    · exact List.dropWhile_eq_nil_iff.1 h0
    · intro c hc
      by_contra hn
      rw [← List.takeWhile_append_dropWhile (p := isSpace) (l := s), List.mem_append] at hc
      exact hn (hc.elim (fun hc => List.mem_takeWhile_imp hc) (h c))
  · intro h c hc
    exact h c ((List.dropWhile_sublist _).subset hc)

/-- a stretch of a class of characters, and what ends it -/
theorem span_append {p : Char → Bool} {w rest : Str} (hw : ∀ c ∈ w, p c = true) (hrest : ∀ c ∈ rest.head?, p c = false) :
    (w ++ rest).takeWhile p = w ∧ (w ++ rest).dropWhile p = rest := by
  rw [List.takeWhile_append_of_pos hw, List.dropWhile_append_of_pos hw]
  cases rest with
  | nil => exact ⟨List.append_nil w, rfl⟩
  | cons c rest =>
    have hc : ¬ p c = true := by simp [hrest c rfl]
    rw [List.takeWhile_cons_of_neg hc, List.dropWhile_cons_of_neg hc]
    exact ⟨List.append_nil w, rfl⟩

/-- a text is cut in one way where a stretch ends -/
theorem stretch_unique {p : Char → Bool} {w rest w' rest' : Str} (h : w ++ rest = w' ++ rest') (hw : ∀ c ∈ w, p c = true)
    (hw' : ∀ c ∈ w', p c = true) (hrest : ∀ c ∈ rest.head?, p c = false) (hrest' : ∀ c ∈ rest'.head?, p c = false) :
    w = w' ∧ rest = rest' := by
  have hfirst : w = w' := by
    calc w = (w ++ rest).takeWhile p := (span_append hw hrest).1.symm
      _ = (w' ++ rest').takeWhile p := by rw [h]
      _ = w' := (span_append hw' hrest').1
  subst hfirst
  exact ⟨rfl, List.append_cancel_left h⟩

/-- what begins a text and is of a class lies within the stretch of it -/
theorem within_stretch {p : Char → Bool} {w rest v tail : Str} (h : w ++ rest = v ++ tail) (hv : ∀ c ∈ v, p c = true)
    (hrest : ∀ c ∈ rest.head?, p c = false) : ∃ u, w = v ++ u ∧ tail = u ++ rest := by
  rcases List.append_eq_append_iff.1 h with ⟨u, rfl, hu⟩ | ⟨u, hw, htail⟩
  · cases u with
    | nil => exact ⟨[], by simp, hu.symm⟩
    | cons c u =>
      -- the end of the stretch would lie in v
      have hend := hrest c (by rw [hu]; rfl)
      rw [hv c (by simp)] at hend
      cases hend
  · exact ⟨u, hw, htail⟩

/-- the text up to a character, and from it on -/
theorem span_ne {c : Char} {w : Str} (hw : c ∉ w) (rest : Str) :
    (w ++ c :: rest).takeWhile (· ≠ c) = w ∧ (w ++ c :: rest).dropWhile (· ≠ c) = c :: rest := by
  apply span_append
  · intro x hx
    exact decide_eq_true fun heq => hw (heq ▸ hx)
  · simp

/-- dropping on the right stops at the last character that is not dropped -/
theorem rdropWhile_append_cons {p : Char → Bool} {b : Char} (hb : p b = false) (s t : Str) :
    (s ++ b :: t).rdropWhile p = s ++ b :: t.rdropWhile p := by
  induction t using List.reverseRecOn with
  | nil => exact List.rdropWhile_concat_neg _ _ _ (by simp [hb])
  | append_singleton t x ih =>
    rw [← List.cons_append, ← List.append_assoc, List.rdropWhile_concat, List.rdropWhile_concat, ih]
    split_ifs <;> simp

theorem rstripChars_append_cons {chars : Str} {b : Char} (hb : b ∉ chars) (s t : Str) :
    rstripChars chars (s ++ b :: t) = s ++ b :: rstripChars chars t := rdropWhile_append_cons (by simpa using hb) s t

/-- what `rstrip` leaves does not end in one of the characters, and what it takes away is made of them -/
theorem rstripChars_spec (chars s : Str) :
    (∀ c ∈ (rstripChars chars s).getLast?, c ∉ chars) ∧ ∃ x, s = rstripChars chars s ++ x ∧ ∀ c ∈ x, c ∈ chars := by
  refine ⟨fun c hc => ?_, s.rtakeWhile fun c => chars.contains c, ?_, fun c hc => ?_⟩
  · have hne : s.rdropWhile (fun c => chars.contains c) ≠ [] := by
      intro hnil
      rw [rstripChars, hnil] at hc
      cases hc
    rw [rstripChars, List.getLast?_eq_some_getLast hne] at hc
    obtain rfl := Option.some.inj hc
    simpa using List.rdropWhile_last_not (fun c => chars.contains c) s hne
  · exact (List.rdropWhile_append_rtakeWhile (p := fun c => chars.contains c) (l := s)).symm
  · simpa using List.mem_rtakeWhile_imp hc

/-- stripping a text that starts with a character that is no white space, up to another one -/
theorem strip_cons_append_cons {a b : Char} (ha : isSpace a = false) (hb : isSpace b = false) (s t : Str) :
    strip (a :: (s ++ b :: t)) = a :: (s ++ b :: t.rdropWhile isSpace) := by
  rw [strip, List.dropWhile_cons_of_neg (by simp [ha]), ← List.cons_append, rdropWhile_append_cons hb, List.cons_append]

theorem strip_of_no_space {s : Str} (h : ∀ c ∈ s, isSpace c = false) : strip s = s := by
  have hleft : s.dropWhile isSpace = s := List.dropWhile_eq_self_iff.2 fun hs => by simp [h _ (List.getElem_mem hs)]
  rw [strip, hleft]
  exact List.rdropWhile_eq_self_iff.2 fun hs => by simp [h _ (List.getLast_mem hs)]

theorem strip_strip (s : Str) : strip (strip s) = strip s := by
  have hleft : (strip s).dropWhile isSpace = strip s := by
    refine List.dropWhile_eq_self_iff.2 fun hpos => ?_
    -- what is left on the right begins as it did before
    have hbegin : strip s <+: s.dropWhile isSpace := List.rdropWhile_prefix _ _
    rw [hbegin.getElem hpos]
    exact List.dropWhile_eq_self_iff.1 (List.dropWhile_idempotent isSpace s) _
  have hright : (strip s).rdropWhile isSpace = strip s := List.rdropWhile_idempotent _ _
  calc strip (strip s) = ((strip s).dropWhile isSpace).rdropWhile isSpace := rfl
    _ = (strip s).rdropWhile isSpace := by rw [hleft]
    _ = strip s := hright

theorem strip_cons_space {c : Char} (hc : isSpace c) (s : Str) : strip (c :: s) = strip s := by
  simp [strip, hc]

theorem strip_concat_space {c : Char} (hc : isSpace c) (s : Str) : strip (s ++ [c]) = strip s := by
  unfold strip
  rw [List.dropWhile_append]
  split_ifs with h
  · rw [List.isEmpty_iff] at h; simp [h, hc]
  · exact List.rdropWhile_concat_pos _ _ _ hc

@[simp] theorem stripped_cons (l : Str) (ls : List Str) :
    stripped (l :: ls) = if strip l = [] then stripped ls else strip l :: stripped ls := by
  by_cases h : strip l = [] <;> simp [stripped, h]

theorem stripped_append (a b : List Str) : stripped (a ++ b) = stripped a ++ stripped b := by
  simp [stripped]

theorem texts_cons_space {c : Char} (hc : isSpace c) (s : Str) : texts (c :: s) = texts s := by
  unfold texts
  rw [List.splitOn_cons_eq_if_modifyHead]
  split_ifs
  · simp [strip]
  · cases h : s.splitOn '\n' with
    | nil => exact absurd h (List.splitOn_ne_nil _ _)
    | cons l ls => simp [strip_cons_space hc]

/-- appending a character that is no line break extends the last line -/
theorem splitOn_concat {c : Char} (hc : c ≠ '\n') (s : Str) :
    ∃ ls l, s.splitOn '\n' = ls ++ [l] ∧ (s ++ [c]).splitOn '\n' = ls ++ [l ++ [c]] := by
  induction s with
  | nil => exact ⟨[], [], rfl, by simp [List.splitOn_cons_eq_if_modifyHead, hc]⟩
  | cons d s ih =>
    obtain ⟨ls, l, h1, h2⟩ := ih
    rw [List.cons_append, List.splitOn_cons_eq_if_modifyHead, List.splitOn_cons_eq_if_modifyHead, h1, h2]
    split_ifs
    · exact ⟨[] :: ls, l, rfl, rfl⟩
    · cases ls with
      | nil => exact ⟨[], d :: l, rfl, rfl⟩
      | cons a ls => exact ⟨(d :: a) :: ls, l, rfl, rfl⟩

theorem texts_concat_space {c : Char} (hc : isSpace c) (s : Str) : texts (s ++ [c]) = texts s := by
  by_cases h : c = '\n'
  · subst h
    rw [texts, List.splitOn_append_cons_self, stripped_append]
    simp [texts, stripped, strip]
  · obtain ⟨ls, l, h1, h2⟩ := splitOn_concat h s
    simp [texts, h1, h2, stripped_append, strip_concat_space hc]

/-- **Stripping a text keeps its non-blank lines**, up to the whitespace around them -/
theorem texts_strip (s : Str) : texts (strip s) = texts s := by
  have hl : ∀ s, texts (s.dropWhile isSpace) = texts s := by
    intro s
    induction s with
    | nil => rfl
    | cons c s ih =>
      by_cases hc : isSpace c
      · rw [List.dropWhile_cons_of_pos hc, ih, texts_cons_space hc]
      · rw [List.dropWhile_cons_of_neg hc]
  have hr : ∀ s, texts (s.rdropWhile isSpace) = texts s := by
    intro s
    induction s using List.reverseRecOn with
    | nil => rfl
    | append_singleton s c ih =>
      by_cases hc : isSpace c
      · rw [List.rdropWhile_concat_pos _ _ _ hc, ih, texts_concat_space hc]
      · rw [List.rdropWhile_concat_neg _ _ _ hc]
  rw [strip, hr, hl]

theorem texts_joinLines {ls : List Str} (h : ∀ l ∈ ls, '\n' ∉ l) : texts (joinLines ls) = stripped ls := by
  rcases eq_or_ne ls [] with rfl | hne
  · simp [texts, joinLines, stripped, strip]
  · rw [texts, joinLines, List.splitOn_intercalate _ h hne]

/-- a text has a non-blank line iff it is not blank -/
theorem texts_eq_nil {s : Str} : texts s = [] ↔ strip s = [] := by
  rw [strip_eq_nil]
  induction s with
  | nil => simp [texts, stripped, strip]
  | cons c s ih =>
    by_cases hc : isSpace c
    · rw [texts_cons_space hc, ih]; simp [hc]
    · have hn : (c == '\n') = false := by
        rw [beq_eq_false_iff_ne]; rintro rfl; exact hc (by decide)
      refine iff_of_false ?_ fun h => hc (h c List.mem_cons_self)
      rw [texts, List.splitOn_cons_eq_if_modifyHead, hn]
      cases hs : s.splitOn '\n' with
      | nil => exact absurd hs (List.splitOn_ne_nil _ _)
      | cons l ls =>
        have : strip (c :: l) ≠ [] := fun h => hc (strip_eq_nil.1 h c List.mem_cons_self)
        simp [this]

/-- no line of a split text holds a line break -/
theorem not_mem_of_mem_splitOn {s l : Str} (h : l ∈ s.splitOn '\n') : '\n' ∉ l := by
  induction s generalizing l with
  | nil => simp at h; simp [h]
  | cons c s ih =>
    rw [List.splitOn_cons_eq_if_modifyHead] at h
    split_ifs at h with hc
    · rcases List.mem_cons.1 h with rfl | h
      · simp
      · exact ih h
    · cases hs : s.splitOn '\n' with
      | nil => exact absurd hs (List.splitOn_ne_nil _ _)
      | cons a ls =>
        rw [hs] at h ih
        rcases List.mem_cons.1 h with rfl | h
        · intro hm
          rcases List.mem_cons.1 hm with rfl | hm
          · simp at hc
          · exact ih (List.mem_cons_self ..) hm
        · exact ih (List.mem_cons_of_mem _ h)

end Text

end AgentPick
