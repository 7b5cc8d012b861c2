/-
Scanning a text with a pattern from left to right. LIBRARY: nothing in this file names the pipeline.

`Spans s w e`: from cursor s, reading w ends at e. The `mem_run` lemmas say what the building blocks of a pattern read, and
`run_spans` that every match reads a piece of the text.
`Scan r c evs` is a scan: it passes over a character at which no match starts, and reads a match where one starts. For a
pattern whose matches are not empty there is a scan of every text, `finditer` lists its matches and `sub` replaces them.

- `matchAt_star_seq`: a greedy run gives characters back until the rest of the pattern matches.
- `exists_scan`: `finditer` and `sub` are read off one scan.
- `Scan.through`, `Scan.pass_inv`, `Scan.hit_inv`: a scan goes through a character no match reads, passes a text in which no
  match starts, and reports the match at a position it reaches.
- `searchFrom_of_noStart`, `search_eq_some`, `search_eq_none`: a search reports the first position at which a match starts.
-/
import Mathlib.Tactic
import AgentPick.Core.Regex

namespace AgentPick

/-! ## Reading -/

/-- from s, reading w ends at e -/
def Spans (s : Cursor) (w : Str) (e : Cursor) : Prop := s.after = w ++ e.after ∧ e.before = w.reverse ++ s.before

/-- the text of a cursor -/
def Cursor.text (c : Cursor) : Str := c.before.reverse ++ c.after

namespace Spans

theorem refl (c : Cursor) : Spans c [] c := ⟨rfl, rfl⟩

theorem trans {s m e : Cursor} {v w : Str} (h : Spans s v m) (h' : Spans m w e) : Spans s (v ++ w) e :=
  ⟨by rw [h.1, h'.1, List.append_assoc], by rw [h'.2, h.2, List.reverse_append, List.append_assoc]⟩

/-- reading two texts is reading the first, and then the second -/
theorem exists_mid {s e : Cursor} {v w : Str} (h : Spans s (v ++ w) e) : ∃ m, Spans s v m ∧ Spans m w e := by
  refine ⟨⟨v.reverse ++ s.before, w ++ e.after⟩, ⟨?_, rfl⟩, rfl, ?_⟩
  · rw [h.1, List.append_assoc]
  · rw [h.2, List.reverse_append, List.append_assoc]

theorem one (before : Str) (x : Char) (xs : Str) : Spans ⟨before, x :: xs⟩ [x] ⟨x :: before, xs⟩ := ⟨rfl, rfl⟩

theorem nil_iff {s e : Cursor} : Spans s [] e ↔ e = s := by
  refine ⟨fun h => ?_, fun h => h ▸ refl s⟩
  obtain ⟨before, after⟩ := e
  obtain ⟨ha, hb⟩ := h
  simp only [List.nil_append, List.reverse_nil] at ha hb
  rw [hb, ← ha]

/-- where reading a given text ends -/
theorem mk_iff {before w rest : Str} {e : Cursor} :
    Spans ⟨before, w ++ rest⟩ w e ↔ e = ⟨w.reverse ++ before, rest⟩ := by
  refine ⟨fun h => ?_, fun h => h ▸ ⟨rfl, rfl⟩⟩
  obtain ⟨b, a⟩ := e
  have ha : w ++ rest = w ++ a := h.1
  have hb : b = w.reverse ++ before := h.2
  rw [← List.append_cancel_left ha, hb]

theorem text {s e : Cursor} {w : Str} (h : Spans s w e) : e.text = s.text := by
  rw [Cursor.text, Cursor.text, h.1, h.2, List.reverse_append, List.reverse_reverse, List.append_assoc]

theorem offset {s e : Cursor} {w : Str} (h : Spans s w e) : e.offset = s.offset + w.length := by
  rw [Cursor.offset, Cursor.offset, h.2, List.length_append, List.length_reverse, Nat.add_comm]

theorem upto {s e : Cursor} {w : Str} (h : Spans s w e) : s.upto e = w := by
  rw [Cursor.upto, h.1, List.length_append, Nat.add_sub_cancel]
  exact List.take_left

/-- the text around what is read -/
theorem text_eq {s e : Cursor} {w : Str} (h : Spans s w e) : s.text = s.before.reverse ++ w ++ e.after := by
  rw [Cursor.text, h.1, List.append_assoc]

end Spans

namespace Regex

/-! ## What the building blocks read -/

theorem mem_run_char {p : Char → Bool} {c d : Cursor} : d ∈ run (.char p) c ↔ ∃ x, p x = true ∧ Spans c [x] d := by
  obtain ⟨before, after⟩ := c
  cases after with
  | nil => simp [run, Spans]
  | cons x xs =>
    have hspan : ∀ y, Spans ⟨before, x :: xs⟩ [y] d ↔ y = x ∧ d = ⟨x :: before, xs⟩ := by
      intro y
      refine ⟨fun h => ?_, ?_⟩
      · obtain ⟨rfl, -⟩ := List.cons.inj (show x :: xs = y :: d.after from h.1)
        have hread : Spans ⟨before, [x] ++ xs⟩ [x] d := h
        exact ⟨rfl, Spans.mk_iff.1 hread⟩
      · rintro ⟨rfl, rfl⟩
        exact Spans.one before y xs
    by_cases hx : p x = true
    · simp [run, hspan, hx]
    · simp [run, hspan, hx]

theorem mem_run_assert {p : Cursor → Bool} {c d : Cursor} : d ∈ run (.assert p) c ↔ p c = true ∧ d = c := by
  by_cases hp : p c = true
  · simp [run, hp]
  · simp [run, hp]

theorem mem_run_notAfter {p : Char → Bool} {c d : Cursor} :
    d ∈ run (notAfter p) c ↔ (∀ x ∈ c.before.head?, p x = false) ∧ d = c := by
  rw [notAfter, mem_run_assert, Bool.not_eq_true', Option.any_eq_false]
  rfl

theorem mem_run_notBefore {p : Char → Bool} {c d : Cursor} :
    d ∈ run (notBefore p) c ↔ (∀ x ∈ c.after.head?, p x = false) ∧ d = c := by
  rw [notBefore, mem_run_assert, Bool.not_eq_true', Option.any_eq_false]
  rfl

theorem mem_run_seq {r s : Regex} {c d : Cursor} : d ∈ run (.seq r s) c ↔ ∃ e ∈ run r c, d ∈ run s e :=
  List.mem_flatMap

theorem mem_run_alt {r s : Regex} {c d : Cursor} : d ∈ run (.alt r s) c ↔ d ∈ run r c ∨ d ∈ run s c :=
  List.mem_append

theorem mem_run_empty {c d : Cursor} : d ∈ run .empty c ↔ d = c := List.mem_singleton

theorem mem_run_opt {r : Regex} {c d : Cursor} : d ∈ run (opt r) c ↔ d ∈ run r c ∨ d = c := by
  rw [opt, mem_run_alt, mem_run_empty]

theorem mem_run_lit {w : Str} {c d : Cursor} : d ∈ run (lit w) c ↔ Spans c w d := by
  induction w generalizing c with
  | nil => rw [Spans.nil_iff]; exact mem_run_empty
  | cons x w ih =>
    have hlit : lit (x :: w) = .seq (.char fun y => y = x) (lit w) := rfl
    rw [hlit, mem_run_seq]
    refine ⟨?_, fun h => ?_⟩
    · rintro ⟨e, he, hd⟩
      obtain ⟨y, hy, hspan⟩ := mem_run_char.1 he
      obtain rfl : y = x := by simpa using hy
      exact hspan.trans (ih.1 hd)
    · refine ⟨⟨x :: c.before, w ++ d.after⟩, mem_run_char.2 ⟨x, by simp, ?_⟩, ih.2 ?_⟩
      · exact ⟨h.1, rfl⟩
      · exact ⟨rfl, by rw [h.2]; simp⟩

/-- one step of a star of a character class: one more character first, then stopping here -/
theorem run_star_cons {p : Char → Bool} {before : Str} {x : Char} {xs : Str} :
    run (.star (.char p)) ⟨before, x :: xs⟩ =
      (if p x then run (.star (.char p)) ⟨x :: before, xs⟩ else []) ++ [⟨before, x :: xs⟩] := by
  by_cases hx : p x = true
  · simp [run, runStar, hx]
  · simp [run, runStar, hx]

theorem run_star_nil {p : Char → Bool} {before : Str} : run (.star (.char p)) ⟨before, []⟩ = [⟨before, []⟩] := rfl

theorem mem_run_star {p : Char → Bool} {c d : Cursor} :
    d ∈ run (.star (.char p)) c ↔ ∃ w, Spans c w d ∧ ∀ x ∈ w, p x = true := by
  obtain ⟨before, after⟩ := c
  induction after generalizing before with
  | nil =>
    rw [run_star_nil, List.mem_singleton]
    refine ⟨?_, ?_⟩
    · rintro rfl
      exact ⟨[], Spans.refl _, by simp⟩
    · rintro ⟨w, hw, -⟩
      obtain ⟨rfl, -⟩ := List.append_eq_nil_iff.1 hw.1.symm
      exact Spans.nil_iff.1 hw
  | cons x xs ih =>
    rw [run_star_cons, List.mem_append, List.mem_singleton]
    refine ⟨?_, ?_⟩
    · rintro (h | rfl)
      · split_ifs at h with hx
        · obtain ⟨w, hw, hall⟩ := (ih _).1 h
          exact ⟨x :: w, (Spans.one before x xs).trans hw, by simpa [hx] using hall⟩
        · cases h
      · exact ⟨[], Spans.refl _, by simp⟩
    · rintro ⟨w, hw, hall⟩
      cases w with
      | nil => exact Or.inr (Spans.nil_iff.1 hw)
      | cons y w =>
        obtain ⟨rfl, hrest⟩ := List.cons.inj (show x :: xs = y :: (w ++ d.after) from hw.1)
        left
        rw [if_pos (hall x (by simp))]
        refine (ih _).2 ⟨w, ⟨hrest, ?_⟩, fun z hz => hall z (by simp [hz])⟩
        rw [hw.2]
        simp

theorem mem_run_plus {p : Char → Bool} {c d : Cursor} :
    d ∈ run (plus (.char p)) c ↔ ∃ w, w ≠ [] ∧ (∀ x ∈ w, p x = true) ∧ Spans c w d := by
  rw [plus, mem_run_seq]
  refine ⟨?_, ?_⟩
  · rintro ⟨m, hm, hd⟩
    obtain ⟨x, hx, hone⟩ := mem_run_char.1 hm
    obtain ⟨w, hw, hall⟩ := mem_run_star.1 hd
    exact ⟨x :: w, List.cons_ne_nil _ _, List.forall_mem_cons.2 ⟨hx, hall⟩, hone.trans hw⟩
  · rintro ⟨w, hne, hall, hw⟩
    obtain ⟨x, w, rfl⟩ := List.exists_cons_of_ne_nil hne
    obtain ⟨hx, hall⟩ := List.forall_mem_cons.1 hall
    obtain ⟨m, hone, hrest⟩ := Spans.exists_mid (v := [x]) hw
    exact ⟨m, mem_run_char.2 ⟨x, hx, hone⟩, mem_run_star.2 ⟨w, hrest, hall⟩⟩

theorem runStar_spans {step : Cursor → List Cursor} (hstep : ∀ s e, e ∈ step s → ∃ w, Spans s w e) (n : ℕ) {s e : Cursor}
    (h : e ∈ runStar step n s) : ∃ w, Spans s w e := by
  induction n generalizing s with
  | zero =>
    obtain rfl := List.mem_singleton.1 h
    exact ⟨[], Spans.refl _⟩
  | succ n ih =>
    rcases List.mem_append.1 h with h | h
    · obtain ⟨m, hm, he⟩ := List.mem_flatMap.1 h
      obtain ⟨v, hv⟩ := hstep s m (List.mem_of_mem_filter hm)
      obtain ⟨w, hw⟩ := ih he
      exact ⟨v ++ w, hv.trans hw⟩
    · obtain rfl := List.mem_singleton.1 h
      exact ⟨[], Spans.refl _⟩

/-- **A match reads a piece of the text.** -/
theorem run_spans {r : Regex} {s e : Cursor} (h : e ∈ run r s) : ∃ w, Spans s w e := by
  induction r generalizing s e with
  | empty => exact ⟨[], Spans.nil_iff.2 (mem_run_empty.1 h)⟩
  | char p =>
    obtain ⟨x, -, hspan⟩ := mem_run_char.1 h
    exact ⟨[x], hspan⟩
  | seq r t ihr iht =>
    obtain ⟨m, hm, he⟩ := mem_run_seq.1 h
    obtain ⟨v, hv⟩ := ihr hm
    obtain ⟨w, hw⟩ := iht he
    exact ⟨v ++ w, hv.trans hw⟩
  | alt r t ihr iht =>
    rcases mem_run_alt.1 h with h | h
    · exact ihr h
    · exact iht h
  | star r ih => exact runStar_spans (fun _ _ he => ih he) _ h
  | assert p => exact ⟨[], Spans.nil_iff.2 (mem_run_assert.1 h).2⟩

/-! ## Greedy runs -/

theorem concat_cons (r s : Regex) (rs : List Regex) : concat (r :: s :: rs) = .seq r (concat (s :: rs)) := rfl

theorem run_of_assert {p : Cursor → Bool} {c : Cursor} (h : p c = true) : run (.assert p) c = [c] := if_pos h

theorem run_of_not_assert {p : Cursor → Bool} {c : Cursor} (h : p c = false) : run (.assert p) c = [] := by
  simp [run, h]

theorem matchAt_seq_assert {p : Cursor → Bool} {r : Regex} {c : Cursor} (h : p c = true) :
    matchAt (.seq (.assert p) r) c = matchAt r c := by
  simp [matchAt, run, h]

theorem matchAt_seq_char {p : Char → Bool} {r : Regex} {before xs : Str} {x : Char} (h : p x = true) :
    matchAt (.seq (.char p) r) ⟨before, x :: xs⟩ = matchAt r ⟨x :: before, xs⟩ := by
  simp [matchAt, run, h]

/-- **Backtracking of a greedy run.** If the rest of the pattern matches after w, and at no later position of the run w ++ v,
the match is the one after w. -/
theorem matchAt_star_seq {p : Char → Bool} {r : Regex} {before w v rest : Str} {e : Cursor} (hw : ∀ x ∈ w, p x = true)
    (hv : ∀ x ∈ v, p x = true) (hrest : ∀ x ∈ rest.head?, p x = false)
    (hlater : ∀ a x b, v = a ++ x :: b → run r ⟨x :: (a.reverse ++ (w.reverse ++ before)), b ++ rest⟩ = [])
    (he : matchAt r ⟨w.reverse ++ before, v ++ rest⟩ = some e) :
    matchAt (.seq (.star (.char p)) r) ⟨before, w ++ (v ++ rest)⟩ = some e := by
  -- one position of the run: the longer choices come first
  have hstep : ∀ b x xs, p x = true → run (.seq (.star (.char p)) r) ⟨b, x :: xs⟩ =
      run (.seq (.star (.char p)) r) ⟨x :: b, xs⟩ ++ run r ⟨b, x :: xs⟩ := by
    intro b x xs hx
    rw [run, run_star_cons, if_pos hx, List.flatMap_append, List.flatMap_singleton, run]
  have hstop : ∀ b, run (.seq (.star (.char p)) r) ⟨b, rest⟩ = run r ⟨b, rest⟩ := by
    intro b
    cases rest with
    | nil => rw [run, run_star_nil, List.flatMap_singleton]
    | cons x xs =>
      have hx : p x = false := hrest x rfl
      rw [run, run_star_cons, hx, if_neg (by simp), List.nil_append, List.flatMap_singleton]
  -- past w nothing but the choice directly after w is left
  have hpast : ∀ b v', (∀ x ∈ v', p x = true) → (∀ a x c, v' = a ++ x :: c → run r ⟨x :: (a.reverse ++ b), c ++ rest⟩ = []) →
      run (.seq (.star (.char p)) r) ⟨b, v' ++ rest⟩ = run r ⟨b, v' ++ rest⟩ := by
    intro b v'
    induction v' generalizing b with
    | nil => exact fun _ _ => hstop b
    | cons x v' ih =>
      intro hp hl
      have htail := ih (x :: b) (fun y hy => hp y (by simp [hy])) fun a y c hc => by
        simpa using hl (x :: a) y c (by rw [hc]; rfl)
      have hnil : run r ⟨x :: b, v' ++ rest⟩ = [] := hl [] x v' rfl
      rw [List.cons_append, hstep _ _ _ (hp x (by simp)), htail, hnil, List.nil_append]
  induction w generalizing before with
  | nil => rw [matchAt, List.nil_append, hpast before v hv hlater]; exact he
  | cons x w ih =>
    have htail : matchAt (.seq (.star (.char p)) r) ⟨x :: before, w ++ (v ++ rest)⟩ = some e :=
      ih (fun y hy => hw y (by simp [hy])) (by simpa using hlater) (by simpa using he)
    rw [matchAt, List.cons_append, hstep _ _ _ (hw x (by simp)), List.head?_append]
    rw [matchAt] at htail
    rw [htail]
    rfl

/-! ## Searching -/

theorem matchAt_eq_none {r : Regex} {c : Cursor} : matchAt r c = none ↔ run r c = [] := List.head?_eq_none_iff

theorem matchAt_eq_none_of {r : Regex} {c : Cursor} (h : ∀ e, e ∉ run r c) : matchAt r c = none :=
  matchAt_eq_none.2 (List.eq_nil_iff_forall_not_mem.2 h)

/-- no match starts in a, which b follows -/
def NoStart (r : Regex) (before a b : Str) : Prop :=
  ∀ a₁ a₂, a = a₁ ++ a₂ → a₂ ≠ [] → matchAt r ⟨a₁.reverse ++ before, a₂ ++ b⟩ = none

theorem noStart_nil {r : Regex} {before b : Str} : NoStart r before [] b :=
  fun _ _ h hne => absurd (List.append_eq_nil_iff.1 h.symm).2 hne

theorem noStart_cons {r : Regex} {before a b : Str} {x : Char} :
    NoStart r before (x :: a) b ↔ matchAt r ⟨before, x :: (a ++ b)⟩ = none ∧ NoStart r (x :: before) a b := by
  refine ⟨fun h => ⟨h [] (x :: a) rfl (by simp), fun a₁ a₂ ha hne => ?_⟩, ?_⟩
  · simpa using h (x :: a₁) a₂ (by rw [ha]; rfl) hne
  · rintro ⟨hx, h⟩ a₁ a₂ ha hne
    cases a₁ with
    | nil =>
      obtain rfl : a₂ = x :: a := ha.symm
      exact hx
    | cons y a₁ =>
      obtain ⟨rfl, rfl⟩ := List.cons.inj ha
      simpa using h a₁ a₂ rfl hne

/-- a search passes over a text in which no match starts -/
theorem searchFrom_of_noStart {r : Regex} {before a b : Str} (h : NoStart r before a b) :
    searchFrom r before (a ++ b) = searchFrom r (a.reverse ++ before) b := by
  induction a generalizing before with
  | nil => rfl
  | cons x a ih =>
    obtain ⟨hx, hrest⟩ := noStart_cons.1 h
    rw [List.cons_append, searchFrom, hx, List.reverse_cons, List.append_assoc]
    exact ih hrest

/-- a search passes over positions at which no match starts, and stops at the first at which one does -/
theorem searchFrom_cases (r : Regex) (before text : Str) :
    (searchFrom r before text = none ∧ NoStart r before text [] ∧ matchAt r ⟨text.reverse ++ before, []⟩ = none) ∨
      ∃ a b e, text = a ++ b ∧ searchFrom r before text = some (⟨a.reverse ++ before, b⟩, e) ∧
        NoStart r before a b ∧ matchAt r ⟨a.reverse ++ before, b⟩ = some e := by
  induction text generalizing before with
  | nil =>
    cases hm : matchAt r ⟨before, []⟩ with
    | none => exact Or.inl ⟨by rw [searchFrom, hm]; rfl, noStart_nil, hm⟩
    | some e => exact Or.inr ⟨[], [], e, rfl, by rw [searchFrom, hm]; rfl, noStart_nil, hm⟩
  | cons x xs ih =>
    cases hm : matchAt r ⟨before, x :: xs⟩ with
    | some e => exact Or.inr ⟨[], x :: xs, e, rfl, by rw [searchFrom, hm]; rfl, noStart_nil, hm⟩
    | none =>
      have hstep : searchFrom r before (x :: xs) = searchFrom r (x :: before) xs := by rw [searchFrom, hm]
      rcases ih (x :: before) with ⟨hs, hno, hend⟩ | ⟨a, b, e, rfl, hs, hno, hat⟩
      · exact Or.inl ⟨hstep.trans hs, noStart_cons.2 ⟨by simpa using hm, hno⟩, by simpa using hend⟩
      · exact Or.inr ⟨x :: a, b, e, rfl, by simpa [hstep] using hs, noStart_cons.2 ⟨hm, hno⟩, by simpa using hat⟩

/-- **A search reports the first position at which a match starts.** -/
theorem search_eq_some {r : Regex} {text : Str} {m : Cursor × Cursor} (h : search r text = some m) :
    m.1.text = text ∧ matchAt r m.1 = some m.2 ∧ ∀ a b, text = a ++ b → run r ⟨a.reverse, b⟩ ≠ [] → m.1.offset ≤ a.length := by
  rcases searchFrom_cases r [] text with ⟨hs, -⟩ | ⟨a, b, e, rfl, hs, hno, hat⟩
  · rw [search, hs] at h
    cases h
  · rw [search, hs] at h
    cases h
    refine ⟨by simp [Cursor.text], hat, fun a' b' hab hrun => ?_⟩
    by_contra hlt
    -- the position lies in a
    simp only [Cursor.offset, List.append_nil, List.length_reverse, not_le] at hlt
    rcases List.append_eq_append_iff.1 hab with ⟨v, rfl, -⟩ | ⟨v, rfl, rfl⟩
    · simp only [List.length_append] at hlt
      omega
    · have hv : v ≠ [] := by
        rintro rfl
        simp at hlt
      have hnone := matchAt_eq_none.1 (hno a' v rfl hv)
      rw [List.append_nil] at hnone
      exact hrun hnone

theorem search_eq_none {r : Regex} {text : Str} :
    search r text = none ↔ ∀ a b, text = a ++ b → run r ⟨a.reverse, b⟩ = [] := by
  rw [← Option.not_isSome_iff_eq_none, search_isSome]
  push Not
  rfl

/-! ## Scans -/

/-- every match of the pattern reads something -/
def Consumes (r : Regex) : Prop := ∀ c e, e ∈ run r c → e.after.length < c.after.length

/-- a character passed over, or a match -/
abbrev Event := Char ⊕ (Cursor × Cursor)

/-- the text from a cursor on with every match replaced by a function of its text -/
def replaceByFrom (r : Regex) (f : Str → Str) : ℕ → Cursor → Str
  | 0, c => c.after
  | n + 1, c =>
    match searchFrom r c.before c.after with
    | none => c.after
    | some (s, e) => c.upto s ++ f (s.upto e) ++ replaceByFrom r f n e

/-- `r.sub(f, text)`, for a pattern whose matches are not empty -/
def subBy (r : Regex) (f : Str → Str) (text : Str) : Str := replaceByFrom r f (text.length + 1) ⟨[], text⟩

/-- what a scan from a cursor on meets -/
inductive Scan (r : Regex) : Cursor → List Event → Prop where
  | done {before : Str} : Scan r ⟨before, []⟩ []
  | pass {before xs : Str} {x : Char} {evs : List Event} : matchAt r ⟨before, x :: xs⟩ = none → Scan r ⟨x :: before, xs⟩ evs →
      Scan r ⟨before, x :: xs⟩ (.inl x :: evs)
  | hit {c e : Cursor} {evs : List Event} : matchAt r c = some e → Scan r e evs → Scan r c (.inr (c, e) :: evs)

/-- the matches of a scan -/
def hits (evs : List Event) : List (Cursor × Cursor) := evs.filterMap Sum.getRight?

/-- the text of a scan with every match replaced by a function of its text -/
def replaced (f : Str → Str) (evs : List Event) : Str := evs.flatMap (Sum.elim (fun x => [x]) fun m => f (m.1.upto m.2))

@[simp] theorem hits_nil : hits [] = [] := rfl

@[simp] theorem replaced_nil (f : Str → Str) : replaced f [] = [] := rfl

@[simp] theorem hits_append (evs evs' : List Event) : hits (evs ++ evs') = hits evs ++ hits evs' :=
  List.filterMap_append

@[simp] theorem hits_map_inl (w : Str) : hits (w.map .inl) = [] := by simp [hits]

@[simp] theorem hits_inl (x : Char) (evs : List Event) : hits (.inl x :: evs) = hits evs := rfl

@[simp] theorem hits_inr (m : Cursor × Cursor) (evs : List Event) : hits (.inr m :: evs) = m :: hits evs := rfl

theorem mem_hits {m : Cursor × Cursor} {evs : List Event} : m ∈ hits evs ↔ .inr m ∈ evs := by
  simp [hits]

/-- the events up to the first match pass over characters -/
theorem exists_passes (evs : List Event) :
    ∃ (p : Str) (evs' : List Event), evs = p.map .inl ++ evs' ∧ (evs' = [] ∨ ∃ m evs₂, evs' = .inr m :: evs₂) := by
  induction evs with
  | nil => exact ⟨[], [], rfl, Or.inl rfl⟩
  | cons ev evs ih =>
    cases ev with
    | inl x =>
      obtain ⟨p, evs', rfl, h⟩ := ih
      exact ⟨x :: p, evs', rfl, h⟩
    | inr m => exact ⟨[], .inr m :: evs, rfl, Or.inr ⟨m, evs, rfl⟩⟩

@[simp] theorem replaced_append (f : Str → Str) (evs evs' : List Event) :
    replaced f (evs ++ evs') = replaced f evs ++ replaced f evs' := List.flatMap_append

@[simp] theorem replaced_map_inl (f : Str → Str) (w : Str) : replaced f (w.map .inl) = w := by
  induction w with
  | nil => rfl
  | cons x w ih => exact congrArg (x :: ·) ih

@[simp] theorem replaced_inl (f : Str → Str) (x : Char) (evs : List Event) :
    replaced f (.inl x :: evs) = x :: replaced f evs := rfl

@[simp] theorem replaced_inr (f : Str → Str) (m : Cursor × Cursor) (evs : List Event) :
    replaced f (.inr m :: evs) = f (m.1.upto m.2) ++ replaced f evs := rfl

namespace Scan

variable {r : Regex}

theorem passes {before a b : Str} {evs : List Event} (hno : NoStart r before a b) (h : Scan r ⟨a.reverse ++ before, b⟩ evs) :
    Scan r ⟨before, a ++ b⟩ (a.map .inl ++ evs) := by
  induction a generalizing before with
  | nil => exact h
  | cons x a ih =>
    obtain ⟨hx, hno⟩ := noStart_cons.1 hno
    exact .pass hx (ih hno (by simpa using h))

/-- a scan passes over a text in which no match starts -/
theorem pass_inv {before a b : Str} {evs : List Event} (hno : NoStart r before a b) (h : Scan r ⟨before, a ++ b⟩ evs) :
    ∃ evs', evs = a.map .inl ++ evs' ∧ Scan r ⟨a.reverse ++ before, b⟩ evs' := by
  induction a generalizing before evs with
  | nil => exact ⟨evs, rfl, h⟩
  | cons x a ih =>
    obtain ⟨hx, hno⟩ := noStart_cons.1 hno
    cases h with
    | pass _ h =>
      obtain ⟨evs', rfl, hrest⟩ := ih hno h
      exact ⟨evs', rfl, by simpa using hrest⟩
    | hit hm _ =>
      rw [List.cons_append, hx] at hm
      cases hm

/-- a scan reports the match at the cursor -/
theorem hit_inv {c e : Cursor} {evs : List Event} (hr : Consumes r) (hm : matchAt r c = some e) (h : Scan r c evs) :
    ∃ evs', evs = .inr (c, e) :: evs' ∧ Scan r e evs' := by
  cases h with
  | done => exact absurd (hr _ _ (List.mem_of_head? hm)) (by simp)
  | pass hnone _ =>
    rw [hnone] at hm
    cases hm
  | hit hm' h =>
    rw [hm] at hm'
    cases hm'
    exact ⟨_, rfl, h⟩

/-- **A scan goes through every character that no match reads.** -/
theorem through {c : Cursor} {evs : List Event} {x : Char} (hr : Consumes r)
    (hx : ∀ s w e, e ∈ run r s → Spans s w e → x ∉ w) (h : Scan r c evs) {a b : Str} (hab : c.after = a ++ x :: b) :
    ∃ evs₁ evs₂, evs = evs₁ ++ .inl x :: evs₂ ∧ (a = [] → evs₁ = []) ∧ Scan r ⟨x :: (a.reverse ++ c.before), b⟩ evs₂ := by
  induction h generalizing a with
  | done => exact absurd hab (by simp)
  | @pass before xs y evs hnone h ih =>
    cases a with
    | nil =>
      obtain ⟨rfl, rfl⟩ := List.cons.inj (show y :: xs = x :: b from hab)
      exact ⟨[], evs, rfl, fun _ => rfl, h⟩
    | cons z a =>
      obtain ⟨rfl, hxs⟩ := List.cons.inj (show y :: xs = z :: (a ++ x :: b) from hab)
      obtain ⟨evs₁, evs₂, rfl, -, h₂⟩ := ih hxs
      exact ⟨.inl y :: evs₁, evs₂, rfl, by simp, by simpa using h₂⟩
  | @hit c e evs hm h ih =>
    obtain ⟨w, hw⟩ := run_spans (List.mem_of_head? hm)
    have hne := hx c w e (List.mem_of_head? hm) hw
    -- the match ends before x
    have hother : ∀ y ∈ w, decide (y ≠ x) = true := fun y hy => decide_eq_true fun heq => hne (heq ▸ hy)
    obtain ⟨v, rfl, he⟩ := Text.within_stretch (hab.symm.trans hw.1) hother (by simp)
    obtain ⟨evs₁, evs₂, rfl, -, h₂⟩ := ih he
    refine ⟨.inr (c, e) :: evs₁, evs₂, rfl, fun hnil => ?_, ?_⟩
    · have hlt := hr _ _ (List.mem_of_head? hm)
      rw [hw.1, (List.append_eq_nil_iff.1 hnil).1] at hlt
      simp at hlt
    · rw [hw.2] at h₂
      simpa using h₂

/-- where the events so far lead -/
theorem reach {c : Cursor} {evs₁ evs₂ : List Event} (h : Scan r c (evs₁ ++ evs₂)) :
    ∃ d, Spans c (replaced id evs₁) d ∧ Scan r d evs₂ := by
  induction evs₁ generalizing c with
  | nil => exact ⟨c, Spans.refl c, h⟩
  | cons ev evs₁ ih =>
    cases h with
    | @pass before xs x _ _ h =>
      obtain ⟨d, hd, hscan⟩ := ih h
      exact ⟨d, (Spans.one before x xs).trans hd, hscan⟩
    | @hit _ e _ hm h =>
      obtain ⟨w, hw⟩ := run_spans (List.mem_of_head? hm)
      obtain ⟨d, hd, hscan⟩ := ih h
      refine ⟨d, ?_, hscan⟩
      rw [replaced_inr, hw.upto]
      exact hw.trans hd

/-- a scan of a text reads it -/
theorem source {c : Cursor} {evs : List Event} (h : Scan r c evs) : replaced id evs = c.after := by
  have hend : Scan r c (evs ++ []) := by simpa using h
  obtain ⟨d, hd, hdone⟩ := hend.reach
  cases hdone
  simpa using hd.1.symm

/-- there is one scan from a cursor on -/
theorem unique {c : Cursor} {evs evs' : List Event} (hr : Consumes r) (h : Scan r c evs) (h' : Scan r c evs') : evs' = evs := by
  induction h generalizing evs' with
  | done =>
    cases h' with
    | done => rfl
    | hit hm _ => exact absurd (hr _ _ (List.mem_of_head? hm)) (by simp)
  | pass hnone _ ih =>
    cases h' with
    | pass _ h' => rw [ih h']
    | hit hm _ =>
      rw [hnone] at hm
      cases hm
  | hit hm _ ih =>
    obtain ⟨evs₂, rfl, h₂⟩ := h'.hit_inv hr hm
    rw [ih h₂]

theorem mem {c : Cursor} {evs : List Event} (h : Scan r c evs) {m : Cursor × Cursor} (hm : m ∈ hits evs) :
    matchAt r m.1 = some m.2 ∧ m.1.text = c.text ∧ c.offset ≤ m.1.offset := by
  induction h with
  | done => cases hm
  | @pass before xs x evs _ _ ih =>
    obtain ⟨hat, ht, ho⟩ := ih hm
    exact ⟨hat, by simpa [Cursor.text] using ht, le_trans (by simp [Cursor.offset]) ho⟩
  | @hit c e evs hmatch _ ih =>
    rcases List.mem_cons.1 hm with rfl | hm
    · exact ⟨hmatch, rfl, le_rfl⟩
    · obtain ⟨w, hw⟩ := run_spans (List.mem_of_head? hmatch)
      obtain ⟨hat, ht, ho⟩ := ih hm
      exact ⟨hat, ht.trans hw.text, le_trans (by simp [hw.offset]) ho⟩

/-- the matches of a scan follow each other -/
theorem pairwise {c : Cursor} {evs : List Event} (h : Scan r c evs) :
    (hits evs).Pairwise fun m m' => m.2.offset ≤ m'.1.offset := by
  induction h with
  | done => exact .nil
  | pass _ _ ih => exact ih
  | hit _ h ih => exact List.pairwise_cons.2 ⟨fun m hm => (h.mem hm).2.2, ih⟩

end Scan

/-- **There is a scan of every text**, and `findAll`, `replaceFrom` and `replaceByFrom` are read off it. -/
theorem exists_scan_from {r : Regex} (hr : Consumes r) {n : ℕ} {c : Cursor} (hn : c.after.length < n) :
    ∃ evs, Scan r c evs ∧ findAll r n c = hits evs ∧ (∀ repl, replaceFrom r repl n c = replaced (fun _ => repl) evs) ∧
      ∀ f, replaceByFrom r f n c = replaced f evs := by
  induction n generalizing c with
  | zero => cases hn
  | succ n ih =>
    obtain ⟨before, after⟩ := c
    rcases searchFrom_cases r before after with ⟨hs, hno, -⟩ | ⟨a, b, e, rfl, hs, hno, hat⟩
    · refine ⟨after.map .inl, ?_, ?_, fun repl => ?_, fun f => ?_⟩
      · simpa using Scan.passes hno .done
      · simp [findAll, hs]
      · simp [replaceFrom, hs]
      · simp [replaceByFrom, hs]
    · have hlt : e.after.length < b.length := hr _ _ (List.mem_of_head? hat)
      have hupto : Cursor.upto ⟨before, a ++ b⟩ ⟨a.reverse ++ before, b⟩ = a := Spans.upto ⟨rfl, rfl⟩
      obtain ⟨evs, hscan, hfind, hrepl, hby⟩ := ih (c := e) (by simp at hn; omega)
      refine ⟨a.map .inl ++ .inr (⟨a.reverse ++ before, b⟩, e) :: evs, Scan.passes hno (.hit hat hscan), ?_, fun repl => ?_,
        fun f => ?_⟩
      · simp [findAll, hs, hlt, hfind]
      · simp [replaceFrom, hs, hlt, hrepl, hupto]
      · simp [replaceByFrom, hs, hby, hupto]

theorem exists_scan {r : Regex} (hr : Consumes r) (text : Str) :
    ∃ evs, Scan r ⟨[], text⟩ evs ∧ finditer r text = hits evs ∧ (∀ repl, sub r repl text = replaced (fun _ => repl) evs) ∧
      ∀ f, subBy r f text = replaced f evs :=
  exists_scan_from hr (Nat.lt_succ_self _)

theorem finditer_eq_nil {r : Regex} {text : Str} : finditer r text = [] ↔ search r text = none := by
  rw [finditer, findAll, search]
  cases searchFrom r [] text with
  | none => simp
  | some m => simp

/-- every match of `finditer` lies in the text -/
theorem finditer_spec {r : Regex} (hr : Consumes r) {text : Str} {m : Cursor × Cursor} (h : m ∈ finditer r text) :
    matchAt r m.1 = some m.2 ∧ m.1.text = text := by
  obtain ⟨evs, hscan, hfind, -⟩ := exists_scan hr text
  rw [hfind] at h
  obtain ⟨hat, ht, -⟩ := hscan.mem h
  exact ⟨hat, ht⟩

/-- `finditer` goes from left to right -/
theorem finditer_pairwise {r : Regex} (hr : Consumes r) (text : Str) :
    (finditer r text).Pairwise fun m m' => m.2.offset ≤ m'.1.offset := by
  obtain ⟨evs, hscan, hfind, -⟩ := exists_scan hr text
  rw [hfind]
  exact hscan.pairwise

end Regex

end AgentPick
