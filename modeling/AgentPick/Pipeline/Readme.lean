/-
README parsing (`hf_vectorizer/parsing.py`, `ReadmeParser.parse_readme`).

The parser is a line-by-line state machine with two interacting variables: `in_frontmatter`, which EVERY line that strips
to `---` toggles, and `current_section`, whose truth value decides whether a section is saved. `parseReadme` follows it
line by line; a README that cannot be read is `none`.

A ghost run (`gline`) also records the number of the `## ` line each section is made from; `gparse_erase` proves that
without the numbers it IS the parser.

What the parser should keep is stated without the state machine: `body` is the numbered lines after the front matter
(a first line `---` up to the next one), `split` cuts it at its `## ` lines, and `KeepsText` says that each `## ` line with
text below it is the source of exactly one section and that this section holds all that text, in order.

Results:
- `gparse_eq`: the sections are those of the `## ` lines with an even number of `---` lines before them, each with the
  even lines below it. This is what the state machine computes.
- `keepsText_iff`: the parser keeps the text exactly when no `## ` line with text below it, and none of that text, has an
  odd number of `---` lines before it, and no such `## ` line has a blank title.
- `keepsText_of_plain`: so it does for a README whose only `---` lines are those of its front matter and whose titles are
  not blank.
- `rule_drops_text`: a horizontal rule in the body silently drops the text after it.
-/
import Mathlib.Tactic
import AgentPick.Core.Text

namespace AgentPick.Readme

open AgentPick.Text

/-! ## The parser -/

structure Section where
  header : Str
  content : Str
deriving DecidableEq, Repr

structure PState where
  sections : List Section
  currentSection : Option Str
  currentContent : List Str
  inFrontmatter : Bool
deriving DecidableEq, Repr

def isRule (line : Str) : Bool := strip line = "---".toList

def isHeader (line : Str) : Bool := "## ".toList.isPrefixOf line

/-- the title of a `## ` line: `line[3:].strip()` -/
def title (line : Str) : Str := strip (line.drop 3)

/-- `if current_section:` append it when its content is not blank -/
def saveSection (st : PState) : List Section :=
  match st.currentSection with
  | none => st.sections
  | some h =>
    if h = [] then st.sections
    else
      let contentText := strip (joinLines st.currentContent)
      if contentText = [] then st.sections else st.sections ++ [⟨h, contentText⟩]

/-- the body of `for line in lines` -/
def parseLine (st : PState) (line : Str) : PState :=
  if isRule line then { st with inFrontmatter := !st.inFrontmatter }
  else if st.inFrontmatter then st
  else if isHeader line then
    { st with sections := saveSection st, currentSection := some (title line), currentContent := [] }
  else if st.currentSection.isSome then { st with currentContent := st.currentContent ++ [line] }
  else st

def init : PState := ⟨[], none, [], false⟩

/-- `parse_readme`; `none` is a file that cannot be read -/
def parseReadme : Option Str → List Section
  | none => []
  | some content =>
    let sections := saveSection ((content.splitOn '\n').foldl parseLine init)
    if sections = [] ∧ strip content ≠ [] then [⟨"Full Content".toList, strip content⟩] else sections

/-! ## The ghost run -/

/-- the parser's state, with the line number of each header -/
structure GState where
  sections : List (ℕ × Section)
  currentSection : Option (ℕ × Str)
  currentContent : List Str
  inFrontmatter : Bool
  /-- lines read so far -/
  line : ℕ
deriving DecidableEq, Repr

/-- the section a header and the lines under it make, if any -/
def close (cur : Option (ℕ × Str)) (content : List Str) : List (ℕ × Section) :=
  match cur with
  | none => []
  | some (j, h) =>
    if h = [] then []
    else
      let contentText := strip (joinLines content)
      if contentText = [] then [] else [(j, ⟨h, contentText⟩)]

def gsave (g : GState) : List (ℕ × Section) := g.sections ++ close g.currentSection g.currentContent

/-- mirrors `parseLine` -/
def gline (g : GState) (line : Str) : GState :=
  if isRule line then { g with inFrontmatter := !g.inFrontmatter, line := g.line + 1 }
  else if g.inFrontmatter then { g with line := g.line + 1 }
  else if isHeader line then
    { g with sections := gsave g, currentSection := some (g.line, title line), currentContent := [], line := g.line + 1 }
  else if g.currentSection.isSome then { g with currentContent := g.currentContent ++ [line], line := g.line + 1 }
  else { g with line := g.line + 1 }

def ginit : GState := ⟨[], none, [], false, 0⟩

/-- the sections found in a text, each with the number of the line it is made from -/
def gparse (lines : List Str) : List (ℕ × Section) := gsave (lines.foldl gline ginit)

def GState.erase (g : GState) : PState :=
  ⟨g.sections.map Prod.snd, g.currentSection.map Prod.snd, g.currentContent, g.inFrontmatter⟩

theorem gsave_erase (g : GState) : saveSection g.erase = (gsave g).map Prod.snd := by
  unfold saveSection gsave close GState.erase
  cases g.currentSection with
  | none => simp
  | some c =>
    simp only [Option.map_some, List.map_append]
    split_ifs <;> simp

theorem gline_erase (g : GState) (line : Str) : (gline g line).erase = parseLine g.erase line := by
  have hi : g.erase.inFrontmatter = g.inFrontmatter := rfl
  have hs : g.erase.currentSection.isSome = g.currentSection.isSome := by simp [GState.erase]
  unfold gline parseLine
  rw [hi, hs, gsave_erase]
  split_ifs <;> rfl

/-- without the line numbers the ghost run is the parser -/
theorem gparse_erase (lines : List Str) : saveSection (lines.foldl parseLine init) = (gparse lines).map Prod.snd := by
  rw [gparse, ← gsave_erase]
  have h : ∀ g : GState, (lines.foldl gline g).erase = lines.foldl parseLine g.erase := by
    induction lines with
    | nil => exact fun _ => rfl
    | cons l lines ih => exact fun g => by rw [List.foldl_cons, List.foldl_cons, ih, gline_erase]
  rw [h]; rfl

/-- `parse_readme` with, for each returned section, the number of the `## ` line it is made from -/
def gparseReadme : Option Str → List (Option ℕ × Section)
  | none => []
  | some content =>
    let sections := gparse (content.splitOn '\n')
    if sections = [] ∧ strip content ≠ [] then [(none, ⟨"Full Content".toList, strip content⟩)]
    else sections.map fun e => (some e.1, e.2)

theorem gparseReadme_erase (read : Option Str) : (gparseReadme read).map Prod.snd = parseReadme read := by
  cases read with
  | none => rfl
  | some content =>
    unfold gparseReadme parseReadme
    simp only [gparse_erase, List.map_eq_nil_iff]
    split_ifs <;> simp

/-! ## Lines and their headers -/

/-- a line of the file: its number, whether an odd number of `---` lines stands before it, its text -/
structure Line where
  idx : ℕ
  odd : Bool
  text : Str
deriving DecidableEq, Repr

/-- the lines that are not `---`, numbered from i; `odd` tells the parity of the `---` lines so far -/
def number (i : ℕ) (odd : Bool) : List Str → List Line
  | [] => []
  | l :: ls => if isRule l then number (i + 1) (!odd) ls else ⟨i, odd, l⟩ :: number (i + 1) odd ls

/-- cut at the `## ` lines: the lines before the first one, then each with the lines under it -/
def split : List Line → List Line × List (Line × List Line)
  | [] => ([], [])
  | l :: ls => if isHeader l.text then ([], (l, (split ls).1) :: (split ls).2) else (l :: (split ls).1, (split ls).2)

def even (ls : List Line) : List Line := ls.filter fun l => !l.odd

def texts (ls : List Line) : List Str := stripped (ls.map Line.text)

@[simp] theorem texts_nil : texts [] = [] := rfl

theorem texts_cons (l : Line) (ls : List Line) :
    texts (l :: ls) = if strip l.text = [] then texts ls else strip l.text :: texts ls := by
  simp [texts]

theorem texts_sublist {a b : List Line} (h : a.Sublist b) : (texts a).Sublist (texts b) :=
  ((h.map _).map _).filter _

@[simp] theorem even_nil : even [] = [] := rfl

theorem even_cons (l : Line) (ls : List Line) : even (l :: ls) = if l.odd then even ls else l :: even ls := by
  cases h : l.odd <;> simp [even, h]

theorem mem_even {l : Line} {ls : List Line} : l ∈ even ls ↔ l ∈ ls ∧ l.odd = false := by
  simp [even]

/-- the section made from a `## ` line and the lines under it, if any -/
def made (p : Line × List Line) : List (ℕ × Section) :=
  close (some (p.1.idx, title p.1.text)) (p.2.map Line.text)

theorem gsave_foldl (lines : List Str) (g : GState) :
    gsave (lines.foldl gline g) =
      g.sections ++
        close g.currentSection (g.currentContent ++ (split (even (number g.line g.inFrontmatter lines))).1.map Line.text) ++
          (split (even (number g.line g.inFrontmatter lines))).2.flatMap made := by
  induction lines generalizing g with
  | nil => simp [number, split, gsave]
  | cons l lines ih =>
    rw [List.foldl_cons, ih, gline, number]
    split_ifs with h1 h2 h3 h4
    · rfl
    · simp [even_cons, h2]
    · -- a header: the open section is saved, the lines up to the next header belong to this one
      have h2' : g.inFrontmatter = false := by simpa using h2
      simp [even_cons, h2', split, h3, gsave, made]
    · have h2' : g.inFrontmatter = false := by simpa using h2
      simp [even_cons, h2', split, h3]
    · have h2' : g.inFrontmatter = false := by simpa using h2
      have h4' : g.currentSection = none := by simpa using h4
      simp [even_cons, h2', split, h3, h4', close]

/-- **What the state machine computes**: the sections of the even `## ` lines, each with the even lines under it -/
theorem gparse_eq (lines : List Str) : gparse lines = (split (even (number 0 false lines))).2.flatMap made := by
  rw [gparse, gsave_foldl]; rfl

/-! ## What must be kept -/

/-- the lines of the front matter: a first line `---` up to the next one, if there is a next one -/
def frontMatter : List Str → ℕ
  | [] => 0
  | l :: ls => if isRule l then ((ls.findIdx? isRule).map (· + 2)).getD 0 else 0

/-- the numbered lines after the front matter, without the `---` lines -/
def body (lines : List Str) : List Line := (number 0 false lines).filter fun l => frontMatter lines ≤ l.idx

/-- `p` is a `## ` line with the lines under it: exactly one returned section is made from it, and every non-blank line
of `p` stands in that section, up to the whitespace around it and in order -/
def Kept (returned : List (Option ℕ × Section)) (p : Line × List Line) : Prop :=
  ∃ s, returned.filter (fun e => e.1 = some p.1.idx) = [(some p.1.idx, s)] ∧
    (texts p.2).Sublist (Text.texts s.content)

/-- every non-blank line after the front matter that follows a `## ` line is kept in the section of that `## ` line -/
def KeepsText (content : Str) : Prop :=
  ∀ p ∈ (split (body (content.splitOn '\n'))).2, texts p.2 ≠ [] → Kept (gparseReadme (some content)) p

/-- every `## ` line with text below it has a title, and an even number of `---` lines stands before it and before each
non-blank line of that text -/
def Balanced (content : Str) : Prop :=
  ∀ p ∈ (split (body (content.splitOn '\n'))).2, texts p.2 ≠ [] →
    p.1.odd = false ∧ title p.1.text ≠ [] ∧ ∀ l ∈ p.2, strip l.text ≠ [] → l.odd = false

/-! ## Numbering -/

theorem idx_le_of_mem_number {l : Line} {ls : List Str} {i : ℕ} {o : Bool} (h : l ∈ number i o ls) : i ≤ l.idx := by
  induction ls generalizing i o with
  | nil => simp [number] at h
  | cons t ls ih =>
    rw [number] at h
    split_ifs at h
    · exact Nat.le_of_succ_le (ih h)
    · rcases List.mem_cons.1 h with rfl | h
      · exact le_rfl
      · exact Nat.le_of_succ_le (ih h)

theorem number_pairwise (i : ℕ) (o : Bool) (ls : List Str) : (number i o ls).Pairwise fun a b => a.idx < b.idx := by
  induction ls generalizing i o with
  | nil => exact List.Pairwise.nil
  | cons t ls ih =>
    rw [number]
    split_ifs
    · exact ih _ _
    · exact List.pairwise_cons.2 ⟨fun b hb => idx_le_of_mem_number hb, ih _ _⟩

/-- before the closing `---` every line is on the same side of the toggle -/
theorem odd_of_lt {ls : List Str} {i k : ℕ} {o : Bool} (hk : ls.findIdx? isRule = some k) {l : Line}
    (h : l ∈ number i o ls) (hl : l.idx ≤ i + k) : l.odd = o := by
  induction ls generalizing i k with
  | nil => simp at hk
  | cons t ls ih =>
    rw [number] at h
    rw [List.findIdx?_cons] at hk
    split_ifs at h hk with ht
    · have h1 := idx_le_of_mem_number h
      simp only [Option.some.injEq] at hk
      omega
    · obtain ⟨k', hk', rfl⟩ := Option.map_eq_some_iff.1 hk
      rcases List.mem_cons.1 h with rfl | h
      · rfl
      · exact ih hk' h (by omega)

/-- the lines the parser looks at lie after the front matter -/
theorem even_body (lines : List Str) : even (body lines) = even (number 0 false lines) := by
  unfold even body
  rw [List.filter_filter]
  apply List.filter_congr
  intro l hl
  by_cases ho : l.odd
  · simp [ho]
  · simp only [ho, Bool.not_false, Bool.true_and, decide_eq_true_eq]
    -- an even line is not in the front matter, whose lines are odd
    cases lines with
    | nil => simp [number] at hl
    | cons t ls =>
      rw [frontMatter]
      split_ifs with ht
      · rw [number, if_pos ht] at hl
        cases hk : ls.findIdx? isRule with
        | none => simp
        | some k =>
          by_contra hlt
          simp only [Option.map_some, Option.getD_some, not_le] at hlt
          exact ho (odd_of_lt hk hl (by omega))
      · exact Nat.zero_le _

/-! ## Headers and parity -/

theorem mem_of_mem_split {L : List Line} {p : Line × List Line} (h : p ∈ (split L).2) :
    p.1 ∈ L ∧ ∀ l ∈ p.2, l ∈ L := by
  have hpre : ∀ L : List Line, ∀ l ∈ (split L).1, l ∈ L := by
    intro L
    induction L with
    | nil => simp [split]
    | cons l L ih =>
      intro x hx
      rw [split] at hx
      split_ifs at hx
      · simp at hx
      · rcases List.mem_cons.1 hx with rfl | hx
        · exact List.mem_cons_self
        · exact List.mem_cons_of_mem _ (ih x hx)
  induction L with
  | nil => simp [split] at h
  | cons l L ih =>
    have hold : p ∈ (split L).2 → p.1 ∈ l :: L ∧ ∀ x ∈ p.2, x ∈ l :: L := fun hp =>
      ⟨List.mem_cons_of_mem _ (ih hp).1, fun x hx => List.mem_cons_of_mem _ ((ih hp).2 x hx)⟩
    rw [split] at h
    split_ifs at h
    · rcases List.mem_cons.1 h with rfl | h
      · exact ⟨List.mem_cons_self, fun x hx => List.mem_cons_of_mem _ (hpre L x hx)⟩
      · exact hold h
    · exact hold h

theorem split_pairwise {L : List Line} (h : L.Pairwise fun a b => a.idx < b.idx) :
    (split L).2.Pairwise fun p q => p.1.idx < q.1.idx := by
  induction L with
  | nil => simp [split]
  | cons l L ih =>
    obtain ⟨h1, h2⟩ := List.pairwise_cons.1 h
    rw [split]
    split_ifs
    · exact List.pairwise_cons.2 ⟨fun q hq => h1 _ (mem_of_mem_split hq).1, ih h2⟩
    · exact ih h2

/-- the sections made from one of several `## ` lines -/
theorem filter_made {gs : List (Line × List Line)} (h : gs.Pairwise fun p q => p.1.idx < q.1.idx)
    {p : Line × List Line} (hp : p ∈ gs) : (gs.flatMap made).filter (fun e => e.1 = p.1.idx) = made p := by
  have hone : ∀ q : Line × List Line, ∀ e ∈ made q, e.1 = q.1.idx := by
    intro q e he
    simp only [made, close] at he
    split_ifs at he <;> simp at he
    simp [he]
  have hother : ∀ l : List (Line × List Line), (∀ q ∈ l, q.1.idx ≠ p.1.idx) →
      (l.flatMap made).filter (fun e => e.1 = p.1.idx) = [] := by
    intro l hl
    apply List.filter_eq_nil_iff.2
    intro e he
    obtain ⟨q, hq, heq⟩ := List.mem_flatMap.1 he
    simpa [hone q e heq] using hl q hq
  induction gs with
  | nil => simp at hp
  | cons q gs ih =>
    obtain ⟨h1, h2⟩ := List.pairwise_cons.1 h
    rw [List.flatMap_cons, List.filter_append]
    rcases List.mem_cons.1 hp with rfl | hp
    · rw [hother gs fun r hr => (h1 r hr).ne', List.append_nil]
      exact List.filter_eq_self.2 fun e he => by simpa using hone p e he
    · have hq : (made q).filter (fun e => e.1 = p.1.idx) = [] := by
        apply List.filter_eq_nil_iff.2
        intro e he
        simpa [hone q e he] using (h1 p hp).ne
      rw [hq, List.nil_append, ih h2 hp]

/-- the hypothesis under which no text changes its header: a header with text under it is even -/
def HeadersEven (L : List Line) : Prop := ∀ p ∈ (split L).2, texts p.2 ≠ [] → p.1.odd = false

theorem headersEven_cons {l : Line} {L : List Line} (h : HeadersEven (l :: L)) : HeadersEven L := by
  intro p hp
  refine h p ?_
  rw [split]
  split_ifs
  · exact List.mem_cons_of_mem _ hp
  · exact hp

/-- the even text before the first even header is the even text before the first header -/
theorem texts_split_even {L : List Line} (h : HeadersEven L) :
    texts (split (even L)).1 = texts (even (split L).1) := by
  induction L with
  | nil => rfl
  | cons l L ih =>
    have ih := ih (headersEven_cons h)
    by_cases hh : isHeader l.text
    · by_cases ho : l.odd
      · -- an odd header is skipped; there is no text under it
        have hno : texts (split L).1 = [] := by
          by_contra hne
          have := h (l, (split L).1) (by simp [split, hh]) hne
          simp [ho] at this
        have hsub : (texts (even (split L).1)).Sublist (texts (split L).1) := texts_sublist List.filter_sublist
        rw [hno, List.sublist_nil] at hsub
        simp [even_cons, ho, split, hh, ih, hsub]
      · simp [even_cons, ho, split, hh]
    · by_cases ho : l.odd
      · simp [even_cons, ho, split, hh, ih]
      · simp [even_cons, ho, split, hh, texts_cons, ih]

/-- an even header keeps the even text under it -/
theorem split_even {L : List Line} {p : Line × List Line} (hp : p ∈ (split L).2) (ho : p.1.odd = false) :
    ∃ ls, (p.1, ls) ∈ (split (even L)).2 ∧ (HeadersEven L → texts ls = texts (even p.2)) := by
  induction L with
  | nil => simp [split] at hp
  | cons l L ih =>
    have hold : p ∈ (split L).2 →
        ∃ ls, (p.1, ls) ∈ (split (even (l :: L))).2 ∧ (HeadersEven (l :: L) → texts ls = texts (even p.2)) := by
      intro hp
      obtain ⟨ls, hls, ht⟩ := ih hp
      refine ⟨ls, ?_, fun h => ht (headersEven_cons h)⟩
      rw [even_cons]
      split_ifs
      · exact hls
      · rw [split]
        split_ifs
        · exact List.mem_cons_of_mem _ hls
        · exact hls
    rw [split] at hp
    split_ifs at hp with hh
    · rcases List.mem_cons.1 hp with rfl | hp
      · refine ⟨(split (even L)).1, ?_, fun h => texts_split_even (headersEven_cons h)⟩
        simp only at ho
        simp [even_cons, ho, split, hh]
      · exact hold hp
    · exact hold hp

/-- the text of even lines is all the text iff every non-blank line is even -/
theorem texts_even_eq {ls : List Line} :
    (texts ls).Sublist (texts (even ls)) ↔ ∀ l ∈ ls, strip l.text ≠ [] → l.odd = false := by
  refine ⟨?_, ?_⟩
  · intro h
    induction ls with
    | nil => simp
    | cons l ls ih =>
      rw [texts_cons, even_cons] at h
      have hsub : (texts (even ls)).Sublist (texts ls) := texts_sublist List.filter_sublist
      intro x hx hne
      rcases List.mem_cons.1 hx with rfl | hx
      · by_contra ho
        rw [if_neg hne, if_pos (by simpa using ho)] at h
        have h1 := h.length_le
        have h2 := hsub.length_le
        rw [List.length_cons] at h1
        omega
      · refine ih ?_ x hx hne
        split_ifs at h with hb ho ho
        · exact h
        · rw [texts_cons, if_pos hb] at h; exact h
        · exact (List.sublist_cons_self _ _).trans h
        · rw [texts_cons, if_neg hb] at h; exact List.cons_sublist_cons.1 h
  · intro h
    have : texts (even ls) = texts ls := by
      induction ls with
      | nil => rfl
      | cons l ls ih =>
        have ih := ih fun x hx => h x (List.mem_cons_of_mem _ hx)
        rw [even_cons, texts_cons]
        split_ifs with ho hb hb
        · exact ih
        · have := h l List.mem_cons_self hb
          simp [ho] at this
        · rw [texts_cons, if_pos hb, ih]
        · rw [texts_cons, if_neg hb, ih]
    rw [this]

/-! ## When the text is kept -/

theorem no_break_of_mem_number {l : Line} {ls : List Str} {i : ℕ} {o : Bool} (hls : ∀ t ∈ ls, '\n' ∉ t)
    (h : l ∈ number i o ls) : '\n' ∉ l.text := by
  induction ls generalizing i o with
  | nil => simp [number] at h
  | cons t ls ih =>
    have ih := fun {i o} h => ih (i := i) (o := o) (fun t ht => hls t (List.mem_cons_of_mem _ ht)) h
    rw [number] at h
    split_ifs at h
    · exact ih h
    · rcases List.mem_cons.1 h with rfl | h
      · exact hls _ List.mem_cons_self
      · exact ih h

theorem title_of_made {p : Line × List Line} {e : ℕ × Section} (h : e ∈ made p) :
    e.1 = p.1.idx ∧ title p.1.text ≠ [] := by
  simp only [made, close] at h
  split_ifs at h with h1 h2 <;> simp at h
  exact ⟨by simp [h], h1⟩

/-- the returned sections made from line j are the parsed ones: the fallback section is made from no line -/
theorem filter_returned (content : Str) (j : ℕ) :
    (gparseReadme (some content)).filter (fun e => e.1 = some j) =
      ((gparse (content.splitOn '\n')).filter fun e => e.1 = j).map fun e => (some e.1, e.2) := by
  unfold gparseReadme
  simp only
  split_ifs with h
  · simp [h.1]
  · simp [List.filter_map, Function.comp_def]

section Iff

variable (content : Str)

theorem body_idx_inj {a b : Line} (ha : a ∈ body (content.splitOn '\n')) (hb : b ∈ body (content.splitOn '\n'))
    (h : a.idx = b.idx) : a = b := by
  have hp : ((body (content.splitOn '\n')).map Line.idx).Nodup :=
    List.pairwise_map.2 (((number_pairwise 0 false _).filter _).imp fun h => h.ne)
  exact List.inj_on_of_nodup_map hp ha hb h

/-- a returned section made from a `## ` line: the line is even and has a title -/
theorem even_of_kept {p : Line × List Line} (hp : p ∈ (split (body (content.splitOn '\n'))).2)
    (hk : Kept (gparseReadme (some content)) p) : p.1.odd = false ∧ title p.1.text ≠ [] := by
  obtain ⟨s, hs, -⟩ := hk
  rw [filter_returned, List.map_eq_singleton_iff] at hs
  obtain ⟨e, he, -⟩ := hs
  have hmem : e ∈ (gparse (content.splitOn '\n')).filter fun e => e.1 = p.1.idx := by rw [he]; simp
  obtain ⟨hg, hj⟩ := List.mem_filter.1 hmem
  rw [gparse_eq, ← even_body] at hg
  obtain ⟨q, hq, heq⟩ := List.mem_flatMap.1 hg
  obtain ⟨h1, h2⟩ := title_of_made heq
  have hqe := mem_even.1 (mem_of_mem_split hq).1
  have hidx : q.1.idx = p.1.idx := h1.symm.trans (by simpa using hj)
  have := body_idx_inj content hqe.1 (mem_of_mem_split hp).1 hidx
  exact ⟨this ▸ hqe.2, this ▸ h2⟩

/-- the returned sections made from an even `## ` line -/
theorem filter_returned_split {q : Line × List Line} (hq : q ∈ (split (even (body (content.splitOn '\n')))).2) :
    (gparseReadme (some content)).filter (fun e => e.1 = some q.1.idx) = (made q).map fun e => (some e.1, e.2) := by
  have hpw : (split (even (body (content.splitOn '\n')))).2.Pairwise fun p q => p.1.idx < q.1.idx :=
    split_pairwise (((number_pairwise 0 false _).filter _).filter _)
  rw [filter_returned, gparse_eq, ← even_body, filter_made hpw hq]

theorem joined_texts {q : Line × List Line} (hq : q ∈ (split (even (body (content.splitOn '\n')))).2) :
    Text.texts (joinLines (q.2.map Line.text)) = texts q.2 := by
  apply texts_joinLines
  intro t ht
  obtain ⟨l, hl, rfl⟩ := List.mem_map.1 ht
  have hb := (mem_even.1 ((mem_of_mem_split hq).2 l hl)).1
  exact no_break_of_mem_number (fun _ => not_mem_of_mem_splitOn) (List.mem_filter.1 hb).1

/-- an even titled `## ` line makes the returned sections of its even text: one section holding it, if it is not blank -/
theorem returned_of_even {p : Line × List Line} (hp : p ∈ (split (body (content.splitOn '\n'))).2)
    (hev : HeadersEven (body (content.splitOn '\n'))) (ho : p.1.odd = false) (ht : title p.1.text ≠ []) :
    ∃ t : Str, Text.texts t = texts (even p.2) ∧
      (gparseReadme (some content)).filter (fun e => e.1 = some p.1.idx) =
        if texts (even p.2) = [] then [] else [(some p.1.idx, ⟨title p.1.text, t⟩)] := by
  obtain ⟨ls, hls, htx⟩ := split_even hp ho
  have hj := (joined_texts content hls).trans (htx hev)
  refine ⟨strip (joinLines (ls.map Line.text)), (texts_strip _).trans hj, ?_⟩
  have hb : strip (joinLines (ls.map Line.text)) = [] ↔ texts (even p.2) = [] := by rw [← texts_eq_nil, hj]
  rw [filter_returned_split content hls]
  by_cases hx : texts (even p.2) = [] <;> simp [made, close, ht, hb, hx]

theorem balanced_of_keepsText (h : KeepsText content) : Balanced content := by
  have hev : HeadersEven (body (content.splitOn '\n')) := fun p hp hx => (even_of_kept content hp (h p hp hx)).1
  intro p hp hx
  obtain ⟨ho, ht⟩ := even_of_kept content hp (h p hp hx)
  refine ⟨ho, ht, texts_even_eq.1 ?_⟩
  obtain ⟨s, hs, hsub⟩ := h p hp hx
  -- the section holds the even text only, so the text it keeps is even
  obtain ⟨t, htx, hr⟩ := returned_of_even content hp hev ho ht
  rw [hs] at hr
  split_ifs at hr
  simp only [List.cons.injEq, Prod.mk.injEq, true_and, and_true] at hr
  rw [hr] at hsub
  rwa [← htx]

theorem keepsText_of_balanced (h : Balanced content) : KeepsText content := by
  intro p hp hx
  obtain ⟨ho, ht, hl⟩ := h p hp hx
  have hsub := texts_even_eq.2 hl
  have hne : texts (even p.2) ≠ [] := fun h0 => hx (List.sublist_nil.1 (h0 ▸ hsub))
  obtain ⟨t, htx, hr⟩ := returned_of_even content hp (fun q hq hqx => (h q hq hqx).1) ho ht
  rw [if_neg hne] at hr
  exact ⟨_, hr, htx ▸ hsub⟩

/-- **When the text is kept.** `parse_readme` keeps, in the one section made from the nearest `## ` line above it, every
non-blank line after the front matter that has a `## ` line above it, if and only if each `## ` line with text below has
a title, and no such `## ` line and none of that text has an odd number of `---` lines before it. -/
theorem keepsText_iff : KeepsText content ↔ Balanced content :=
  ⟨balanced_of_keepsText content, keepsText_of_balanced content⟩

end Iff

/-- **A horizontal rule drops text.** The line after the rule is in no section. -/
theorem rule_drops_text : ¬ KeepsText "## Usage\nfirst\n---\nsecond".toList := by
  intro h
  obtain ⟨s, hs, hsub⟩ := h (⟨0, false, "## Usage".toList⟩, [⟨1, false, "first".toList⟩, ⟨3, true, "second".toList⟩])
    (by decide) (by decide)
  have hr : (gparseReadme (some "## Usage\nfirst\n---\nsecond".toList)).filter (fun e => e.1 = some 0) =
      [(some 0, ⟨"Usage".toList, "first".toList⟩)] := by decide
  rw [hr] at hs
  simp only [List.cons.injEq, Prod.mk.injEq, true_and, and_true] at hs
  subst hs
  exact absurd hsub (by decide)

/-! ## Plain READMEs -/

theorem odd_of_no_rule {ls : List Str} {i : ℕ} {o : Bool} (hr : ∀ t ∈ ls, ¬ isRule t) {l : Line}
    (h : l ∈ number i o ls) : l.odd = o := by
  induction ls generalizing i with
  | nil => simp [number] at h
  | cons t ls ih =>
    rw [number, if_neg (hr t List.mem_cons_self)] at h
    rcases List.mem_cons.1 h with rfl | h
    · rfl
    · exact ih (fun t ht => hr t (List.mem_cons_of_mem _ ht)) h

/-- the lines after the first `---` are numbered from there, with the toggle turned -/
theorem mem_number_after {ls : List Str} {i k : ℕ} {o : Bool} (hk : ls.findIdx? isRule = some k) {l : Line}
    (h : l ∈ number i o ls) (hl : i + k < l.idx) : l ∈ number (i + k + 1) (!o) (ls.drop (k + 1)) := by
  induction ls generalizing i k with
  | nil => simp at hk
  | cons t ls ih =>
    rw [number] at h
    rw [List.findIdx?_cons] at hk
    split_ifs at h hk with ht
    · simp only [Option.some.injEq] at hk
      subst hk
      exact h
    · obtain ⟨k', hk', rfl⟩ := Option.map_eq_some_iff.1 hk
      rcases List.mem_cons.1 h with rfl | h
      · simp only at hl; omega
      · have := ih hk' h (by omega)
        rwa [show i + 1 + k' + 1 = i + (k' + 1) + 1 by omega] at this

theorem body_even_of_plain {lines : List Str} (hr : ∀ t ∈ lines.drop (frontMatter lines), ¬ isRule t) {l : Line}
    (h : l ∈ body lines) : l.odd = false := by
  obtain ⟨hm, hi⟩ := List.mem_filter.1 h
  simp only [decide_eq_true_eq] at hi
  cases lines with
  | nil => simp [number] at hm
  | cons t ls =>
    rw [frontMatter] at hr hi
    split_ifs at hr hi with ht
    · cases hk : ls.findIdx? isRule with
      | none => rw [hk] at hr; exact absurd ht (hr t (by simp))
      | some k =>
        simp only [hk, Option.map_some, Option.getD_some, List.drop_succ_cons] at hr hi
        rw [number, if_pos ht] at hm
        exact odd_of_no_rule hr (mem_number_after hk hm (by omega))
    · exact odd_of_no_rule hr hm

/-- **Plain READMEs keep their text**: no `---` line outside the front matter, no blank title -/
theorem keepsText_of_plain (content : Str)
    (hr : ∀ t ∈ (content.splitOn '\n').drop (frontMatter (content.splitOn '\n')), ¬ isRule t)
    (ht : ∀ p ∈ (split (body (content.splitOn '\n'))).2, title p.1.text ≠ []) : KeepsText content := by
  refine keepsText_of_balanced content fun p hp _ => ⟨?_, ht p hp, fun l hl _ => ?_⟩
  · exact body_even_of_plain hr (mem_of_mem_split hp).1
  · exact body_even_of_plain hr ((mem_of_mem_split hp).2 l hl)

end AgentPick.Readme
