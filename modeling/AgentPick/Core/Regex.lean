/-
Backtracking regular expressions (the `re` module). LIBRARY: nothing in this file names the pipeline.

A cursor is a position in a text: the characters before it, nearest first, and those after it. `run r c` lists the cursors
at which a match of `r` from `c` can end, in the order in which a backtracking matcher tries them, so its head is the match
found: alternatives from left to right, a greedy star with more repetitions first, a repetition only while it consumes.
Assertions (anchors, boundaries, lookarounds) are predicates on the cursor.

- `search_isSome`, `run_litBy`: a search succeeds iff a match starts somewhere; a literal matches its text.
-/
import Mathlib.Tactic
import AgentPick.Core.Text

namespace AgentPick

/-- a position in a text -/
structure Cursor where
  /-- the characters before, nearest first -/
  before : Str
  after : Str
deriving DecidableEq, Repr

/-- `m.start()`, `m.end()` -/
def Cursor.offset (c : Cursor) : ℕ := c.before.length

/-- the cursor one character further -/
def Cursor.next? (c : Cursor) : Option Cursor :=
  match c.after with
  | [] => none
  | x :: xs => some ⟨x :: c.before, xs⟩

/-- the characters between two cursors of one text -/
def Cursor.upto (c d : Cursor) : Str := c.after.take (c.after.length - d.after.length)

inductive Regex where
  | empty
  | char (p : Char → Bool)
  | seq (r s : Regex)
  | alt (r s : Regex)
  | star (r : Regex)
  | assert (p : Cursor → Bool)

namespace Regex

/-! ## Matching -/

/-- at most n more repetitions, each of which consumes something -/
def runStar (step : Cursor → List Cursor) : ℕ → Cursor → List Cursor
  | 0, c => [c]
  | n + 1, c =>
    ((step c).filter fun d => d.after.length < c.after.length).flatMap (runStar step n) ++ [c]

def run : Regex → Cursor → List Cursor
  | .empty, c => [c]
  | .char p, c =>
    match c.after with
    | [] => []
    | x :: xs => if p x then [⟨x :: c.before, xs⟩] else []
  | .seq r s, c => (run r c).flatMap (run s)
  | .alt r s, c => run r c ++ run s c
  | .star r, c => runStar (run r) c.after.length c
  | .assert p, c => if p c then [c] else []

/-- `r.match` at a cursor: where the match ends -/
def matchAt (r : Regex) (c : Cursor) : Option Cursor := (run r c).head?

/-- the first match starting in the rest of the text -/
def searchFrom (r : Regex) (before : Str) : Str → Option (Cursor × Cursor)
  | [] => (matchAt r ⟨before, []⟩).map fun e => (⟨before, []⟩, e)
  | x :: xs =>
    match matchAt r ⟨before, x :: xs⟩ with
    | some e => some (⟨before, x :: xs⟩, e)
    | none => searchFrom r (x :: before) xs

/-- `r.search(text)`: where the match starts and ends -/
def search (r : Regex) (text : Str) : Option (Cursor × Cursor) := searchFrom r [] text

/-- the matches from a cursor on; after an empty match the search goes on one character further -/
def findAll (r : Regex) : ℕ → Cursor → List (Cursor × Cursor)
  | 0, _ => []
  | n + 1, c =>
    match searchFrom r c.before c.after with
    | none => []
    | some (s, e) =>
      (s, e) ::
        if e.after.length < s.after.length then findAll r n e
        else
          match e.next? with
          | none => []
          | some d => findAll r n d

/-- `r.finditer(text)` -/
def finditer (r : Regex) (text : Str) : List (Cursor × Cursor) := findAll r (text.length + 1) ⟨[], text⟩

/-- the text from a cursor on with every match replaced -/
def replaceFrom (r : Regex) (repl : Str) : ℕ → Cursor → Str
  | 0, c => c.after
  | n + 1, c =>
    match searchFrom r c.before c.after with
    | none => c.after
    | some (s, e) =>
      c.upto s ++ repl ++
        if e.after.length < s.after.length then replaceFrom r repl n e
        else
          match e.after with
          | [] => []
          | x :: xs => x :: replaceFrom r repl n ⟨x :: e.before, xs⟩

/-- `r.sub(repl, text)` for a replacement without references -/
def sub (r : Regex) (repl : Str) (text : Str) : Str := replaceFrom r repl (text.length + 1) ⟨[], text⟩

/-! ## Building blocks -/

/-- a literal string, up to a comparison of pattern and text characters -/
def litBy (same : Char → Char → Bool) (s : Str) : Regex := s.foldr (fun c r => .seq (.char (same c)) r) .empty

def lit (s : Str) : Regex := litBy (fun c x => x = c) s

def plus (r : Regex) : Regex := .seq r (.star r)

def opt (r : Regex) : Regex := .alt r .empty

/-- `r1|r2|...` -/
def oneOf : List Regex → Regex
  | [] => .assert fun _ => false
  | [r] => r
  | r :: rs => .alt r (oneOf rs)

/-- `r1r2...` -/
def concat : List Regex → Regex
  | [] => .empty
  | [r] => r
  | r :: rs => .seq r (concat rs)

/-- `^` -/
def atStart : Regex := .assert fun c => c.before.isEmpty

/-- `$`: at the end, or before a line feed that ends the text -/
def atEnd : Regex := .assert fun c => c.after.isEmpty || c.after = ['\n']

/-- `(?<![...])` -/
def notAfter (p : Char → Bool) : Regex := .assert fun c => !(c.before.head?.any p)

/-- `(?![...])` -/
def notBefore (p : Char → Bool) : Regex := .assert fun c => !(c.after.head?.any p)

/-- `\b`, for the given word characters -/
def boundary (word : Char → Bool) : Regex := .assert fun c => c.before.head?.any word != c.after.head?.any word

/-! ## Where a match starts -/

theorem searchFrom_isSome {r : Regex} {before text : Str} :
    (searchFrom r before text).isSome ↔ ∃ a b, text = a ++ b ∧ run r ⟨a.reverse ++ before, b⟩ ≠ [] := by
  have hhead (c : Cursor) : (matchAt r c).isSome ↔ run r c ≠ [] := by
    rw [matchAt, Option.isSome_iff_ne_none, Ne, List.head?_eq_none_iff]
  induction text generalizing before with
  | nil =>
    rw [searchFrom, Option.isSome_map, hhead]
    refine ⟨?_, ?_⟩
    · intro h
      exact ⟨[], [], rfl, h⟩
    · intro ⟨a, b, hab, h⟩
      obtain ⟨rfl, rfl⟩ := List.append_eq_nil_iff.1 hab.symm
      exact h
  | cons x xs ih =>
    unfold searchFrom
    split
    · rename_i e he
      have hrun := (hhead _).1 (Option.isSome_iff_exists.2 ⟨e, he⟩)
      exact iff_of_true rfl ⟨[], x :: xs, rfl, hrun⟩
    · rename_i hnone
      refine Iff.trans ih ?_
      refine ⟨?_, ?_⟩
      · intro ⟨a, b, hab, h⟩
        exact ⟨x :: a, b, by rw [hab]; rfl, by simpa using h⟩
      · intro ⟨a, b, hab, h⟩
        cases a with
        | nil =>
          -- no match starts here
          rw [List.nil_append] at hab
          rw [← hab] at h
          have hsome := (hhead _).2 h
          simp [hnone] at hsome
        | cons y a =>
          rw [List.cons_append, List.cons.injEq] at hab
          exact ⟨a, b, hab.2, by simpa [hab.1] using h⟩

theorem search_isSome {r : Regex} {text : Str} :
    (search r text).isSome ↔ ∃ a b, text = a ++ b ∧ run r ⟨a.reverse, b⟩ ≠ [] := by
  rw [search]
  refine Iff.trans searchFrom_isSome ?_
  simp only [List.append_nil]

theorem run_litBy {same : Char → Char → Bool} {s : Str} {c : Cursor} :
    run (litBy same s) c ≠ [] ↔ ∃ w rest, c.after = w ++ rest ∧ List.Forall₂ (fun p x => same p x) s w := by
  induction s generalizing c with
  | nil =>
    refine iff_of_true (List.cons_ne_nil _ _) ?_
    exact ⟨[], c.after, rfl, .nil⟩
  | cons p s ih =>
    obtain ⟨before, after⟩ := c
    cases after with
    | nil =>
      refine iff_of_false (fun h => h rfl) ?_
      intro ⟨w, rest, hw, hall⟩
      rw [(List.append_eq_nil_iff.1 hw.symm).1] at hall
      cases hall
    | cons x xs =>
      have hstep : run (litBy same (p :: s)) ⟨before, x :: xs⟩ =
          if same p x then run (litBy same s) ⟨x :: before, xs⟩ else [] := by
        rw [litBy, List.foldr_cons, ← litBy, run, run]
        by_cases hx : same p x = true
        · simp [hx]
        · simp [hx]
      rw [hstep]
      refine ⟨?_, ?_⟩
      · intro h
        split_ifs at h with hx
        · obtain ⟨w, rest, hw, hall⟩ := ih.1 h
          exact ⟨x :: w, rest, congrArg (x :: ·) hw, .cons hx hall⟩
        · exact absurd rfl h
      · intro ⟨w, rest, hw, hall⟩
        cases hall with
        | cons hx hall =>
          obtain ⟨hxy, hrest⟩ := List.cons.inj (show x :: xs = _ :: _ from hw)
          rw [if_pos (hxy ▸ hx)]
          exact ih.2 ⟨_, rest, hrest, hall⟩

theorem run_alt_ne_nil {r s : Regex} {c : Cursor} : run (.alt r s) c ≠ [] ↔ run r c ≠ [] ∨ run s c ≠ [] := by
  rw [run, Ne, List.append_eq_nil_iff, not_and_or]

end Regex

end AgentPick
