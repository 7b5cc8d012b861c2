/-
Which sizes `parse_params_from_id` reads (`backfill_param_counts.py`, `_SIZE_RE`).

The runs of a name are its maximal pieces of letters, digits and dots. A run begins with a size if it begins with a decimal
number, a unit follows, and then the run ends or has a dot: the pattern looks for a separator or a dot behind the unit, but
for a separator before the number. `Sized` says so, and `readSize` reads the size of a run.

Results:
- `readSize_eq_some`: reading a run finds the size it begins with.
- `mem_run_sizeRe`, `matchAt_sizeRe`: what the pattern reads, and that there is one reading.
- `sizeRe_byWord`, `matched_search`: so the search finds the size of the first run that begins with one.
- `parseParamsFromId_eq`: so the function returns the product of this size, or nothing.
- `parse_exact`: the count in exact arithmetic.
- `parse_standalone_sizes`: the count, run by run.
-/
import Mathlib.Tactic
import AgentPick.Catalog.FamilyKey
import AgentPick.Catalog.FilterModels
import AgentPick.Core.WordSearch
import AgentPick.Pipeline.Backfill
import AgentPick.Pipeline.Overlap

namespace AgentPick.Nominal

open AgentPick.Backfill AgentPick.Regex AgentPick.Tokens AgentPick.FamilyKey

/-! ## Runs and their sizes -/

/-- letters, digits and dots -/
def isRunChar (c : Char) : Bool := c.isAlphanum || c = '.'

def isSeparator (c : Char) : Bool := !isRunChar c

/-- the maximal pieces of letters, digits and dots -/
def runs (name : Str) : List Str := tokens isSeparator name

/-- digits, and possibly a dot and digits -/
inductive Decimal (digit : Char → Bool) : Str → Prop where
  | whole {w : Str} : w ≠ [] → (∀ c ∈ w, digit c = true) → Decimal digit w
  | point {w f : Str} : w ≠ [] → (∀ c ∈ w, digit c = true) → f ≠ [] → (∀ c ∈ f, digit c = true) →
      Decimal digit (w ++ '.' :: f)

/-- a run that begins with a number and a unit, after which it ends or has a dot -/
structure Sized (run number : Str) (unit : Char) : Prop where
  decimal : Decimal Char.isDigit number
  scaled : isUnit unit = true
  split : ∃ tail : Str, run = number ++ unit :: tail ∧ ∀ c ∈ tail.head?, c = '.'

/-- the unit after a number, and what follows it -/
def readUnit (number : Str) : Str → Option (Str × Char × Str)
  | [] => none
  | c :: tail => if isUnit c then some (number, c, tail) else none

/-- the number at the beginning of a text, its unit, and what follows it -/
def readNumber (s : Str) : Option (Str × Char × Str) :=
  let whole := s.takeWhile Char.isDigit
  if whole = [] then none
  else
    match s.dropWhile Char.isDigit with
    | [] => none
    | c :: rest =>
      if c = '.' then
        if rest.takeWhile Char.isDigit = [] then none
        else readUnit (whole ++ '.' :: rest.takeWhile Char.isDigit) (rest.dropWhile Char.isDigit)
      else readUnit whole (c :: rest)

/-- the size that a run begins with -/
def readSize (run : Str) : Option (Str × Char) :=
  (readNumber run).bind fun m => if m.2.2.head?.all (· = '.') then some (m.1, m.2.1) else none

/-! ## Reading a number -/

theorem unit_spec {c : Char} (h : isUnit c = true) : c.isDigit = false ∧ c ≠ '.' ∧ isRunChar c = true := by
  simp only [isUnit, Bool.or_eq_true, decide_eq_true_eq] at h
  rcases h with ((rfl | rfl) | rfl) | rfl <;> decide

theorem readUnit_eq_some {w s number tail : Str} {unit : Char} :
    readUnit w s = some (number, unit, tail) ↔ number = w ∧ s = unit :: tail ∧ isUnit unit = true := by
  cases s with
  | nil => simp [readUnit]
  | cons c rest =>
    rw [readUnit]
    split_ifs with hc
    · rw [Option.some.injEq, Prod.mk.injEq, Prod.mk.injEq, List.cons.injEq]
      refine ⟨?_, ?_⟩
      · intro h
        obtain ⟨rfl, rfl, rfl⟩ := h
        exact ⟨rfl, ⟨rfl, rfl⟩, hc⟩
      · intro h
        obtain ⟨rfl, ⟨rfl, rfl⟩, -⟩ := h
        exact ⟨rfl, rfl, rfl⟩
    · refine iff_of_false not_false ?_
      rintro ⟨-, heq, hunit⟩
      obtain ⟨rfl, -⟩ := List.cons.inj heq
      exact hc hunit

/-- **Reading a number finds the one that the text begins with**, whatever follows. -/
theorem readNumber_eq_some {s number tail : Str} {unit : Char} :
    readNumber s = some (number, unit, tail) ↔
      s = number ++ unit :: tail ∧ Decimal Char.isDigit number ∧ isUnit unit = true := by
  refine ⟨?_, ?_⟩
  · intro h
    have hall : ∀ c ∈ s.takeWhile Char.isDigit, c.isDigit = true := fun c hc => List.mem_takeWhile_imp hc
    have hcut := List.takeWhile_append_dropWhile (p := Char.isDigit) (l := s)
    simp only [readNumber] at h
    split_ifs at h with hne
    split at h
    · cases h
    · rename_i c rest hrest
      rw [hrest] at hcut
      split_ifs at h with hdot hfrac
      · obtain ⟨rfl, htail, hunit⟩ := readUnit_eq_some.1 h
        have hcut' := List.takeWhile_append_dropWhile (p := Char.isDigit) (l := rest)
        rw [htail] at hcut'
        refine ⟨?_, .point hne hall hfrac fun c hc => List.mem_takeWhile_imp hc, hunit⟩
        rw [List.append_assoc, List.cons_append, hcut', ← hdot]
        exact hcut.symm
      · obtain ⟨rfl, htail, hunit⟩ := readUnit_eq_some.1 h
        rw [htail] at hcut
        exact ⟨hcut.symm, .whole hne hall, hunit⟩
  · intro h
    obtain ⟨rfl, hnumber, hunit⟩ := h
    obtain ⟨hdigit, hdot, -⟩ := unit_spec hunit
    have hstop : ∀ c ∈ (unit :: tail).head?, c.isDigit = false := by simpa using hdigit
    cases hnumber with
    | whole hne hall =>
      obtain ⟨htake, hdrop⟩ := Text.span_append hall hstop
      simp only [readNumber, htake, hdrop, if_neg hne, if_neg hdot]
      exact readUnit_eq_some.2 ⟨rfl, rfl, hunit⟩
    | @point w f hne hall hfne hfall =>
      have hpoint : ∀ c ∈ ('.' :: (f ++ unit :: tail)).head?, c.isDigit = false := by simp
      obtain ⟨htake, hdrop⟩ := Text.span_append hall hpoint
      obtain ⟨htake', hdrop'⟩ := Text.span_append hfall hstop
      have hassoc : w ++ '.' :: f ++ unit :: tail = w ++ '.' :: (f ++ unit :: tail) := by simp
      rw [hassoc]
      simp only [readNumber, htake, hdrop, htake', hdrop', if_neg hne, if_neg hfne, if_true]
      exact readUnit_eq_some.2 ⟨rfl, rfl, hunit⟩

/-- **Reading a run finds the size it begins with.** -/
theorem readSize_eq_some {run number : Str} {unit : Char} :
    readSize run = some (number, unit) ↔ Sized run number unit := by
  rw [readSize, Option.bind_eq_some_iff]
  refine ⟨?_, ?_⟩
  · intro h
    obtain ⟨⟨n, c, tail⟩, hread, hend⟩ := h
    split_ifs at hend with htail
    obtain ⟨rfl, rfl⟩ := Prod.mk.inj (Option.some.inj hend)
    obtain ⟨hrun, hdec, hunit⟩ := readNumber_eq_some.1 hread
    exact ⟨hdec, hunit, tail, hrun, fun c hc => of_decide_eq_true ((Option.all_eq_true _ _).1 htail c hc)⟩
  · intro h
    obtain ⟨hdec, hunit, tail, hrun, htail⟩ := h
    refine ⟨(number, unit, tail), readNumber_eq_some.2 ⟨hrun, hdec, hunit⟩, ?_⟩
    exact if_pos ((Option.all_eq_true _ _).2 fun c hc => decide_eq_true (htail c hc))

theorem readSize_eq_none {run : Str} : readSize run = none ↔ ∀ number unit, ¬ Sized run number unit := by
  rw [Option.eq_none_iff_forall_ne_some, Prod.forall]
  exact forall₂_congr fun number unit => not_congr readSize_eq_some

/-! ## What the pattern reads -/

variable {nums : Numerals}

theorem Decimal.imp {digit digit' : Char → Bool} {w : Str} (hw : Decimal digit w)
    (h : ∀ c ∈ w, digit c = true → digit' c = true) : Decimal digit' w := by
  cases hw with
  | whole hne hall => exact .whole hne fun c hc => h c hc (hall c hc)
  | point hne hall hfne hfall =>
    exact .point hne (fun c hc => h c (by simp [hc]) (hall c hc)) hfne fun c hc => h c (by simp [hc]) (hfall c hc)

theorem Decimal.exists_cons {digit : Char → Bool} {w : Str} (hw : Decimal digit w) :
    ∃ c cs, w = c :: cs ∧ digit c = true := by
  cases hw with
  | whole hne hall =>
    obtain ⟨c, cs, rfl⟩ := List.exists_cons_of_ne_nil hne
    exact ⟨c, cs, rfl, hall c (List.mem_cons_self ..)⟩
  | point hne hall _ _ =>
    obtain ⟨c, cs, rfl⟩ := List.exists_cons_of_ne_nil hne
    exact ⟨c, _, rfl, hall c (List.mem_cons_self ..)⟩

/-- the optional fraction -/
theorem mem_run_decimal {digit : Char → Bool} {s e : Cursor} :
    (∃ m ∈ run (plus (.char digit)) s, e ∈ run (opt (.seq (.char (· = '.')) (plus (.char digit)))) m) ↔
      ∃ number, Decimal digit number ∧ Spans s number e := by
  refine ⟨?_, ?_⟩
  · intro h
    obtain ⟨m, hm, he⟩ := h
    obtain ⟨w, hne, hall, hw⟩ := mem_run_plus.1 hm
    rcases mem_run_opt.1 he with he | rfl
    · obtain ⟨d, hd, he⟩ := mem_run_seq.1 he
      obtain ⟨x, hx, hone⟩ := mem_run_char.1 hd
      obtain rfl := of_decide_eq_true hx
      obtain ⟨f, hfne, hfall, hf⟩ := mem_run_plus.1 he
      exact ⟨w ++ '.' :: f, .point hne hall hfne hfall, hw.trans (hone.trans hf)⟩
    · exact ⟨w, .whole hne hall, hw⟩
  · intro h
    obtain ⟨number, hnumber, hspan⟩ := h
    cases hnumber with
    | whole hne hall => exact ⟨e, mem_run_plus.2 ⟨_, hne, hall, hspan⟩, mem_run_opt.2 (.inr rfl)⟩
    | @point w f hne hall hfne hfall =>
      obtain ⟨m, hw, hrest⟩ := hspan.exists_mid
      obtain ⟨d, hdot, hf⟩ := Spans.exists_mid (v := ['.']) hrest
      refine ⟨m, mem_run_plus.2 ⟨w, hne, hall, hw⟩, mem_run_opt.2 (.inl (mem_run_seq.2 ⟨d, ?_, ?_⟩))⟩
      · exact mem_run_char.2 ⟨'.', decide_eq_true rfl, hdot⟩
      · exact mem_run_plus.2 ⟨f, hfne, hfall, hf⟩

/-- **What the pattern reads**: a number and a unit, between no letter, digit or dot and no letter or digit. -/
theorem mem_run_sizeRe {s e : Cursor} :
    e ∈ run (sizeRe nums) s ↔ (∀ c ∈ s.before.head?, isRunChar c = false) ∧
      ∃ number unit, Decimal nums.isDecimal number ∧ isUnit unit = true ∧ Spans s (number ++ [unit]) e ∧
        ∀ c ∈ e.after.head?, c.isAlphanum = false := by
  have hparts : sizeRe nums = .seq (notAfter isRunChar) (.seq (plus (.char nums.isDecimal))
      (.seq (opt (.seq (.char (· = '.')) (plus (.char nums.isDecimal))))
        (.seq (.char isUnit) (notBefore Char.isAlphanum)))) := rfl
  simp only [hparts, mem_run_seq]
  refine ⟨?_, ?_⟩
  · intro h
    obtain ⟨_, hbefore, m, hm, d, hd, _, hchar, hafter⟩ := h
    obtain ⟨hb, rfl⟩ := mem_run_notAfter.1 hbefore
    obtain ⟨number, hnumber, hspan⟩ := mem_run_decimal.1 ⟨m, hm, hd⟩
    obtain ⟨unit, hunit, hone⟩ := mem_run_char.1 hchar
    obtain ⟨ha, rfl⟩ := mem_run_notBefore.1 hafter
    exact ⟨hb, number, unit, hnumber, hunit, hspan.trans hone, ha⟩
  · intro h
    obtain ⟨hb, number, unit, hnumber, hunit, hspan, ha⟩ := h
    obtain ⟨d, hnum, hone⟩ := hspan.exists_mid
    obtain ⟨m, hm, hd⟩ := mem_run_decimal.2 ⟨number, hnumber, hnum⟩
    exact ⟨s, mem_run_notAfter.2 ⟨hb, rfl⟩, m, hm, d, hd, e, mem_run_char.2 ⟨unit, hunit, hone⟩,
      mem_run_notBefore.2 ⟨ha, rfl⟩⟩

/-- the number and the unit at the beginning of a text, if no letter or digit follows -/
def readToken (s : Str) : Option Str :=
  (readNumber s).bind fun m => if m.2.2.head?.any Char.isAlphanum then none else some (m.1 ++ [m.2.1])

theorem readToken_eq_some {s w : Str} :
    readToken s = some w ↔ ∃ number unit tail, w = number ++ [unit] ∧ s = number ++ unit :: tail ∧
      Decimal Char.isDigit number ∧ isUnit unit = true ∧ ∀ c ∈ tail.head?, c.isAlphanum = false := by
  rw [readToken, Option.bind_eq_some_iff]
  refine ⟨?_, ?_⟩
  · intro h
    obtain ⟨⟨number, unit, tail⟩, hread, hend⟩ := h
    split_ifs at hend with htail
    obtain ⟨hs, hdec, hunit⟩ := readNumber_eq_some.1 hread
    rw [Bool.not_eq_true, Option.any_eq_false] at htail
    exact ⟨number, unit, tail, (Option.some.inj hend).symm, hs, hdec, hunit, htail⟩
  · intro h
    obtain ⟨number, unit, tail, rfl, hs, hdec, hunit, htail⟩ := h
    refine ⟨(number, unit, tail), readNumber_eq_some.2 ⟨hs, hdec, hunit⟩, if_neg ?_⟩
    rw [Bool.not_eq_true, Option.any_eq_false]
    exact htail

/-- in a text of ASCII characters, a match that starts after a separator is the reading of the text -/
theorem matchAt_sizeRe {s : Cursor} (hb : ∀ c ∈ s.before.head?, isRunChar c = false) (hascii : IsAscii s.after) :
    (matchAt (sizeRe nums) s).map s.upto = readToken s.after := by
  have hdigit : ∀ c ∈ s.after, nums.isDecimal c = c.isDigit := fun c hc => nums.isDecimal_ascii c (hascii c hc)
  cases hm : matchAt (sizeRe nums) s with
  | some e =>
    obtain ⟨-, number, unit, hnumber, hunit, hspan, ha⟩ := mem_run_sizeRe.1 (List.mem_of_head? hm)
    have hafter : s.after = number ++ unit :: e.after := by simpa using hspan.1
    have hdec : Decimal Char.isDigit number := hnumber.imp fun c hc => by
      rw [hdigit c (by simp [hafter, hc])]
      exact id
    rw [Option.map_some, hspan.upto]
    exact (readToken_eq_some.2 ⟨number, unit, e.after, rfl, hafter, hdec, hunit, ha⟩).symm
  | none =>
    rw [Option.map_none, eq_comm, Option.eq_none_iff_forall_ne_some]
    intro w hw
    obtain ⟨number, unit, tail, rfl, hafter, hdec, hunit, ha⟩ := readToken_eq_some.1 hw
    have hnumber : Decimal nums.isDecimal number := hdec.imp fun c hc => by
      rw [hdigit c (by simp [hafter, hc])]
      exact id
    have hspan : Spans s (number ++ [unit]) ⟨(number ++ [unit]).reverse ++ s.before, tail⟩ := ⟨by simp [hafter], rfl⟩
    have hmem := mem_run_sizeRe.2 ⟨hb, number, unit, hnumber, hunit, hspan, ha⟩
    rw [matchAt_eq_none.1 hm] at hmem
    cases hmem

/-! ## Searching -/

/-- the size that a run begins with, as it is written -/
def readRun (run : Str) : Option Str := (readSize run).map fun m => m.1 ++ [m.2]

theorem readRun_eq_some {run w : Str} :
    readRun run = some w ↔ ∃ number unit, w = number ++ [unit] ∧ Sized run number unit := by
  rw [readRun, Option.map_eq_some_iff]
  refine ⟨?_, ?_⟩
  · intro h
    obtain ⟨⟨number, unit⟩, hread, rfl⟩ := h
    exact ⟨number, unit, rfl, readSize_eq_some.1 hread⟩
  · intro h
    obtain ⟨number, unit, rfl, hsized⟩ := h
    exact ⟨(number, unit), readSize_eq_some.2 hsized, rfl⟩

theorem isRunChar_of_digit {c : Char} (h : c.isDigit = true) : isRunChar c = true := by
  simp [isRunChar, Char.isAlphanum, h]

theorem Decimal.isRunChar {w : Str} (hw : Decimal Char.isDigit w) : ∀ c ∈ w, isRunChar c = true := by
  intro c hc
  cases hw with
  | whole _ hall => exact isRunChar_of_digit (hall c hc)
  | point _ hall _ hfall =>
    rcases List.mem_append.1 hc with hc | hc
    · exact isRunChar_of_digit (hall c hc)
    · rcases List.mem_cons.1 hc with rfl | hc
      · decide
      · exact isRunChar_of_digit (hfall c hc)

/-- **The reading of a text is that of its first run.** -/
theorem readToken_append {run rest : Str} (hrun : ∀ c ∈ run, isRunChar c = true)
    (hrest : ∀ c ∈ rest.head?, isRunChar c = false) : readToken (run ++ rest) = readRun run := by
  apply Option.ext
  intro w
  rw [readToken_eq_some, readRun_eq_some]
  refine ⟨?_, ?_⟩
  · intro h
    obtain ⟨number, unit, tail, rfl, hs, hdec, hunit, htail⟩ := h
    have hin : ∀ c ∈ number ++ [unit], isRunChar c = true := by
      intro c hc
      rcases List.mem_append.1 hc with hc | hc
      · exact hdec.isRunChar c hc
      · rw [List.mem_singleton.1 hc]
        exact (unit_spec hunit).2.2
    have htext : run ++ rest = (number ++ [unit]) ++ tail := by simpa using hs
    obtain ⟨v, rfl, rfl⟩ := Text.within_stretch htext hin hrest
    refine ⟨number, unit, rfl, hdec, hunit, v, by simp, ?_⟩
    intro c hc
    -- in the run, but no letter or digit
    have hrunChar : isRunChar c = true := hrun c (List.mem_append_right _ (List.mem_of_head? hc))
    have hother : c.isAlphanum = false := htail c (by rw [List.head?_append, hc]; rfl)
    simpa [isRunChar, hother] using hrunChar
  · intro h
    obtain ⟨number, unit, rfl, hdec, hunit, v, rfl, hv⟩ := h
    refine ⟨number, unit, v ++ rest, rfl, by simp, hdec, hunit, ?_⟩
    intro c hc
    cases v with
    | nil =>
      have hsep : isRunChar c = false := hrest c hc
      simp only [isRunChar, Bool.or_eq_false_iff] at hsep
      exact hsep.1
    | cons d v =>
      obtain rfl : d = c := Option.some.inj hc
      obtain rfl := hv d rfl
      decide

/-- no match starts after a letter, a digit or a dot -/
theorem matchAt_inside {s : Cursor} {c : Char} (hs : s.before.head? = some c) (hc : isRunChar c = true) :
    matchAt (sizeRe nums) s = none := by
  refine matchAt_eq_none_of fun e he => ?_
  have hb := (mem_run_sizeRe.1 he).1 c hs
  rw [hc] at hb
  cases hb

/-- nor does one start at a separator -/
theorem matchAt_separator {before rest : Str} {c : Char} (hc : isRunChar c = false) (hascii : c.toNat < 128) :
    matchAt (sizeRe nums) ⟨before, c :: rest⟩ = none := by
  refine matchAt_eq_none_of fun e he => ?_
  obtain ⟨-, number, unit, hnumber, -, hspan, -⟩ := mem_run_sizeRe.1 he
  obtain ⟨d, ds, rfl, hd⟩ := hnumber.exists_cons
  obtain ⟨rfl, -⟩ := List.cons.inj (show c :: rest = d :: (ds ++ [unit] ++ e.after) from hspan.1)
  rw [nums.isDecimal_ascii c hascii] at hd
  rw [isRunChar_of_digit hd] at hc
  cases hc

/-- nor at the end -/
theorem matchAt_end (before : Str) : matchAt (sizeRe nums) ⟨before, []⟩ = none := by
  refine matchAt_eq_none_of fun e he => ?_
  obtain ⟨-, number, unit, -, -, hspan, -⟩ := mem_run_sizeRe.1 he
  exact absurd hspan.1 (by simp)

theorem isSeparator_iff {c : Char} : isSeparator c = true ↔ isRunChar c = false := by
  rw [isSeparator, Bool.not_eq_true']

theorem isSeparator_eq_false {c : Char} : isSeparator c = false ↔ isRunChar c = true := by
  rw [isSeparator, Bool.not_eq_false']

/-- **The pattern reads run by run.** -/
theorem sizeRe_byWord (nums : Numerals) : ByWord (sizeRe nums) isSeparator (fun c => c.toNat < 128) readRun := by
  constructor
  case inside =>
    intro s c hs hc
    exact matchAt_inside hs (isSeparator_eq_false.1 hc)
  case separator =>
    intro before rest c hc hascii
    exact matchAt_separator (isSeparator_iff.1 hc) hascii
  case ending => exact matchAt_end
  case word =>
    intro before run rest hb hrun hrest hascii
    have hbefore : ∀ c ∈ before.head?, isRunChar c = false := fun c hc => isSeparator_iff.1 (hb c hc)
    have hin : ∀ c ∈ run, isRunChar c = true := fun c hc => isSeparator_eq_false.1 (hrun.inside c hc)
    have hend : ∀ c ∈ rest.head?, isRunChar c = false := fun c hc => isSeparator_iff.1 (hrest c hc)
    calc (matchAt (sizeRe nums) ⟨before, run ++ rest⟩).map (Cursor.upto ⟨before, run ++ rest⟩)
        = readToken (run ++ rest) := matchAt_sizeRe hbefore hascii
      _ = readRun run := readToken_append hin hend

/-! ## What the function returns -/

/-- the size of the first run that begins with one -/
def firstSize (name : Str) : Option (Str × Char) := (runs name).findSome? readSize

theorem firstSize_eq_some {name number : Str} {unit : Char} :
    firstSize name = some (number, unit) ↔ ∃ x run y, runs name = x ++ run :: y ∧ Sized run number unit ∧
      ∀ w ∈ x, ∀ number' unit', ¬ Sized w number' unit' := by
  rw [firstSize, List.findSome?_eq_some_iff]
  simp only [readSize_eq_some, readSize_eq_none]

theorem firstSize_eq_none {name : Str} :
    firstSize name = none ↔ ∀ w ∈ runs name, ∀ number unit, ¬ Sized w number unit := by
  rw [firstSize, List.findSome?_eq_none_iff]
  simp only [readSize_eq_none]

/-- 10^9 or 10^6 -/
def scale (unit : Char) : ℕ := if unit = 'b' ∨ unit = 'B' then 1000000000 else 1000000

theorem multOf_append (number : Str) (unit : Char) : multOf (number ++ [unit]) = scale unit := by
  simp only [multOf, List.getLast?_concat, scale, Option.some_inj]

/-- **The search finds the size of the first run that begins with one.** -/
theorem matched_search (nums : Numerals) {name : Str} (hascii : IsAscii name) :
    (search (sizeRe nums) name).map matched = (firstSize name).map fun m => m.1 ++ [m.2] := by
  rw [(sizeRe_byWord nums).search_eq hascii, firstSize, List.map_findSome?]
  rfl

theorem isAscii_repoOf {id : Str} (h : IsAscii id) : IsAscii (Catalog.repoOf id) := by
  unfold Catalog.repoOf
  split_ifs
  · intro c hc
    exact h c ((List.dropWhile_suffix _).subset (List.mem_of_mem_drop hc))
  · exact h

/-- **What the function returns**: the product of the first size, if it is not zero. -/
theorem parseParamsFromId_eq (nums : Numerals) {id : Str} (hid : IsAscii id) :
    parseParamsFromId nums id =
      match firstSize (Catalog.repoOf id) with
      | none => some none
      | some m => (nums.product m.1 (scale m.2)).map fun count => if count = 0 then none else some count := by
  have htoken := matched_search nums (isAscii_repoOf hid)
  rw [parseParamsFromId]
  cases hs : search (sizeRe nums) (Catalog.repoOf id) with
  | none =>
    rw [hs, Option.map_none, eq_comm, Option.map_eq_none_iff] at htoken
    rw [htoken]
  | some m =>
    rw [hs, Option.map_some, eq_comm, Option.map_eq_some_iff] at htoken
    obtain ⟨size, hsize, heq⟩ := htoken
    have hupto : m.1.upto m.2 = size.1 ++ [size.2] := heq.symm
    rw [hsize]
    simp only [hupto, List.dropLast_concat, multOf_append]

/-! ## Exact arithmetic -/

/-- the value of a decimal number -/
def decimalOf (number : Str) : ℚ :=
  let fraction := (number.dropWhile (· ≠ '.')).drop 1
  Nat.ofDigitChars 10 (number.takeWhile (· ≠ '.')) 0 + Nat.ofDigitChars 10 fraction 0 / 10 ^ fraction.length

/-- `int(float(digits) * mult)` in exact arithmetic -/
def withExactProduct (nums : Numerals) : Numerals :=
  { nums with product := fun digits mult => some (Catalog.truncate (decimalOf digits * mult)) }

/-- the count of a size; `none` if it is zero -/
def countOf (number : Str) (unit : Char) : Option ℤ :=
  let count := Catalog.truncate (decimalOf number * scale unit)
  if count = 0 then none else some count

/-- the count of the first size -/
def nominal (id : Str) : Option ℤ := (firstSize (Catalog.repoOf id)).bind fun m => countOf m.1 m.2

theorem parse_exact (nums : Numerals) {id : Str} (hid : IsAscii id) :
    parseParamsFromId (withExactProduct nums) id = some (nominal id) := by
  rw [parseParamsFromId_eq _ hid, nominal]
  cases firstSize (Catalog.repoOf id) <;> rfl

/-- **Only standalone sizes are read.** The first run that begins with a size gives its count, none if that is zero; if no
run does, nothing is read. A number inside a longer run is not read, and the first of two sizes is. -/
theorem parse_standalone_sizes (nums : Numerals) {id : Str} (hid : IsAscii id) :
    (∀ x run y number unit, runs (Catalog.repoOf id) = x ++ run :: y → Sized run number unit →
        (∀ w ∈ x, ∀ number' unit', ¬ Sized w number' unit') →
        parseParamsFromId (withExactProduct nums) id = some (countOf number unit)) ∧
      ((∀ w ∈ runs (Catalog.repoOf id), ∀ number unit, ¬ Sized w number unit) →
        parseParamsFromId (withExactProduct nums) id = some none) ∧
      (∀ name ∈ ["8x7B", "Q8_0", "8bit", "v1.5B"],
        parseParamsFromId (withExactProduct nums) ("org/model-" ++ name).toList = some none) ∧
      parseParamsFromId (withExactProduct nums) "org/model-30B-A3B".toList = some (some 30000000000) := by
  refine ⟨?_, ?_, ?_, ?_⟩
  · intro x run y number unit hruns hsized hbefore
    have hfirst := firstSize_eq_some.2 ⟨x, run, y, hruns, hsized, hbefore⟩
    rw [parse_exact nums hid, nominal, hfirst]
    rfl
  · intro hno
    rw [parse_exact nums hid, nominal, firstSize_eq_none.2 hno]
    rfl
  · intro name hname
    have hnames : ∀ name ∈ ["8x7B", "Q8_0", "8bit", "v1.5B"],
        IsAscii ("org/model-" ++ name).toList ∧ nominal ("org/model-" ++ name).toList = none := by decide +kernel
    obtain ⟨hascii, hnone⟩ := hnames name hname
    rw [parse_exact nums hascii, hnone]
  · have hascii : IsAscii "org/model-30B-A3B".toList := by decide
    have hnominal : nominal "org/model-30B-A3B".toList = some 30000000000 := by decide +kernel
    rw [parse_exact nums hascii, hnominal]

/-- a version before the size, and a dot after it -/
theorem parse_standalone_sizes_sample :
    parseParamsFromId (withExactProduct Overlap.exactNumerals) "org/Llama-3.1-0.5b.Q8_0".toList =
      some (some 500000000) := by
  have hascii : IsAscii "org/Llama-3.1-0.5b.Q8_0".toList := by decide
  have hruns : runs (Catalog.repoOf "org/Llama-3.1-0.5b.Q8_0".toList) =
      ["Llama".toList, "3.1".toList] ++ "0.5b.Q8".toList :: ["0".toList] := by decide
  have hsized : Sized "0.5b.Q8".toList "0.5".toList 'b' := readSize_eq_some.1 (by decide)
  have hbefore : ∀ w ∈ ["Llama".toList, "3.1".toList], readSize w = none := by decide
  have hcount : countOf "0.5".toList 'b' = some 500000000 := by decide +kernel
  rw [← hcount]
  exact (parse_standalone_sizes Overlap.exactNumerals hascii).1 _ _ _ _ _ hruns hsized fun w hw =>
    readSize_eq_none.1 (hbefore w hw)

end AgentPick.Nominal
