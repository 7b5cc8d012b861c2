/-
Any text as the json module of the language reads it, floats included. LIBRARY: nothing in this file names the pipeline.

`Core/Json.lean` reads back what `dumps` writes. `loads` here takes every text: a number with a fraction or an exponent and
the constants NaN, Infinity and -Infinity are floats, an integer has any size, and half of a surrogate pair, which is no
character, is read as U+FFFD. It fails in two ways: a malformed text is a ValueError, and a text nested deeper than the
interpreter's stack allows (`depth` more levels) is a RecursionError.

`Denotes` is the grammar: a text denotes a value if it is that value, nested at most `depth` deep, between blanks.

- `loads_eq_ok`: `loads` returns the value that the text denotes, if there is one.
- `loads_ne_outOfFuel`: its recursion never ends early.
-/
import Mathlib.Tactic
import AgentPick.Core.Json
import AgentPick.Core.Raise
import AgentPick.Core.Rounding

namespace AgentPick

open Json Raise

inductive PyJson where
  | null
  | bool (b : Bool)
  | int (n : ℤ)
  | float (x : Double)
  | str (s : Str)
  | arr (items : List PyJson)
  | obj (pairs : List (Str × PyJson))

namespace PyJson

inductive Failure where
  /-- ValueError -/
  | malformed
  /-- RecursionError -/
  | tooDeep
  | outOfFuel
deriving DecidableEq, Repr

/-! ## Strings -/

/-- `\uXXXX` with half of a surrogate pair -/
def halfPair : Str → Option (Char × Str)
  | '\\' :: 'u' :: s => (codeUnit s).bind fun p =>
    if 0xd800 ≤ p.1 ∧ p.1 < 0xe000 then some (Char.ofNat 0xfffd, p.2) else none
  | _ => none

/-- one character of a string; a high half that no low half follows stands alone -/
def character (s : Str) : Option (Char × Str) := (Json.character s).or (halfPair s)

def chars : ℕ → Str → Option (Str × Str)
  | 0, _ => none
  | fuel + 1, s =>
    if s.head? = some '"' then some ([], s.tail)
    else (character s).bind fun p => (chars fuel p.2).map fun q => (p.1 :: q.1, q.2)

/-- a string after its opening quote -/
def string (s : Str) : Option (Str × Str) := chars (s.length + 1) s

/-! ## Numbers -/

/-- a run of digits -/
def run (s : Str) : Option (Str × Str) :=
  if s.takeWhile Char.isDigit = [] then none else some (s.takeWhile Char.isDigit, s.dropWhile Char.isDigit)

/-- `\.[0-9]+` -/
def fraction (s : Str) : Option (Str × Str) := if s.head? = some '.' then run s.tail else none

/-- `[eE][+-]?[0-9]+` -/
def exponent (s : Str) : Option (ℤ × Str) :=
  if s.head? = some 'e' ∨ s.head? = some 'E' then
    if s.tail.head? = some '-' then (run s.tail.tail).map fun p => (-(Nat.ofDigitChars 10 p.1 0 : ℤ), p.2)
    else if s.tail.head? = some '+' then (run s.tail.tail).map fun p => (Nat.ofDigitChars 10 p.1 0, p.2)
    else (run s.tail).map fun p => (Nat.ofDigitChars 10 p.1 0, p.2)
  else none

/-- the fraction and the exponent after the digits `whole`; without both the number is an integer -/
def decimal (R : Rounding) (sign : ℤ) (whole : ℕ) (s : Str) : PyJson × Str :=
  match fraction s with
  | none =>
    match exponent s with
    | none => (.int (sign * whole), s)
    | some (e, s) => (.float (Double.ofRat R (sign * whole * 10 ^ e)), s)
  | some (ds, s) =>
    -- ds are digits of the same integer, to be scaled back
    match exponent s with
    | none => (.float (Double.ofRat R (sign * Nat.ofDigitChars 10 ds whole * 10 ^ (-ds.length : ℤ))), s)
    | some (e, s) => (.float (Double.ofRat R (sign * Nat.ofDigitChars 10 ds whole * 10 ^ (e - ds.length))), s)

def number (R : Rounding) (s : Str) : Option (PyJson × Str) :=
  if s.head? = some '-' then (digits s.tail).map fun p => decimal R (-1) p.1 p.2
  else (digits s).map fun p => decimal R 1 p.1 p.2

/-- a constant or a number -/
def scalar (R : Rounding) : Str → Option (PyJson × Str)
  | 'n' :: 'u' :: 'l' :: 'l' :: s => some (.null, s)
  | 't' :: 'r' :: 'u' :: 'e' :: s => some (.bool true, s)
  | 'f' :: 'a' :: 'l' :: 's' :: 'e' :: s => some (.bool false, s)
  | 'N' :: 'a' :: 'N' :: s => some (.float .nan, s)
  | 'I' :: 'n' :: 'f' :: 'i' :: 'n' :: 'i' :: 't' :: 'y' :: s => some (.float (.inf false), s)
  | '-' :: 'I' :: 'n' :: 'f' :: 'i' :: 'n' :: 'i' :: 't' :: 'y' :: s => some (.float (.inf true), s)
  | s => number R s

/-! ## Values -/

def orMalformed {α : Type} : Option α → Except Failure α
  | some a => .ok a
  | none => .error .malformed

/-- after an opening bracket: the closing one, or elements -/
def enclosed {α : Type} (close : Char) (elements : Str → Except Failure (List α × Str)) (s : Str) :
    Except Failure (List α × Str) :=
  if (skip s).head? = some close then .ok ([], (skip s).tail) else elements (skip s)

/-- after an element: the closing bracket, or a comma and further elements -/
def further {α : Type} (close : Char) (elements : Str → Except Failure (List α × Str)) (a : α) (s : Str) :
    Except Failure (List α × Str) :=
  match skip s with
  | [] => .error .malformed
  | c :: s =>
    if c = close then .ok ([a], s)
    else if c = ',' then (elements (skip s)).map fun q => (a :: q.1, q.2)
    else .error .malformed

/-- a key with its colon -/
def key (s : Str) : Option (Str × Str) :=
  if s.head? = some '"' then
    (string s.tail).bind fun k => if (skip k.2).head? = some ':' then some (k.1, skip (skip k.2).tail) else none
  else none

mutual

/-- the value at the beginning of a text, and what follows it -/
def value (R : Rounding) : ℕ → ℕ → Str → Except Failure (PyJson × Str)
  | 0, _, _ => .error .outOfFuel
  | fuel + 1, depth, s =>
    if s.head? = some '"' then (orMalformed (string s.tail)).map fun p => (.str p.1, p.2)
    else if s.head? = some '[' then
      match depth with
      | 0 => .error .tooDeep
      | depth + 1 => (enclosed ']' (items R fuel depth) s.tail).map fun p => (.arr p.1, p.2)
    else if s.head? = some '{' then
      match depth with
      | 0 => .error .tooDeep
      | depth + 1 => (enclosed '}' (pairs R fuel depth) s.tail).map fun p => (.obj p.1, p.2)
    else orMalformed (scalar R s)

/-- the items of an array, up to its closing bracket -/
def items (R : Rounding) : ℕ → ℕ → Str → Except Failure (List PyJson × Str)
  | 0, _, _ => .error .outOfFuel
  | fuel + 1, depth, s => do
    let v ← value R fuel depth s
    further ']' (items R fuel depth) v.1 v.2

/-- the pairs of an object, up to its closing brace -/
def pairs (R : Rounding) : ℕ → ℕ → Str → Except Failure (List (Str × PyJson) × Str)
  | 0, _, _ => .error .outOfFuel
  | fuel + 1, depth, s => do
    let k ← orMalformed (key s)
    let v ← value R fuel depth k.2
    further '}' (pairs R fuel depth) (k.1, v.1) v.2

end

/-- `json.loads(text)` -/
def loads (R : Rounding) (depth : ℕ) (text : Str) : Except Failure PyJson := do
  let p ← value R (2 * text.length + 2) depth (skip text)
  if skip p.2 = [] then .ok p.1 else .error .malformed

/-- the value of a key: the last pair with the key counts -/
def get? (k : Str) (pairs : List (Str × PyJson)) : Option PyJson := (pairs.reverse.find? fun p => p.1 = k).map Prod.snd

/-! ## Grammar -/

/-- s is the rest of a string t with its closing quote -/
inductive Chars : Str → Str → Str → Prop where
  | close {rest : Str} : Chars ('"' :: rest) [] rest
  | cons {s t cs rest : Str} {c : Char} : s.head? ≠ some '"' → character s = some (c, t) → Chars t cs rest → Chars s (c :: cs) rest

/-- s begins with the key k and its colon -/
inductive Keyed : Str → Str → Str → Prop where
  | mk {s k t rest : Str} : Chars s k t → skip t = ':' :: rest → Keyed ('"' :: s) k (skip rest)

mutual

/-- s begins with the value v, nested at most `depth` deep -/
inductive Reads (R : Rounding) : ℕ → Str → PyJson → Str → Prop where
  | str {depth : ℕ} {s t rest : Str} : Chars s t rest → Reads R depth ('"' :: s) (.str t) rest
  | noItems {depth : ℕ} {s rest : Str} : skip s = ']' :: rest → Reads R (depth + 1) ('[' :: s) (.arr []) rest
  | arr {depth : ℕ} {s rest : Str} {vs : List PyJson} :
    ReadsItems R depth (skip s) vs rest → Reads R (depth + 1) ('[' :: s) (.arr vs) rest
  | noPairs {depth : ℕ} {s rest : Str} : skip s = '}' :: rest → Reads R (depth + 1) ('{' :: s) (.obj []) rest
  | obj {depth : ℕ} {s rest : Str} {ps : List (Str × PyJson)} :
    ReadsPairs R depth (skip s) ps rest → Reads R (depth + 1) ('{' :: s) (.obj ps) rest
  | scalar {depth : ℕ} {s rest : Str} {v : PyJson} : scalar R s = some (v, rest) → Reads R depth s v rest

inductive ReadsItems (R : Rounding) : ℕ → Str → List PyJson → Str → Prop where
  | last {depth : ℕ} {s t rest : Str} {v : PyJson} : Reads R depth s v t → skip t = ']' :: rest → ReadsItems R depth s [v] rest
  | cons {depth : ℕ} {s t u rest : Str} {v : PyJson} {vs : List PyJson} :
    Reads R depth s v t → skip t = ',' :: u → ReadsItems R depth (skip u) vs rest → ReadsItems R depth s (v :: vs) rest

inductive ReadsPairs (R : Rounding) : ℕ → Str → List (Str × PyJson) → Str → Prop where
  | last {depth : ℕ} {s t u k rest : Str} {v : PyJson} :
    Keyed s k t → Reads R depth t v u → skip u = '}' :: rest → ReadsPairs R depth s [(k, v)] rest
  | cons {depth : ℕ} {s t u w k rest : Str} {v : PyJson} {ps : List (Str × PyJson)} :
    Keyed s k t → Reads R depth t v u → skip u = ',' :: w → ReadsPairs R depth (skip w) ps rest →
    ReadsPairs R depth s ((k, v) :: ps) rest

end

/-- the text is a value between blanks -/
def Denotes (R : Rounding) (depth : ℕ) (text : Str) (v : PyJson) : Prop :=
  ∃ rest, Reads R depth (skip text) v rest ∧ skip rest = []

/-! ## Reading takes characters off the front -/

/-- rest is what is left of s once its first character, and maybe more, is read -/
def After (s rest : Str) : Prop := ∃ c t, s = c :: t ∧ rest <:+ t

theorem After.length_lt {s rest : Str} (h : After s rest) : rest.length < s.length := by
  obtain ⟨c, t, rfl, hrest⟩ := h
  exact Nat.lt_succ_of_le hrest.length_le

theorem After.suffix {s rest : Str} (h : After s rest) : rest <:+ s := by
  obtain ⟨c, t, rfl, hrest⟩ := h
  exact hrest.trans (List.suffix_cons c t)

theorem After.mono {s t rest : Str} (h : After s t) (hrest : rest <:+ t) : After s rest := by
  obtain ⟨c, u, rfl, ht⟩ := h
  exact ⟨c, u, rfl, hrest.trans ht⟩

theorem After.cons {c : Char} {s rest : Str} (h : rest <:+ s) : After (c :: s) rest := ⟨c, s, rfl, h⟩

theorem After.of_suffix {s t rest : Str} (hs : t <:+ s) (h : After t rest) : After s rest := by
  obtain ⟨pre, rfl⟩ := hs
  obtain ⟨c, u, rfl, hrest⟩ := h
  cases pre with
  | nil => exact ⟨c, u, rfl, hrest⟩
  | cons d pre => exact ⟨d, pre ++ c :: u, rfl, (hrest.trans (List.suffix_cons c u)).trans (List.suffix_append _ _)⟩

theorem skip_suffix (s : Str) : skip s <:+ s := List.dropWhile_suffix _

/-- what follows a character behind blanks -/
theorem suffix_of_skip {s rest : Str} {c : Char} (h : skip s = c :: rest) : rest <:+ s := by
  calc rest <:+ c :: rest := List.suffix_cons c rest
    _ = skip s := h.symm
    _ <:+ s := skip_suffix s

/-- what follows a character and more blanks -/
theorem suffix_of_skip_skip {s t rest : Str} {c : Char} (h : skip s = c :: t) (hrest : rest <:+ skip t) : rest <:+ s := by
  calc rest <:+ skip t := hrest
    _ <:+ t := skip_suffix t
    _ <:+ s := suffix_of_skip h

theorem after_codeUnit {s rest : Str} {n : ℕ} (h : codeUnit s = some (n, rest)) : After s rest := by
  unfold codeUnit at h
  split at h
  · simp only [Option.bind_eq_bind, Option.bind_eq_some_iff] at h
    obtain ⟨a, -, b, -, c, -, d, -, heq⟩ := h
    cases heq
    exact .cons (((List.suffix_cons _ _).trans (List.suffix_cons _ _)).trans (List.suffix_cons _ _))
  · cases h

theorem after_unicodeEscape {s rest : Str} {c : Char} (h : unicodeEscape s = some (c, rest)) : After s rest := by
  unfold unicodeEscape at h
  obtain ⟨⟨unit, t⟩, hunit, h⟩ := Option.bind_eq_some_iff.1 h
  have ht := after_codeUnit hunit
  dsimp only at h
  split_ifs at h with hhigh
  · split at h
    · obtain ⟨⟨low, u⟩, hlow, h⟩ := Option.bind_eq_some_iff.1 h
      dsimp only at h
      split_ifs at h
      obtain ⟨x, -, heq⟩ := Option.map_eq_some_iff.1 h
      cases heq
      exact ht.mono ((after_codeUnit hlow).suffix.trans ((List.suffix_cons _ _).trans (List.suffix_cons _ _)))
    · cases h
  · obtain ⟨x, -, heq⟩ := Option.map_eq_some_iff.1 h
    cases heq
    exact ht

theorem after_character {s rest : Str} {c : Char} (h : character s = some (c, rest)) : After s rest := by
  rcases Option.or_eq_some_iff.1 h with h | ⟨-, h⟩
  · unfold Json.character at h
    split at h
    · cases h
    · split_ifs at h
      · split at h
        · cases h
        · split_ifs at h
          on_goal 7 => exact .cons ((after_unicodeEscape h).suffix.trans (List.suffix_cons _ _))
          all_goals
            cases h
            exact .cons (List.suffix_cons _ _)
      · cases h
        exact .cons (List.suffix_refl _)
  · unfold halfPair at h
    split at h
    · obtain ⟨p, hp, h⟩ := Option.bind_eq_some_iff.1 h
      split_ifs at h
      cases h
      exact .cons ((after_codeUnit hp).suffix.trans (List.suffix_cons _ _))
    · cases h

theorem after_run {s rest ds : Str} (h : run s = some (ds, rest)) : After s rest := by
  unfold run at h
  split_ifs at h with hnil
  cases h
  cases s with
  | nil => simp at hnil
  | cons c t =>
    have hc : c.isDigit = true := by
      by_contra hc
      exact hnil (List.takeWhile_cons_of_neg hc)
    rw [List.dropWhile_cons_of_pos hc]
    exact .cons (List.dropWhile_suffix _)

theorem after_digits {s rest : Str} {n : ℕ} (h : digits s = some (n, rest)) : After s rest := by
  unfold digits at h
  split_ifs at h with hzero
  · cases h
    obtain ⟨t, rfl⟩ := List.head?_eq_some_iff.1 hzero
    exact .cons (List.suffix_refl _)
  · dsimp only at h
    split_ifs at h with hnil
    cases h
    exact after_run (if_neg hnil)

theorem fraction_suffix {s rest ds : Str} (h : fraction s = some (ds, rest)) : rest <:+ s := by
  unfold fraction at h
  split_ifs at h
  exact (after_run h).suffix.trans (List.tail_suffix s)

theorem exponent_suffix {s rest : Str} {e : ℤ} (h : exponent s = some (e, rest)) : rest <:+ s := by
  have hmap {t : Str} {f : Str → ℤ} (ht : t <:+ s) (h : ((run t).map fun p => (f p.1, p.2)) = some (e, rest)) :
      rest <:+ s := by
    obtain ⟨p, hp, heq⟩ := Option.map_eq_some_iff.1 h
    cases heq
    exact (after_run hp).suffix.trans ht
  have htail := List.tail_suffix s
  unfold exponent at h
  split_ifs at h
  · exact hmap (f := fun ds => -(Nat.ofDigitChars 10 ds 0 : ℤ)) ((List.tail_suffix _).trans htail) h
  · exact hmap (f := fun ds => Nat.ofDigitChars 10 ds 0) ((List.tail_suffix _).trans htail) h
  · exact hmap (f := fun ds => Nat.ofDigitChars 10 ds 0) htail h

theorem decimal_suffix (R : Rounding) (sign : ℤ) (whole : ℕ) (s : Str) : (decimal R sign whole s).2 <:+ s := by
  unfold decimal
  cases hf : fraction s with
  | none =>
    cases he : exponent s with
    | none => exact List.suffix_refl s
    | some p => exact exponent_suffix he
  | some p =>
    have hp := fraction_suffix hf
    cases he : exponent p.2 with
    | none => simpa [he] using hp
    | some q => simpa [he] using (exponent_suffix he).trans hp

theorem after_number {R : Rounding} {s rest : Str} {v : PyJson} (h : number R s = some (v, rest)) : After s rest := by
  unfold number at h
  split_ifs at h
  · obtain ⟨p, hp, heq⟩ := Option.map_eq_some_iff.1 h
    have hrest := decimal_suffix R (-1) p.1 p.2
    rw [heq] at hrest
    exact ((after_digits hp).mono hrest).of_suffix (List.tail_suffix s)
  · obtain ⟨p, hp, heq⟩ := Option.map_eq_some_iff.1 h
    have hrest := decimal_suffix R 1 p.1 p.2
    rw [heq] at hrest
    exact (after_digits hp).mono hrest

theorem after_scalar {R : Rounding} {s rest : Str} {v : PyJson} (h : scalar R s = some (v, rest)) : After s rest := by
  unfold scalar at h
  split at h
  case h_7 => exact after_number h
  all_goals
    cases h
    refine .cons ?_
    repeat first | exact List.suffix_refl _ | exact List.suffix_append (List.cons _ []) _ | refine List.suffix_cons_iff.2 (.inr ?_)

theorem after_chars {s t rest : Str} (h : Chars s t rest) : After s rest := by
  induction h with
  | close => exact .cons (List.suffix_refl _)
  | cons _ hc _ ih => exact (after_character hc).mono ih.suffix

theorem after_keyed {s k rest : Str} (h : Keyed s k rest) : After s rest := by
  cases h with
  | @mk s k t rest hchars hcolon =>
    refine .cons ?_
    calc skip rest <:+ t := suffix_of_skip_skip hcolon (List.suffix_refl _)
      _ <:+ s := (after_chars hchars).suffix

mutual

theorem after_reads {R : Rounding} {depth : ℕ} {s rest : Str} {v : PyJson} : Reads R depth s v rest → After s rest
  | .str h => .cons (after_chars h).suffix
  | .noItems h => .cons (suffix_of_skip h)
  | .arr h => .cons ((after_readsItems h).suffix.trans (skip_suffix _))
  | .noPairs h => .cons (suffix_of_skip h)
  | .obj h => .cons ((after_readsPairs h).suffix.trans (skip_suffix _))
  | .scalar h => after_scalar h

theorem after_readsItems {R : Rounding} {depth : ℕ} {s rest : Str} {vs : List PyJson} :
    ReadsItems R depth s vs rest → After s rest
  | .last hv ht => (after_reads hv).mono (suffix_of_skip ht)
  | .cons hv ht hvs => (after_reads hv).mono (suffix_of_skip_skip ht (after_readsItems hvs).suffix)

theorem after_readsPairs {R : Rounding} {depth : ℕ} {s rest : Str} {ps : List (Str × PyJson)} :
    ReadsPairs R depth s ps rest → After s rest
  | .last hk hv hu => (after_keyed hk).mono ((suffix_of_skip hu).trans (after_reads hv).suffix)
  | .cons hk hv hu hps => (after_keyed hk).mono
      ((suffix_of_skip_skip hu (after_readsPairs hps).suffix).trans (after_reads hv).suffix)

end

/-! ## Strings and keys -/

theorem chars_of_eq_some {fuel : ℕ} {s t rest : Str} (h : chars fuel s = some (t, rest)) : Chars s t rest := by
  induction fuel generalizing s t with
  | zero => cases h
  | succ fuel ih =>
    rw [chars] at h
    split_ifs at h with hquote
    · obtain ⟨u, rfl⟩ := List.head?_eq_some_iff.1 hquote
      cases h
      exact .close
    · obtain ⟨p, hp, h⟩ := Option.bind_eq_some_iff.1 h
      obtain ⟨q, hq, heq⟩ := Option.map_eq_some_iff.1 h
      cases heq
      exact .cons hquote hp (ih hq)

theorem chars_eq_some {s t rest : Str} (h : Chars s t rest) {fuel : ℕ} (hfuel : s.length < fuel) :
    chars fuel s = some (t, rest) := by
  induction h generalizing fuel with
  | close =>
    obtain ⟨fuel, rfl⟩ := Nat.exists_eq_add_one_of_ne_zero (Nat.ne_of_gt (Nat.zero_lt_of_lt hfuel))
    rfl
  | cons hquote hc _ ih =>
    obtain ⟨fuel, rfl⟩ := Nat.exists_eq_add_one_of_ne_zero (Nat.ne_of_gt (Nat.zero_lt_of_lt hfuel))
    have hlen := (after_character hc).length_lt
    rw [chars, if_neg hquote, hc, Option.bind_some, ih (by omega), Option.map_some]

theorem string_eq_some {s t rest : Str} : string s = some (t, rest) ↔ Chars s t rest :=
  ⟨chars_of_eq_some, fun h => chars_eq_some h (Nat.lt_succ_self _)⟩

/-- a key is one that the grammar has -/
theorem key_eq_some {s k rest : Str} : key s = some (k, rest) ↔ Keyed s k rest := by
  unfold key
  refine ⟨?_, ?_⟩
  · intro h
    split_ifs at h with hquote
    obtain ⟨t, rfl⟩ := List.head?_eq_some_iff.1 hquote
    obtain ⟨p, hp, h⟩ := Option.bind_eq_some_iff.1 h
    split_ifs at h with hcolon
    obtain ⟨u, hu⟩ := List.head?_eq_some_iff.1 hcolon
    cases h
    rw [hu]
    exact .mk (string_eq_some.1 hp) hu
  · intro h
    cases h with
    | mk hchars hcolon => simp [string_eq_some.2 hchars, hcolon]

/-! ## One step of the recursion -/

theorem orMalformed_eq_ok {α : Type} {o : Option α} {a : α} : orMalformed o = .ok a ↔ o = some a := by
  cases o <;> simp [orMalformed]

theorem orMalformed_eq_error {α : Type} {o : Option α} {e : Failure} (h : orMalformed o = .error e) : e = .malformed := by
  cases o with
  | none => exact (Except.error.inj h).symm
  | some a => cases h

section Step

variable {α : Type} {close : Char} {elements : Str → Except Failure (List α × Str)} {s rest : Str} {as : List α} {e : Failure}

theorem enclosed_eq_ok : enclosed close elements s = .ok (as, rest) ↔
    (skip s = close :: rest ∧ as = []) ∨ ((skip s).head? ≠ some close ∧ elements (skip s) = .ok (as, rest)) := by
  unfold enclosed
  split_ifs with hclose
  · obtain ⟨t, ht⟩ := List.head?_eq_some_iff.1 hclose
    simp [ht, eq_comm, and_comm]
  · have hno : skip s ≠ close :: rest := by
      intro h
      exact hclose (by rw [h]; rfl)
    simp [hclose, hno]

theorem enclosed_eq_error (h : enclosed close elements s = .error e) : elements (skip s) = .error e := by
  unfold enclosed at h
  split_ifs at h
  exact h

theorem further_eq_ok (hclose : close ≠ ',') {a : α} : further close elements a s = .ok (as, rest) ↔
    (skip s = close :: rest ∧ as = [a]) ∨
      ∃ t bs, skip s = ',' :: t ∧ elements (skip t) = .ok (bs, rest) ∧ as = a :: bs := by
  unfold further
  split
  next hnil => simp [hnil]
  next c t hcons =>
    split_ifs with hc hcomma
    · subst hc
      simp [hcons, hclose, eq_comm, and_comm]
    · subst hcomma
      rw [map_eq_ok, Prod.exists]
      simp only [hcons, List.cons.injEq, hc, false_and, false_or, true_and, Prod.mk.injEq]
      refine ⟨?_, ?_⟩
      · intro h
        obtain ⟨bs, u, helements, hbs, rfl⟩ := h
        exact ⟨t, bs, rfl, helements, hbs.symm⟩
      · intro h
        obtain ⟨u, bs, rfl, helements, hbs⟩ := h
        exact ⟨bs, rest, helements, hbs.symm, rfl⟩
    · simp [hcons, hc, hcomma]

theorem further_eq_error {a : α} (h : further close elements a s = .error e) :
    e = .malformed ∨ ∃ t, skip s = ',' :: t ∧ elements (skip t) = .error e := by
  unfold further at h
  split at h
  next => exact .inl (Except.error.inj h).symm
  next c t hcons =>
    split_ifs at h with hc hcomma
    · subst hcomma
      exact .inr ⟨t, hcons, map_eq_error.1 h⟩
    · exact .inl (Except.error.inj h).symm

end Step

/-- no value begins with a closing bracket, and a constant or a number with no bracket or quote -/
theorem scalar_eq_none (R : Rounding) {c : Char} (hc : c = '"' ∨ c = '[' ∨ c = '{' ∨ c = ']') (s : Str) :
    scalar R (c :: s) = none := by
  have hnumber : scalar R (c :: s) = number R (c :: s) := by
    rcases hc with rfl | rfl | rfl | rfl <;> rfl
  have hdigit : c.isDigit = false ∧ c ≠ '-' ∧ c ≠ '0' := by
    rcases hc with rfl | rfl | rfl | rfl <;> decide
  simp [hnumber, number, digits, hdigit]

/-! ## `loads` and the grammar -/

/-- what is read with this much fuel is in the grammar -/
structure Sound (R : Rounding) (fuel : ℕ) : Prop where
  reads : ∀ depth s v rest, value R fuel depth s = .ok (v, rest) → Reads R depth s v rest
  readsItems : ∀ depth s vs rest, items R fuel depth s = .ok (vs, rest) → ReadsItems R depth s vs rest
  readsPairs : ∀ depth s ps rest, pairs R fuel depth s = .ok (ps, rest) → ReadsPairs R depth s ps rest

section Sound

variable {R : Rounding} {fuel depth : ℕ} {s rest : Str}

theorem Sound.value_succ (hsound : Sound R fuel) {v : PyJson} (h : value R (fuel + 1) depth s = .ok (v, rest)) :
    Reads R depth s v rest := by
  unfold value at h
  split_ifs at h with hquote hbracket hbrace
  · obtain ⟨t, rfl⟩ := List.head?_eq_some_iff.1 hquote
    obtain ⟨p, hp, heq⟩ := map_eq_ok.1 h
    cases heq
    exact .str (string_eq_some.1 (orMalformed_eq_ok.1 hp))
  · obtain ⟨t, rfl⟩ := List.head?_eq_some_iff.1 hbracket
    cases depth with
    | zero => cases h
    | succ depth =>
      obtain ⟨⟨vs, u⟩, hvs, heq⟩ := map_eq_ok.1 h
      cases heq
      rcases enclosed_eq_ok.1 hvs with ⟨hclose, rfl⟩ | ⟨-, hvs⟩
      · exact .noItems hclose
      · exact .arr (hsound.readsItems _ _ _ _ hvs)
  · obtain ⟨t, rfl⟩ := List.head?_eq_some_iff.1 hbrace
    cases depth with
    | zero => cases h
    | succ depth =>
      obtain ⟨⟨ps, u⟩, hps, heq⟩ := map_eq_ok.1 h
      cases heq
      rcases enclosed_eq_ok.1 hps with ⟨hclose, rfl⟩ | ⟨-, hps⟩
      · exact .noPairs hclose
      · exact .obj (hsound.readsPairs _ _ _ _ hps)
  · exact .scalar (orMalformed_eq_ok.1 h)

theorem Sound.items_succ (hsound : Sound R fuel) {vs : List PyJson} (h : items R (fuel + 1) depth s = .ok (vs, rest)) :
    ReadsItems R depth s vs rest := by
  obtain ⟨⟨v, t⟩, hv, h⟩ := bind_eq_ok.1 h
  have hread := hsound.reads _ _ _ _ hv
  rcases (further_eq_ok (by decide)).1 h with ⟨hclose, rfl⟩ | ⟨u, ws, hcomma, hws, rfl⟩
  · exact .last hread hclose
  · exact .cons hread hcomma (hsound.readsItems _ _ _ _ hws)

theorem Sound.pairs_succ (hsound : Sound R fuel) {ps : List (Str × PyJson)}
    (h : pairs R (fuel + 1) depth s = .ok (ps, rest)) : ReadsPairs R depth s ps rest := by
  obtain ⟨⟨k, t⟩, hk, h⟩ := bind_eq_ok.1 h
  obtain ⟨⟨v, u⟩, hv, h⟩ := bind_eq_ok.1 h
  have hkeyed := key_eq_some.1 (orMalformed_eq_ok.1 hk)
  have hread := hsound.reads _ _ _ _ hv
  rcases (further_eq_ok (by decide)).1 h with ⟨hclose, rfl⟩ | ⟨w, qs, hcomma, hqs, rfl⟩
  · exact .last hkeyed hread hclose
  · exact .cons hkeyed hread hcomma (hsound.readsPairs _ _ _ _ hqs)

end Sound

/-- what is read is in the grammar -/
theorem sound (R : Rounding) (fuel : ℕ) : Sound R fuel := by
  induction fuel with
  | zero =>
    constructor
    case reads =>
      intro depth s v rest h
      cases h
    case readsItems =>
      intro depth s vs rest h
      cases h
    case readsPairs =>
      intro depth s ps rest h
      cases h
  | succ fuel ih =>
    constructor
    case reads =>
      intro depth s v rest
      exact ih.value_succ
    case readsItems =>
      intro depth s vs rest
      exact ih.items_succ
    case readsPairs =>
      intro depth s ps rest
      exact ih.pairs_succ

theorem head_of_reads {R : Rounding} {depth : ℕ} {s rest : Str} {v : PyJson} (h : Reads R depth s v rest) :
    s.head? ≠ some ']' := by
  cases h with
  | scalar h =>
    intro hbracket
    obtain ⟨t, rfl⟩ := List.head?_eq_some_iff.1 hbracket
    rw [scalar_eq_none R (by decide)] at h
    cases h
  | _ => simp

theorem head_of_readsItems {R : Rounding} {depth : ℕ} {s rest : Str} {vs : List PyJson} (h : ReadsItems R depth s vs rest) :
    s.head? ≠ some ']' := by
  cases h with
  | last hv _ => exact head_of_reads hv
  | cons hv _ _ => exact head_of_reads hv

theorem head_of_keyed {s k rest : Str} (h : Keyed s k rest) : s.head? ≠ some '}' := by
  cases h with
  | mk _ _ => simp

theorem head_of_readsPairs {R : Rounding} {depth : ℕ} {s rest : Str} {ps : List (Str × PyJson)}
    (h : ReadsPairs R depth s ps rest) : s.head? ≠ some '}' := by
  cases h with
  | last hk _ _ => exact head_of_keyed hk
  | cons hk _ _ _ => exact head_of_keyed hk

mutual

/-- what is in the grammar is read -/
theorem value_eq_ok {R : Rounding} {depth fuel : ℕ} {s rest : Str} {v : PyJson} :
    Reads R depth s v rest → 2 * s.length < fuel → value R fuel depth s = .ok (v, rest)
  | h, hfuel => by
    obtain ⟨fuel, rfl⟩ := Nat.exists_eq_add_one_of_ne_zero (Nat.ne_of_gt (Nat.zero_lt_of_lt hfuel))
    cases h with
    | @str depth s t rest h =>
      unfold value
      simp [string_eq_some.2 h, orMalformed, Except.map]
    | @noItems depth s rest h =>
      have hs : enclosed ']' (items R fuel depth) s = .ok ([], rest) := enclosed_eq_ok.2 (.inl ⟨h, rfl⟩)
      unfold value
      simp [hs, Except.map]
    | @arr depth s rest vs h =>
      have hlen := (skip_suffix s).length_le
      rw [List.length_cons] at hfuel
      have hvs : items R fuel depth (skip s) = .ok (vs, rest) := readsItems_eq_ok h (by omega)
      have hs : enclosed ']' (items R fuel depth) s = .ok (vs, rest) := enclosed_eq_ok.2 (.inr ⟨head_of_readsItems h, hvs⟩)
      unfold value
      simp [hs, Except.map]
    | @noPairs depth s rest h =>
      have hs : enclosed '}' (pairs R fuel depth) s = .ok ([], rest) := enclosed_eq_ok.2 (.inl ⟨h, rfl⟩)
      unfold value
      simp [hs, Except.map]
    | @obj depth s rest ps h =>
      have hlen := (skip_suffix s).length_le
      rw [List.length_cons] at hfuel
      have hps : pairs R fuel depth (skip s) = .ok (ps, rest) := readsPairs_eq_ok h (by omega)
      have hs : enclosed '}' (pairs R fuel depth) s = .ok (ps, rest) := enclosed_eq_ok.2 (.inr ⟨head_of_readsPairs h, hps⟩)
      unfold value
      simp [hs, Except.map]
    | scalar h =>
      have hhead {c : Char} (hc : c = '"' ∨ c = '[' ∨ c = '{' ∨ c = ']') : s.head? ≠ some c := by
        intro hs
        obtain ⟨t, rfl⟩ := List.head?_eq_some_iff.1 hs
        rw [scalar_eq_none R hc] at h
        cases h
      unfold value
      rw [if_neg (hhead (by decide)), if_neg (hhead (by decide)), if_neg (hhead (by decide)), h]
      rfl

theorem readsItems_eq_ok {R : Rounding} {depth fuel : ℕ} {s rest : Str} {vs : List PyJson} :
    ReadsItems R depth s vs rest → 2 * s.length + 1 < fuel → items R fuel depth s = .ok (vs, rest)
  | h, hfuel => by
    obtain ⟨fuel, rfl⟩ := Nat.exists_eq_add_one_of_ne_zero (Nat.ne_of_gt (Nat.zero_lt_of_lt hfuel))
    cases h with
    | last hv hclose =>
      exact bind_eq_ok.2 ⟨_, value_eq_ok hv (by omega), (further_eq_ok (by decide)).2 (.inl ⟨hclose, rfl⟩)⟩
    | @cons depth s t w rest v vs hv hcomma hvs =>
      have hlen := (after_reads hv).length_lt
      have hrest := (suffix_of_skip_skip hcomma (List.suffix_refl _)).length_le
      have hws : items R fuel depth (skip w) = .ok (vs, rest) := readsItems_eq_ok hvs (by omega)
      exact bind_eq_ok.2 ⟨_, value_eq_ok hv (by omega), (further_eq_ok (by decide)).2 (.inr ⟨_, _, hcomma, hws, rfl⟩)⟩

theorem readsPairs_eq_ok {R : Rounding} {depth fuel : ℕ} {s rest : Str} {ps : List (Str × PyJson)} :
    ReadsPairs R depth s ps rest → 2 * s.length + 1 < fuel → pairs R fuel depth s = .ok (ps, rest)
  | h, hfuel => by
    obtain ⟨fuel, rfl⟩ := Nat.exists_eq_add_one_of_ne_zero (Nat.ne_of_gt (Nat.zero_lt_of_lt hfuel))
    cases h with
    | @last depth s t w k rest v hk hv hclose =>
      have hkey := (after_keyed hk).length_lt
      have hvalue : value R fuel depth t = .ok (v, w) := value_eq_ok hv (by omega)
      exact bind_eq_ok.2 ⟨_, orMalformed_eq_ok.2 (key_eq_some.2 hk), bind_eq_ok.2 ⟨_, hvalue,
        (further_eq_ok (by decide)).2 (.inl ⟨hclose, rfl⟩)⟩⟩
    | @cons depth s t w x k rest v ps hk hv hcomma hps =>
      have hkey := (after_keyed hk).length_lt
      have hlen := (after_reads hv).length_lt
      have hrest := (suffix_of_skip_skip hcomma (List.suffix_refl _)).length_le
      have hvalue : value R fuel depth t = .ok (v, w) := value_eq_ok hv (by omega)
      have hqs : pairs R fuel depth (skip x) = .ok (ps, rest) := readsPairs_eq_ok hps (by omega)
      exact bind_eq_ok.2 ⟨_, orMalformed_eq_ok.2 (key_eq_some.2 hk), bind_eq_ok.2 ⟨_, hvalue,
        (further_eq_ok (by decide)).2 (.inr ⟨_, _, hcomma, hqs, rfl⟩)⟩⟩

end

/-- **`loads` returns exactly what the text denotes.** -/
theorem loads_eq_ok {R : Rounding} {depth : ℕ} {text : Str} {v : PyJson} :
    loads R depth text = .ok v ↔ Denotes R depth text v := by
  refine ⟨?_, ?_⟩
  · intro h
    obtain ⟨⟨w, rest⟩, hw, h⟩ := bind_eq_ok.1 h
    split_ifs at h with hend
    cases h
    exact ⟨rest, (sound R _).reads _ _ _ _ hw, hend⟩
  · intro h
    obtain ⟨rest, h, hend⟩ := h
    have hlen := (skip_suffix text).length_le
    exact bind_eq_ok.2 ⟨_, value_eq_ok h (by omega), if_pos hend⟩

/-! ## Exceptions -/

/-- a budget for values and one for their elements that rule the exception e out -/
structure Spares (e : Failure) (V E : ℕ → ℕ → Str → Prop) : Prop where
  malformed : e ≠ .malformed
  fuel : ∀ depth s, V 0 depth s ∨ E 0 depth s → e ≠ .outOfFuel
  depth : ∀ fuel c s, V fuel 0 (c :: s) → c = '[' ∨ c = '{' → e ≠ .tooDeep
  enter : ∀ fuel depth c s t, V (fuel + 1) (depth + 1) (c :: s) → c = '[' ∨ c = '{' → t <:+ s → E fuel depth t
  element : ∀ fuel depth s t, E (fuel + 1) depth s → t <:+ s → V fuel depth t
  further : ∀ fuel depth s t, E (fuel + 1) depth s → After s t → E fuel depth t

/-- nothing fails with e within the budget -/
structure Spared (R : Rounding) (e : Failure) (V E : ℕ → ℕ → Str → Prop) (fuel : ℕ) : Prop where
  value : ∀ depth s, V fuel depth s → value R fuel depth s ≠ .error e
  items : ∀ depth s, E fuel depth s → items R fuel depth s ≠ .error e
  pairs : ∀ depth s, E fuel depth s → pairs R fuel depth s ≠ .error e

section Spared

variable {R : Rounding} {e : Failure} {V E : ℕ → ℕ → Str → Prop} {fuel depth : ℕ} {s : Str}

theorem Spares.value_succ (hspare : Spares e V E) (ih : Spared R e V E fuel) (hs : V (fuel + 1) depth s) :
    PyJson.value R (fuel + 1) depth s ≠ .error e := by
  intro h
  unfold PyJson.value at h
  split_ifs at h with hquote hbracket hbrace
  · exact hspare.malformed (orMalformed_eq_error (map_eq_error.1 h))
  · obtain ⟨t, rfl⟩ := List.head?_eq_some_iff.1 hbracket
    cases depth with
    | zero => exact hspare.depth _ _ _ hs (.inl rfl) (Except.error.inj h).symm
    | succ depth =>
      have hinner := hspare.enter _ _ _ _ _ hs (.inl rfl) (skip_suffix t)
      exact ih.items depth _ hinner (enclosed_eq_error (map_eq_error.1 h))
  · obtain ⟨t, rfl⟩ := List.head?_eq_some_iff.1 hbrace
    cases depth with
    | zero => exact hspare.depth _ _ _ hs (.inr rfl) (Except.error.inj h).symm
    | succ depth =>
      have hinner := hspare.enter _ _ _ _ _ hs (.inr rfl) (skip_suffix t)
      exact ih.pairs depth _ hinner (enclosed_eq_error (map_eq_error.1 h))
  · exact hspare.malformed (orMalformed_eq_error h)

theorem Spares.items_succ (hspare : Spares e V E) (ih : Spared R e V E fuel) (hs : E (fuel + 1) depth s) :
    PyJson.items R (fuel + 1) depth s ≠ .error e := by
  intro h
  rcases bind_eq_error.1 h with hv | ⟨⟨v, t⟩, hv, h⟩
  · exact ih.value depth s (hspare.element _ _ _ _ hs (List.suffix_refl s)) hv
  · rcases further_eq_error h with hbad | ⟨u, hcomma, h⟩
    · exact hspare.malformed hbad
    · have hread := after_reads ((sound R fuel).reads _ _ _ _ hv)
      have hrest := hread.mono (suffix_of_skip_skip hcomma (List.suffix_refl _))
      exact ih.items depth _ (hspare.further _ _ _ _ hs hrest) h

theorem Spares.pairs_succ (hspare : Spares e V E) (ih : Spared R e V E fuel) (hs : E (fuel + 1) depth s) :
    PyJson.pairs R (fuel + 1) depth s ≠ .error e := by
  intro h
  rcases bind_eq_error.1 h with hk | ⟨⟨k, t⟩, hk, h⟩
  · exact hspare.malformed (orMalformed_eq_error hk)
  · have hkey := after_keyed (key_eq_some.1 (orMalformed_eq_ok.1 hk))
    rcases bind_eq_error.1 h with hv | ⟨⟨v, u⟩, hv, h⟩
    · exact ih.value depth t (hspare.element _ _ _ _ hs hkey.suffix) hv
    · rcases further_eq_error h with hbad | ⟨w, hcomma, h⟩
      · exact hspare.malformed hbad
      · have hread := after_reads ((sound R fuel).reads _ _ _ _ hv)
        have hrest := (suffix_of_skip_skip hcomma (List.suffix_refl _)).trans hread.suffix
        exact ih.pairs depth _ (hspare.further _ _ _ _ hs (hkey.mono hrest)) h

end Spared

theorem Spares.spared {e : Failure} {V E : ℕ → ℕ → Str → Prop} (hspare : Spares e V E) (R : Rounding) (fuel : ℕ) :
    Spared R e V E fuel := by
  induction fuel with
  | zero =>
    constructor
    case value =>
      intro depth s hs h
      exact hspare.fuel depth s (.inl hs) (Except.error.inj h).symm
    case items =>
      intro depth s hs h
      exact hspare.fuel depth s (.inr hs) (Except.error.inj h).symm
    case pairs =>
      intro depth s hs h
      exact hspare.fuel depth s (.inr hs) (Except.error.inj h).symm
  | succ fuel ih =>
    constructor
    case value =>
      intro depth s
      exact hspare.value_succ ih
    case items =>
      intro depth s
      exact hspare.items_succ ih
    case pairs =>
      intro depth s
      exact hspare.pairs_succ ih

theorem loads_eq_error {R : Rounding} {depth : ℕ} {text : Str} {e : Failure} (he : e ≠ .malformed)
    (h : loads R depth text = .error e) : value R (2 * text.length + 2) depth (skip text) = .error e := by
  rcases bind_eq_error.1 h with h | ⟨p, -, h⟩
  · exact h
  · split_ifs at h
    exact absurd (Except.error.inj h).symm he

/-- **The recursion never ends early.** -/
theorem loads_ne_outOfFuel (R : Rounding) (depth : ℕ) (text : Str) : loads R depth text ≠ .error .outOfFuel := by
  have hspare : Spares .outOfFuel (fun fuel _ s => 2 * s.length < fuel) fun fuel _ s => 2 * s.length + 1 < fuel := by
    constructor
    case malformed => decide
    case fuel => omega
    case depth => simp
    case enter =>
      intro fuel depth c s t hs _ ht
      have hlen := ht.length_le
      rw [List.length_cons] at hs
      omega
    case element =>
      intro fuel depth s t hs ht
      have hlen := ht.length_le
      omega
    case further =>
      intro fuel depth s t hs ht
      have hlen := ht.length_lt
      omega
  intro h
  have hlen := (skip_suffix text).length_le
  exact (hspare.spared R _).value depth _ (by omega) (loads_eq_error (by decide) h)

end PyJson

end AgentPick
