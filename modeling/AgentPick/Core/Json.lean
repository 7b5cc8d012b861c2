/-
JSON texts as the json module of the language writes and reads them. LIBRARY: nothing in this file names the pipeline.

`dumps` is `json.dumps(value, ensure_ascii=False)`: separators ", " and ": ", and in a string only the quote, the backslash
and the control characters below U+0020 are escaped, so every other character stands for itself. `loads` is `json.loads`, on
values without floats. An object is the list of its pairs.

- `dumps_printable`: a text that `dumps` writes has no control character, and so no line break.
- `loads_dumps`: `loads` reads back what `dumps` wrote.
-/
import Mathlib.Tactic
import AgentPick.Core.Text

namespace AgentPick

inductive Json where
  | null
  | bool (b : Bool)
  | int (n : ℤ)
  | str (s : Str)
  | arr (items : List Json)
  | obj (pairs : List (Str × Json))

namespace Json

/-! ## Writing -/

/-- the hexadecimal digit of d < 16 -/
def hexDigit (d : ℕ) : Char := Nat.digitChar d

/-- a character inside a string -/
def escape (c : Char) : Str :=
  if c = '"' then ['\\', '"']
  else if c = '\\' then ['\\', '\\']
  else if c = '\n' then ['\\', 'n']
  else if c = '\r' then ['\\', 'r']
  else if c = '\t' then ['\\', 't']
  else if c.toNat = 0x0c then ['\\', 'f']
  else if c.toNat = 0x08 then ['\\', 'b']
  else if c.toNat < 0x20 then ['\\', 'u', '0', '0', hexDigit (c.toNat / 16), hexDigit (c.toNat % 16)]
  else [c]

def quote (s : Str) : Str := '"' :: s.flatMap escape ++ ['"']

def ofInt (n : ℤ) : Str := if n < 0 then '-' :: Nat.toDigits 10 n.natAbs else Nat.toDigits 10 n.natAbs

mutual

/-- `json.dumps(value, ensure_ascii=False)` -/
def dumps : Json → Str
  | .null => ['n', 'u', 'l', 'l']
  | .bool true => ['t', 'r', 'u', 'e']
  | .bool false => ['f', 'a', 'l', 's', 'e']
  | .int n => ofInt n
  | .str s => quote s
  | .arr items => '[' :: dumpsItems items ++ [']']
  | .obj pairs => '{' :: dumpsPairs pairs ++ ['}']

def dumpsItems : List Json → Str
  | [] => []
  | [v] => dumps v
  | v :: w :: rest => dumps v ++ ',' :: ' ' :: dumpsItems (w :: rest)

def dumpsPairs : List (Str × Json) → Str
  | [] => []
  | [(k, v)] => quote k ++ ':' :: ' ' :: dumps v
  | (k, v) :: p :: rest => quote k ++ ':' :: ' ' :: dumps v ++ ',' :: ' ' :: dumpsPairs (p :: rest)

end

/-! ## Reading -/

/-- whitespace between the parts of a text -/
def isBlank (c : Char) : Bool := c = ' ' || c = '\t' || c = '\n' || c = '\r'

def skip (s : Str) : Str := s.dropWhile isBlank

def hexValue (c : Char) : Option ℕ :=
  if '0' ≤ c ∧ c ≤ '9' then some (c.toNat - 48)
  else if 'a' ≤ c ∧ c ≤ 'f' then some (c.toNat - 87)
  else if 'A' ≤ c ∧ c ≤ 'F' then some (c.toNat - 55)
  else none

/-- the code unit of `XXXX` after `\u` -/
def codeUnit : Str → Option (ℕ × Str)
  | a :: b :: c :: d :: s => do
    let a ← hexValue a
    let b ← hexValue b
    let c ← hexValue c
    let d ← hexValue d
    some (((a * 16 + b) * 16 + c) * 16 + d, s)
  | _ => none

def ofCodePoint (n : ℕ) : Option Char := if n.isValidChar then some (Char.ofNat n) else none

/-- after `\u`: a character, or the first half of a surrogate pair and its second half -/
def unicodeEscape (s : Str) : Option (Char × Str) := do
  let (unit, s) ← codeUnit s
  if 0xd800 ≤ unit ∧ unit < 0xdc00 then
    match s with
    | '\\' :: 'u' :: s => do
      let (low, s) ← codeUnit s
      if 0xdc00 ≤ low ∧ low < 0xe000 then
        (ofCodePoint (0x10000 + (unit - 0xd800) * 0x400 + (low - 0xdc00))).map (·, s)
      else none
    | _ => none
  else (ofCodePoint unit).map (·, s)

/-- one character of a string, escaped or not -/
def character : Str → Option (Char × Str)
  | [] => none
  | c :: s =>
    if c = '\\' then
      match s with
      | [] => none
      | e :: s =>
        if e = '"' ∨ e = '\\' ∨ e = '/' then some (e, s)
        else if e = 'n' then some ('\n', s)
        else if e = 'r' then some ('\r', s)
        else if e = 't' then some ('\t', s)
        else if e = 'f' then some (Char.ofNat 0x0c, s)
        else if e = 'b' then some (Char.ofNat 0x08, s)
        else if e = 'u' then unicodeEscape s
        else none
    else if c.toNat < 0x20 then none
    else some (c, s)

/-- a string after its opening quote -/
def string : ℕ → Str → Option (Str × Str)
  | 0, _ => none
  | fuel + 1, s =>
    if s.head? = some '"' then some ([], s.tail)
    else do
      let (c, s) ← character s
      let (t, s) ← string fuel s
      some (c :: t, s)

/-- the digits of an integer: no further digit follows a leading zero -/
def digits (s : Str) : Option (ℕ × Str) :=
  if s.head? = some '0' then some (0, s.tail)
  else
    let ds := s.takeWhile Char.isDigit
    if ds = [] then none else some (Nat.ofDigitChars 10 ds 0, s.dropWhile Char.isDigit)

def number (s : Str) : Option (Json × Str) :=
  if s.head? = some '-' then (digits s.tail).map fun p => (.int (-p.1), p.2)
  else (digits s).map fun p => (.int p.1, p.2)

/-- `null`, `true`, `false` or a number -/
def scalar : Str → Option (Json × Str)
  | 'n' :: 'u' :: 'l' :: 'l' :: s => some (.null, s)
  | 't' :: 'r' :: 'u' :: 'e' :: s => some (.bool true, s)
  | 'f' :: 'a' :: 'l' :: 's' :: 'e' :: s => some (.bool false, s)
  | s => number s

mutual

def value : ℕ → Str → Option (Json × Str)
  | 0, _ => none
  | fuel + 1, s =>
    match s with
    | [] => none
    | c :: s =>
      if c = '"' then (string fuel s).map fun p => (.str p.1, p.2)
      else if c = '[' then
        if (skip s).head? = some ']' then some (.arr [], (skip s).tail)
        else (items fuel (skip s)).map fun p => (.arr p.1, p.2)
      else if c = '{' then
        if (skip s).head? = some '}' then some (.obj [], (skip s).tail)
        else (pairs fuel (skip s)).map fun p => (.obj p.1, p.2)
      else scalar (c :: s)

/-- the items of an array, up to its closing bracket -/
def items : ℕ → Str → Option (List Json × Str)
  | 0, _ => none
  | fuel + 1, s => do
    let (v, s) ← value fuel s
    match skip s with
    | ']' :: s => some ([v], s)
    | ',' :: s => do
      let (vs, s) ← items fuel (skip s)
      some (v :: vs, s)
    | _ => none

/-- the pairs of an object, up to its closing brace -/
def pairs : ℕ → Str → Option (List (Str × Json) × Str)
  | 0, _ => none
  | fuel + 1, s =>
    match s with
    | '"' :: s => do
      let (k, s) ← string fuel s
      match skip s with
      | ':' :: s => do
        let (v, s) ← value fuel (skip s)
        match skip s with
        | '}' :: s => some ([(k, v)], s)
        | ',' :: s => do
          let (ps, s) ← pairs fuel (skip s)
          some ((k, v) :: ps, s)
        | _ => none
      | _ => none
    | _ => none

end

/-- `json.loads(text)` -/
def loads (text : Str) : Option Json := do
  let (v, s) ← value (text.length + 1) (skip text)
  if skip s = [] then some v else none

/-! ## Looking into a value -/

/-- the value of a key: the last pair with the key counts -/
def get? (k : Str) : Json → Option Json
  | .obj pairs => (pairs.reverse.find? fun p => p.1 = k).map Prod.snd
  | _ => none

theorem get?_concat (pairs : List (Str × Json)) (k : Str) (v : Json) : (Json.obj (pairs ++ [(k, v)])).get? k = some v := by
  simp [get?]

def item? (i : ℕ) : Json → Option Json
  | .arr items => items[i]?
  | _ => none

def text? : Json → Option Str
  | .str s => some s
  | _ => none

/-! ## Strings -/

theorem hexValue_hexDigit : ∀ d < 16, hexValue (hexDigit d) = some d := by decide

theorem ofCodePoint_toNat (c : Char) : ofCodePoint c.toNat = some c := by
  have hvalid : c.toNat.isValidChar := c.valid
  rw [ofCodePoint, if_pos hvalid, Char.ofNat_toNat]

theorem character_escape (c : Char) (rest : Str) : character (escape c ++ rest) = some (c, rest) := by
  unfold escape
  split_ifs with h1 h2 h3 h4 h5 h6 h7 h8
  · subst h1
    rfl
  · subst h2
    rfl
  · subst h3
    rfl
  · subst h4
    rfl
  · subst h5
    rfl
  · obtain rfl : c = Char.ofNat 0x0c := by rw [← h6, Char.ofNat_toNat]
    rfl
  · obtain rfl : c = Char.ofNat 0x08 := by rw [← h7, Char.ofNat_toNat]
    rfl
  · have hhigh := hexValue_hexDigit (c.toNat / 16) (by omega)
    have hlow := hexValue_hexDigit (c.toNat % 16) (by omega)
    have hunit : codeUnit ('0' :: '0' :: hexDigit (c.toNat / 16) :: hexDigit (c.toNat % 16) :: rest) =
        some (c.toNat, rest) := by
      have hsum : c.toNat / 16 * 16 + c.toNat % 16 = c.toNat := by omega
      simp [codeUnit, hhigh, hlow, show hexValue '0' = some 0 from rfl, hsum]
    have hno : ¬ (0xd800 ≤ c.toNat ∧ c.toNat < 0xdc00) := by omega
    simp [character, unicodeEscape, hunit, hno, ofCodePoint_toNat]
  · simp [character, h2, h8]

theorem escape_head (c : Char) (rest : Str) : (escape c ++ rest).head? ≠ some '"' := by
  unfold escape
  split_ifs with h1 <;> simp [h1]

theorem string_quote (s rest : Str) (fuel : ℕ) (hfuel : s.length < fuel) :
    string fuel (s.flatMap escape ++ '"' :: rest) = some (s, rest) := by
  induction s generalizing fuel with
  | nil =>
    obtain ⟨fuel, rfl⟩ := Nat.exists_eq_succ_of_ne_zero (Nat.ne_of_gt hfuel)
    rfl
  | cons c s ih =>
    obtain ⟨fuel, rfl⟩ := Nat.exists_eq_succ_of_ne_zero (Nat.ne_of_gt (Nat.zero_lt_of_lt hfuel))
    have hrest := ih fuel (Nat.lt_of_succ_lt_succ hfuel)
    rw [List.flatMap_cons, List.append_assoc, string, if_neg (escape_head c _), character_escape]
    simp [hrest]

theorem length_le_escape (s : Str) : s.length ≤ (s.flatMap escape).length := by
  rw [List.length_flatMap]
  have hone : ∀ c ∈ s, 1 ≤ (escape c).length := by
    intro c _
    unfold escape
    split_ifs <;> simp
  have hsum := List.card_nsmul_le_sum (s.map fun c => (escape c).length) 1 (by simpa using hone)
  simpa using hsum

theorem length_lt_quote (s : Str) : s.length + 1 < (quote s).length := by
  have h := length_le_escape s
  simp only [quote, List.length_append, List.length_cons, List.length_nil]
  omega

/-! ## Numbers -/

/-- a number cannot go on into the rest -/
def Ends (rest : Str) : Prop := ∀ c ∈ rest.head?, c.isDigit = false

theorem ends_cons {c : Char} {rest : Str} (h : c.isDigit = false) : Ends (c :: rest) := by
  intro x hx
  obtain rfl := Option.some.inj hx
  exact h

/-- only 0 is written with a leading zero -/
theorem toDigits_head {n : ℕ} (hn : 0 < n) : (Nat.toDigits 10 n).head? ≠ some '0' := by
  induction n using Nat.strong_induction_on with
  | _ n ih =>
    rw [Nat.toDigits_eq_if (by decide)]
    split_ifs with hlt
    · have hdigit : ∀ d < 10, 0 < d → Nat.digitChar d ≠ '0' := by decide
      simpa using hdigit n hlt hn
    · have hquotient := ih (n / 10) (by omega) (by omega)
      rwa [List.head?_append_of_ne_nil _ Nat.toDigits_ne_nil]

theorem digits_toDigits (n : ℕ) {rest : Str} (hrest : Ends rest) :
    digits (Nat.toDigits 10 n ++ rest) = some (n, rest) := by
  rcases Nat.eq_zero_or_pos n with rfl | hn
  · rw [Nat.toDigits_zero]
    rfl
  · have hhead : (Nat.toDigits 10 n ++ rest).head? ≠ some '0' := by
      rw [List.head?_append_of_ne_nil _ Nat.toDigits_ne_nil]
      exact toDigits_head hn
    have hall : ∀ c ∈ Nat.toDigits 10 n, c.isDigit = true :=
      fun c hc => Nat.isDigit_of_mem_toDigits (by decide) (by decide) hc
    obtain ⟨htake, hdrop⟩ := Text.span_append hall hrest
    simp only [digits, if_neg hhead, htake, hdrop, Nat.toDigits_ne_nil, if_false, Nat.ofDigitChars_ten_toDigits]

theorem ofInt_head (n : ℤ) : ∃ c t, ofInt n = c :: t ∧ (c = '-' ∨ c.isDigit = true) := by
  unfold ofInt
  split_ifs with hn
  · exact ⟨'-', _, rfl, .inl rfl⟩
  · obtain ⟨c, t, ht⟩ := List.exists_cons_of_ne_nil (Nat.toDigits_ne_nil (n := n.natAbs) (b := 10))
    exact ⟨c, t, ht, .inr (Nat.isDigit_of_mem_toDigits (by decide) (by decide) (ht ▸ List.mem_cons_self))⟩

theorem number_ofInt (n : ℤ) {rest : Str} (hrest : Ends rest) : number (ofInt n ++ rest) = some (.int n, rest) := by
  unfold ofInt
  split_ifs with hn
  · have habs : -(n.natAbs : ℤ) = n := by omega
    rw [List.cons_append, number, List.head?_cons, if_pos rfl, List.tail_cons, digits_toDigits _ hrest, Option.map_some, habs]
  · have hminus : (Nat.toDigits 10 n.natAbs ++ rest).head? ≠ some '-' := by
      obtain ⟨c, t, ht, hc⟩ := ofInt_head n
      rw [ofInt, if_neg hn] at ht
      rw [ht]
      rcases hc with rfl | hc
      · have hdigit := Nat.isDigit_of_mem_toDigits (b := 10) (n := n.natAbs) (by decide) (by decide)
          (ht ▸ List.mem_cons_self)
        exact absurd hdigit (by decide)
      · intro h
        obtain rfl := Option.some.inj h
        exact absurd hc (by decide)
    have habs : (n.natAbs : ℤ) = n := by omega
    rw [number, if_neg hminus, digits_toDigits _ hrest, Option.map_some, habs]

theorem scalar_ofInt (n : ℤ) {rest : Str} (hrest : Ends rest) : scalar (ofInt n ++ rest) = some (.int n, rest) := by
  rw [← number_ofInt n hrest]
  obtain ⟨c, t, ht, hc⟩ := ofInt_head n
  have hletter : c ≠ 'n' ∧ c ≠ 't' ∧ c ≠ 'f' := by
    refine ⟨?_, ?_, ?_⟩ <;> intro h <;> subst h <;> exact absurd hc (by decide)
  rw [ht, List.cons_append]
  unfold scalar
  split <;> simp_all

/-! ## The round trip -/

theorem skip_cons {c : Char} (s : Str) (h : isBlank c = false) : skip (c :: s) = c :: s :=
  List.dropWhile_cons_of_neg (by simp [h])

theorem isBlank_quote : isBlank '"' = false := rfl
theorem isBlank_comma : isBlank ',' = false := rfl
theorem isBlank_colon : isBlank ':' = false := rfl
theorem isBlank_bracket : isBlank ']' = false := rfl
theorem isBlank_brace : isBlank '}' = false := rfl

theorem skip_blank (s : Str) : skip (' ' :: s) = skip s := rfl

/-- how a written value starts -/
def Starts (s : Str) : Prop := ∃ c t, s = c :: t ∧ isBlank c = false ∧ c ≠ ']'

theorem Starts.append {s : Str} (h : Starts s) (rest : Str) : Starts (s ++ rest) := by
  obtain ⟨c, t, rfl, hblank, hbracket⟩ := h
  exact ⟨c, t ++ rest, rfl, hblank, hbracket⟩

theorem Starts.skip {s : Str} (h : Starts s) : Json.skip s = s := by
  obtain ⟨c, t, rfl, hblank, -⟩ := h
  exact skip_cons t hblank

theorem Starts.head {s : Str} (h : Starts s) : s.head? ≠ some ']' := by
  obtain ⟨c, t, rfl, -, hbracket⟩ := h
  exact fun hc => hbracket (Option.some.inj hc)

theorem starts_dumps (v : Json) : Starts (dumps v) := by
  cases v with
  | null => exact ⟨_, _, rfl, rfl, by decide⟩
  | bool b => cases b <;> exact ⟨_, _, rfl, rfl, by decide⟩
  | int n =>
    obtain ⟨c, t, ht, hc⟩ := ofInt_head n
    refine ⟨c, t, ht, ?_, ?_⟩
    · rcases hc with rfl | hc
      · rfl
      · cases hblank : isBlank c with
        | false => rfl
        | true =>
          have hcases : ((c = ' ' ∨ c = '\t') ∨ c = '\n') ∨ c = '\r' := by simpa [isBlank] using hblank
          rcases hcases with ((rfl | rfl) | rfl) | rfl <;> exact absurd hc (by decide)
    · intro h
      subst h
      exact absurd hc (by decide)
  | str s => exact ⟨_, _, rfl, rfl, by decide⟩
  | arr vs => exact ⟨_, _, rfl, rfl, by decide⟩
  | obj ps => exact ⟨_, _, rfl, rfl, by decide⟩

theorem starts_dumpsItems (v : Json) (vs : List Json) : Starts (dumpsItems (v :: vs)) := by
  cases vs with
  | nil => exact starts_dumps v
  | cons w rest => exact (starts_dumps v).append _

theorem dumpsPairs_head (k : Str) (v : Json) (ps : List (Str × Json)) : ∃ t, dumpsPairs ((k, v) :: ps) = '"' :: t := by
  cases ps with
  | nil => exact ⟨_, rfl⟩
  | cons p ps => exact ⟨_, rfl⟩

mutual

theorem value_dumps : ∀ (v : Json) (fuel : ℕ) (rest : Str), (dumps v).length < fuel → Ends rest →
    value fuel (dumps v ++ rest) = some (v, rest)
  | .null, fuel + 1, rest, _, _ => rfl
  | .bool true, fuel + 1, rest, _, _ => rfl
  | .bool false, fuel + 1, rest, _, _ => rfl
  | .int n, fuel + 1, rest, _, hrest => by
    obtain ⟨c, t, ht, hc⟩ := ofInt_head n
    have hopen : c ≠ '"' ∧ c ≠ '[' ∧ c ≠ '{' := by
      refine ⟨?_, ?_, ?_⟩ <;> intro h <;> subst h <;> exact absurd hc (by decide)
    have hscalar := scalar_ofInt n hrest
    rw [ht, List.cons_append] at hscalar
    rw [dumps, ht, List.cons_append, value]
    simp only [hopen, if_false, hscalar]
  | .str s, fuel + 1, rest, hfuel, _ => by
    have hlen := length_lt_quote s
    rw [dumps] at hfuel
    have hs := string_quote s rest fuel (by omega)
    simp [dumps, quote, value, hs]
  | .arr [], fuel + 1, rest, _, _ => rfl
  | .arr (v :: vs), fuel + 1, rest, hfuel, _ => by
    have hstarts := (starts_dumpsItems v vs).append (']' :: rest)
    have hitems := items_dumps v vs fuel rest (by
      simp only [dumps, List.length_append, List.length_cons, List.length_nil] at hfuel
      omega)
    rw [dumps, List.append_assoc, List.cons_append, List.singleton_append, value]
    simp only [Char.reduceEq, if_false, if_true, hstarts.skip, hstarts.head, hitems, Option.map_some]
  | .obj [], fuel + 1, rest, _, _ => rfl
  | .obj ((k, v) :: ps), fuel + 1, rest, hfuel, _ => by
    have hpairs := pairs_dumps k v ps fuel rest (by
      simp only [dumps, List.length_append, List.length_cons, List.length_nil] at hfuel
      omega)
    obtain ⟨t, ht⟩ := dumpsPairs_head k v ps
    rw [ht, List.cons_append] at hpairs
    rw [dumps, List.append_assoc, List.cons_append, List.singleton_append, ht, List.cons_append, value]
    simp only [Char.reduceEq, if_false, if_true, skip_cons _ isBlank_quote, List.head?_cons,
      Option.some.injEq, hpairs, Option.map_some]

theorem items_dumps : ∀ (v : Json) (vs : List Json) (fuel : ℕ) (rest : Str), (dumpsItems (v :: vs)).length + 1 < fuel →
    items fuel (dumpsItems (v :: vs) ++ ']' :: rest) = some (v :: vs, rest)
  | v, [], fuel + 1, rest, hfuel => by
    rw [dumpsItems] at hfuel
    have hv := value_dumps v fuel (']' :: rest) (by omega) (ends_cons rfl)
    rw [dumpsItems, items, hv]
    simp [skip_cons _ isBlank_bracket]
  | v, w :: vs, fuel + 1, rest, hfuel => by
    have hlen : (dumpsItems (v :: w :: vs)).length = (dumps v).length + 2 + (dumpsItems (w :: vs)).length := by
      simp only [dumpsItems, List.length_append, List.length_cons]
      omega
    have hv := value_dumps v fuel (',' :: ' ' :: (dumpsItems (w :: vs) ++ ']' :: rest)) (by omega)
      (ends_cons rfl)
    have hitems := items_dumps w vs fuel rest (by omega)
    have hstarts := (starts_dumpsItems w vs).append (']' :: rest)
    rw [dumpsItems, List.append_assoc, List.cons_append, List.cons_append, items, hv]
    simp [skip_cons _ isBlank_comma, skip_blank, hstarts.skip, hitems]

theorem pairs_dumps : ∀ (k : Str) (v : Json) (ps : List (Str × Json)) (fuel : ℕ) (rest : Str),
    (dumpsPairs ((k, v) :: ps)).length + 1 < fuel →
    pairs fuel (dumpsPairs ((k, v) :: ps) ++ '}' :: rest) = some ((k, v) :: ps, rest)
  | k, v, [], fuel + 1, rest, hfuel => by
    have hk := length_lt_quote k
    have hlen : (dumpsPairs [(k, v)]).length = (quote k).length + 2 + (dumps v).length := by
      simp only [dumpsPairs, List.length_append, List.length_cons]
      omega
    have hs := string_quote k (':' :: ' ' :: (dumps v ++ '}' :: rest)) fuel (by omega)
    have hv := value_dumps v fuel ('}' :: rest) (by omega) (ends_cons rfl)
    simp [dumpsPairs, quote, pairs, hs, skip_cons _ isBlank_colon, skip_blank, ((starts_dumps v).append _).skip, hv,
      skip_cons _ isBlank_brace]
  | k, v, (k', v') :: ps, fuel + 1, rest, hfuel => by
    have hk := length_lt_quote k
    have hlen : (dumpsPairs ((k, v) :: (k', v') :: ps)).length =
        (quote k).length + 2 + (dumps v).length + 2 + (dumpsPairs ((k', v') :: ps)).length := by
      simp only [dumpsPairs, List.length_append, List.length_cons]
      omega
    have hpairs := pairs_dumps k' v' ps fuel rest (by omega)
    obtain ⟨t, ht⟩ := dumpsPairs_head k' v' ps
    have hv := value_dumps v fuel (',' :: ' ' :: (dumpsPairs ((k', v') :: ps) ++ '}' :: rest)) (by omega)
      (ends_cons rfl)
    have hs := string_quote k
      (':' :: ' ' :: (dumps v ++ ',' :: ' ' :: (dumpsPairs ((k', v') :: ps) ++ '}' :: rest))) fuel (by omega)
    rw [dumpsPairs]
    rw [ht] at hs hv hpairs ⊢
    simp only [List.cons_append] at hs hv hpairs
    simp [quote, pairs, hs, skip_cons _ isBlank_colon, skip_blank, ((starts_dumps v).append _).skip, hv,
      skip_cons _ isBlank_comma, skip_cons _ isBlank_quote, hpairs]

end

/-- **`loads` reads back what `dumps` wrote.** -/
theorem loads_dumps (v : Json) : loads (dumps v) = some v := by
  have hvalue := value_dumps v ((dumps v).length + 1) [] (Nat.lt_succ_self _) (by simp [Ends])
  rw [List.append_nil] at hvalue
  rw [loads, (starts_dumps v).skip, hvalue]
  rfl

/-! ## Printable texts -/

/-- no control character below U+0020 -/
def Printable (s : Str) : Prop := ∀ c ∈ s, 0x20 ≤ c.toNat

theorem printable_cons {c : Char} {s : Str} : Printable (c :: s) ↔ 0x20 ≤ c.toNat ∧ Printable s := List.forall_mem_cons

theorem printable_append {s t : Str} : Printable (s ++ t) ↔ Printable s ∧ Printable t := List.forall_mem_append

theorem printable_nil : Printable [] := fun _ h => absurd h List.not_mem_nil

theorem printable_hexDigit : ∀ d < 16, 0x20 ≤ (hexDigit d).toNat := by decide

theorem printable_escape (c : Char) : Printable (escape c) := by
  unfold escape
  split_ifs with h1 h2 h3 h4 h5 h6 h7 h8
  iterate 7 · simp [printable_cons, printable_nil]
  · have hhigh := printable_hexDigit (c.toNat / 16) (by omega)
    have hlow := printable_hexDigit (c.toNat % 16) (by omega)
    simp [printable_cons, printable_nil, hhigh, hlow]
  · simp [printable_cons, printable_nil, Nat.le_of_not_lt h8]

theorem printable_quote (s : Str) : Printable (quote s) := by
  have hbody : Printable (s.flatMap escape) := by
    intro x hx
    obtain ⟨c, -, hc⟩ := List.mem_flatMap.1 hx
    exact printable_escape c x hc
  simp [quote, printable_cons, printable_append, printable_nil, hbody]

theorem printable_ofInt (n : ℤ) : Printable (ofInt n) := by
  have hdigits : Printable (Nat.toDigits 10 n.natAbs) := by
    intro c hc
    have hdigit : c.isDigit = true := Nat.isDigit_of_mem_toDigits (by decide) (by decide) hc
    exact (show 0x20 ≤ '0'.toNat by decide).trans (Char.isDigit_iff_toNat.1 hdigit).1
  unfold ofInt
  split_ifs
  · exact printable_cons.2 ⟨by decide, hdigits⟩
  · exact hdigits

mutual

/-- A text that `dumps` writes has no control character, and so no line break. -/
theorem dumps_printable : ∀ v : Json, Printable (dumps v)
  | .null => by simp [dumps, printable_cons, printable_nil]
  | .bool true => by simp [dumps, printable_cons, printable_nil]
  | .bool false => by simp [dumps, printable_cons, printable_nil]
  | .int n => printable_ofInt n
  | .str s => printable_quote s
  | .arr vs => by simp [dumps, printable_cons, printable_append, printable_nil, dumpsItems_printable vs]
  | .obj ps => by simp [dumps, printable_cons, printable_append, printable_nil, dumpsPairs_printable ps]

theorem dumpsItems_printable : ∀ vs : List Json, Printable (dumpsItems vs)
  | [] => printable_nil
  | [v] => dumps_printable v
  | v :: w :: rest => by
    simp [dumpsItems, printable_cons, printable_append, dumps_printable v, dumpsItems_printable (w :: rest)]

theorem dumpsPairs_printable : ∀ ps : List (Str × Json), Printable (dumpsPairs ps)
  | [] => printable_nil
  | [(k, v)] => by simp [dumpsPairs, printable_cons, printable_append, printable_quote, dumps_printable v]
  | (k, v) :: p :: rest => by
    simp [dumpsPairs, printable_cons, printable_append, printable_quote, dumps_printable v,
      dumpsPairs_printable (p :: rest)]

end

end Json

end AgentPick
