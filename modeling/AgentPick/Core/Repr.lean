/-
`repr` and `str` of the language. LIBRARY: nothing in this file names the pipeline.

`repr` of a string chooses the quote and escapes it, the backslash, the control characters and what is not printable. Which
characters above ASCII are printable (`str.isprintable`) is a table, of which it is known that the characters at which
`str.splitlines` ends a line are not. `str` of a parsed JSON value is the string itself, or the literal of the value; how a
float is written is a parameter.

- `repr_oneLine`: the `repr` of a string is one line.
-/
import AgentPick.Core.Dict
import AgentPick.Core.PyJson

namespace AgentPick.Repr

/-- `str.splitlines` ends a line here -/
def isBreak (c : Char) : Bool :=
  let n := c.toNat
  (0x0a ≤ n && n ≤ 0x0d) || (0x1c ≤ n && n ≤ 0x1e) || n == 0x85 || n == 0x2028 || n == 0x2029

/-- a text without line breaks -/
def OneLine (s : Str) : Prop := ∀ c ∈ s, isBreak c = false

instance (s : Str) : Decidable (OneLine s) := List.decidableBAll (fun c => isBreak c = false) s

/-- how characters above ASCII and floats are written -/
structure Tables where
  /-- `str.isprintable` -/
  isPrintable : Char → Bool
  breaks : ∀ c, isBreak c = true → isPrintable c = false
  /-- `repr` of a float -/
  float : Double → Str
  float_oneLine : ∀ x, OneLine (float x)

/-- ASCII is printable, and floats are not written out -/
def Tables.ascii : Tables where
  isPrintable _ := false
  breaks _ _ := rfl
  float _ := "0.0".toList
  float_oneLine _ := by decide

/-- n in hexadecimal, with `width` digits -/
def hex (width n : ℕ) : Str := (List.range width).reverse.map fun i => Json.hexDigit (n / 16 ^ i % 16)

/-- a character between quotes -/
def escape (T : Tables) (quote c : Char) : Str :=
  let n := c.toNat
  if c = quote ∨ c = '\\' then ['\\', c]
  else if c = '\t' then ['\\', 't']
  else if c = '\n' then ['\\', 'n']
  else if c = '\r' then ['\\', 'r']
  else if n < 0x20 ∨ n = 0x7f then '\\' :: 'x' :: hex 2 n
  else if n < 0x7f ∨ T.isPrintable c then [c]
  else if n ≤ 0xff then '\\' :: 'x' :: hex 2 n
  else if n ≤ 0xffff then '\\' :: 'u' :: hex 4 n
  else '\\' :: 'U' :: hex 8 n

/-- double quotes, if there is a single quote and no double quote -/
def quoteOf (s : Str) : Char := if '\'' ∈ s ∧ '"' ∉ s then '"' else '\''

/-- `repr(s)` of a string -/
def repr (T : Tables) (s : Str) : Str := quoteOf s :: s.flatMap (escape T (quoteOf s)) ++ [quoteOf s]

/-- elements between commas -/
def commas (parts : List Str) : Str := [',', ' '].intercalate parts

/-- the entries of a dict: a key is where it comes first, with the value that comes last -/
def entries (pairs : List (Str × Str)) : List (Str × Str) := (Dict.group Prod.fst (fun _ p => p.2) pairs).entries

mutual

/-- `repr(v)` of a parsed JSON value -/
def reprJson (T : Tables) : PyJson → Str
  | .null => "None".toList
  | .bool b => if b then "True".toList else "False".toList
  | .int n => Json.ofInt n
  | .float x => T.float x
  | .str s => repr T s
  | .arr items => '[' :: commas (reprItems T items) ++ [']']
  | .obj pairs => '\x7b' :: commas ((entries (reprPairs T pairs)).map fun p => repr T p.1 ++ ": ".toList ++ p.2) ++ ['\x7d']

def reprItems (T : Tables) : List PyJson → List Str
  | [] => []
  | v :: vs => reprJson T v :: reprItems T vs

def reprPairs (T : Tables) : List (Str × PyJson) → List (Str × Str)
  | [] => []
  | (k, v) :: ps => (k, reprJson T v) :: reprPairs T ps

end

/-- `str(v)` of a parsed JSON value -/
def strJson (T : Tables) : PyJson → Str
  | .str s => s
  | v => reprJson T v

example : repr .ascii "it's \"5\"\n".toList = "'it\\'s \"5\"\\n'".toList := by decide

/-! ## One line -/

theorem oneLine_nil : OneLine [] := fun _ h => absurd h List.not_mem_nil

theorem oneLine_cons {c : Char} {s : Str} : OneLine (c :: s) ↔ isBreak c = false ∧ OneLine s := List.forall_mem_cons

theorem oneLine_append {s t : Str} : OneLine (s ++ t) ↔ OneLine s ∧ OneLine t := List.forall_mem_append

theorem oneLine_intercalate {sep : Str} (hsep : OneLine sep) (parts : List Str) :
    OneLine (sep.intercalate parts) ↔ ∀ s ∈ parts, OneLine s := by
  induction parts with
  | nil => exact ⟨fun _ s hs => absurd hs List.not_mem_nil, fun _ => oneLine_nil⟩
  | cons s rest ih =>
    cases rest with
    | nil => simp [List.intercalate]
    | cons t rest =>
      rw [List.intercalate_cons_cons, oneLine_append, oneLine_append, ih, List.forall_mem_cons (a := s)]
      exact ⟨fun h => ⟨h.1.1, h.2⟩, fun h => ⟨⟨h.1, hsep⟩, h.2⟩⟩

/-- a text without a line break, by evaluation -/
theorem oneLine_of_all {s : Str} (h : s.all (fun c => !isBreak c) = true) : OneLine s := by
  intro c hc
  simpa using List.all_eq_true.1 h c hc

theorem isBreak_hexDigit : ∀ d < 16, isBreak (Json.hexDigit d) = false := by decide

theorem oneLine_hex (width n : ℕ) : OneLine (hex width n) := by
  intro c hc
  obtain ⟨i, -, rfl⟩ := List.mem_map.1 hc
  exact isBreak_hexDigit _ (Nat.mod_lt _ (by decide))

/-- what is neither a control character nor above ASCII ends no line -/
theorem isBreak_ascii {c : Char} (h : 0x20 ≤ c.toNat) (h' : c.toNat < 0x7f) : isBreak c = false := by
  simp only [isBreak, Bool.or_eq_false_iff, Bool.and_eq_false_iff, decide_eq_false_iff_not, beq_eq_false_iff_ne]
  omega

theorem oneLine_escape (T : Tables) {q : Char} (hq : isBreak q = false) (c : Char) : OneLine (escape T q c) := by
  have hback : isBreak '\\' = false := rfl
  have hcode (x : Char) (width : ℕ) (hx : isBreak x = false) : OneLine ('\\' :: x :: hex width c.toNat) :=
    oneLine_cons.2 ⟨hback, oneLine_cons.2 ⟨hx, oneLine_hex _ _⟩⟩
  unfold escape
  simp only
  split_ifs with hquote htab hfeed hreturn hcontrol hprintable hbyte hshort
  · rcases hquote with rfl | rfl
    · exact oneLine_cons.2 ⟨hback, oneLine_cons.2 ⟨hq, oneLine_nil⟩⟩
    · exact oneLine_cons.2 ⟨hback, oneLine_cons.2 ⟨hback, oneLine_nil⟩⟩
  · exact oneLine_cons.2 ⟨hback, oneLine_cons.2 ⟨rfl, oneLine_nil⟩⟩
  · exact oneLine_cons.2 ⟨hback, oneLine_cons.2 ⟨rfl, oneLine_nil⟩⟩
  · exact oneLine_cons.2 ⟨hback, oneLine_cons.2 ⟨rfl, oneLine_nil⟩⟩
  · exact hcode 'x' 2 rfl
  · refine oneLine_cons.2 ⟨?_, oneLine_nil⟩
    rw [not_or] at hcontrol
    rcases hprintable with hascii | hprintable
    · exact isBreak_ascii (by omega) hascii
    · by_contra hbreak
      rw [Bool.not_eq_false] at hbreak
      rw [T.breaks c hbreak] at hprintable
      cases hprintable
  · exact hcode 'x' 2 rfl
  · exact hcode 'u' 4 rfl
  · exact hcode 'U' 8 rfl

theorem isBreak_quoteOf (s : Str) : isBreak (quoteOf s) = false := by
  unfold quoteOf
  split_ifs <;> rfl

/-- **The `repr` of a string is one line.** -/
theorem repr_oneLine (T : Tables) (s : Str) : OneLine (repr T s) := by
  have hq := isBreak_quoteOf s
  refine oneLine_cons.2 ⟨hq, oneLine_append.2 ⟨fun c hc => ?_, oneLine_cons.2 ⟨hq, oneLine_nil⟩⟩⟩
  obtain ⟨x, -, hx⟩ := List.mem_flatMap.1 hc
  exact oneLine_escape T hq x c hx

end AgentPick.Repr
