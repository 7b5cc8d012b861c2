/-
Unicode tables as a parameter. LIBRARY: nothing in this file names the pipeline.

What depends on the Unicode database (`str.casefold`, `str.lower`, the word characters of `\w` and `\b`) is a structure
whose laws fix it on ASCII. `str.lower` is a function of the whole string: a final sigma is lowered by its context.
-/
import Mathlib.Tactic
import AgentPick.Core.Text

namespace AgentPick

structure Unicode where
  /-- `str.casefold` of one character -/
  casefold : Char → Str
  /-- `str.lower` -/
  lower : Str → Str
  /-- `\w` -/
  isWord : Char → Bool
  casefold_ascii : ∀ c : Char, c.toNat < 128 → casefold c = [c.toLower]
  lower_ascii : ∀ s : Str, (∀ c ∈ s, c.toNat < 128) → lower s = s.map Char.toLower
  isWord_ascii : ∀ c : Char, c.toNat < 128 → isWord c = (c.isAlphanum || c = '_')

namespace Unicode

/-- `s.casefold()` -/
def fold (u : Unicode) (s : Str) : Str := s.flatMap u.casefold

/-- tables in which the characters outside ASCII are no letters and have no case -/
def ascii : Unicode where
  casefold c := [c.toLower]
  lower s := s.map Char.toLower
  isWord c := c.isAlphanum || c = '_'
  casefold_ascii _ _ := rfl
  lower_ascii _ _ := rfl
  isWord_ascii _ _ := rfl

/-- white space is no word character and has no case -/
structure PlainSpaces (u : Unicode) : Prop where
  isWord_space : ∀ c, Text.isSpace c = true → u.isWord c = false
  casefold_space : ∀ c, Text.isSpace c = true → u.casefold c = [c]

@[simp] theorem fold_nil (u : Unicode) : u.fold [] = [] := rfl

@[simp] theorem fold_cons (u : Unicode) (c : Char) (s : Str) : u.fold (c :: s) = u.casefold c ++ u.fold s := rfl

@[simp] theorem fold_append (u : Unicode) (s t : Str) : u.fold (s ++ t) = u.fold s ++ u.fold t := List.flatMap_append

theorem fold_ascii (u : Unicode) {s : Str} (h : ∀ c ∈ s, c.toNat < 128) : u.fold s = s.map Char.toLower := by
  induction s with
  | nil => rfl
  | cons c s ih =>
    rw [fold_cons, u.casefold_ascii c (h c (by simp)), ih fun x hx => h x (by simp [hx])]
    rfl

/-- a fact about the ASCII characters, checked on their codes -/
theorem ascii_forall {P : Char → Prop} (h : ∀ n, n < 128 → P (Char.ofNat n)) {c : Char} (hc : c.toNat < 128) : P c := by
  have hn := h c.toNat hc
  rwa [Char.ofNat_toNat] at hn

/-- a white space character is none of the ASCII characters from `!` on -/
theorem toNat_of_isSpace {c : Char} (h : Text.isSpace c = true) : c.toNat ≤ 32 ∨ 127 < c.toNat := by
  simp only [Text.isSpace, Bool.or_eq_true, Bool.and_eq_true, decide_eq_true_eq, beq_iff_eq] at h
  omega

theorem toNat_of_isAlphanum {c : Char} (h : c.isAlphanum = true) : 48 ≤ c.toNat ∧ c.toNat ≤ 122 := by
  have hrange (a b : Char) (hab : a.val ≤ c.val ∧ c.val ≤ b.val) : a.toNat ≤ c.toNat ∧ c.toNat ≤ b.toNat :=
    ⟨UInt32.le_iff_toNat_le.1 hab.1, UInt32.le_iff_toNat_le.1 hab.2⟩
  rcases Bool.or_eq_true_iff.1 (show (c.isAlpha || c.isDigit) = true from h) with hc | hc
  · rcases Bool.or_eq_true_iff.1 (show (c.isUpper || c.isLower) = true from hc) with hc | hc
    · have hn := hrange 'A' 'Z' (of_decide_eq_true hc)
      simp at hn
      omega
    · have hn := hrange 'a' 'z' (by simpa using show (c.val ≥ 'a'.val && c.val ≤ 'z'.val) = true from hc)
      simp at hn
      omega
  · have hn := hrange '0' '9' (by simpa using show (c.val ≥ '0'.val && c.val ≤ '9'.val) = true from hc)
    simp at hn
    omega

theorem ascii_plainSpaces : ascii.PlainSpaces where
  isWord_space c h := by
    have hc := toNat_of_isSpace h
    have hword : ¬ (c.isAlphanum = true ∨ c = '_') := by
      rintro (hw | rfl)
      · have := toNat_of_isAlphanum hw
        omega
      · simp at hc
    simpa [ascii] using hword
  casefold_space c h := by
    have hc := toNat_of_isSpace h
    have hup : ¬ (c.val ≥ 'A'.val ∧ c.val ≤ 'Z'.val) := by
      simp [UInt32.le_iff_toNat_le]
      omega
    have hlow : c.toLower = c := dif_neg hup
    simp [ascii, hlow]

/-- a pattern character c under IGNORECASE, for the lower-case ASCII letters other than k: `i` also matches U+0130 and
U+0131, `s` also U+017F -/
def ignoreCase (c x : Char) : Bool :=
  x.toLower = c || (c = 'i' && (x.toNat = 0x130 || x.toNat = 0x131)) || (c = 's' && x.toNat = 0x17f)

end Unicode

end AgentPick
