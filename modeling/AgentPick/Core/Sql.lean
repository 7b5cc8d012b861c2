/-
SQL conditions. LIBRARY: nothing in this file names the pipeline.

A truth value is true, false or NULL (`none`), and WHERE keeps the rows of which the condition is true. `parseLike` reads
a LIKE pattern: `%` stands for any text, `_` for any character, a backslash takes the next character literally, and a
backslash at the end is an error. `nullsLast` is the order of ORDER BY ... NULLS LAST. Case is that of ASCII.

- `conj_eq_true`: a row is kept iff every condition of an AND is true of it.
- `parseLike_concat`: a pattern that ends with `%` is no error.
- `ilike_of_infix`: `ILIKE '%s%'` finds every text that contains s up to case, if s has no backslash; the wildcards that s
  may hold match themselves too.
- `contains_of_lits`: a match contains the literal parts of the pattern.
- `not_contains_sample`, `lits_of_contains_sample`: a text with a character that a pattern interprets is matched by a text
  that does not contain it, and what such a match has in it comes from literal parts.
- `nullsLast_total`, `nullsLast_trans`: NULLS LAST keeps an order one.
-/
import Mathlib.Tactic
import AgentPick.Core.Text

namespace AgentPick

namespace Sql

/-! ## Truth values -/

/-- `none` is NULL -/
abbrev Truth := Option Bool

/-- `a AND b` -/
def and3 : Truth → Truth → Truth
  | some false, _ => some false
  | _, some false => some false
  | some true, some true => some true
  | _, _ => none

/-- `a AND b AND ...` -/
def conj (ts : List Truth) : Truth := ts.foldr and3 (some true)

theorem and3_eq_true {a b : Truth} : and3 a b = some true ↔ a = some true ∧ b = some true := by
  rcases a with _ | _ | _ <;> rcases b with _ | _ | _ <;> simp [and3]

theorem conj_eq_true {ts : List Truth} : conj ts = some true ↔ ∀ t ∈ ts, t = some true := by
  induction ts with
  | nil => simp [conj]
  | cons t ts ih =>
    rw [conj, List.foldr_cons, ← conj, and3_eq_true, ih, List.forall_mem_cons]

/-! ## Case -/

/-- `LOWER(s)` -/
def lower (s : Str) : Str := s.map Char.toLower

/-- two characters are the same up to case -/
def same (c x : Char) : Bool := c.toLower = x.toLower

/-- the text contains s up to case -/
def Contains (s text : Str) : Prop := lower s <:+: lower text

/-! ## Patterns -/

/-- an element of a LIKE pattern -/
inductive Wild where
  | lit (c : Char)
  | one
  | many
deriving DecidableEq, Repr

/-- the meaning of a character that is not escaped -/
def wild (c : Char) : Wild :=
  if c = '%' then .many else if c = '_' then .one else .lit c

/-- a pattern; `none` is the error of a pattern that ends with a backslash -/
def parseLike : Str → Option (List Wild)
  | [] => some []
  | ['\\'] => none
  | '\\' :: c :: p => (parseLike p).map (.lit c :: ·)
  | c :: p => (parseLike p).map (wild c :: ·)

/-- a pattern matches a whole text -/
def likeMatch : List Wild → Str → Bool
  | [], s => s.isEmpty
  | .lit _ :: _, [] => false
  | .lit c :: p, x :: s => same c x && likeMatch p s
  | .one :: _, [] => false
  | .one :: p, _ :: s => likeMatch p s
  | .many :: p, s => s.tails.any (likeMatch p)

/-- the pattern `%s%` -/
def containing (s : Str) : Str := ['%'] ++ s ++ ['%']

/-- a pattern that ends with `%` is no error -/
theorem parseLike_concat (s : Str) : ∃ p, parseLike (s ++ ['%']) = some p := by
  induction s using parseLike.induct with
  | case1 => exact ⟨_, rfl⟩
  | case2 => exact ⟨_, rfl⟩
  | case3 c p ih =>
    obtain ⟨ws, hws⟩ := ih
    exact ⟨.lit c :: ws, by simp [parseLike, hws]⟩
  | case4 c p h1 h2 ih =>
    obtain ⟨ws, hws⟩ := ih
    refine ⟨wild c :: ws, ?_⟩
    by_cases hc : c = '\\'
    · -- a backslash with something after it, or alone: not this case
      cases p with
      | nil => exact absurd rfl (h1 hc)
      | cons x p => exact absurd rfl (h2 x p hc)
    · rw [List.cons_append, parseLike, hws]
      · rfl
      · exact fun h => absurd h hc
      · exact fun _ _ h => absurd h hc

theorem parseLike_append {s : Str} (hs : '\\' ∉ s) (rest : Str) :
    parseLike (s ++ rest) = (parseLike rest).map (s.map wild ++ ·) := by
  induction s with
  | nil => simp
  | cons c s ih =>
    rw [List.mem_cons, not_or] at hs
    rw [List.cons_append, parseLike, ih hs.2, Option.map_map]
    · rfl
    · exact fun h => absurd h.symm hs.1
    · exact fun _ _ h => absurd h.symm hs.1

/-- an element of a pattern matches its own character -/
theorem likeMatch_wild {c x : Char} (h : same c x) {p : List Wild} {s : Str} (hs : likeMatch p s) :
    likeMatch (wild c :: p) (x :: s) := by
  unfold wild
  split_ifs
  · rw [likeMatch, List.any_eq_true]
    exact ⟨s, (List.mem_tails _ _).2 (List.suffix_cons x s), hs⟩
  · exact hs
  · rw [likeMatch, h, hs]
    rfl

/-- a text matches a pattern written like it, up to case -/
theorem likeMatch_map_wild {s w : Str} (h : lower s = lower w) {p : List Wild} {rest : Str} (hr : likeMatch p rest) :
    likeMatch (s.map wild ++ p) (w ++ rest) := by
  induction s generalizing w with
  | nil =>
    have hw : w = [] := List.map_eq_nil_iff.1 h.symm
    rw [hw]
    exact hr
  | cons c s ih =>
    cases w with
    | nil => cases h
    | cons x w =>
      rw [lower, lower, List.map_cons, List.map_cons, List.cons.injEq] at h
      exact likeMatch_wild (by simpa [same] using h.1) (ih h.2)

/-- `text ILIKE '%s%'` for an s without backslashes that the text contains -/
theorem ilike_of_infix {s text : Str} (hs : '\\' ∉ s) (h : Contains s text) :
    ∃ p, parseLike (containing s) = some p ∧ likeMatch p text := by
  refine ⟨.many :: (s.map wild ++ [.many]), ?_, ?_⟩
  · have hpercent : parseLike ['%'] = some [.many] := by decide
    rw [containing, List.append_assoc, parseLike_append (by decide), parseLike_append hs, hpercent]
    rfl
  · obtain ⟨a, c, hac⟩ := h
    obtain ⟨ab, c', rfl, hab, -⟩ := List.map_eq_append_iff.1 hac.symm
    obtain ⟨a', b, rfl, -, hb⟩ := List.map_eq_append_iff.1 hab
    have hend : likeMatch [.many] c' := by
      rw [likeMatch, List.any_eq_true]
      exact ⟨[], (List.mem_tails _ _).2 List.nil_suffix, rfl⟩
    rw [likeMatch, List.any_eq_true]
    refine ⟨b ++ c', (List.mem_tails _ _).2 ?_, likeMatch_map_wild hb.symm hend⟩
    rw [List.append_assoc]
    exact List.suffix_append _ _

theorem toLower_eq_backslash {c : Char} (h : c.toLower = '\\') : c = '\\' := by
  unfold Char.toLower at h
  split_ifs at h with hc
  · -- a letter is lowered to a letter
    have hv := congrArg (fun x : Char => x.val.toNat) h
    have h1 := UInt32.le_iff_toNat_le.1 hc.1
    have h2 := UInt32.le_iff_toNat_le.1 hc.2
    simp at hv h1 h2
    omega
  · exact h

/-- a text that contains s up to case has its backslashes -/
theorem notMem_of_contains {s text : Str} (h : Contains s text) (ht : '\\' ∉ text) : '\\' ∉ s := by
  intro hs
  have hl : '\\' ∈ lower text := h.subset (List.mem_map.2 ⟨'\\', hs, rfl⟩)
  obtain ⟨c, hc, hcl⟩ := List.mem_map.1 hl
  exact ht (toLower_eq_backslash hcl ▸ hc)

/-! ## Matches -/

theorem likeMatch_many {p : List Wild} {s : Str} :
    likeMatch (.many :: p) s ↔ ∃ a b, s = a ++ b ∧ likeMatch p b := by
  rw [likeMatch, List.any_eq_true]
  refine ⟨?_, ?_⟩
  · intro ⟨b, hb, hm⟩
    obtain ⟨a, rfl⟩ := (List.mem_tails _ _).1 hb
    exact ⟨a, b, rfl, hm⟩
  · intro ⟨a, b, hs, hm⟩
    exact ⟨b, (List.mem_tails _ _).2 (hs ▸ List.suffix_append a b), hm⟩

/-- any other element takes one character -/
theorem likeMatch_cons {e : Wild} (he : e ≠ .many) {p : List Wild} {s : Str} :
    likeMatch (e :: p) s ↔ ∃ x t, s = x :: t ∧ likeMatch [e] [x] ∧ likeMatch p t := by
  cases s with
  | nil => cases e <;> simp_all [likeMatch]
  | cons x s => cases e <;> simp_all [likeMatch]

/-- the parts of a pattern match parts of the text -/
theorem likeMatch_append {p q : List Wild} {s : Str} :
    likeMatch (p ++ q) s ↔ ∃ a b, s = a ++ b ∧ likeMatch p a ∧ likeMatch q b := by
  induction p generalizing s with
  | nil =>
    refine ⟨?_, ?_⟩
    · intro h
      exact ⟨[], s, rfl, rfl, h⟩
    · intro ⟨a, b, hs, ha, hb⟩
      rw [hs, List.isEmpty_iff.1 ha]
      exact hb
  | cons e p ih =>
    rw [List.cons_append]
    by_cases he : e = .many
    · rw [he, likeMatch_many]
      refine ⟨?_, ?_⟩
      · intro ⟨a, b, hs, hb⟩
        obtain ⟨c, d, hbd, hc, hd⟩ := ih.1 hb
        exact ⟨a ++ c, d, by rw [hs, hbd, List.append_assoc], likeMatch_many.2 ⟨a, c, rfl, hc⟩, hd⟩
      · intro ⟨a, b, hs, ha, hb⟩
        obtain ⟨c, d, hacd, hd⟩ := likeMatch_many.1 ha
        exact ⟨c, d ++ b, by rw [hs, hacd, List.append_assoc], ih.2 ⟨d, b, rfl, hd, hb⟩⟩
    · rw [likeMatch_cons he]
      refine ⟨?_, ?_⟩
      · intro ⟨x, t, hs, hx, ht⟩
        obtain ⟨a, b, hab, ha, hb⟩ := ih.1 ht
        exact ⟨x :: a, b, by rw [hs, hab]; rfl, (likeMatch_cons he).2 ⟨x, a, rfl, hx, ha⟩, hb⟩
      · intro ⟨a, b, hs, ha, hb⟩
        obtain ⟨x, t, hat, hx, ht⟩ := (likeMatch_cons he).1 ha
        exact ⟨x, t ++ b, by rw [hs, hat]; rfl, hx, ih.2 ⟨t, b, rfl, ht, hb⟩⟩

/-- literal elements match their text, up to case -/
theorem likeMatch_lits {w s : Str} : likeMatch (w.map .lit) s ↔ lower w = lower s := by
  induction w generalizing s with
  | nil => cases s <;> simp [likeMatch, lower]
  | cons c w ih =>
    cases s with
    | nil => simp [likeMatch, lower]
    | cons x s =>
      rw [List.map_cons, likeMatch, Bool.and_eq_true, ih, same, decide_eq_true_eq]
      simp [lower]

/-- a text that matches a pattern contains its literal parts -/
theorem contains_of_lits {a b : List Wild} {w s : Str} (h : likeMatch (a ++ w.map .lit ++ b) s) : Contains w s := by
  obtain ⟨xy, z, hs, hxy, -⟩ := likeMatch_append.1 h
  obtain ⟨x, y, rfl, -, hy⟩ := likeMatch_append.1 hxy
  refine ⟨lower x, lower z, ?_⟩
  rw [likeMatch_lits.1 hy, hs, lower, lower, lower, lower, List.map_append, List.map_append]

/-! ## The text in a pattern -/

/-- no character that a pattern interprets -/
def Plain (s : Str) : Prop := '%' ∉ s ∧ '_' ∉ s ∧ '\\' ∉ s

instance (s : Str) : Decidable (Plain s) := inferInstanceAs (Decidable (_ ∧ _))

instance (s text : Str) : Decidable (Contains s text) := inferInstanceAs (Decidable (_ <:+: _))

/-- the elements that s stands for in the pattern `%s%`; a backslash at its end takes the `%` literally -/
def elements : Str → List Wild
  | [] => []
  | ['\\'] => [.lit '%']
  | '\\' :: c :: s => .lit c :: elements s
  | c :: s => wild c :: elements s

/-- what follows a character that is no backslash -/
theorem elements_cons {c : Char} (hc : c ≠ '\\') (s : Str) : elements (c :: s) = wild c :: elements s := by
  rw [elements]
  · exact fun h => absurd h hc
  · exact fun _ _ h => absurd h hc

theorem parseLike_cons {c : Char} (hc : c ≠ '\\') (s : Str) : parseLike (c :: s) = (parseLike s).map (wild c :: ·) := by
  rw [parseLike]
  · exact fun h => absurd h hc
  · exact fun _ _ h => absurd h hc

/-- a text is empty, a backslash, an escaped character and a rest, or another character and a rest -/
theorem escape_induction {motive : Str → Prop} (nil : motive []) (slash : motive ['\\'])
    (escaped : ∀ c s, motive s → motive ('\\' :: c :: s)) (other : ∀ c s, c ≠ '\\' → motive s → motive (c :: s)) (s : Str) :
    motive s := by
  induction s using elements.induct with
  | case1 => exact nil
  | case2 => exact slash
  | case3 c s ih => exact escaped c s ih
  | case4 c s h1 h2 ih =>
    refine other c s ?_ ih
    intro hc
    cases s with
    | nil => exact h1 hc rfl
    | cons x s => exact h2 x s hc rfl

/-- the pattern `%s%` -/
theorem parseLike_elements (s : Str) :
    ∃ tail, (tail = [] ∨ tail = [.many]) ∧ parseLike (containing s) = some (.many :: (elements s ++ tail)) := by
  have hrest : ∃ tail, (tail = [] ∨ tail = [.many]) ∧ parseLike (s ++ ['%']) = some (elements s ++ tail) := by
    induction s using escape_induction with
    | nil => exact ⟨[.many], .inr rfl, rfl⟩
    | slash => exact ⟨[], .inl rfl, rfl⟩
    | escaped c s ih =>
      obtain ⟨tail, htail, h⟩ := ih
      exact ⟨tail, htail, by simp [parseLike, elements, h]⟩
    | other c s hc ih =>
      obtain ⟨tail, htail, h⟩ := ih
      refine ⟨tail, htail, ?_⟩
      rw [List.cons_append, parseLike_cons hc, h, elements_cons hc]
      rfl
  obtain ⟨tail, htail, h⟩ := hrest
  refine ⟨tail, htail, ?_⟩
  rw [containing, List.append_assoc, List.singleton_append, parseLike_cons (by decide), h]
  rfl

theorem elements_plain {w : Str} (hw : Plain w) (rest : Str) : elements (w ++ rest) = w.map .lit ++ elements rest := by
  induction w with
  | nil => rfl
  | cons c w ih =>
    obtain ⟨h1, h2, h3⟩ := hw
    rw [List.mem_cons, not_or] at h1 h2 h3
    rw [List.cons_append, elements_cons (Ne.symm h3.1), ih ⟨h1.2, h2.2, h3.2⟩, wild, if_neg (Ne.symm h1.1),
      if_neg (Ne.symm h2.1)]
    rfl

/-- a plain part of s is taken literally, also after a backslash -/
theorem elements_infix {w : Str} (hw : Plain w) (hne : w ≠ []) (a b : Str) :
    ∃ a', elements (a ++ w ++ b) = a' ++ w.map .lit ++ elements b := by
  induction a using escape_induction with
  | nil => exact ⟨[], elements_plain hw b⟩
  | slash =>
    obtain ⟨c, w, rfl⟩ := List.exists_cons_of_ne_nil hne
    have hplain : Plain w := by
      obtain ⟨h1, h2, h3⟩ := hw
      exact ⟨fun h => h1 (.tail _ h), fun h => h2 (.tail _ h), fun h => h3 (.tail _ h)⟩
    refine ⟨[], ?_⟩
    calc elements (['\\'] ++ c :: w ++ b) = .lit c :: elements (w ++ b) := rfl
      _ = [] ++ (c :: w).map .lit ++ elements b := by rw [elements_plain hplain]; rfl
  | escaped c s ih =>
    obtain ⟨a', h⟩ := ih
    refine ⟨.lit c :: a', ?_⟩
    calc elements ('\\' :: c :: s ++ w ++ b) = .lit c :: elements (s ++ w ++ b) := rfl
      _ = .lit c :: a' ++ w.map .lit ++ elements b := by rw [h]; rfl
  | other c s hc ih =>
    obtain ⟨a', h⟩ := ih
    refine ⟨wild c :: a', ?_⟩
    calc elements (c :: s ++ w ++ b) = wild c :: elements (s ++ w ++ b) := elements_cons hc _
      _ = wild c :: a' ++ w.map .lit ++ elements b := by rw [h]; rfl

/-- a character that an element matches -/
def Wild.sample : Wild → Char
  | .lit c => c
  | _ => 'x'

theorem likeMatch_sample (p : List Wild) : likeMatch p (p.map Wild.sample) := by
  induction p with
  | nil => rfl
  | cons e p ih =>
    cases e with
    | lit c =>
      rw [List.map_cons, likeMatch, ih, same]
      simp [Wild.sample]
    | one => exact ih
    | many => exact likeMatch_many.2 ⟨['x'], _, rfl, ih⟩

theorem elements_length (s : Str) : (elements s).length ≤ s.length := by
  induction s using escape_induction with
  | nil => exact le_refl 0
  | slash => exact le_refl 1
  | escaped c s ih => exact Nat.succ_le_succ (ih.trans (Nat.le_succ _))
  | other c s hc ih =>
    rw [elements_cons hc]
    exact Nat.succ_le_succ ih

/-- the samples of a text that is not plain differ from it -/
theorem plain_of_sample {s : Str} (h : lower ((elements s).map Wild.sample) = lower s) : Plain s := by
  induction s using escape_induction with
  | nil => decide
  | slash => exact absurd h (by decide)
  | escaped c s ih =>
    -- the samples are too few
    have hlen := congrArg List.length h
    have := elements_length s
    simp only [lower, List.length_map, elements, List.length_cons] at hlen
    omega
  | other c s hc ih =>
    rw [elements_cons hc, lower, lower, List.map_cons, List.map_cons, List.map_cons, List.cons.injEq] at h
    obtain ⟨h1, h2, h3⟩ := ih h.2
    have hp : c ≠ '%' := by
      rintro rfl
      exact absurd h.1 (by decide)
    have hu : c ≠ '_' := by
      rintro rfl
      exact absurd h.1 (by decide)
    simp only [Plain, List.mem_cons, not_or]
    exact ⟨⟨hp.symm, h1⟩, ⟨hu.symm, h2⟩, ⟨hc.symm, h3⟩⟩

/-- a text that is not plain is not in its samples -/
theorem not_contains_sample {s : Str} (hs : ¬ Plain s) : ¬ Contains s ((elements s).map Wild.sample) := by
  intro h
  apply hs
  apply plain_of_sample
  have hlen : (lower ((elements s).map Wild.sample)).length ≤ (lower s).length := by
    simpa [lower] using elements_length s
  exact (List.IsInfix.eq_of_length_le h hlen).symm

/-- a text without x in the samples comes from literal elements -/
theorem lits_of_contains_sample {p : List Wild} {m : Str} (hx : 'x' ∉ lower m) (h : Contains m (p.map Wild.sample)) :
    ∃ a w b, p = a ++ w.map .lit ++ b ∧ lower w = lower m := by
  obtain ⟨a', b', hab⟩ := h
  rw [lower, lower, List.map_map, eq_comm, List.map_eq_append_iff] at hab
  obtain ⟨aq, b, rfl, haq, -⟩ := hab
  obtain ⟨a, q, rfl, -, hq⟩ := List.map_eq_append_iff.1 haq
  have hlit : ∀ e ∈ q, e = .lit (Wild.sample e) := by
    intro e he
    have hmem : (Wild.sample e).toLower ∈ lower m := by
      rw [lower, ← hq]
      exact List.mem_map_of_mem he
    cases e with
    | lit c => rfl
    | one => exact absurd hmem hx
    | many => exact absurd hmem hx
  refine ⟨a, q.map Wild.sample, b, ?_, ?_⟩
  · rw [List.map_map]
    congr 2
    calc q = q.map id := (List.map_id q).symm
      _ = q.map (Wild.lit ∘ Wild.sample) := List.map_congr_left hlit
  · rw [lower, List.map_map]
    exact hq

/-! ## Order -/

/-- `NULLS LAST` -/
def nullsLast {α : Type} (le : α → α → Bool) : Option α → Option α → Bool
  | _, none => true
  | none, some _ => false
  | some a, some b => le a b

theorem nullsLast_total {α : Type} {le : α → α → Bool} (h : ∀ a b, le a b ∨ le b a) (x y : Option α) :
    nullsLast le x y ∨ nullsLast le y x := by
  cases x with
  | none => exact .inr (by cases y <;> rfl)
  | some a =>
    cases y with
    | none => exact .inl rfl
    | some b => exact h a b

theorem nullsLast_trans {α : Type} {le : α → α → Bool} (h : ∀ a b c, le a b → le b c → le a c) {x y z : Option α}
    (hxy : nullsLast le x y) (hyz : nullsLast le y z) : nullsLast le x z := by
  cases z with
  | none => cases x <;> rfl
  | some c =>
    -- what comes before a value is a value
    cases y with
    | none => cases hyz
    | some b =>
      cases x with
      | none => cases hxy
      | some a => exact h a b c hxy hyz

end Sql

end AgentPick
