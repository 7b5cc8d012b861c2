/-
Two texts that differ in replaced pieces. LIBRARY: nothing in this file names the pipeline.

A list of pieces is read in two ways: `source` and `target`. A kept character is in both texts; a swapped piece is one text
in the source and another in the target, both with the same first and the same last character.
An offset of the source and one of the target are `Aligned` when the same pieces are before them.

- `Aligned.lt_iff`: aligned offsets have the same order in both texts.
- `place_moves`: a word that no swapped piece overlaps stands in both texts, at aligned offsets and between the same characters.
- `aligned_least`: if so do all the places of a word, its first places are aligned.
-/
import Mathlib.Tactic

namespace AgentPick

inductive Piece (α : Type) where
  | keep (x : α)
  | swap (old new : List α)

namespace Piece

variable {α : Type}

def source : Piece α → List α
  | keep x => [x]
  | swap old _ => old

def target : Piece α → List α
  | keep x => [x]
  | swap _ new => new

def flip : Piece α → Piece α
  | keep x => keep x
  | swap old new => swap new old

/-- the two texts of a piece start and end alike, and are not empty -/
structure Sound (p : Piece α) : Prop where
  ne_nil : p.source ≠ []
  head : p.target.head? = p.source.head?
  last : p.target.getLast? = p.source.getLast?

theorem Sound.target_ne_nil {p : Piece α} (h : p.Sound) : p.target ≠ [] := by
  intro hnil
  have hhead := h.head
  rw [hnil, List.head?_nil, eq_comm, List.head?_eq_none_iff] at hhead
  exact h.ne_nil hhead

theorem sound_keep (x : α) : (keep x).Sound := ⟨by simp [source], rfl, rfl⟩

@[simp] theorem source_flip (p : Piece α) : p.flip.source = p.target := by cases p <;> rfl

@[simp] theorem target_flip (p : Piece α) : p.flip.target = p.source := by cases p <;> rfl

@[simp] theorem flip_flip (p : Piece α) : p.flip.flip = p := by cases p <;> rfl

theorem Sound.flip {p : Piece α} (h : p.Sound) : p.flip.Sound :=
  ⟨by simpa using h.target_ne_nil, by simpa using h.head.symm, by simpa using h.last.symm⟩

end Piece

namespace Splice

open Piece

variable {α : Type} {ps : List (Piece α)}

/-! ## The two texts -/

def source (ps : List (Piece α)) : List α := ps.flatMap Piece.source

def target (ps : List (Piece α)) : List α := ps.flatMap Piece.target

@[simp] theorem source_nil : source ([] : List (Piece α)) = [] := rfl

@[simp] theorem target_nil : target ([] : List (Piece α)) = [] := rfl

@[simp] theorem source_cons (p : Piece α) (ps : List (Piece α)) : source (p :: ps) = p.source ++ source ps := rfl

@[simp] theorem target_cons (p : Piece α) (ps : List (Piece α)) : target (p :: ps) = p.target ++ target ps := rfl

@[simp] theorem source_append (ps qs : List (Piece α)) : source (ps ++ qs) = source ps ++ source qs := List.flatMap_append

@[simp] theorem target_append (ps qs : List (Piece α)) : target (ps ++ qs) = target ps ++ target qs := List.flatMap_append

@[simp] theorem source_map_keep (w : List α) : source (w.map keep) = w := by
  induction w with
  | nil => rfl
  | cons x w ih => exact congrArg (x :: ·) ih

@[simp] theorem target_map_keep (w : List α) : target (w.map keep) = w := by
  induction w with
  | nil => rfl
  | cons x w ih => exact congrArg (x :: ·) ih

@[simp] theorem source_flip (ps : List (Piece α)) : source (ps.map Piece.flip) = target ps := by
  simp [source, target, List.flatMap_map]

@[simp] theorem target_flip (ps : List (Piece α)) : target (ps.map Piece.flip) = source ps := by
  simp [source, target, List.flatMap_map]

theorem map_flip_flip (ps : List (Piece α)) : (ps.map Piece.flip).map Piece.flip = ps := by
  rw [List.map_map]
  exact List.map_id'' Piece.flip_flip ps

/-- every piece is sound -/
def Sound (ps : List (Piece α)) : Prop := ∀ p ∈ ps, p.Sound

theorem Sound.flip (h : Sound ps) : Sound (ps.map Piece.flip) := by
  intro p hp
  obtain ⟨q, hq, rfl⟩ := List.mem_map.1 hp
  exact (h q hq).flip

theorem head?_target (h : Sound ps) : (target ps).head? = (source ps).head? := by
  cases ps with
  | nil => rfl
  | cons p ps =>
    have hp := h p (by simp)
    simp only [target_cons, source_cons, List.head?_append, hp.head]
    cases hhead : p.source.head? with
    | none => exact absurd (List.head?_eq_none_iff.1 hhead) hp.ne_nil
    | some x => rfl

theorem getLast?_target (h : Sound ps) : (target ps).getLast? = (source ps).getLast? := by
  rcases List.eq_nil_or_concat ps with rfl | ⟨ps, p, rfl⟩
  · rfl
  · have hp := h p (by simp)
    rw [List.concat_eq_append, target_append, source_append]
    simp only [target_cons, source_cons, target_nil, source_nil, List.append_nil, List.getLast?_append, hp.last]
    cases hlast : p.source.getLast? with
    | none => exact absurd (List.getLast?_eq_none_iff.1 hlast) hp.ne_nil
    | some x => rfl

/-! ## Aligned offsets -/

/-- the same pieces are before offset i of the source and offset j of the target -/
def Aligned (ps : List (Piece α)) (i j : ℕ) : Prop :=
  ∃ p q, ps = p ++ q ∧ (source p).length = i ∧ (target p).length = j

theorem Aligned.flip {i j : ℕ} (h : Aligned ps i j) : Aligned (ps.map Piece.flip) j i := by
  obtain ⟨p, q, rfl, rfl, rfl⟩ := h
  exact ⟨p.map Piece.flip, q.map Piece.flip, by simp, by simp, by simp⟩

/-- more pieces are more characters, in both texts -/
theorem length_lt_of_prefix (h : Sound ps) {p q t : List (Piece α)} (hps : ps = p ++ q) (ht : t <+: q) (hne : t ≠ []) :
    (source p).length < (source (p ++ t)).length ∧ (target p).length < (target (p ++ t)).length := by
  obtain ⟨x, t, rfl⟩ := List.exists_cons_of_ne_nil hne
  have hx := h x (by rw [hps]; exact List.mem_append_right p (ht.subset (by simp)))
  have hs := List.length_pos_of_ne_nil hx.ne_nil
  have ht := List.length_pos_of_ne_nil hx.target_ne_nil
  simp only [source_append, target_append, source_cons, target_cons, List.length_append]
  omega

/-- **Aligned offsets have the same order in both texts.** -/
theorem Aligned.lt_iff (h : Sound ps) {i j i' j' : ℕ} (ha : Aligned ps i j) (ha' : Aligned ps i' j') : i < i' ↔ j < j' := by
  obtain ⟨p, q, hps, rfl, rfl⟩ := ha
  obtain ⟨p', q', hps', rfl, rfl⟩ := ha'
  -- one of the two lists of pieces goes on from the other
  rcases List.append_eq_append_iff.1 (hps.symm.trans hps') with ⟨t, rfl, hq⟩ | ⟨t, rfl, hq⟩
  · rcases eq_or_ne t [] with rfl | hne
    · simp
    · obtain ⟨hs, ht⟩ := length_lt_of_prefix h hps ⟨q', hq.symm⟩ hne
      exact iff_of_true hs ht
  · rcases eq_or_ne t [] with rfl | hne
    · simp
    · obtain ⟨hs, ht⟩ := length_lt_of_prefix h hps' ⟨q, hq.symm⟩ hne
      exact iff_of_false hs.le.not_gt ht.le.not_gt

/-! ## Places -/

/-- n characters of the source from offset i on have nothing in common with a swapped piece -/
def Clear (ps : List (Piece α)) (i n : ℕ) : Prop :=
  ∀ p old new q, ps = p ++ swap old new :: q → i + n ≤ (source p).length ∨ (source p).length + old.length ≤ i

theorem Clear.tail {x : Piece α} {i n : ℕ} (h : Clear (x :: ps) (x.source.length + i) n) : Clear ps i n := by
  intro p old new q hps
  have hx := h (x :: p) old new q (by rw [hps]; rfl)
  simp only [source_cons, List.length_append] at hx
  omega

/-- a word that no swapped piece overlaps consists of kept characters -/
theorem place_kept {a r b : List α} (hps : source ps = a ++ (r ++ b)) (hclear : Clear ps a.length r.length) (h : Sound ps) :
    ∃ p q, ps = p ++ (r.map keep ++ q) ∧ source p = a ∧ source q = b := by
  induction ps generalizing a r with
  | nil =>
    obtain ⟨rfl, hrest⟩ := List.append_eq_nil_iff.1 hps.symm
    obtain ⟨rfl, rfl⟩ := List.append_eq_nil_iff.1 hrest
    exact ⟨[], [], rfl, rfl, rfl⟩
  | cons x ps ih =>
    have hsound : Sound ps := fun p hp => h p (by simp [hp])
    cases a with
    | cons y a =>
      -- the piece ends before the word
      have hsplit : ∃ a', y :: a = x.source ++ a' ∧ source ps = a' ++ (r ++ b) := by
        cases x with
        | keep z =>
          obtain ⟨rfl, hrest⟩ := List.cons.inj (show z :: source ps = y :: (a ++ (r ++ b)) from hps)
          exact ⟨a, rfl, hrest⟩
        | swap old new =>
          have hle : old.length ≤ (y :: a).length := by
            rcases hclear [] old new ps rfl with hlt | hle
            · simp at hlt
            · simpa using hle
          obtain ⟨a', ha⟩ : old <+: y :: a := List.prefix_of_prefix_length_le ⟨source ps, hps⟩ ⟨r ++ b, rfl⟩ hle
          refine ⟨a', ha.symm, ?_⟩
          rw [source_cons, ← ha, List.append_assoc] at hps
          exact List.append_cancel_left hps
      obtain ⟨a', ha, hrest⟩ := hsplit
      rw [ha, List.length_append] at hclear
      obtain ⟨p, q, rfl, rfl, hq⟩ := ih hrest hclear.tail hsound
      exact ⟨x :: p, q, rfl, ha.symm, hq⟩
    | nil =>
      cases r with
      | nil => exact ⟨[], x :: ps, rfl, rfl, by simpa using hps⟩
      | cons y r =>
        cases x with
        | swap old new =>
          have hne : 0 < old.length := List.length_pos_of_ne_nil (h _ (List.mem_cons_self ..)).ne_nil
          rcases hclear [] old new ps rfl with hlt | hle
          · simp at hlt
          · simp at hle
            exact absurd hle (List.length_pos_iff.1 hne)
        | keep z =>
          obtain ⟨rfl, hrest⟩ := List.cons.inj (show z :: source ps = y :: (r ++ b) from hps)
          have htail : Clear ps 0 r.length := by
            intro p old new q hq
            have hx := hclear (keep z :: p) old new q (by rw [hq]; rfl)
            simp [Piece.source] at hx
            omega
          obtain ⟨p, q, rfl, hp, hq⟩ := ih (a := []) hrest htail hsound
          have hnil : p = [] := by
            cases p with
            | nil => rfl
            | cons x p => exact absurd (List.append_eq_nil_iff.1 hp).1 (hsound x (by simp)).ne_nil
          subst hnil
          exact ⟨[], q, rfl, rfl, hq⟩

/-- **A word that no swapped piece overlaps stands in both texts**, between the same characters. -/
theorem place_moves {a r b : List α} (hps : source ps = a ++ (r ++ b)) (hclear : Clear ps a.length r.length) (h : Sound ps) :
    ∃ a' b', target ps = a' ++ (r ++ b') ∧ a'.getLast? = a.getLast? ∧ b'.head? = b.head? ∧ Aligned ps a.length a'.length := by
  obtain ⟨p, q, rfl, rfl, rfl⟩ := place_kept hps hclear h
  refine ⟨target p, target q, by simp, ?_, ?_, p, _, rfl, rfl, rfl⟩
  · exact getLast?_target fun x hx => h x (by simp [hx])
  · exact head?_target fun x hx => h x (by simp [hx])

/-- **First places are aligned** if every place of one text is aligned to one of the other. -/
theorem aligned_least {P Q : ℕ → Prop} (h : Sound ps) (hto : ∀ i, P i → ∃ j, Q j ∧ Aligned ps i j)
    (hfrom : ∀ j, Q j → ∃ i, P i ∧ Aligned ps i j) {i : ℕ} (hi : IsLeast {i | P i} i) :
    ∃ j, IsLeast {j | Q j} j ∧ Aligned ps i j := by
  obtain ⟨j, hj, hij⟩ := hto i hi.1
  refine ⟨j, ⟨hj, fun j' hj' => ?_⟩, hij⟩
  obtain ⟨i', hi', hij'⟩ := hfrom j' hj'
  by_contra hlt
  exact absurd (hi.2 hi') (not_le.2 ((hij'.lt_iff h hij).2 (not_le.1 hlt)))

end Splice

end AgentPick
