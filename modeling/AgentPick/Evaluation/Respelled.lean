/-
The mentions of a text whose mentions are respelled (`evaluation/metrics.py`, `extract_predictions`).

f respells the text of a mention: the org stays, and the repo keeps its shape and its last character (`Keeps`). A respelled
text is the cleaned text with f applied to every mention.

Results:
- `matchAt_inv`: what stands after a mention.
- `noStart_after`: no mention starts in the rest of its run of id characters.
- `none_respelled`: where no mention started none starts in the respelled text.
- `scan_respelled`: the respelled text has the respelled mentions and no others.
-/
import Mathlib.Tactic
import AgentPick.Core.Splice
import AgentPick.Evaluation.Inside

namespace AgentPick.Respelled

open AgentPick.Text AgentPick.Regex AgentPick.Extract AgentPick.Mentions AgentPick.Inside

/-- the org stays, and the repo keeps its shape and its last character -/
def Keeps (f : Str → Str) : Prop :=
  ∀ org repo, IdSide org → IdSide repo →
    ∃ repo', f (org ++ '/' :: repo) = org ++ '/' :: repo' ∧ IdSide repo' ∧ repo'.getLast? = repo.getLast?

/-! ## Boundaries -/

theorem atBoundary_congr {u : Unicode} {b b' a a' : Str} (hb : b'.head? = b.head?) (ha : a'.head? = a.head?) :
    atBoundary u ⟨b', a'⟩ = atBoundary u ⟨b, a⟩ := by
  rw [atBoundary, atBoundary, hb, ha]

/-- there is a boundary after x of v -/
def BoundaryIn (u : Unicode) (before v z a : Str) (x : Char) (t : Str) : Prop :=
  v = a ++ x :: t ∧ atBoundary u ⟨x :: (a.reverse ++ before), t ++ z⟩ = true

/-- if there is a boundary in v there is a last one -/
theorem exists_last_boundary {u : Unicode} {v z : Str} {before : Str} (h : ∃ a x t, BoundaryIn u before v z a x t) :
    ∃ a x t, BoundaryIn u before v z a x t ∧
      ∀ a' x' t', t = a' ++ x' :: t' → atBoundary u ⟨x' :: (a'.reverse ++ x :: (a.reverse ++ before)), t' ++ z⟩ = false := by
  induction v generalizing before with
  | nil =>
    obtain ⟨a, x, t, hv, -⟩ := h
    exact absurd hv.symm (by simp)
  | cons y v ih =>
    by_cases hlater : ∃ a x t, BoundaryIn u (y :: before) v z a x t
    · obtain ⟨a, x, t, ⟨rfl, hb⟩, hlast⟩ := ih hlater
      exact ⟨y :: a, x, t, ⟨rfl, by simpa using hb⟩, by simpa using hlast⟩
    · obtain ⟨a, x, t, hv, hb⟩ := h
      cases a with
      | cons y' a =>
        obtain ⟨rfl, rfl⟩ := List.cons.inj hv
        exact absurd ⟨a, x, t, rfl, by simpa using hb⟩ hlater
      | nil =>
        obtain ⟨rfl, rfl⟩ := List.cons.inj hv
        refine ⟨[], y, v, ⟨rfl, hb⟩, fun a' x' t' ht => ?_⟩
        by_contra htrue
        exact hlater ⟨a', x', t', ht, by simpa using htrue⟩

/-- between a word character and the next character that is none, there is a boundary -/
theorem exists_boundary {u : Unicode} (before : Str) {x : Char} {t z : Str} (hx : u.isWord x = true)
    (hz : z.head?.any u.isWord = false) : ∃ a y t', BoundaryIn u before (x :: t) z a y t' := by
  induction t generalizing x before with
  | nil => exact ⟨[], x, [], rfl, by simp [atBoundary, hx, hz]⟩
  | cons w t ih =>
    by_cases hw : u.isWord w = true
    · obtain ⟨a, y, t', hsplit, hb⟩ := ih (x :: before) hw
      exact ⟨x :: a, y, t', by rw [hsplit]; rfl, by simpa using hb⟩
    · exact ⟨[], x, w :: t, rfl, by simp [atBoundary, hx, hw]⟩

/-! ## Where mentions start -/

/-- an org, a slash and a repo between boundaries -/
theorem starts {u : Unicode} {before org repo rest : Str} (horg : IdSide org) (hrepo : IdSide repo)
    (hstart : atBoundary u ⟨before, (org ++ '/' :: repo) ++ rest⟩ = true)
    (hend : atBoundary u ⟨(org ++ '/' :: repo).reverse ++ before, rest⟩ = true) :
    run (modelIdRe u) ⟨before, (org ++ '/' :: repo) ++ rest⟩ ≠ [] :=
  List.ne_nil_of_mem (mem_run_modelId.2 ⟨org, repo, horg, hrepo, Spans.mk_iff.2 rfl, hstart, hend⟩)

/-- an org and a slash before a run that has a boundary -/
theorem starts_of_boundary {u : Unicode} {before org repo rest a t : Str} {x : Char} (horg : IdSide org) (hrepo : IdSide repo)
    (hstart : atBoundary u ⟨before, (org ++ '/' :: repo) ++ rest⟩ = true)
    (hb : BoundaryIn u ((org ++ ['/']).reverse ++ before) repo rest a x t) :
    run (modelIdRe u) ⟨before, (org ++ '/' :: repo) ++ rest⟩ ≠ [] := by
  obtain ⟨rfl, hb⟩ := hb
  have hside : IdSide (a ++ [x]) := by
    refine ⟨fun c hc => hrepo.chars c ?_, ?_⟩
    · rw [List.append_cons]
      exact List.mem_append_left t hc
    · obtain ⟨c, r, hr, hc⟩ := hrepo.first
      cases a with
      | nil => exact ⟨x, [], rfl, by rwa [(List.cons.inj hr).1]⟩
      | cons y a => exact ⟨y, a ++ [x], rfl, by rwa [(List.cons.inj hr).1]⟩
  have htext : (org ++ '/' :: (a ++ x :: t)) ++ rest = (org ++ '/' :: (a ++ [x])) ++ (t ++ rest) := by simp
  rw [htext] at hstart ⊢
  exact starts horg hside hstart (by simpa using hb)

/-- the first slash of a text -/
theorem slash_split {o q A B : Str} (ho : '/' ∉ o) (hq : '/' ∉ q) (h : o ++ '/' :: A = q ++ '/' :: B) : o = q ∧ A = B := by
  have hother {w : Str} (hw : '/' ∉ w) : ∀ c ∈ w, decide (c ≠ '/') = true :=
    fun c hc => decide_eq_true fun heq => hw (heq ▸ hc)
  obtain ⟨rfl, hrest⟩ := stretch_unique h (hother ho) (hother hq) (by simp) (by simp)
  exact ⟨rfl, (List.cons.inj hrest).2⟩

/-! ## After a mention -/

/-- what stands at a mention: an org, a slash, a repo, and a run of id characters without a boundary -/
structure Stands (u : Unicode) (before org repo v z : Str) : Prop where
  orgSide : IdSide org
  repoSide : IdSide repo
  run : ∀ x ∈ v, idChar x = true
  next : ∀ x ∈ z.head?, idChar x = false
  start : atBoundary u ⟨before, (org ++ '/' :: repo) ++ (v ++ z)⟩ = true
  stop : atBoundary u ⟨(org ++ '/' :: repo).reverse ++ before, v ++ z⟩ = true
  later : ∀ a x t, ¬BoundaryIn u ((org ++ '/' :: repo).reverse ++ before) v z a x t

theorem Stands.matchAt {u : Unicode} {before org repo v z : Str} (h : Stands u before org repo v z) :
    matchAt (modelIdRe u) ⟨before, (org ++ '/' :: repo) ++ (v ++ z)⟩ =
      some ⟨(org ++ '/' :: repo).reverse ++ before, v ++ z⟩ := by
  refine matchAt_mention h.orgSide h.repoSide h.run h.next h.start h.stop fun a x t hv => ?_
  by_contra htrue
  exact h.later a x t ⟨hv, by simpa using htrue⟩

/-- **What stands at a mention.** -/
theorem matchAt_inv {u : Unicode} {c e : Cursor} (h : matchAt (modelIdRe u) c = some e) :
    ∃ org repo v z, Stands u c.before org repo v z ∧ c.after = (org ++ '/' :: repo) ++ (v ++ z) ∧
      e = ⟨(org ++ '/' :: repo).reverse ++ c.before, v ++ z⟩ := by
  obtain ⟨org, repo, horg, hrepo, hspan, hs, he⟩ := mem_run_modelId.1 (List.mem_of_head? h)
  obtain ⟨before, after⟩ := c
  obtain ⟨before', rest⟩ := e
  obtain rfl : after = (org ++ '/' :: repo) ++ rest := hspan.1
  obtain rfl : before' = (org ++ '/' :: repo).reverse ++ before := hspan.2
  obtain ⟨v, z, rfl, hv, hz⟩ : ∃ v z, rest = v ++ z ∧ (∀ x ∈ v, idChar x = true) ∧ ∀ x ∈ z.head?, idChar x = false := by
    refine ⟨rest.takeWhile idChar, rest.dropWhile idChar, List.takeWhile_append_dropWhile.symm,
      fun x hx => List.mem_takeWhile_imp hx, fun x hx => ?_⟩
    have hnot := List.head?_dropWhile_not idChar rest
    rwa [Option.mem_def.1 hx] at hnot
  refine ⟨org, repo, v, z, ⟨horg, hrepo, hv, hz, hs, he, ?_⟩, rfl, rfl⟩
  -- with a later boundary the match would be longer
  intro a x t hb
  obtain ⟨a, x, t, ⟨rfl, hb⟩, hlast⟩ := exists_last_boundary ⟨a, x, t, hb⟩
  have hlonger : IdSide (repo ++ (a ++ [x])) := by
    refine ⟨fun c hc => ?_, ?_⟩
    · rcases List.mem_append.1 hc with hc | hc
      · exact hrepo.chars c hc
      · exact hv c (by rw [List.append_cons]; exact List.mem_append_left t hc)
    · obtain ⟨c, r, rfl, hc⟩ := hrepo.first
      exact ⟨c, _, rfl, hc⟩
  have htext : (org ++ '/' :: repo) ++ ((a ++ x :: t) ++ z) = (org ++ '/' :: (repo ++ (a ++ [x]))) ++ (t ++ z) := by simp
  have hbefore : (org ++ '/' :: (repo ++ (a ++ [x]))).reverse ++ before =
      x :: (a.reverse ++ ((org ++ '/' :: repo).reverse ++ before)) := by simp
  have hmatch : Regex.matchAt (modelIdRe u) ⟨before, (org ++ '/' :: repo) ++ ((a ++ x :: t) ++ z)⟩ =
      some ⟨x :: (a.reverse ++ ((org ++ '/' :: repo).reverse ++ before)), t ++ z⟩ := by
    rw [htext, ← hbefore]
    refine matchAt_mention horg hlonger (fun y hy => hv y (by simp [hy])) hz (by rwa [htext] at hs) (by rwa [hbefore]) ?_
    intro a' x' t' ht
    rw [hbefore]
    exact hlast a' x' t' ht
  have hrest := congrArg (List.length ∘ Cursor.after) (Option.some.inj (hmatch.symm.trans h))
  simp at hrest
  omega

/-- **No mention starts in the run of id characters after a mention.** -/
theorem noStart_after {u : Unicode} {before v z : Str} (hv : ∀ x ∈ v, idChar x = true) (hz : ∀ x ∈ z.head?, idChar x = false)
    (hlater : ∀ a x t, ¬BoundaryIn u before v z a x t) : NoStart (modelIdRe u) before v z := by
  intro a₁ a₂ hsplit hne
  refine matchAt_eq_none_of fun e he => ?_
  obtain ⟨org, repo, horg, -, hspan, -⟩ := mem_run_modelId.1 he
  -- the org is the rest of the run, so a slash comes after the run
  have hmeet : a₂ ++ z = org ++ '/' :: (repo ++ e.after) := by simpa using hspan.1
  have hrest : ∀ x ∈ a₂, idChar x = true := fun x hx => hv x (by rw [hsplit]; simp [hx])
  obtain ⟨rfl, rfl⟩ := stretch_unique hmeet hrest horg.chars hz (by simpa using by decide)
  obtain ⟨x, t, rfl, hx⟩ := horg.first
  have hnonword : u.isWord '/' = false := by
    rw [u.isWord_ascii _ (by decide)]
    decide
  obtain ⟨a, y, t', hat, hb⟩ := exists_boundary (u := u) (a₁.reverse ++ before) (t := t)
    (z := '/' :: (repo ++ e.after)) (isWord_of_alnum u hx) (by simp [hnonword])
  exact hlater (a₁ ++ a) y t' ⟨by rw [hsplit, hat]; simp, by simpa using hb⟩

/-! ## The respelled text -/

/-- an event of the text and the one of the respelled text -/
inductive Like (f : Str → Str) : Event → Event → Prop where
  | char (x : Char) : Like f (.inl x) (.inl x)
  | mention {m m' : Cursor × Cursor} : m'.1.upto m'.2 = f (m.1.upto m.2) → Like f (.inr m) (.inr m')

section Texts

variable {u : Unicode} {f : Str → Str} (hf : Keeps f)
include hf

/-- the respelled text starts like the text -/
theorem head?_replaced {c : Cursor} {evs : List Event} (h : Scan (modelIdRe u) c evs) :
    (replaced f evs).head? = c.after.head? := by
  cases h with
  | done => rfl
  | pass _ _ => rfl
  | @hit _ e evs hm _ =>
    obtain ⟨org, repo, v, z, hat, hc, rfl⟩ := matchAt_inv hm
    obtain ⟨repo', hrepo, -⟩ := hf org repo hat.orgSide hat.repoSide
    obtain ⟨x, t, rfl, -⟩ := hat.orgSide.first
    have hupto : c.upto ⟨((x :: t) ++ '/' :: repo).reverse ++ c.before, v ++ z⟩ = (x :: t) ++ '/' :: repo :=
      Spans.upto ⟨hc, rfl⟩
    rw [replaced_inr, hupto, hrepo, hc]
    rfl

omit hf in
/-- a mention that would start before another one of the respelled text starts in the text too -/
theorem starts_respelled {before P o r r' F G org repo rest : Str} (horg : IdSide org) (hrepo : IdSide repo) (ho : IdSide o)
    (hr : IdSide r) (hmeet : P ++ ((o ++ '/' :: r') ++ F) = (org ++ '/' :: repo) ++ rest)
    (hs : atBoundary u ⟨before, P ++ ((o ++ '/' :: r) ++ G)⟩ = true)
    (hend : atBoundary u ⟨(org ++ '/' :: repo).reverse ++ before, rest⟩ = true)
    (hstart : atBoundary u ⟨P.reverse ++ before, (o ++ '/' :: r) ++ G⟩ = true)
    (hstop : atBoundary u ⟨(o ++ '/' :: r).reverse ++ (P.reverse ++ before), G⟩ = true) :
    run (modelIdRe u) ⟨before, P ++ ((o ++ '/' :: r) ++ G)⟩ ≠ [] := by
  obtain ⟨a, t, hat, ha⟩ := ho.first
  rcases List.append_eq_append_iff.1 hmeet with ⟨q, hq, hqr⟩ | ⟨q, rfl, rfl⟩
  · rcases List.append_eq_append_iff.1 hq.symm with ⟨w, rfl, hwq⟩ | ⟨w, rfl, hwq⟩
    · -- the other one starts in the org, which goes on to its slash
      rw [hwq, List.append_assoc, List.append_assoc] at hqr
      have hw : '/' ∉ w := fun hmem => horg.not_slash (List.mem_append_right P hmem)
      obtain ⟨rfl, -⟩ := slash_split ho.not_slash hw (by simpa using hqr)
      have htext : P ++ ((o ++ '/' :: r) ++ G) = ((P ++ o) ++ '/' :: r) ++ G := by simp
      rw [htext] at hs ⊢
      exact starts horg hr hs (by simpa using hstop)
    · cases w with
      | nil =>
        -- it would start with the slash
        obtain rfl : q = '/' :: repo := hwq.symm
        rw [hat] at hqr
        obtain ⟨rfl, -⟩ := List.cons.inj (show a :: ((t ++ '/' :: r') ++ F) = '/' :: (repo ++ rest) from hqr)
        exact absurd ha (by decide)
      | cons y w =>
        obtain ⟨rfl, rfl⟩ := List.cons.inj (show '/' :: repo = y :: (w ++ q) from hwq)
        cases w with
        | nil =>
          -- its org is taken for the repo
          have hnonword : u.isWord '/' = false := by
            rw [u.isWord_ascii _ (by decide)]
            decide
          have htext : (org ++ ['/']) ++ ((o ++ '/' :: r) ++ G) = (org ++ '/' :: o) ++ ('/' :: (r ++ G)) := by simp
          obtain ⟨a', y, t', hb⟩ := exists_boundary (u := u) ((org ++ ['/']).reverse ++ before) (t := t)
            (z := '/' :: (r ++ G)) (isWord_of_alnum u ha) (by simp [hnonword])
          rw [htext] at hs ⊢
          exact starts_of_boundary horg ho hs (hat ▸ hb)
        | cons z w =>
          -- it starts in the repo, which ends before it
          have hside : IdSide (z :: w) := by
            obtain ⟨c, v, hv, hc⟩ := hrepo.first
            refine ⟨fun x hx => hrepo.chars x (List.mem_append_left q hx), z, w, rfl, ?_⟩
            rwa [(List.cons.inj hv).1]
          have htext : (org ++ '/' :: z :: w) ++ ((o ++ '/' :: r) ++ G) = (org ++ '/' :: (z :: w)) ++ ((o ++ '/' :: r) ++ G) := rfl
          rw [htext] at hs ⊢
          exact starts horg hside hs hstart
  · -- it starts after the match
    have htext : ((org ++ '/' :: repo) ++ q) ++ ((o ++ '/' :: r) ++ G) = (org ++ '/' :: repo) ++ (q ++ ((o ++ '/' :: r) ++ G)) := by
      simp
    rw [htext] at hs ⊢
    have hhead : (q ++ ((o ++ '/' :: r') ++ F)).head? = (q ++ ((o ++ '/' :: r) ++ G)).head? := by
      rw [hat]
      cases q <;> rfl
    exact starts horg hrepo hs ((atBoundary_congr rfl hhead).symm.trans hend)

/-- **Where no mention started none starts in the respelled text.** -/
theorem none_respelled {before xs : Str} {x : Char} {evs : List Event}
    (hnone : matchAt (modelIdRe u) ⟨before, x :: xs⟩ = none) (h : Scan (modelIdRe u) ⟨x :: before, xs⟩ evs) {before' : Str}
    (hb : before'.head? = before.head?) : matchAt (modelIdRe u) ⟨before', x :: replaced f evs⟩ = none := by
  rw [matchAt_eq_none] at hnone
  refine matchAt_eq_none_of fun e he => ?_
  obtain ⟨org, repo, horg, hrepo, hspan, hs, hend⟩ := mem_run_modelId.1 he
  obtain ⟨before'', rest⟩ := e
  obtain ⟨htext, rfl⟩ : x :: replaced f evs = (org ++ '/' :: repo) ++ rest ∧
      before'' = (org ++ '/' :: repo).reverse ++ before' := hspan
  have hs' : atBoundary u ⟨before, x :: xs⟩ = true := (atBoundary_congr hb rfl).symm.trans hs
  have hend' : atBoundary u ⟨(org ++ '/' :: repo).reverse ++ before, rest⟩ = true := by
    refine (atBoundary_congr ?_ rfl).symm.trans hend
    simp
  obtain ⟨p, evs', rfl, hcase⟩ := exists_passes evs
  obtain ⟨d, hd, hscan⟩ := h.reach
  rw [replaced_map_inl] at hd
  obtain rfl : xs = p ++ d.after := hd.1
  rw [replaced_append, replaced_map_inl] at htext
  rcases hcase with rfl | ⟨m, evs₂, rfl⟩
  · -- nothing comes after the passes, and the texts are the same
    have hnil : d.after = [] := by
      cases hscan
      rfl
    rw [hnil] at hnone hs'
    rw [replaced_nil] at htext
    rw [htext] at hnone hs'
    exact starts horg hrepo hs' hend' hnone
  · -- a mention comes after the passes
    cases hscan with
    | @hit _ e₂ _ hm _ =>
    obtain ⟨o, r, v, z, hat, hafter, rfl⟩ := matchAt_inv hm
    obtain ⟨r', hr', -, -⟩ := hf o r hat.orgSide hat.repoSide
    have hupto : d.upto ⟨(o ++ '/' :: r).reverse ++ d.before, v ++ z⟩ = o ++ '/' :: r := Spans.upto ⟨hafter, rfl⟩
    have hbefore : d.before = (x :: p).reverse ++ before := by
      rw [hd.2]
      simp
    have hstart := hat.start
    have hstop := hat.stop
    rw [hbefore] at hstart hstop
    rw [replaced_inr, hupto, hr'] at htext
    rw [hafter] at hnone hs'
    exact starts_respelled horg hrepo hat.orgSide hat.repoSide htext hs' hend' hstart hstop hnone

/-- **The respelled text has the respelled mentions and no others.** -/
theorem scan_respelled {c : Cursor} {evs : List Event} (h : Scan (modelIdRe u) c evs) (before' : Str)
    (hb : before'.head? = c.before.head?) :
    ∃ evs', Scan (modelIdRe u) ⟨before', replaced f evs⟩ evs' ∧ List.Forall₂ (Like f) evs evs' := by
  induction h generalizing before' with
  | done => exact ⟨[], .done, .nil⟩
  | @pass before xs x evs hnone h ih =>
    obtain ⟨evs', hscan, hlike⟩ := ih (x :: before') rfl
    exact ⟨.inl x :: evs', .pass (none_respelled hf hnone h hb) hscan, .cons (.char x) hlike⟩
  | @hit c e evs hm h ih =>
    obtain ⟨org, repo, v, z, hat, hafter, rfl⟩ := matchAt_inv hm
    obtain ⟨repo', hrepo, hside, hlast⟩ := hf org repo hat.orgSide hat.repoSide
    have hupto : c.upto ⟨(org ++ '/' :: repo).reverse ++ c.before, v ++ z⟩ = org ++ '/' :: repo := Spans.upto ⟨hafter, rfl⟩
    obtain ⟨evs₂, rfl, h₂⟩ := h.pass_inv (noStart_after hat.run hat.next hat.later)
    have hhead := head?_replaced hf h₂
    have hrest : ∀ t, (t ++ replaced f evs₂).head? = (t ++ z).head? := by
      intro t
      rw [List.head?_append, List.head?_append, hhead]
    -- the last character before the run is the same
    have hend : ((org ++ '/' :: repo').reverse ++ before').head? = ((org ++ '/' :: repo).reverse ++ c.before).head? := by
      have hl : ∀ s b, IdSide s → ((org ++ '/' :: s).reverse ++ b).head? = s.getLast? := by
        intro s b hs
        rw [List.append_cons, List.head?_append, List.head?_reverse, List.getLast?_append_of_ne_nil _ hs.ne_nil]
        exact Option.or_of_isSome (List.getLast?_isSome.2 hs.ne_nil)
      rw [hl repo' _ hside, hl repo _ hat.repoSide, hlast]
    have hnew : Stands u before' org repo' v (replaced f evs₂) := by
      refine ⟨hat.orgSide, hside, hat.run, by rw [hhead]; exact hat.next, ?_, ?_, fun a x t hb' => ?_⟩
      · refine (atBoundary_congr hb ?_).trans hat.start
        obtain ⟨o, t, rfl, -⟩ := hat.orgSide.first
        rfl
      · exact (atBoundary_congr hend (hrest v)).trans hat.stop
      · exact hat.later a x t ⟨hb'.1, (atBoundary_congr rfl (hrest t)).symm.trans hb'.2⟩
    obtain ⟨evs', hscan, hlike⟩ := ih _ hend
    rw [replaced_append, replaced_map_inl] at hscan
    refine ⟨.inr (⟨before', (org ++ '/' :: repo') ++ (v ++ replaced f evs₂)⟩,
      ⟨(org ++ '/' :: repo').reverse ++ before', v ++ replaced f evs₂⟩) :: evs', ?_, .cons (.mention ?_) hlike⟩
    · rw [replaced_inr, hupto, hrepo, replaced_append, replaced_map_inl]
      exact .hit hnew.matchAt hscan
    · rw [hupto, hrepo]
      exact Spans.upto ⟨rfl, rfl⟩

end Texts

/-! ## Twins -/

/-- a mention of the text and the one of the respelled text, after these events -/
structure TwinAt (f : Str → Str) (evs evs' evs₁ evs₁' : List Event) (m m' : Cursor × Cursor) : Prop where
  split : ∃ evs₂, evs = evs₁ ++ .inr m :: evs₂
  split' : ∃ evs₂', evs' = evs₁' ++ .inr m' :: evs₂'
  before : List.Forall₂ (Like f) evs₁ evs₁'
  same : m'.1.upto m'.2 = f (m.1.upto m.2)

/-- a mention of the text and the one of the respelled text -/
def Twin (f : Str → Str) (evs evs' : List Event) (m m' : Cursor × Cursor) : Prop :=
  ∃ evs₁ evs₁', TwinAt f evs evs' evs₁ evs₁' m m'

theorem TwinAt.cons {f : Str → Str} {evs evs' evs₁ evs₁' : List Event} {m m' : Cursor × Cursor}
    (h : TwinAt f evs evs' evs₁ evs₁' m m') {ev ev' : Event} (hev : Like f ev ev') :
    TwinAt f (ev :: evs) (ev' :: evs') (ev :: evs₁) (ev' :: evs₁') m m' := by
  obtain ⟨⟨evs₂, rfl⟩, ⟨evs₂', rfl⟩, hbefore, hsame⟩ := h
  exact ⟨⟨evs₂, rfl⟩, ⟨evs₂', rfl⟩, .cons hev hbefore, hsame⟩

/-- the mentions of the two texts are twins -/
theorem twins {f : Str → Str} {evs evs' : List Event} (h : List.Forall₂ (Like f) evs evs') :
    List.Forall₂ (Twin f evs evs') (hits evs) (hits evs') := by
  induction h with
  | nil => exact .nil
  | cons hev _ ih =>
    have htail := ih.imp fun m m' hm => by
      obtain ⟨evs₁, evs₁', hat⟩ := hm
      exact (⟨_, _, hat.cons hev⟩ : Twin f _ _ m m')
    cases hev with
    | char x => exact htail
    | mention hsame => exact .cons ⟨[], [], ⟨⟨_, rfl⟩, ⟨_, rfl⟩, .nil, hsame⟩⟩ htail

/-- every mention has a twin -/
theorem twin_at {f : Str → Str} {evs evs₁ evs₂ evs' : List Event} {m : Cursor × Cursor} (hsplit : evs = evs₁ ++ .inr m :: evs₂)
    (h : List.Forall₂ (Like f) evs evs') : ∃ evs₁' m', TwinAt f evs evs' evs₁ evs₁' m m' := by
  subst hsplit
  induction evs₁ generalizing evs' with
  | nil =>
    cases h with
    | cons hev _ =>
      cases hev with
      | mention hsame => exact ⟨[], _, ⟨evs₂, rfl⟩, ⟨_, rfl⟩, .nil, hsame⟩
  | cons ev evs₁ ih =>
    cases h with
    | cons hev h =>
      obtain ⟨evs₁', m', hat⟩ := ih h
      exact ⟨_, m', hat.cons hev⟩

theorem replaced_like {f : Str → Str} {evs evs' : List Event} (h : List.Forall₂ (Like f) evs evs') :
    replaced id evs' = replaced f evs := by
  induction h with
  | nil => rfl
  | cons hev _ ih =>
    cases hev with
    | char x => simp [ih]
    | mention hsame => simp [ih, hsame]

/-! ## Pieces -/

/-- the piece of an event, each character seen through σ -/
def eventPieces (f : Str → Str) (σ : Char → Str) : Event → List (Piece Char)
  | .inl x => (σ x).map .keep
  | .inr m =>
    if f (m.1.upto m.2) = m.1.upto m.2 then ((m.1.upto m.2).flatMap σ).map .keep
    else [.swap ((m.1.upto m.2).flatMap σ) ((f (m.1.upto m.2)).flatMap σ)]

/-- the pieces of a text and its respelled text -/
def pieces (f : Str → Str) (σ : Char → Str) (evs : List Event) : List (Piece Char) := evs.flatMap (eventPieces f σ)

section Pieces

variable {f : Str → Str} {σ : Char → Str}

@[simp] theorem pieces_append (evs evs' : List Event) : pieces f σ (evs ++ evs') = pieces f σ evs ++ pieces f σ evs' :=
  List.flatMap_append

@[simp] theorem pieces_cons (ev : Event) (evs : List Event) : pieces f σ (ev :: evs) = eventPieces f σ ev ++ pieces f σ evs :=
  rfl

theorem source_pieces (evs : List Event) : Splice.source (pieces f σ evs) = (replaced id evs).flatMap σ := by
  induction evs with
  | nil => rfl
  | cons ev evs ih =>
    cases ev with
    | inl x => simp [eventPieces, ih]
    | inr m =>
      by_cases hf : f (m.1.upto m.2) = m.1.upto m.2
      · simp [eventPieces, hf, ih]
      · simp [eventPieces, hf, ih, Piece.source]

theorem target_pieces (evs : List Event) : Splice.target (pieces f σ evs) = (replaced f evs).flatMap σ := by
  induction evs with
  | nil => rfl
  | cons ev evs ih =>
    cases ev with
    | inl x => simp [eventPieces, ih]
    | inr m =>
      by_cases hf : f (m.1.upto m.2) = m.1.upto m.2
      · simp [eventPieces, hf, ih]
      · simp [eventPieces, hf, ih, Piece.target]

/-- a swapped piece is a mention that is respelled -/
theorem mention_of_swap {evs : List Event} {p q : List (Piece Char)} {old new : Str}
    (h : pieces f σ evs = p ++ .swap old new :: q) :
    ∃ evs₁ m evs₂, evs = evs₁ ++ .inr m :: evs₂ ∧ p = pieces f σ evs₁ ∧ f (m.1.upto m.2) ≠ m.1.upto m.2 ∧
      old = (m.1.upto m.2).flatMap σ ∧ new = (f (m.1.upto m.2)).flatMap σ := by
  have hkeep : ∀ (w : Str) (ps : List (Piece Char)) (p : List (Piece Char)), w.map .keep ++ ps = p ++ .swap old new :: q →
      ∃ p', p = w.map .keep ++ p' ∧ ps = p' ++ .swap old new :: q := by
    intro w
    induction w with
    | nil => exact fun ps p hp => ⟨p, rfl, hp⟩
    | cons x w ih =>
      intro ps p hp
      cases p with
      | nil => simp at hp
      | cons y p =>
        obtain ⟨rfl, hrest⟩ := List.cons.inj hp
        obtain ⟨p', rfl, hps⟩ := ih ps p hrest
        exact ⟨p', rfl, hps⟩
  induction evs generalizing p with
  | nil => exact absurd h.symm (by simp [pieces])
  | cons ev evs ih =>
    -- the swapped piece is that of the first event, or of a later one
    have hlater : ∀ p', p = eventPieces f σ ev ++ p' → pieces f σ evs = p' ++ .swap old new :: q →
        ∃ evs₁ m evs₂, ev :: evs = evs₁ ++ .inr m :: evs₂ ∧ p = pieces f σ evs₁ ∧ f (m.1.upto m.2) ≠ m.1.upto m.2 ∧
          old = (m.1.upto m.2).flatMap σ ∧ new = (f (m.1.upto m.2)).flatMap σ := by
      intro p' hp hps
      obtain ⟨evs₁, m, evs₂, rfl, rfl, hm⟩ := ih hps
      exact ⟨ev :: evs₁, m, evs₂, rfl, hp, hm⟩
    rw [pieces_cons] at h
    cases ev with
    | inl x =>
      obtain ⟨p', hp, hps⟩ := hkeep _ _ _ h
      exact hlater p' hp hps
    | inr m =>
      by_cases hf : f (m.1.upto m.2) = m.1.upto m.2
      · have hev : eventPieces f σ (.inr m) = ((m.1.upto m.2).flatMap σ).map .keep := if_pos hf
        rw [hev] at h
        obtain ⟨p', hp, hps⟩ := hkeep _ _ _ h
        exact hlater p' (hev ▸ hp) hps
      · have hev : eventPieces f σ (.inr m) = [.swap ((m.1.upto m.2).flatMap σ) ((f (m.1.upto m.2)).flatMap σ)] := if_neg hf
        rw [hev] at h
        cases p with
        | nil =>
          obtain ⟨hswap, -⟩ := List.cons.inj h
          cases hswap
          exact ⟨[], m, evs, rfl, rfl, hf, rfl, rfl⟩
        | cons y p =>
          obtain ⟨rfl, hrest⟩ := List.cons.inj h
          exact hlater p (hev ▸ rfl) hrest

/-- the pieces are sound if σ keeps ASCII characters single -/
theorem sound_pieces {u : Unicode} (hf : Keeps f) (hσ : ∀ x : Char, x.toNat < 128 → ∃ y, σ x = [y]) {c : Cursor}
    {evs : List Event} (h : Scan (modelIdRe u) c evs) : Splice.Sound (pieces f σ evs) := by
  intro p hp
  obtain ⟨ev, hev, hp⟩ := List.mem_flatMap.1 hp
  have hkeep : ∀ w : Str, p ∈ w.map .keep → p.Sound := by
    intro w hw
    obtain ⟨x, -, rfl⟩ := List.mem_map.1 hw
    exact Piece.sound_keep x
  cases ev with
  | inl x => exact hkeep _ hp
  | inr m =>
    simp only [eventPieces] at hp
    split_ifs at hp with hfix
    · exact hkeep _ hp
    · obtain rfl := List.mem_singleton.1 hp
      obtain ⟨hat, -⟩ := h.mem (mem_hits.2 hev)
      obtain ⟨org, repo, v, z, hstands, hafter, hend⟩ := matchAt_inv hat
      obtain ⟨repo', hrepo, hside, hlast⟩ := hf org repo hstands.orgSide hstands.repoSide
      have hupto : m.1.upto m.2 = org ++ '/' :: repo := by
        rw [hend]
        exact Spans.upto ⟨hafter, rfl⟩
      have hascii : ∀ x, idChar x = true → ∃ y, σ x = [y] := by
        intro x hx
        have := toNat_of_idChar hx
        exact hσ x (by omega)
      obtain ⟨a, t, rfl, ha⟩ := hstands.orgSide.first
      obtain ⟨a', ha'⟩ := hascii a (idChar_of_alnum ha)
      obtain ⟨s, l, hl⟩ := (List.eq_nil_or_concat repo).resolve_left hstands.repoSide.ne_nil
      obtain ⟨s', l', hl'⟩ := (List.eq_nil_or_concat repo').resolve_left hside.ne_nil
      rw [List.concat_eq_append] at hl hl'
      obtain rfl : l' = l := by
        rw [hl, hl', List.getLast?_concat, List.getLast?_concat] at hlast
        exact Option.some.inj hlast
      obtain ⟨l₁, hl₁⟩ := hascii l' (hside.chars l' (by rw [hl']; simp))
      rw [hupto, hrepo]
      refine ⟨by simp [Piece.source, ha'], by simp [Piece.source, Piece.target, ha'], ?_⟩
      simp only [Piece.source, Piece.target]
      rw [hl, hl']
      simp [hl₁]

end Pieces

/-! ## Two texts -/

/-- a mention of the text and the one of the respelled text, at aligned offsets -/
structure MentionPair (u : Unicode) (f : Str → Str) (text text' : Str) (ps qs : List (Piece Char)) (m m' : Cursor × Cursor) :
    Prop where
  mem : m ∈ mentions u text
  mem' : m' ∈ mentions u text'
  same : m'.1.upto m'.2 = f (m.1.upto m.2)
  folded : Splice.Aligned ps (foldOffset u m.1) (foldOffset u m'.1)
  plain : Splice.Aligned qs m.1.offset m'.1.offset

/-- the pieces ps of the two folded texts and those qs of the texts themselves -/
structure Matched (u : Unicode) (f : Str → Str) (text text' : Str) (ps qs : List (Piece Char)) : Prop where
  sound : Splice.Sound ps
  soundPlain : Splice.Sound qs
  source : Splice.source ps = u.fold (cleaned text)
  target : Splice.target ps = u.fold (cleaned text')
  pairs : List.Forall₂ (MentionPair u f text text' ps qs) (mentions u text) (mentions u text')
  /-- what no respelled mention overlaps no swapped piece overlaps -/
  clear : ∀ i n, (∀ m m', MentionPair u f text text' ps qs m m' → f (m.1.upto m.2) ≠ m.1.upto m.2 → Apart u m i n) →
    Splice.Clear ps i n
  clearBack : ∀ i n, (∀ m m', MentionPair u f text text' ps qs m m' → f (m.1.upto m.2) ≠ m.1.upto m.2 → Apart u m' i n) →
    Splice.Clear (ps.map Piece.flip) i n

/-- where a mention ends in the folded text -/
theorem foldOffset_end {u : Unicode} {text : Str} {m : Cursor × Cursor} (hm : m ∈ mentions u text) :
    foldOffset u m.2 = foldOffset u m.1 + (u.fold (m.1.upto m.2)).length := by
  obtain ⟨htext, org, repo, -, -, hspan⟩ := mentions_spec hm
  rw [hspan.upto]
  exact (fold_around htext hspan).2

/-- where a mention and its twin start -/
theorem TwinAt.starts {u : Unicode} {f : Str → Str} {text text' : Str} {evs evs' evs₁ evs₁' : List Event}
    {m m' : Cursor × Cursor} (h : TwinAt f evs evs' evs₁ evs₁' m m') (hscan : Scan (modelIdRe u) ⟨[], text⟩ evs)
    (hscan' : Scan (modelIdRe u) ⟨[], text'⟩ evs') :
    m.1.before.reverse = replaced id evs₁ ∧ m'.1.before.reverse = replaced f evs₁ := by
  obtain ⟨⟨evs₂, rfl⟩, ⟨evs₂', rfl⟩, hbefore, -⟩ := h
  obtain ⟨d, hd, hdscan⟩ := hscan.reach
  obtain ⟨d', hd', hdscan'⟩ := hscan'.reach
  cases hdscan
  cases hdscan'
  rw [← replaced_like hbefore, hd.2, hd'.2]
  simp

theorem exists_matched {u : Unicode} {f : Str → Str} (hf : Keeps f) {text text' : Str}
    (h : cleaned text' = subBy (modelIdRe u) f (cleaned text)) : ∃ ps qs, Matched u f text text' ps qs := by
  obtain ⟨evs, hscan, hfind, -, hsub⟩ := exists_scan (modelIdRe_consumes u) (cleaned text)
  obtain ⟨evs'', hscan'', hfind'', -⟩ := exists_scan (modelIdRe_consumes u) (cleaned text')
  rw [h, hsub f] at hscan''
  obtain ⟨evs', hscan', hlike⟩ := scan_respelled hf hscan [] rfl
  obtain rfl := hscan'.unique (modelIdRe_consumes u) hscan''
  have hfold : ∀ x : Char, x.toNat < 128 → ∃ y, u.casefold x = [y] := fun x hx => ⟨_, u.casefold_ascii x hx⟩
  have hone : ∀ x : Char, x.toNat < 128 → ∃ y, [x] = [y] := fun x _ => ⟨x, rfl⟩
  have haligned : ∀ (σ : Char → Str) m m', Twin f evs evs'' m m' →
      Splice.Aligned (pieces f σ evs) (m.1.before.reverse.flatMap σ).length (m'.1.before.reverse.flatMap σ).length := by
    intro σ m m' htwin
    obtain ⟨evs₁, evs₁', hat⟩ := htwin
    obtain ⟨hm, hm'⟩ := hat.starts hscan hscan'
    obtain ⟨evs₂, hsplit⟩ := hat.split
    refine ⟨pieces f σ evs₁, pieces f σ (.inr m :: evs₂), by rw [hsplit, pieces_append], ?_, ?_⟩
    · rw [source_pieces, hm]
    · rw [target_pieces, hm']
  have hpair : ∀ m m', Twin f evs evs'' m m' →
      MentionPair u f text text' (pieces f u.casefold evs) (pieces f (fun x => [x]) evs) m m' := by
    intro m m' htwin
    have hplain := haligned (fun x => [x]) m m' htwin
    simp only [List.flatMap_singleton', List.length_reverse] at hplain
    refine ⟨?_, ?_, ?_, haligned u.casefold m m' htwin, hplain⟩
    · obtain ⟨_, _, hat⟩ := htwin
      obtain ⟨evs₂, hsplit⟩ := hat.split
      rw [mentions, hfind, hsplit]
      simp
    · obtain ⟨_, _, hat⟩ := htwin
      obtain ⟨evs₂, hsplit⟩ := hat.split'
      rw [mentions, hfind'', hsplit]
      simp
    · obtain ⟨_, _, hat⟩ := htwin
      exact hat.same
  refine ⟨pieces f u.casefold evs, pieces f (fun x => [x]) evs, sound_pieces hf hfold hscan, sound_pieces hf hone hscan, ?_, ?_,
    ?_, fun i n hall => ?_, fun i n hall => ?_⟩
  · rw [source_pieces, hscan.source]
    rfl
  · rw [target_pieces, h, hsub f]
    rfl
  · rw [mentions, mentions, hfind, hfind'']
    exact (twins hlike).imp hpair
  · intro p old new q hp
    obtain ⟨evs₁, m, evs₂, hsplit, rfl, hne, rfl, rfl⟩ := mention_of_swap hp
    obtain ⟨evs₁', m', hat⟩ := twin_at hsplit hlike
    have htwin := hpair m m' ⟨evs₁, evs₁', hat⟩
    have hapart := hall m m' htwin hne
    rw [Apart, foldOffset_end htwin.mem, foldOffset, (hat.starts hscan hscan').1] at hapart
    rw [source_pieces]
    exact hapart
  · intro p old new q hp
    have hflip : pieces f u.casefold evs = p.map Piece.flip ++ .swap new old :: q.map Piece.flip := by
      have hback := congrArg (List.map Piece.flip) hp
      rwa [Splice.map_flip_flip, List.map_append, List.map_cons] at hback
    obtain ⟨evs₁, m, evs₂, hsplit, hpieces, hne, rfl, rfl⟩ := mention_of_swap hflip
    obtain ⟨evs₁', m', hat⟩ := twin_at hsplit hlike
    have htwin := hpair m m' ⟨evs₁, evs₁', hat⟩
    have hapart := hall m m' htwin hne
    rw [Apart, foldOffset_end htwin.mem', foldOffset, (hat.starts hscan hscan').2, htwin.same] at hapart
    rw [← Splice.target_flip, hpieces, target_pieces]
    exact hapart

/-! ## Bare places -/

theorem bareAt_moves {ps : List (Piece Char)} (h : Splice.Sound ps) {r a b : Str} (hat : BareAt r (Splice.source ps) a b)
    (hclear : Splice.Clear ps a.length r.length) :
    ∃ a' b', BareAt r (Splice.target ps) a' b' ∧ Splice.Aligned ps a.length a'.length := by
  obtain ⟨a', b', hsplit, ha, hb, hal⟩ := Splice.place_moves hat.split hclear h
  refine ⟨a', b', ⟨hsplit, ?_, ?_⟩, hal⟩
  · rw [ha]
    exact hat.left
  · rw [hb]
    exact hat.right

/-- **The first bare place of a name moves with the text**, if no place of the name overlaps a respelled mention. -/
theorem bareOffset_matched {u : Unicode} {f : Str → Str} {text text' g : Str} {ps qs : List (Piece Char)}
    (h : Matched u f text text' ps qs)
    (hclear : ∀ a b, BareAt (u.fold (repoName g)) (u.fold (cleaned text)) a b →
      Splice.Clear ps a.length (u.fold (repoName g)).length)
    (hback : ∀ a b, BareAt (u.fold (repoName g)) (u.fold (cleaned text')) a b →
      Splice.Clear (ps.map Piece.flip) a.length (u.fold (repoName g)).length) :
    Option.Rel (Splice.Aligned ps) (bareOffset u (u.fold (cleaned text)) g) (bareOffset u (u.fold (cleaned text')) g) := by
  rw [← h.source] at hclear ⊢
  rw [← h.target] at hback ⊢
  generalize hr : u.fold (repoName g) = r at *
  have hto : ∀ i, (∃ a b, BareAt r (Splice.source ps) a b ∧ a.length = i) →
      ∃ j, (∃ a b, BareAt r (Splice.target ps) a b ∧ a.length = j) ∧ Splice.Aligned ps i j := by
    intro i hi
    obtain ⟨a, b, hat, rfl⟩ := hi
    obtain ⟨a', b', hat', hal⟩ := bareAt_moves h.sound hat (hclear a b hat)
    exact ⟨_, ⟨a', b', hat', rfl⟩, hal⟩
  have hfrom : ∀ j, (∃ a b, BareAt r (Splice.target ps) a b ∧ a.length = j) →
      ∃ i, (∃ a b, BareAt r (Splice.source ps) a b ∧ a.length = i) ∧ Splice.Aligned ps i j := by
    intro j hj
    obtain ⟨a, b, hat, rfl⟩ := hj
    rw [← Splice.source_flip] at hat
    obtain ⟨a', b', hat', hal⟩ := bareAt_moves h.sound.flip hat (hback a b (by rwa [Splice.source_flip] at hat))
    rw [Splice.target_flip] at hat'
    have hflip := hal.flip
    rw [Splice.map_flip_flip] at hflip
    exact ⟨_, ⟨a', b', hat', rfl⟩, hflip⟩
  have hleast : ∀ {folded i}, bareOffset u folded g = some i → IsLeast {i | ∃ a b, BareAt r folded a b ∧ a.length = i} i := by
    intro folded i hi
    obtain ⟨hat, hle⟩ := bareOffset_eq_some hi
    rw [hr] at hat hle
    refine ⟨hat, fun j hj => ?_⟩
    obtain ⟨a, b, hab, rfl⟩ := hj
    exact hle a b hab
  have hsome : ∀ {folded}, (bareOffset u folded g).isSome ↔ ∃ i, ∃ a b, BareAt r folded a b ∧ a.length = i := by
    intro folded
    rw [bareOffset_isSome, hr]
    refine ⟨fun ⟨a, b, hab⟩ => ⟨_, a, b, hab, rfl⟩, fun ⟨_, a, b, hab, _⟩ => ⟨a, b, hab⟩⟩
  cases hi : bareOffset u (Splice.source ps) g with
  | none =>
    cases hj : bareOffset u (Splice.target ps) g with
    | none => exact .none
    | some j =>
      obtain ⟨i, hi', -⟩ := hfrom j (hleast hj).1
      have hnone := hsome.2 ⟨i, hi'⟩
      rw [hi] at hnone
      cases hnone
  | some i =>
    obtain ⟨j, hj, hal⟩ := Splice.aligned_least h.sound hto hfrom (hleast hi)
    obtain ⟨j', hj'⟩ := Option.isSome_iff_exists.1 (hsome.2 ⟨j, hj.1⟩)
    obtain rfl := (hleast hj').unique hj
    rw [hj']
    exact .some hal

end AgentPick.Respelled
