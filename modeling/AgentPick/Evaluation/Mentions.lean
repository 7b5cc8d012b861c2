/-
Where an answer mentions a model (`evaluation/metrics.py`, `extract_predictions`).

A mention is a match of the id pattern in the cleaned text, which is the answer with its URLs blanked; a bare place is a
match of a gold model's repo name in the folded cleaned text. This module says what both look like, and which key the
entries hold at which offset because of them.

Results:
- `cleaned_around`: a text without a URL between blanks stays as it is.
- `mem_run_modelId`: a mention is an org, a slash and a repo, between word boundaries.
- `matchAt_mention`: the mention read at a position is the longest one, up to a word boundary.
- `search_bare`: a bare name is found iff it has a place, and the first of its places is reported.
- `get?_entries`: an entry is the first mention that counts, or an earlier bare place of a gold id.
- `credited_iff`: a gold id is credited iff a mention that counts, or a bare place of a gold id, has its key.
-/
import Mathlib.Tactic
import AgentPick.Core.Scan
import AgentPick.Evaluation.Extract

namespace AgentPick.Mentions

open AgentPick.Text AgentPick.Regex AgentPick.Extract

/-- `cleaned` -/
def cleaned (text : Str) : Str := sub urlRe [' '] text

/-- the org/repo mentions -/
def mentions (u : Unicode) (text : Str) : List (Cursor × Cursor) := finditer (modelIdRe u) (cleaned text)

/-! ## Characters -/

theorem toNat_of_idChar {c : Char} (h : idChar c = true) : 45 ≤ c.toNat ∧ c.toNat ≤ 122 := by
  simp only [idChar, Bool.or_eq_true, decide_eq_true_eq] at h
  rcases h with ((h | rfl) | rfl) | rfl
  · have := Unicode.toNat_of_isAlphanum h
    omega
  · decide
  · decide
  · decide

/-- a fact about the characters of ids, checked on their codes -/
theorem idChar_forall {P : Char → Prop} (h : ∀ n, n < 128 → idChar (Char.ofNat n) = true → P (Char.ofNat n)) {c : Char}
    (hc : idChar c = true) : P c := by
  have hn := toNat_of_idChar hc
  exact Unicode.ascii_forall (P := fun c => idChar c = true → P c) h (by omega) hc

theorem idChar_of_alnum {c : Char} (h : alnum c = true) : idChar c = true := by
  simp only [alnum] at h
  simp [idChar, h]

theorem idChar_of_isSpace {c : Char} (h : isSpace c = true) : idChar c = false := by
  by_contra hid
  have hc := Unicode.toNat_of_isSpace h
  have hn := toNat_of_idChar (by simpa using hid)
  omega

theorem ne_slash_of_isSpace {c : Char} (h : isSpace c = true) : c ≠ '/' := by
  rintro rfl
  exact absurd h (by decide)

theorem isWord_of_alnum (u : Unicode) {c : Char} (h : alnum c = true) : u.isWord c = true := by
  simp only [alnum] at h
  rw [u.isWord_ascii c (by have := Unicode.toNat_of_isAlphanum h; omega), h]
  rfl

/-! ## URLs -/

/-- the text starts with a URL -/
def UrlHead (s : Str) : Prop :=
  ∃ o x rest, (o = [] ∨ o = ['s']) ∧ isSpace x = false ∧ s = "http".toList ++ (o ++ ("://".toList ++ x :: rest))

/-- no URL starts in the text -/
def NoUrl (s : Str) : Prop := ∀ a b, s = a ++ b → ¬UrlHead b

theorem mem_run_url {c e : Cursor} (h : e ∈ run urlRe c) :
    ∃ o x w, (o = [] ∨ o = ['s']) ∧ (∀ y ∈ x :: w, isSpace y = false) ∧
      Spans c ("http".toList ++ (o ++ ("://".toList ++ x :: w))) e := by
  obtain ⟨c₁, h₁, k₁⟩ := mem_run_seq.1 h
  obtain ⟨c₂, h₂, k₂⟩ := mem_run_seq.1 k₁
  obtain ⟨c₃, h₃, k₃⟩ := mem_run_seq.1 k₂
  obtain ⟨c₄, h₄, k₄⟩ := mem_run_seq.1 k₃
  obtain ⟨x, hx, hspan⟩ := mem_run_char.1 h₄
  obtain ⟨w, hw, hall⟩ := mem_run_star.1 k₄
  have hopt : ∃ o, (o = [] ∨ o = ['s']) ∧ Spans c₁ o c₂ := by
    rcases mem_run_opt.1 h₂ with h₂ | rfl
    · obtain ⟨y, hy, hs⟩ := mem_run_char.1 h₂
      obtain rfl : y = 's' := by simpa using hy
      exact ⟨['s'], Or.inr rfl, hs⟩
    · exact ⟨[], Or.inl rfl, Spans.refl _⟩
  obtain ⟨o, ho, hs⟩ := hopt
  refine ⟨o, x, w, ho, ?_, (mem_run_lit.1 h₁).trans (hs.trans ((mem_run_lit.1 h₃).trans (hspan.trans hw)))⟩
  intro y hy
  rcases List.mem_cons.1 hy with rfl | hy
  · simpa using hx
  · simpa using hall y hy

theorem run_url_ne_nil {c : Cursor} : run urlRe c ≠ [] ↔ UrlHead c.after := by
  refine ⟨fun h => ?_, ?_⟩
  · obtain ⟨e, he⟩ := List.exists_mem_of_ne_nil _ h
    obtain ⟨o, x, w, ho, hall, hspan⟩ := mem_run_url he
    refine ⟨o, x, w ++ e.after, ho, hall x (by simp), ?_⟩
    rw [hspan.1]
    simp
  · rintro ⟨o, x, rest, ho, hx, hc⟩
    obtain ⟨before, after⟩ := c
    obtain rfl : after = _ := hc
    refine List.ne_nil_of_mem (a := ⟨x :: (("http".toList ++ o ++ "://".toList).reverse ++ before), rest⟩) ?_
    have hopt : ∀ b a, ⟨o.reverse ++ b, a⟩ ∈ run (opt (.char (· = 's'))) ⟨b, o ++ a⟩ := by
      intro b a
      rcases ho with rfl | rfl
      · exact mem_run_opt.2 (Or.inr rfl)
      · exact mem_run_opt.2 (Or.inl (mem_run_char.2 ⟨'s', by simp, Spans.one b 's' a⟩))
    have hplus : ∀ b, ⟨x :: b, rest⟩ ∈ run (plus (.char fun c => !isSpace c)) ⟨b, x :: rest⟩ := by
      intro b
      refine mem_run_seq.2 ⟨⟨x :: b, rest⟩, mem_run_char.2 ⟨x, by simpa using hx, Spans.one b x rest⟩, ?_⟩
      exact mem_run_star.2 ⟨[], Spans.refl _, by simp⟩
    have hlit : ∀ w b a, ⟨w.reverse ++ b, a⟩ ∈ run (lit w) ⟨b, w ++ a⟩ := fun w b a => mem_run_lit.2 ⟨rfl, rfl⟩
    refine mem_run_seq.2 ⟨_, hlit _ _ _, mem_run_seq.2 ⟨_, hopt _ _, mem_run_seq.2 ⟨_, hlit _ _ _, ?_⟩⟩⟩
    simpa [concat] using hplus _

theorem noUrl_iff {s : Str} : NoUrl s ↔ search urlRe s = none := by
  rw [search_eq_none]
  refine forall₂_congr fun a b => imp_congr_right fun _ => ?_
  rw [← not_iff_not, not_not]
  exact (run_url_ne_nil (c := ⟨a.reverse, b⟩)).symm

theorem urlRe_consumes : Consumes urlRe := by
  intro c e h
  obtain ⟨o, x, w, -, -, hspan⟩ := mem_run_url h
  rw [hspan.1]
  simp only [List.length_append, List.length_cons]
  omega

/-- a URL holds no white space -/
theorem url_no_space {x : Char} (hx : isSpace x = true) {c e : Cursor} {w : Str} (h : e ∈ run urlRe c) (hw : Spans c w e) :
    x ∉ w := by
  obtain ⟨o, y, v, ho, hall, hspan⟩ := mem_run_url h
  have hw' : w = "http".toList ++ (o ++ ("://".toList ++ y :: v)) := by rw [← hw.upto, hspan.upto]
  have hprefix : ∀ z ∈ "http".toList ++ o ++ "://".toList, isSpace z = false := by
    rcases ho with rfl | rfl <;> simp [isSpace]
  have hfree : ∀ z ∈ w, isSpace z = false := by
    intro z hz
    rw [hw', ← List.append_assoc, ← List.append_assoc, List.mem_append] at hz
    rcases hz with hz | hz
    · exact hprefix z hz
    · exact hall z hz
  intro hmem
  rw [hfree x hmem] at hx
  cases hx

/-! ## Cleaning -/

/-- empty, or ends in white space -/
def EndsBlank (s : Str) : Prop := ∀ x ∈ s.getLast?, isSpace x = true

/-- empty, or starts with white space -/
def StartsBlank (s : Str) : Prop := ∀ x ∈ s.head?, isSpace x = true

theorem cleaned_of_noUrl {s : Str} (h : NoUrl s) : cleaned s = s := by
  simp only [noUrl_iff, search] at h
  simp [cleaned, sub, replaceFrom, h]

/-- no URL starts in a URL-free text that a blank follows -/
theorem noStart_url {before X S : Str} (hX : NoUrl X) (hS : StartsBlank S) : NoStart urlRe before X S := by
  intro a₁ a₂ ha hne
  rw [matchAt_eq_none]
  by_contra hrun
  obtain ⟨o, x, rest, ho, hx, htext⟩ := run_url_ne_nil.1 hrun
  -- the URL up to its first character after the slashes has no blank, so it lies in X
  have hfree : ∀ y ∈ "http".toList ++ (o ++ ("://".toList ++ [x])), isSpace y = false := by
    rcases ho with rfl | rfl
    · simpa [hx] using by decide
    · simpa [hx] using by decide
  have hsplit : a₂ ++ S = ("http".toList ++ (o ++ ("://".toList ++ [x]))) ++ rest := by
    simpa using htext
  have hin : ∀ y ∈ "http".toList ++ (o ++ ("://".toList ++ [x])), (!isSpace y) = true := by
    intro y hy
    rw [hfree y hy]
    rfl
  have hblank : ∀ y ∈ S.head?, (!isSpace y) = false := by
    intro y hy
    rw [hS y hy]
    rfl
  obtain ⟨v, hv, -⟩ := within_stretch hsplit hin hblank
  exact hX a₁ a₂ ha ⟨o, x, v, ho, hx, by simpa using hv⟩

/-- a scan with a pattern that reads no white space gets to the end of a text that ends in a blank -/
theorem scan_after_blank {r : Regex} (hr : Consumes r)
    (hspace : ∀ {x}, isSpace x = true → ∀ {s e w}, e ∈ run r s → Spans s w e → x ∉ w) {P t : Str} {evs : List Event}
    (hP : EndsBlank P) (h : Scan r ⟨[], P ++ t⟩ evs) :
    ∃ evs₁ evs₂, evs = evs₁ ++ evs₂ ∧ (∀ f, EndsBlank (replaced f evs₁)) ∧ Scan r ⟨P.reverse, t⟩ evs₂ := by
  rcases List.eq_nil_or_concat P with rfl | ⟨A, x, rfl⟩
  · exact ⟨[], evs, rfl, fun _ => by simp [EndsBlank], h⟩
  · have hx : isSpace x = true := hP x (by simp)
    obtain ⟨evs₁, evs₂, rfl, -, h₂⟩ := h.through hr (fun _ _ _ => hspace hx) (a := A) (b := t) (by simp)
    refine ⟨evs₁ ++ [.inl x], evs₂, by simp, fun f => ?_, by simpa using h₂⟩
    simpa [EndsBlank] using hx

/-- **A text without a URL, between blanks, stays as it is.** -/
theorem cleaned_around {P X S : Str} (hP : EndsBlank P) (hX : NoUrl X) (hS : StartsBlank S) :
    ∃ P' S', EndsBlank P' ∧ StartsBlank S' ∧ cleaned (P ++ (X ++ S)) = P' ++ (X ++ S') := by
  obtain ⟨evs, hscan, -, hsub, -⟩ := exists_scan urlRe_consumes (P ++ (X ++ S))
  obtain ⟨evs₁, evs₂, rfl, hblank, h₂⟩ := scan_after_blank urlRe_consumes url_no_space hP hscan
  obtain ⟨evs₃, rfl, h₃⟩ := h₂.pass_inv (noStart_url hX hS)
  refine ⟨replaced (fun _ => [' ']) evs₁, replaced (fun _ => [' ']) evs₃, hblank _, ?_, by simp [cleaned, hsub]⟩
  cases S with
  | nil =>
    cases h₃ with
    | done => simp [StartsBlank]
    | hit hm _ => exact absurd (urlRe_consumes _ _ (List.mem_of_head? hm)) (by simp)
  | cons x S =>
    have hx : isSpace x = true := hS x rfl
    obtain ⟨evs₄, evs₅, rfl, hnil, -⟩ :=
      h₃.through urlRe_consumes (fun _ _ _ => url_no_space hx) (a := []) (b := S) rfl
    rw [hnil rfl]
    simpa [StartsBlank] using hx

/-! ## Mentions -/

/-- `\b` at a cursor -/
def atBoundary (u : Unicode) (c : Cursor) : Bool := c.before.head?.any u.isWord != c.after.head?.any u.isWord

theorem boundary_eq (u : Unicode) : boundary u.isWord = .assert (atBoundary u) := rfl

/-- one side of a mention: id characters, a letter or digit first -/
structure IdSide (s : Str) : Prop where
  chars : ∀ c ∈ s, idChar c = true
  first : ∃ c t, s = c :: t ∧ alnum c = true

theorem IdSide.ne_nil {s : Str} (h : IdSide s) : s ≠ [] := by
  obtain ⟨c, t, rfl, -⟩ := h.first
  simp

theorem IdSide.not_slash {s : Str} (h : IdSide s) : '/' ∉ s := fun hmem => absurd (h.chars _ hmem) (by decide)

/-- **What a mention looks like**: an org, a slash and a repo, between word boundaries. -/
theorem mem_run_modelId {u : Unicode} {s e : Cursor} : e ∈ run (modelIdRe u) s ↔
    ∃ org repo, IdSide org ∧ IdSide repo ∧ Spans s (org ++ '/' :: repo) e ∧ atBoundary u s = true ∧ atBoundary u e = true := by
  refine ⟨fun h => ?_, fun h => ?_⟩
  · obtain ⟨c₀, h₀, k₀⟩ := mem_run_seq.1 h
    obtain ⟨c₁, h₁, k₁⟩ := mem_run_seq.1 k₀
    obtain ⟨c₂, h₂, k₂⟩ := mem_run_seq.1 k₁
    obtain ⟨c₃, h₃, k₃⟩ := mem_run_seq.1 k₂
    obtain ⟨c₄, h₄, k₄⟩ := mem_run_seq.1 k₃
    obtain ⟨c₅, h₅, k₅⟩ := mem_run_seq.1 k₄
    obtain ⟨hs, rfl⟩ := mem_run_assert.1 h₀
    obtain ⟨he, rfl⟩ := mem_run_assert.1 k₅
    obtain ⟨a, ha, s₁⟩ := mem_run_char.1 h₁
    obtain ⟨v, hv, hpv⟩ := mem_run_star.1 h₂
    obtain ⟨x, hx, s₃⟩ := mem_run_char.1 h₃
    obtain ⟨b, hb, s₄⟩ := mem_run_char.1 h₄
    obtain ⟨w, hw, hpw⟩ := mem_run_star.1 h₅
    obtain rfl : x = '/' := by simpa using hx
    refine ⟨a :: v, b :: w, ⟨?_, a, v, rfl, ha⟩, ⟨?_, b, w, rfl, hb⟩, ?_, hs, he⟩
    · simpa [idChar_of_alnum ha] using hpv
    · simpa [idChar_of_alnum hb] using hpw
    · simpa using s₁.trans (hv.trans (s₃.trans (s₄.trans hw)))
  · obtain ⟨org, repo, horg, hrepo, hspan, hs, he⟩ := h
    obtain ⟨a, v, rfl, ha⟩ := horg.first
    obtain ⟨b, w, rfl, hb⟩ := hrepo.first
    obtain ⟨before, after⟩ := s
    obtain ⟨before', rest⟩ := e
    obtain rfl : after = (a :: v ++ '/' :: b :: w) ++ rest := hspan.1
    obtain rfl : before' = (a :: v ++ '/' :: b :: w).reverse ++ before := hspan.2
    -- the parts of the pattern, one after the other
    refine mem_run_seq.2 ⟨_, mem_run_assert.2 ⟨hs, rfl⟩, ?_⟩
    refine mem_run_seq.2 ⟨_, mem_run_char.2 ⟨a, ha, Spans.one before a (v ++ '/' :: b :: w ++ rest)⟩, ?_⟩
    refine mem_run_seq.2 ⟨⟨v.reverse ++ a :: before, '/' :: b :: w ++ rest⟩, mem_run_star.2 ⟨v, ⟨?_, rfl⟩, ?_⟩, ?_⟩
    · simp
    · exact fun x hx => horg.chars x (by simp [hx])
    refine mem_run_seq.2 ⟨_, mem_run_char.2 ⟨'/', by simp, Spans.one _ '/' (b :: w ++ rest)⟩, ?_⟩
    refine mem_run_seq.2 ⟨_, mem_run_char.2 ⟨b, hb, Spans.one _ b (w ++ rest)⟩, ?_⟩
    refine mem_run_seq.2 ⟨_, mem_run_star.2 ⟨w, ⟨rfl, ?_⟩, ?_⟩, mem_run_assert.2 ⟨he, rfl⟩⟩
    · simp
    · exact fun x hx => hrepo.chars x (by simp [hx])

theorem modelIdRe_consumes (u : Unicode) : Consumes (modelIdRe u) := by
  intro c e h
  obtain ⟨org, repo, -, -, hspan, -⟩ := mem_run_modelId.1 h
  rw [hspan.1]
  simp only [List.length_append, List.length_cons]
  omega

/-- every mention has that shape, and lies in the cleaned text -/
theorem mentions_spec {u : Unicode} {text : Str} {m : Cursor × Cursor} (h : m ∈ mentions u text) :
    m.1.text = cleaned text ∧ ∃ org repo, IdSide org ∧ IdSide repo ∧ Spans m.1 (org ++ '/' :: repo) m.2 := by
  obtain ⟨hat, htext⟩ := finditer_spec (modelIdRe_consumes u) h
  obtain ⟨org, repo, horg, hrepo, hspan, -⟩ := mem_run_modelId.1 (List.mem_of_head? hat)
  exact ⟨htext, org, repo, horg, hrepo, hspan⟩

/-- two mentions that start at one offset are one -/
theorem mention_ext {u : Unicode} {text : Str} {m n : Cursor × Cursor} (hm : m ∈ mentions u text) (hn : n ∈ mentions u text)
    (h : m.1.offset = n.1.offset) : m = n := by
  obtain ⟨hat, htext⟩ := finditer_spec (modelIdRe_consumes u) hm
  obtain ⟨hat', htext'⟩ := finditer_spec (modelIdRe_consumes u) hn
  have hsplit := htext.trans htext'.symm
  obtain ⟨hb, ha⟩ := List.append_inj hsplit (by simpa [Cursor.offset] using h)
  have hstart : m.1 = n.1 := by
    obtain ⟨⟨before, after⟩, e⟩ := m
    obtain ⟨⟨before', after'⟩, e'⟩ := n
    obtain rfl := List.reverse_injective hb
    obtain rfl := ha
    rfl
  rw [hstart, hat'] at hat
  exact Prod.ext hstart (Option.some.inj hat).symm

/-- a mention holds no white space -/
theorem mention_no_space {u : Unicode} {x : Char} (hx : isSpace x = true) {c e : Cursor} {w : Str}
    (h : e ∈ run (modelIdRe u) c) (hw : Spans c w e) : x ∉ w := by
  obtain ⟨org, repo, horg, hrepo, hspan, -⟩ := mem_run_modelId.1 h
  obtain rfl : w = org ++ '/' :: repo := by rw [← hw.upto, hspan.upto]
  have hid := idChar_of_isSpace hx
  simp only [List.mem_append, List.mem_cons, not_or]
  refine ⟨fun hmem => ?_, ne_slash_of_isSpace hx, fun hmem => ?_⟩
  · rw [horg.chars x hmem] at hid
    cases hid
  · rw [hrepo.chars x hmem] at hid
    cases hid

/-- **The mention read at a position**: org and slash, and of the run of id characters after it as much as ends at a word
boundary. -/
theorem matchAt_mention {u : Unicode} {org repo before v z : Str} (horg : IdSide org) (hrepo : IdSide repo)
    (hv : ∀ x ∈ v, idChar x = true) (hz : ∀ x ∈ z.head?, idChar x = false)
    (hstart : atBoundary u ⟨before, (org ++ '/' :: repo) ++ (v ++ z)⟩ = true)
    (hend : atBoundary u ⟨(org ++ '/' :: repo).reverse ++ before, v ++ z⟩ = true)
    (hlater : ∀ a x b, v = a ++ x :: b →
      atBoundary u ⟨x :: (a.reverse ++ ((org ++ '/' :: repo).reverse ++ before)), b ++ z⟩ = false) :
    matchAt (modelIdRe u) ⟨before, (org ++ '/' :: repo) ++ (v ++ z)⟩ =
      some ⟨(org ++ '/' :: repo).reverse ++ before, v ++ z⟩ := by
  obtain ⟨a, o, rfl, ha⟩ := horg.first
  obtain ⟨b, t, rfl, hb⟩ := hrepo.first
  have hbefore : (a :: o ++ '/' :: b :: t).reverse ++ before = t.reverse ++ b :: '/' :: (o.reverse ++ a :: before) := by simp
  rw [hbefore] at hend hlater ⊢
  -- the run after the slash gives back what comes after the last boundary
  have hrepoRun : matchAt (.seq (.star (.char idChar)) (.assert (atBoundary u)))
      ⟨b :: '/' :: (o.reverse ++ a :: before), t ++ (v ++ z)⟩ =
      some ⟨t.reverse ++ b :: '/' :: (o.reverse ++ a :: before), v ++ z⟩ := by
    refine matchAt_star_seq (fun x hx => hrepo.chars x (by simp [hx])) hv hz (fun a' x b' h => ?_) ?_
    · exact run_of_not_assert (hlater a' x b' h)
    · rw [matchAt, run_of_assert hend]
      rfl
  -- the run before the slash ends at it
  have horgRun : matchAt (.seq (.star (.char idChar)) (concat [.char (· = '/'), .char alnum, .star (.char idChar),
      boundary u.isWord])) ⟨a :: before, o ++ ([] ++ '/' :: b :: (t ++ (v ++ z)))⟩ =
      some ⟨t.reverse ++ b :: '/' :: (o.reverse ++ a :: before), v ++ z⟩ := by
    refine matchAt_star_seq (fun x hx => horg.chars x (by simp [hx])) (by simp) (by simp; decide) (by simp) ?_
    rw [List.nil_append, concat_cons, matchAt_seq_char (by simp), concat_cons, matchAt_seq_char hb]
    exact hrepoRun
  have hsplit : (a :: o ++ '/' :: b :: t) ++ (v ++ z) = a :: (o ++ ([] ++ '/' :: b :: (t ++ (v ++ z)))) := by simp
  rw [hsplit] at hstart ⊢
  rw [modelIdRe, concat_cons, boundary_eq, matchAt_seq_assert hstart, concat_cons, matchAt_seq_char ha]
  exact horgRun

/-- one side of a model id: id characters, a letter or digit at either end -/
structure IdPart (s : Str) : Prop where
  chars : ∀ c ∈ s, idChar c = true
  first : ∃ c t, s = c :: t ∧ alnum c = true
  last : ∃ t c, s = t ++ [c] ∧ alnum c = true

theorem IdPart.side {s : Str} (h : IdPart s) : IdSide s := ⟨h.chars, h.first⟩

/-- **A full id is matched exactly.** After a non-word character, and before full stops that no word or id character
follows, the match is the id: the full stops are given back to the word boundary. -/
theorem matchAt_id {u : Unicode} {org repo before v z : Str} (horg : IdPart org) (hrepo : IdPart repo)
    (hbefore : ∀ x ∈ before.head?, u.isWord x = false) (hv : ∀ x ∈ v, x = '.')
    (hz : ∀ x ∈ z.head?, idChar x = false ∧ u.isWord x = false) :
    matchAt (modelIdRe u) ⟨before, (org ++ '/' :: repo) ++ (v ++ z)⟩ =
      some ⟨(org ++ '/' :: repo).reverse ++ before, v ++ z⟩ := by
  have hdot : u.isWord '.' = false := by rw [u.isWord_ascii _ (by decide)]; decide
  -- nothing from the end of the id on is a word character, up to where the run of id characters stops
  have hnext : ∀ v', (∀ x ∈ v', x = '.') → (v' ++ z).head?.any u.isWord = false := by
    intro v' hv'
    cases v' with
    | nil =>
      cases z with
      | nil => rfl
      | cons x z => exact (hz x rfl).2
    | cons x v' =>
      obtain rfl := hv' x (by simp)
      exact hdot
  refine matchAt_mention horg.side hrepo.side (fun x hx => by rw [hv x hx]; rfl) (fun x hx => (hz x hx).1) ?_ ?_ ?_
  · obtain ⟨a, o, rfl, ha⟩ := horg.first
    have hb : before.head?.any u.isWord = false := by
      cases before with
      | nil => rfl
      | cons x before => exact hbefore x rfl
    simp [atBoundary, hb, isWord_of_alnum u ha]
  · obtain ⟨t, c, rfl, hc⟩ := hrepo.last
    rw [atBoundary, hnext v hv]
    simp [isWord_of_alnum u hc]
  · intro a x b hab
    obtain rfl := hv x (by simp [hab])
    rw [atBoundary, hnext b fun y hy => hv y (by simp [hab, hy])]
    simp [hdot]

/-! ## Bare names -/

/-- r stands in T between a and b where the bare pattern accepts it -/
structure BareAt (r T a b : Str) : Prop where
  split : T = a ++ (r ++ b)
  left : ∀ x ∈ a.getLast?, idChar x = false ∧ x ≠ '/'
  right : ∀ x ∈ b.head?, idChar x = false

theorem mem_run_bare {r : Str} {c e : Cursor} : e ∈ run (bareRe r) c ↔
    (∀ x ∈ c.before.head?, idChar x = false ∧ x ≠ '/') ∧ Spans c r e ∧ ∀ x ∈ e.after.head?, idChar x = false := by
  have hleft : (!(c.before.head?.any fun x => idChar x || decide (x = '/'))) = true ↔
      ∀ x ∈ c.before.head?, idChar x = false ∧ x ≠ '/' := by
    cases c.before.head? <;> simp
  have hright : (!(e.after.head?.any idChar)) = true ↔ ∀ x ∈ e.after.head?, idChar x = false := by
    cases e.after.head? <;> simp
  rw [bareRe, concat_cons, concat_cons, mem_run_seq, notAfter, notBefore]
  refine ⟨?_, ?_⟩
  · rintro ⟨c₁, h₁, k₁⟩
    obtain ⟨hl, rfl⟩ := mem_run_assert.1 h₁
    obtain ⟨c₂, h₂, k₂⟩ := mem_run_seq.1 k₁
    obtain ⟨hr, rfl⟩ := mem_run_assert.1 k₂
    exact ⟨hleft.1 hl, mem_run_lit.1 h₂, hright.1 hr⟩
  · rintro ⟨hl, hs, hr⟩
    exact ⟨c, mem_run_assert.2 ⟨hleft.2 hl, rfl⟩, mem_run_seq.2 ⟨e, mem_run_lit.2 hs, mem_run_assert.2 ⟨hright.2 hr, rfl⟩⟩⟩

theorem run_bare_ne_nil {r a t : Str} : run (bareRe r) ⟨a.reverse, t⟩ ≠ [] ↔ ∃ b, BareAt r (a ++ t) a b := by
  refine ⟨fun h => ?_, ?_⟩
  · obtain ⟨e, he⟩ := List.exists_mem_of_ne_nil _ h
    obtain ⟨hl, hs, hr⟩ := mem_run_bare.1 he
    exact ⟨e.after, by rw [← hs.1], by simpa using hl, hr⟩
  · rintro ⟨b, hsplit, hl, hr⟩
    obtain rfl := List.append_cancel_left hsplit
    exact List.ne_nil_of_mem (mem_run_bare.2 ⟨by simpa using hl, Spans.mk_iff.2 rfl, hr⟩)

/-- where the search for a gold id's repo name finds it -/
def bareOffset (u : Unicode) (folded goldId : Str) : Option ℕ :=
  (search (bareRe (u.fold (repoName goldId))) folded).map fun found => found.1.offset

theorem bareOffset_eq_none {u : Unicode} {folded g : Str} :
    bareOffset u folded g = none ↔ ∀ a b, ¬BareAt (u.fold (repoName g)) folded a b := by
  rw [bareOffset, Option.map_eq_none_iff, search_eq_none]
  refine ⟨fun h a b hat => ?_, fun h a t ht => ?_⟩
  · refine run_bare_ne_nil.2 ⟨b, ?_⟩ (h a _ hat.split)
    exact ⟨rfl, hat.left, hat.right⟩
  · by_contra hrun
    obtain ⟨b, hat⟩ := run_bare_ne_nil.1 hrun
    exact h a b (ht ▸ hat)

/-- **The first bare place is the one found.** -/
theorem bareOffset_eq_some {u : Unicode} {folded g : Str} {i : ℕ} (h : bareOffset u folded g = some i) :
    (∃ a b, BareAt (u.fold (repoName g)) folded a b ∧ a.length = i) ∧
      ∀ a b, BareAt (u.fold (repoName g)) folded a b → i ≤ a.length := by
  obtain ⟨m, hm, rfl⟩ := Option.map_eq_some_iff.1 h
  obtain ⟨htext, hat, hmin⟩ := search_eq_some hm
  refine ⟨?_, fun a b hab => hmin a _ hab.split (run_bare_ne_nil.2 ⟨b, ⟨rfl, hab.left, hab.right⟩⟩)⟩
  have hrun : run (bareRe (u.fold (repoName g))) ⟨m.1.before.reverse.reverse, m.1.after⟩ ≠ [] := by
    rw [List.reverse_reverse]
    exact List.ne_nil_of_mem (List.mem_of_head? hat)
  obtain ⟨b, hb⟩ := run_bare_ne_nil.1 hrun
  exact ⟨m.1.before.reverse, b, htext ▸ hb, by simp [Cursor.offset]⟩

theorem bareOffset_isSome {u : Unicode} {folded g : Str} :
    (bareOffset u folded g).isSome ↔ ∃ a b, BareAt (u.fold (repoName g)) folded a b := by
  rw [← not_iff_not, Option.not_isSome_iff_eq_none, bareOffset_eq_none]
  push Not
  rfl

/-! ## Entries -/

/-- the mention counts, with key k -/
def names (u : Unicode) (catalog : List Str) (k : Str) (m : Cursor × Cursor) : Bool :=
  norm u (candidate m) = k && (decide (k ∈ catalog) || plausibleId (splitSlash (candidate m)).1 (splitSlash (candidate m)).2)

/-- the entry of the first mention that counts -/
def firstNamed (u : Unicode) (catalog : List Str) (ms : List (Cursor × Cursor)) (k : Str) : Option (ℕ × Str) :=
  (ms.find? (names u catalog k)).map fun m => (m.1.offset, candidate m)

/-- the entry that stays: the second one if it is strictly earlier -/
def earlier : Option (ℕ × Str) → Option (ℕ × Str) → Option (ℕ × Str)
  | none, b => b
  | some e, none => some e
  | some e, some b => if b.1 < e.1 then some b else some e

@[simp] theorem earlier_none (e : Option (ℕ × Str)) : earlier e none = e := by cases e <;> rfl

theorem earlier_of_lt {a : Option (ℕ × Str)} {x : ℕ × Str} (h : ∀ v ∈ a, x.1 < v.1) : earlier a (some x) = some x := by
  cases a with
  | none => rfl
  | some v => exact if_pos (h v rfl)

/-- one of the two stays -/
theorem earlier_eq_or (a b : Option (ℕ × Str)) : earlier a b = a ∨ earlier a b = b := by
  cases a with
  | none => exact Or.inr rfl
  | some e =>
    cases b with
    | none => exact Or.inl rfl
    | some b =>
      rw [earlier]
      split_ifs
      · exact Or.inr rfl
      · exact Or.inl rfl

theorem names_iff {u : Unicode} {catalog : List Str} {k : Str} {m : Cursor × Cursor} : names u catalog k m = true ↔
    norm u (candidate m) = k ∧
      (k ∈ catalog ∨ plausibleId (splitSlash (candidate m)).1 (splitSlash (candidate m)).2 = true) := by
  simp [names]

theorem get?_addMention (u : Unicode) (catalog : List Str) (d : Entries) (m : Cursor × Cursor) (k : Str) :
    (addMention u catalog d m).get? k =
      (d.get? k).or (if names u catalog k m then some (m.1.offset, candidate m) else none) := by
  by_cases hn : names u catalog k m = true
  · obtain ⟨rfl, hcount⟩ := names_iff.1 hn
    rw [if_pos hn]
    unfold addMention
    dsimp only
    split_ifs with hc hd
    · -- a mention that counts is not left out
      rcases hcount with h | h
      · exact absurd h hc.1
      · exact absurd h (by simpa using hc.2)
    · obtain ⟨v, hv⟩ := Option.isSome_iff_exists.1 (Dict.get?_isSome.2 hd)
      simp [hv]
    · simp [Dict.get?_set, Dict.get?_eq_none.2 hd]
  · rw [if_neg hn, Option.or_none]
    unfold addMention
    dsimp only
    split_ifs with hc hd
    · rfl
    · rfl
    · have hne : k ≠ norm u (candidate m) := by
        rintro rfl
        refine hn (names_iff.2 ⟨rfl, ?_⟩)
        simpa [or_iff_not_imp_left] using hc
      simp [Dict.get?_set, hne]

/-- the loop over the mentions keeps the first one that counts -/
theorem get?_foldl_addMention (u : Unicode) (catalog : List Str) (ms : List (Cursor × Cursor)) (d : Entries) (k : Str) :
    (ms.foldl (addMention u catalog) d).get? k = (d.get? k).or (firstNamed u catalog ms k) := by
  induction ms generalizing d with
  | nil => simp [firstNamed]
  | cons m ms ih =>
    rw [List.foldl_cons, ih, get?_addMention, Option.or_assoc]
    by_cases hn : names u catalog k m = true
    · simp [firstNamed, hn]
    · simp [firstNamed, hn]

theorem get?_addGold (u : Unicode) (folded : Str) (d : Entries) (g k : Str) :
    (addGold u folded d g).get? k =
      if norm u g = k then earlier (d.get? k) ((bareOffset u folded g).map fun i => (i, g)) else d.get? k := by
  unfold addGold bareOffset
  cases hs : search (bareRe (u.fold (repoName g))) folded with
  | none => simp
  | some found =>
    dsimp only
    by_cases hk : norm u g = k
    · subst hk
      cases hd : d.get? (norm u g) with
      | none => simp [earlier, Dict.get?_set]
      | some e => by_cases hlt : found.1.offset < e.1 <;> simp [earlier, Dict.get?_set, hd, hlt]
    · cases hd : d.get? (norm u g) with
      | none => simp [Dict.get?_set, hk, Ne.symm hk]
      | some e => by_cases hlt : found.1.offset < e.1 <;> simp [Dict.get?_set, hlt, hk, Ne.symm hk]

/-- the loop over the gold ids moves an entry to an earlier bare place -/
theorem get?_foldl_addGold (u : Unicode) (folded : Str) (gold : List Str) (d : Entries) (k : Str) :
    (gold.foldl (addGold u folded) d).get? k =
      ((gold.filter fun g => norm u g = k).map fun g => (bareOffset u folded g).map fun i => (i, g)).foldl earlier (d.get? k) := by
  induction gold generalizing d with
  | nil => rfl
  | cons g gold ih =>
    rw [List.foldl_cons, ih, get?_addGold]
    by_cases hk : norm u g = k
    · simp [hk]
    · simp [hk]

/-- **An entry is the first mention that counts, or an earlier bare place of a gold id.** -/
theorem get?_entries (u : Unicode) (catalogIds : List Str) (text : Str) (gold : List Str) (k : Str) :
    (entries u catalogIds text gold).get? k =
      ((gold.filter fun g => norm u g = k).map fun g => (bareOffset u (u.fold (cleaned text)) g).map fun i => (i, g)).foldl
        earlier (firstNamed u (catalogKeys u catalogIds) (mentions u text) k) := by
  have hentries : entries u catalogIds text gold = gold.foldl (addGold u (u.fold (cleaned text)))
      ((mentions u text).foldl (addMention u (catalogKeys u catalogIds)) Dict.empty) := rfl
  rw [hentries, get?_foldl_addGold, get?_foldl_addMention, Dict.get?_empty, Option.none_or]

theorem earlier_isSome {a b : Option (ℕ × Str)} : (earlier a b).isSome ↔ a.isSome ∨ b.isSome := by
  cases a with
  | none => simp [earlier]
  | some e =>
    cases b with
    | none => simp
    | some b => by_cases h : b.1 < e.1 <;> simp [earlier, h]

theorem foldl_earlier_isSome {bs : List (Option (ℕ × Str))} {a : Option (ℕ × Str)} :
    (bs.foldl earlier a).isSome ↔ a.isSome ∨ ∃ b ∈ bs, b.isSome := by
  induction bs generalizing a with
  | nil => simp
  | cons b bs ih =>
    rw [List.foldl_cons, ih, earlier_isSome, or_assoc]
    simp

/-- **Which keys have an entry.** -/
theorem mem_keys_entries {u : Unicode} {catalogIds : List Str} {text : Str} {gold : List Str} {k : Str} :
    k ∈ (entries u catalogIds text gold).keys ↔
      (∃ m ∈ mentions u text, names u (catalogKeys u catalogIds) k m = true) ∨
        ∃ g ∈ gold, norm u g = k ∧ ∃ a b, BareAt (u.fold (repoName g)) (u.fold (cleaned text)) a b := by
  rw [← Dict.get?_isSome, get?_entries, foldl_earlier_isSome]
  refine or_congr ?_ ?_
  · simp [firstNamed, List.find?_isSome]
  · simp only [List.mem_map, List.mem_filter, decide_eq_true_eq]
    refine ⟨?_, ?_⟩
    · rintro ⟨b, ⟨g, ⟨hg, hk⟩, rfl⟩, hb⟩
      rw [Option.isSome_map, bareOffset_isSome] at hb
      exact ⟨g, hg, hk, hb⟩
    · rintro ⟨g, hg, hk, hb⟩
      refine ⟨_, ⟨g, ⟨hg, hk⟩, rfl⟩, ?_⟩
      rwa [Option.isSome_map, bareOffset_isSome]

/-- **A gold id is credited iff its key has an entry**: gold keys are no umbrellas. -/
theorem credited_iff {u : Unicode} {catalogIds : List Str} {text : Str} {gold : List Str} {k : Str}
    (hk : k ∈ goldKeys u gold) :
    (∃ p ∈ extractPredictions u catalogIds text gold, norm u p = k) ↔ k ∈ (entries u catalogIds text gold).keys := by
  have hkeyed : Keyed u (dropUmbrellas u gold (entries u catalogIds text gold)) :=
    dropUmbrellas_keyed (entries_keyed u catalogIds text gold)
  have hperm := map_norm_ranked hkeyed
  rw [← List.mem_map (f := norm u), extractPredictions, hperm.mem_iff, keys_dropUmbrellas, List.mem_filter]
  simp [isUmbrella, hk]

end AgentPick.Mentions
