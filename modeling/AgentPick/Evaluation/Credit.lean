/-
Which gold models an answer is credited for (`evaluation/metrics.py`, `extract_predictions`).

Results:
- `full_id_credited`: a gold id of the catalog written out between blanks, with sentence punctuation after it, is credited.
- `bare_name_credited_iff`: one named by its bare repo name between blanks is, iff no URL starts in the name and the punctuation
  after it, and that does not start with a full stop (or is the name again).
- `bare_name_full_stop`: so a bare name that ends a sentence is not.
-/
import Mathlib.Tactic
import AgentPick.Evaluation.Mentions

namespace AgentPick.Credit

open AgentPick.Text AgentPick.Regex AgentPick.Extract AgentPick.Mentions

/-- `. , ; : ! ?` -/
def isPunct (c : Char) : Bool := c ∈ ['.', ',', ';', ':', '!', '?']

/-- some prediction has the normalised id of g -/
def Credited (u : Unicode) (catalogIds : List Str) (text : Str) (gold : List Str) (g : Str) : Prop :=
  ∃ p ∈ extractPredictions u catalogIds text gold, norm u p = norm u g

/-! ## Punctuation -/

theorem isPunct_cases {c : Char} (h : isPunct c = true) : c = '.' ∨ c = ',' ∨ c = ';' ∨ c = ':' ∨ c = '!' ∨ c = '?' := by
  simpa [isPunct] using h

theorem toNat_of_isPunct {c : Char} (h : isPunct c = true) : c.toNat < 64 ∧ c ≠ '/' := by
  rcases isPunct_cases h with rfl | rfl | rfl | rfl | rfl | rfl <;> decide

theorem isWord_of_isPunct (u : Unicode) {c : Char} (h : isPunct c = true) : u.isWord c = false := by
  rw [u.isWord_ascii c (by have := (toNat_of_isPunct h).1; omega)]
  rcases isPunct_cases h with rfl | rfl | rfl | rfl | rfl | rfl <;> decide

/-- full stops first, then nothing that belongs to an id or a word -/
theorem punct_split {u : Unicode} (hu : u.PlainSpaces) {Q S : Str} (hQ : ∀ c ∈ Q, isPunct c = true) (hS : StartsBlank S) :
    ∃ v rest, Q ++ S = v ++ rest ∧ (∀ x ∈ v, x = '.') ∧ ∀ x ∈ rest.head?, idChar x = false ∧ u.isWord x = false := by
  induction Q with
  | nil =>
    refine ⟨[], S, rfl, by simp, fun x hx => ?_⟩
    have hblank := hS x hx
    exact ⟨idChar_of_isSpace hblank, hu.isWord_space x hblank⟩
  | cons c Q ih =>
    by_cases hc : c = '.'
    · obtain ⟨v, rest, hsplit, hv, hrest⟩ := ih fun x hx => hQ x (by simp [hx])
      exact ⟨c :: v, rest, by rw [List.cons_append, hsplit]; rfl, by simpa [hc] using hv, hrest⟩
    · have hp := hQ c (by simp)
      refine ⟨[], c :: Q ++ S, rfl, by simp, ?_⟩
      intro x hx
      obtain rfl : c = x := by simpa using hx
      refine ⟨?_, isWord_of_isPunct u hp⟩
      rcases isPunct_cases hp with rfl | rfl | rfl | rfl | rfl | rfl
      · exact absurd rfl hc
      all_goals decide

/-- a colon before a slash is needed for a URL -/
theorem noUrl_append {g Q : Str} (hg : ':' ∉ g) (hQ : '/' ∉ Q) : NoUrl (g ++ Q) := by
  rintro a b hab ⟨o, x, rest, ho, -, rfl⟩
  have hsplit : g ++ Q = (a ++ ("http".toList ++ o)) ++ ':' :: '/' :: '/' :: x :: rest := by simpa using hab
  rcases List.append_eq_append_iff.1 hsplit with ⟨v, -, rfl⟩ | ⟨v, rfl, hv⟩
  · exact hQ (by simp)
  · cases v with
    | nil => exact hQ (by simp at hv; simp [← hv])
    | cons y v =>
      obtain ⟨rfl, -⟩ := List.cons.inj (show ':' :: _ = y :: (v ++ Q) from hv)
      exact hg (by simp)

/-! ## Full ids -/

theorem colon_notMem_of_idPart {s : Str} (h : IdPart s) : ':' ∉ s := fun hmem => absurd (h.chars _ hmem) (by decide)

/-- an id after a blank, up to full stops that no word or id character follows, is a match, and its text is the id -/
theorem exists_match {u : Unicode} (hu : u.PlainSpaces) {org repo P v rest : Str} (horg : IdPart org) (hrepo : IdPart repo)
    (hP : EndsBlank P) (hv : ∀ x ∈ v, x = '.') (hrest : ∀ x ∈ rest.head?, idChar x = false ∧ u.isWord x = false) :
    ∃ m ∈ finditer (modelIdRe u) (P ++ ((org ++ '/' :: repo) ++ (v ++ rest))), candidate m = org ++ '/' :: repo := by
  -- the scan gets to the id and reads it
  obtain ⟨evs, hscan, hfind, -⟩ := exists_scan (modelIdRe_consumes u) (P ++ ((org ++ '/' :: repo) ++ (v ++ rest)))
  obtain ⟨evs₁, evs₂, rfl, -, h₂⟩ := scan_after_blank (modelIdRe_consumes u) mention_no_space hP hscan
  have hbefore : ∀ x ∈ P.reverse.head?, u.isWord x = false := by
    intro x hx
    exact hu.isWord_space x (hP x (by simpa using hx))
  obtain ⟨evs₃, rfl, -⟩ := h₂.hit_inv (modelIdRe_consumes u) (matchAt_id horg hrepo hbefore hv hrest)
  refine ⟨(⟨P.reverse, (org ++ '/' :: repo) ++ (v ++ rest)⟩, ⟨(org ++ '/' :: repo).reverse ++ P.reverse, v ++ rest⟩), ?_, ?_⟩
  · rw [hfind]
    simp
  · have hspan : Cursor.upto ⟨P.reverse, (org ++ '/' :: repo) ++ (v ++ rest)⟩
        ⟨(org ++ '/' :: repo).reverse ++ P.reverse, v ++ rest⟩ = org ++ '/' :: repo := Spans.upto ⟨rfl, rfl⟩
    obtain ⟨t, z, rfl, hz⟩ := hrepo.last
    have hstrip : z ∉ ['.', '-'] := by
      intro hmem
      simp only [List.mem_cons, List.not_mem_nil, or_false] at hmem
      rcases hmem with rfl | rfl <;> exact absurd hz (by decide)
    rw [candidate, hspan]
    have h := rstripChars_append_cons hstrip (org ++ '/' :: t) []
    simpa [rstripChars] using h

/-- an id between blanks, with punctuation after it, is a mention, and its text is the id -/
theorem exists_mention {u : Unicode} (hu : u.PlainSpaces) {org repo P Q S : Str} (horg : IdPart org) (hrepo : IdPart repo)
    (hP : EndsBlank P) (hQ : ∀ c ∈ Q, isPunct c = true) (hS : StartsBlank S) :
    ∃ m ∈ mentions u (P ++ (org ++ '/' :: repo) ++ Q ++ S), candidate m = org ++ '/' :: repo := by
  have hno : NoUrl (org ++ '/' :: repo ++ Q) := by
    refine noUrl_append ?_ fun hmem => (toNat_of_isPunct (hQ _ hmem)).2 rfl
    simp [colon_notMem_of_idPart horg, colon_notMem_of_idPart hrepo]
  obtain ⟨P', S', hP', hS', hclean⟩ := cleaned_around hP hno hS
  obtain ⟨v, rest, hvr, hv, hrest⟩ := punct_split hu hQ hS'
  have hmatch := exists_match hu horg hrepo hP' hv hrest
  rwa [mentions, show P ++ (org ++ '/' :: repo) ++ Q ++ S = P ++ ((org ++ '/' :: repo ++ Q) ++ S) by simp, hclean,
    List.append_assoc, hvr]

/-- **A gold id written out in full is credited.** -/
theorem full_id_credited {u : Unicode} (hu : u.PlainSpaces) {catalogIds gold : List Str} {org repo : Str} (horg : IdPart org)
    (hrepo : IdPart repo) (hg : org ++ '/' :: repo ∈ gold) (hcatalog : norm u (org ++ '/' :: repo) ∈ catalogKeys u catalogIds)
    {P Q S : Str} (hP : EndsBlank P) (hQ : ∀ c ∈ Q, isPunct c = true) (hS : StartsBlank S) :
    Credited u catalogIds (P ++ (org ++ '/' :: repo) ++ Q ++ S) gold (org ++ '/' :: repo) := by
  obtain ⟨m, hm, hcand⟩ := exists_mention hu horg hrepo hP hQ hS
  refine (credited_iff (List.mem_map_of_mem hg)).2 (mem_keys_entries.2 (Or.inl ⟨m, hm, ?_⟩))
  exact names_iff.2 ⟨by rw [hcand], Or.inl hcatalog⟩

/-- an id after a URL, at the end of a sentence -/
theorem full_id_credited_sentence :
    Credited .ascii ["Qwen/Qwen2.5-7B".toList]
      ("See https://x.io/a. ".toList ++ ("Qwen".toList ++ '/' :: "Qwen2.5-7B".toList) ++ "...".toList ++ " Or none".toList)
      ["Qwen/Qwen2.5-7B".toList] ("Qwen".toList ++ '/' :: "Qwen2.5-7B".toList) :=
  full_id_credited Unicode.ascii_plainSpaces
    ⟨List.all_eq_true.1 (by decide), ⟨'Q', "wen".toList, rfl, by decide⟩, ⟨"Qwe".toList, 'n', rfl, by decide⟩⟩
    ⟨List.all_eq_true.1 (by decide), ⟨'Q', "wen2.5-7B".toList, rfl, by decide⟩, ⟨"Qwen2.5-7".toList, 'B', rfl, by decide⟩⟩
    (by decide) (by decide) (by simp [EndsBlank, isSpace]) (List.all_eq_true.1 (by decide)) (by simp [StartsBlank, isSpace])

/-! ## Slashes

A mention has one slash, and a URL has two that its replacement has not: so a bare name is not credited because of a
mention inside it, and not found any more when a URL in it is blanked. -/

theorem count_slash_fold_le (u : Unicode) (s : Str) : s.count '/' ≤ (u.fold s).count '/' := by
  induction s with
  | nil => simp
  | cons c s ih =>
    rw [Unicode.fold_cons, List.count_append, List.count_cons]
    split_ifs with hc
    · obtain rfl : c = '/' := by simpa using hc
      rw [u.casefold_ascii _ (by decide), show ['/'.toLower].count '/' = 1 from rfl]
      omega
    · omega

theorem count_slash_strip (s : Str) : (strip s).count '/' = s.count '/' := by
  have hl : ∀ t : Str, (t.dropWhile isSpace).count '/' = t.count '/' := by
    intro t
    induction t with
    | nil => rfl
    | cons c t ih =>
      by_cases hc : isSpace c = true
      · have hne : c ≠ '/' := ne_slash_of_isSpace hc
        rw [List.dropWhile_cons_of_pos hc, ih, List.count_cons_of_ne hne]
      · rw [List.dropWhile_cons_of_neg hc]
  have hr : ∀ t : Str, (t.rdropWhile isSpace).count '/' = t.count '/' := by
    intro t
    rw [List.rdropWhile, List.count_reverse, hl, List.count_reverse]
  rw [strip, hr, hl]

/-- the alias has as many slashes as what it replaces -/
theorem count_slash_norm (u : Unicode) (s : Str) : (Extract.norm u s).count '/' = (u.fold (strip s)).count '/' := by
  unfold Extract.norm
  dsimp only
  split_ifs with h
  · obtain ⟨t, ht⟩ := h
    have hlen : "meta-llama/meta-llama-".toList.length = 22 := rfl
    rw [← ht, ← hlen, List.drop_left, List.count_append, List.count_append]
    rfl
  · rfl

theorem toLower_ne_slash {c : Char} (h : idChar c = true) : c.toLower ≠ '/' :=
  idChar_forall (P := fun c => c.toLower ≠ '/') (by decide) h

theorem count_slash_fold_id (u : Unicode) {s : Str} (h : ∀ c ∈ s, idChar c = true) : (u.fold s).count '/' = 0 := by
  rw [u.fold_ascii fun c hc => by have := toNat_of_idChar (h c hc); omega, List.count_eq_zero, List.mem_map]
  intro hslash
  obtain ⟨c, hc, hlow⟩ := hslash
  exact toLower_ne_slash (h c hc) hlow

theorem count_slash_candidate {u : Unicode} {text : Str} {m : Cursor × Cursor} (hm : m ∈ mentions u text) :
    (Extract.norm u (candidate m)).count '/' ≤ 1 := by
  obtain ⟨-, org, repo, horg, hrepo, hspan⟩ := mentions_spec hm
  -- the candidate without white space around it is part of the mention
  have hsub : (strip (candidate m)).Sublist (org ++ '/' :: repo) := by
    have hcand : candidate m <+: org ++ '/' :: repo := by
      rw [candidate, hspan.upto]
      exact List.rdropWhile_prefix _ _
    have hstrip : (strip (candidate m)).Sublist (candidate m) :=
      (List.rdropWhile_prefix _ _).sublist.trans (List.dropWhile_sublist _)
    exact hstrip.trans hcand.sublist
  have hmention : (u.fold (org ++ '/' :: repo)).count '/' = 1 := by
    rw [Unicode.fold_append, Unicode.fold_cons, u.casefold_ascii _ (by decide), List.count_append, List.count_append,
      count_slash_fold_id u horg.chars, count_slash_fold_id u hrepo.chars]
    rfl
  rw [count_slash_norm, ← hmention]
  exact (hsub.flatMap u.casefold).count_le _

/-- blanking URLs takes two slashes away for each of them -/
theorem scan_slashes (u : Unicode) {c : Cursor} {evs : List Event} (h : Scan urlRe c evs) :
    (u.fold (replaced (fun _ => [' ']) evs)).count '/' + 2 * (hits evs).length ≤ (u.fold c.after).count '/' := by
  induction h with
  | done => simp
  | pass _ _ ih =>
    simp only [replaced_inl, hits_inl, Unicode.fold_cons, List.count_append] at ih ⊢
    omega
  | @hit c e evs hm _ ih =>
    obtain ⟨o, x, w, -, -, hspan⟩ := mem_run_url (List.mem_of_head? hm)
    have hsource : (u.fold c.after).count '/' = (u.fold ("http".toList ++ (o ++ ("://".toList ++ x :: w)))).count '/' +
        (u.fold e.after).count '/' := by
      rw [hspan.1, Unicode.fold_append, List.count_append]
    have htwo : 2 ≤ ("http".toList ++ (o ++ ("://".toList ++ x :: w))).count '/' := by
      have h : ("://".toList).count '/' = 2 := rfl
      simp only [List.count_append]
      omega
    have hfold := count_slash_fold_le u ("http".toList ++ (o ++ ("://".toList ++ x :: w)))
    have hblank : (u.fold [' ']).count '/' = 0 := by
      rw [Unicode.fold_cons, u.casefold_ascii _ (by decide)]
      rfl
    simp only [replaced_inr, hits_inr, Unicode.fold_append, List.count_append, hblank, List.length_cons]
    omega

/-! ## Bare names -/

theorem fold_endsBlank {u : Unicode} (hu : u.PlainSpaces) {s : Str} (h : EndsBlank s) : EndsBlank (u.fold s) := by
  rcases List.eq_nil_or_concat s with rfl | ⟨t, x, rfl⟩
  · exact h
  · have hx : isSpace x = true := h x (by simp)
    simpa [EndsBlank, hu.casefold_space x hx] using hx

theorem fold_startsBlank {u : Unicode} (hu : u.PlainSpaces) {s : Str} (h : StartsBlank s) : StartsBlank (u.fold s) := by
  cases s with
  | nil => exact h
  | cons x s =>
    have hx : isSpace x = true := h x rfl
    simpa [StartsBlank, hu.casefold_space x hx] using hx

theorem fold_punct (u : Unicode) {Q : Str} (hQ : ∀ c ∈ Q, isPunct c = true) : u.fold Q = Q := by
  rw [u.fold_ascii fun c hc => by have := (toNat_of_isPunct (hQ c hc)).1; omega]
  refine (List.map_congr_left fun c hc => ?_).trans (List.map_id _)
  rcases isPunct_cases (hQ c hc) with rfl | rfl | rfl | rfl | rfl | rfl <;> decide

/-- a bare place stays one between blanks -/
theorem bareAt_around {r T a b P S : Str} (hP : EndsBlank P) (hS : StartsBlank S) (h : BareAt r T a b) :
    BareAt r (P ++ (T ++ S)) (P ++ a) (b ++ S) where
  split := by rw [h.split]; simp
  left := by
    intro x hx
    rcases List.eq_nil_or_concat a with rfl | ⟨a, y, rfl⟩
    · have hblank := hP x (by simpa using hx)
      exact ⟨idChar_of_isSpace hblank, ne_slash_of_isSpace hblank⟩
    · exact h.left x (by simpa using hx)
  right := by
    intro x hx
    cases b with
    | nil => exact idChar_of_isSpace (hS x (by simpa using hx))
    | cons y b => exact h.right x (by simpa using hx)

/-- the folded name stands again, further right, in itself and Q -/
def FoundAgain (r Q : Str) : Prop := ∃ a b, a ≠ [] ∧ BareAt r (r ++ Q) a b

/-- a text that stands again further right, in itself and Q, is made of characters of Q -/
theorem mem_of_shift {r Q a b : Str} (ha : a ≠ []) (h : r ++ Q = a ++ (r ++ b)) {c : Char} (hc : c ∈ r) : c ∈ Q := by
  have hpos : 0 < a.length := List.length_pos_iff.2 ha
  -- by induction on the number of characters of r from c on: c stands again that much further right
  have key : ∀ n i, r.length ≤ i + n → ∀ c, r[i]? = some c → c ∈ Q := by
    intro n
    induction n with
    | zero =>
      intro i hi c hc
      rw [List.getElem?_eq_none (by omega)] at hc
      cases hc
    | succ n ih =>
      intro i hi c hc
      have hlt : i < r.length := (List.getElem?_eq_some_iff.1 hc).1
      have hshift : (r ++ Q)[a.length + i]? = some c := by
        rw [h, List.getElem?_append_right (by omega), List.getElem?_append_left (by omega)]
        simpa using hc
      by_cases hin : a.length + i < r.length
      · rw [List.getElem?_append_left hin] at hshift
        exact ih (a.length + i) (by omega) c hshift
      · rw [List.getElem?_append_right (by omega)] at hshift
        exact List.mem_of_getElem? hshift
  obtain ⟨i, hi⟩ := List.mem_iff_getElem?.1 hc
  exact key r.length i (by omega) c hi

/-- a repo name with a slash belongs to an id with two -/
theorem two_slashes {g : Str} (h : '/' ∈ repoName g) : 2 ≤ g.count '/' := by
  unfold repoName at h
  split_ifs at h with hg
  · have hdrop : g.dropWhile (· ≠ '/') ≠ [] := by
      rw [Ne, List.dropWhile_eq_nil_iff]
      intro hall
      simpa using hall _ hg
    obtain ⟨x, t, ht⟩ := List.exists_cons_of_ne_nil hdrop
    have hx : x = '/' := by
      have hhead := List.head?_dropWhile_not (fun c : Char => decide (c ≠ '/')) g
      rw [ht] at hhead
      simpa using hhead
    rw [splitSlash, ht, List.drop_succ_cons, List.drop_zero] at h
    have hcount : 0 < t.count '/' := List.count_pos_iff.2 h
    rw [← List.takeWhile_append_dropWhile (p := (· ≠ '/')) (l := g), ht, hx, List.count_append, List.count_cons_self]
    omega
  · exact absurd h hg

/-- no mention of a text that is a bare name and punctuation has the gold id -/
theorem no_mention_of_bare {u : Unicode} {g Q : Str} (hQ : ∀ c ∈ Q, isPunct c = true) {m : Cursor × Cursor}
    (hm : m ∈ mentions u (repoName g ++ Q)) : Extract.norm u (candidate m) ≠ Extract.norm u g := by
  intro hnorm
  obtain ⟨htext, org, repo, -, -, hspan⟩ := mentions_spec hm
  have hslash : '/' ∉ Q := fun hmem => (toNat_of_isPunct (hQ _ hmem)).2 rfl
  by_cases hrepo : '/' ∈ repoName g
  · -- two slashes in the id, one in the mention
    have hone := count_slash_candidate hm
    have htwo := two_slashes hrepo
    have hstrip := count_slash_strip g
    have hfold := count_slash_fold_le u (strip g)
    rw [hnorm, count_slash_norm] at hone
    omega
  · -- no slash in the text
    have hno : NoUrl (repoName g ++ Q) := by
      rintro a b hab ⟨o, x, rest, -, -, rfl⟩
      have hmem : '/' ∈ repoName g ++ Q := by
        rw [hab]
        simp
      simp [hrepo, hslash] at hmem
    have hmem : '/' ∈ repoName g ++ Q := by
      rw [← cleaned_of_noUrl hno, ← htext, hspan.text_eq]
      simp
    simp [hrepo, hslash] at hmem

/-- **A gold model named by its bare repo name.** It is credited between any blanks, whatever the gold list, iff no URL
starts in the name and the punctuation after it, and that punctuation does not start with a full stop (or the name, itself
punctuation, stands in it again). -/
theorem bare_name_credited_iff {u : Unicode} (hu : u.PlainSpaces) (catalogIds : List Str) (g : Str) {Q : Str}
    (hQ : ∀ c ∈ Q, isPunct c = true) :
    (∀ gold P S, g ∈ gold → EndsBlank P → StartsBlank S → Credited u catalogIds (P ++ repoName g ++ Q ++ S) gold g) ↔
      NoUrl (repoName g ++ Q) ∧ (Q.head? ≠ some '.' ∨
        (∀ c ∈ u.fold (repoName g), isPunct c = true) ∧ FoundAgain (u.fold (repoName g)) Q) := by
  have hfold : u.fold (repoName g ++ Q) = u.fold (repoName g) ++ Q := by rw [Unicode.fold_append, fold_punct u hQ]
  refine ⟨fun h => ?_, ?_⟩
  · -- nothing around the name, and no other gold id
    have hcred := h [g] [] [] (by simp) (by simp [EndsBlank]) (by simp [StartsBlank])
    rw [List.nil_append, List.append_nil] at hcred
    rcases mem_keys_entries.1 ((credited_iff (List.mem_map_of_mem (by simp))).1 hcred) with ⟨m, hm, hn⟩ | ⟨g', hg', -, a, b, hat⟩
    · exact absurd (names_iff.1 hn).1 (no_mention_of_bare hQ hm)
    · obtain rfl : g' = g := by simpa using hg'
      have hno : NoUrl (repoName g' ++ Q) := by
        by_contra hurl
        obtain ⟨evs, hscan, hfind, hsub, -⟩ := exists_scan urlRe_consumes (repoName g' ++ Q)
        have hlost := scan_slashes u hscan
        have hhits : hits evs ≠ [] := by
          rw [← hfind, Ne, finditer_eq_nil, ← noUrl_iff]
          exact hurl
        have hpos := List.length_pos_iff.2 hhits
        have hQslash : Q.count '/' = 0 := List.count_eq_zero.2 fun hmem => (toNat_of_isPunct (hQ _ hmem)).2 rfl
        have hfound := congrArg (List.count '/') hat.split
        rw [cleaned, hsub] at hfound
        simp only [hfold, List.count_append] at hlost hfound
        omega
      refine ⟨hno, ?_⟩
      rw [cleaned_of_noUrl hno, hfold] at hat
      by_cases ha : a = []
      · subst ha
        obtain rfl : Q = b := by simpa using hat.split
        left
        intro hdot
        exact absurd (hat.right '.' hdot) (by decide)
      · exact Or.inr ⟨fun c hc => hQ c (mem_of_shift ha hat.split hc), a, b, ha, hat⟩
  · rintro ⟨hno, hdot⟩ gold P S hg hP hS
    obtain ⟨P', S', hP', hS', hclean⟩ := cleaned_around hP hno hS
    -- the name has a place in itself and Q
    have hplace : ∃ a b, BareAt (u.fold (repoName g)) (u.fold (repoName g) ++ Q) a b := by
      rcases hdot with hdot | ⟨-, a, b, -, hat⟩
      · refine ⟨[], Q, by simp, by simp, ?_⟩
        intro x hx
        cases Q with
        | nil => cases hx
        | cons y Q =>
          obtain rfl : y = x := by simpa using hx
          rcases isPunct_cases (hQ y (by simp)) with rfl | rfl | rfl | rfl | rfl | rfl
          · exact absurd rfl hdot
          all_goals decide
      · exact ⟨a, b, hat⟩
    obtain ⟨a, b, hat⟩ := hplace
    have hin := bareAt_around (fold_endsBlank hu hP') (fold_startsBlank hu hS') hat
    have hfolded : u.fold (cleaned (P ++ repoName g ++ Q ++ S)) = u.fold P' ++ ((u.fold (repoName g) ++ Q) ++ u.fold S') := by
      rw [show P ++ repoName g ++ Q ++ S = P ++ ((repoName g ++ Q) ++ S) by simp, hclean, Unicode.fold_append,
        Unicode.fold_append, hfold]
    rw [← hfolded] at hin
    exact (credited_iff (List.mem_map_of_mem hg)).2 (mem_keys_entries.2 (Or.inr ⟨g, hg, rfl, _, _, hin⟩))

/-- a bare name before an exclamation mark -/
theorem bare_name_credited_exclaimed :
    (∀ gold P S, "openai/whisper-large-v3".toList ∈ gold → EndsBlank P → StartsBlank S →
      Credited .ascii [] (P ++ repoName "openai/whisper-large-v3".toList ++ "!".toList ++ S) gold
        "openai/whisper-large-v3".toList) ↔
      NoUrl (repoName "openai/whisper-large-v3".toList ++ "!".toList) ∧ ("!".toList.head? ≠ some '.' ∨
        (∀ c ∈ Unicode.ascii.fold (repoName "openai/whisper-large-v3".toList), isPunct c = true) ∧
          FoundAgain (Unicode.ascii.fold (repoName "openai/whisper-large-v3".toList)) "!".toList) :=
  bare_name_credited_iff Unicode.ascii_plainSpaces [] _ (List.all_eq_true.1 (by decide))

/-- **A bare name that ends a sentence is not credited**, although the full id there is. -/
theorem bare_name_full_stop :
    ¬Credited .ascii [] ("Use ".toList ++ repoName "openai/whisper-large-v3".toList ++ ".".toList ++ [])
        ["openai/whisper-large-v3".toList] "openai/whisper-large-v3".toList ∧
      Credited .ascii [] ("Use ".toList ++ "openai/whisper-large-v3".toList ++ ".".toList ++ [])
        ["openai/whisper-large-v3".toList] "openai/whisper-large-v3".toList := by
  unfold Credited
  decide +kernel

end AgentPick.Credit
