/-
Mentions by their alias (`evaluation/metrics.py`, `_plausible_id`, `extract_predictions` and the ranking metrics).

A respelled text has the alias in place of every mention that is spelled the way before the rename. Whether a mention
counts is decided on its spelling (`CountsAlike`), and where a gold name stands on the offsets of the folded text (`Told`).

Results:
- `keeps_respellMention`: respelling a mention keeps its org and its last character.
- `paired_entries`: the entries of the two texts are paired, at offsets in the same order.
- `alike_of_told`: if the respelled mentions count alike and the bare places are told in both texts, no score changes.
- `alike_iff_current`: no score changes in any gold list iff there is nothing to respell.
- `alias_scores`: when gold ids and mentions can be respelled.
- `alias_missed`: a bare name whose alias is missed, and a mention whose alias does not count.
-/
import Mathlib.Tactic
import AgentPick.Evaluation.GoldSpelling
import AgentPick.Evaluation.Respelled

namespace AgentPick.TextSpelling

open AgentPick.Text AgentPick.Regex AgentPick.Extract AgentPick.Mentions AgentPick.Inside AgentPick.Alias AgentPick.Respelled
open AgentPick.GoldSpelling

/-- the text of a mention, or with its alias if the candidate is spelled the way before the rename -/
def respellMention (w : Str) : Str :=
  if oldPrefix <+: rstripChars ['.', '-'] w then newPrefix ++ w.drop oldPrefix.length else w

/-- text' is the text with its mentions respelled, up to URLs -/
def RespelledText (u : Unicode) (text text' : Str) : Prop :=
  cleaned text' = subBy (modelIdRe u) respellMention (cleaned text)

/-! ## One mention -/

theorem oldPrefix_append (rest : Str) : oldPrefix ++ rest = "meta-llama".toList ++ '/' :: ("Meta-Llama-".toList ++ rest) := rfl

theorem newPrefix_append (rest : Str) : newPrefix ++ rest = "meta-llama".toList ++ '/' :: ("Llama-".toList ++ rest) := rfl

/-- a mention that is respelled: the prefix, something up to a character that is not stripped, and what is stripped -/
structure Old (w t : Str) (l : Char) (x : Str) : Prop where
  text : w = oldPrefix ++ (t ++ l :: x)
  last : l ∉ ['.', '-']
  stripped : ∀ c ∈ x, c ∈ ['.', '-']

theorem Old.rstrip {w t x : Str} {l : Char} (h : Old w t l x) (s : Str) :
    rstripChars ['.', '-'] (s ++ (t ++ l :: x)) = s ++ (t ++ [l]) := by
  have hx : rstripChars ['.', '-'] x = [] := List.rdropWhile_eq_nil_iff.2 fun c hc => by simpa using h.stripped c hc
  rw [← List.append_assoc, rstripChars_append_cons h.last, hx, List.append_assoc]

theorem Old.respellMention {w t x : Str} {l : Char} (h : Old w t l x) :
    TextSpelling.respellMention w = newPrefix ++ (t ++ l :: x) := by
  have hpre : oldPrefix <+: rstripChars ['.', '-'] w := by
    rw [h.text, h.rstrip]
    exact List.prefix_append _ _
  rw [TextSpelling.respellMention, if_pos hpre, h.text, List.drop_left]

/-- a text stays, or is that of a mention that is respelled -/
theorem respellMention_cases (w : Str) : TextSpelling.respellMention w = w ∨ ∃ t l x, Old w t l x := by
  by_cases h : oldPrefix <+: rstripChars ['.', '-'] w
  · right
    obtain ⟨hlast, x, hsplit, hx⟩ := rstripChars_spec ['.', '-'] w
    obtain ⟨rest, hrest⟩ := h
    rw [← hrest] at hlast hsplit
    rcases List.eq_nil_or_concat rest with rfl | ⟨t, l, rfl⟩
    · -- the prefix ends in a character that is stripped
      exact absurd (hlast '-' (by decide)) (by decide)
    · exact ⟨t, l, x, by rw [hsplit]; simp, hlast l (by simp), hx⟩
  · exact Or.inl (if_neg h)

/-- **Respelling a mention keeps its org and its last character.** -/
theorem keeps_respellMention : Keeps respellMention := by
  intro org repo horg hrepo
  rcases respellMention_cases (org ++ '/' :: repo) with h | ⟨t, l, x, hold⟩
  · exact ⟨repo, h, hrepo, rfl⟩
  · obtain ⟨rfl, rfl⟩ := slash_split horg.not_slash (by decide) (hold.text.trans (oldPrefix_append _))
    refine ⟨"Llama-".toList ++ (t ++ l :: x), by rw [hold.respellMention, newPrefix_append], ⟨fun c hc => ?_, ?_⟩, ?_⟩
    · rcases List.mem_append.1 hc with hc | hc
      · exact List.all_eq_true.1 (by decide : "Llama-".toList.all idChar = true) c hc
      · exact hrepo.chars c (List.mem_append_right _ hc)
    · exact ⟨'L', _, rfl, by decide⟩
    · have hne : t ++ l :: x ≠ [] := by simp
      rw [List.getLast?_append_of_ne_nil _ hne, List.getLast?_append_of_ne_nil _ hne]

/-- the candidates of a mention and of its respelled text -/
theorem candidate_respelled {m m' : Cursor × Cursor} (h : m'.1.upto m'.2 = respellMention (m.1.upto m.2)) :
    respellMention (m.1.upto m.2) = m.1.upto m.2 ∧ candidate m' = candidate m ∨
      AliasPair (candidate m) (candidate m') := by
  rcases respellMention_cases (m.1.upto m.2) with hsame | ⟨t, l, x, hold⟩
  · exact Or.inl ⟨hsame, by rw [candidate, candidate, h, hsame]⟩
  · refine Or.inr ⟨t ++ [l], ?_, ?_⟩
    · rw [candidate, hold.text, hold.rstrip]
    · rw [candidate, h, hold.respellMention, hold.rstrip]

/-! ## What a text must be like -/

/-- the candidate looks like a model id -/
def looksLikeId (w : Str) : Bool := plausibleId (splitSlash w).1 (splitSlash w).2

/-- every mention that is respelled counts in both spellings or in neither -/
def CountsAlike (u : Unicode) (catalogIds : List Str) (text : Str) : Prop :=
  ∀ m ∈ mentions u text, respell (candidate m) ≠ candidate m →
    Extract.norm u (candidate m) ∈ catalogKeys u catalogIds ∨ looksLikeId (respell (candidate m)) = looksLikeId (candidate m)

/-- a spelling of an id that has an alias -/
def IsAlias (w : Str) : Prop := oldPrefix <+: w ∨ newPrefix <+: w

/-- no bare place of a gold name overlaps a mention of an id that has an alias, and the offset of every bare place says
whether it is before a mention -/
def Told (u : Unicode) (text : Str) (gold : List Str) : Prop :=
  ∀ g ∈ gold, ∀ a b, BareAt (u.fold (repoName g)) (u.fold (cleaned text)) a b → ∀ m ∈ mentions u text,
    (IsAlias (candidate m) → Apart u m a.length (u.fold (repoName g)).length) ∧
      compare a.length m.1.offset = compare a.length (foldOffset u m.1)

theorem isAlias_of_pair {w w' : Str} (h : AliasPair w w') : IsAlias w ∧ IsAlias w' := by
  obtain ⟨rest, rfl, rfl⟩ := h
  exact ⟨Or.inl (List.prefix_append _ _), Or.inr (List.prefix_append _ _)⟩

/-! ## Pairs of entries -/

section Pairs

variable {u : Unicode} {catalogIds gold : List Str} {text text' : Str} {ps qs : List (Piece Char)}

/-- an entry of the text and the one of the respelled text -/
inductive Paired (u : Unicode) (text text' : Str) (gold : List Str) (ps qs : List (Piece Char)) :
    ℕ × Str → ℕ × Str → Prop where
  | mention {m m' : Cursor × Cursor} : MentionPair u respellMention text text' ps qs m m' →
      Paired u text text' gold ps qs (m.1.offset, candidate m) (m'.1.offset, candidate m')
  | bare {g : Str} {i j : ℕ} : g ∈ gold → bareOffset u (u.fold (cleaned text)) g = some i →
      bareOffset u (u.fold (cleaned text')) g = some j → Splice.Aligned ps i j →
      Paired u text text' gold ps qs (i, g) (j, g)

/-- where a bare place is told it is compared with a mention by their offsets in the folded text -/
theorem Told.compare_bare (h : Told u text gold) {g : Str} (hg : g ∈ gold) {i : ℕ}
    (hi : bareOffset u (u.fold (cleaned text)) g = some i) {m : Cursor × Cursor} (hm : m ∈ mentions u text) :
    (i < m.1.offset ↔ i < foldOffset u m.1) ∧ (m.1.offset < i ↔ foldOffset u m.1 < i) := by
  obtain ⟨⟨a, b, hat, rfl⟩, -⟩ := bareOffset_eq_some hi
  have hcmp := (h g hg a b hat m hm).2
  rw [← compare_lt_iff_lt, ← compare_lt_iff_lt, ← compare_gt_iff_gt, ← compare_gt_iff_gt, hcmp]
  exact ⟨Iff.rfl, Iff.rfl⟩

/-- **Paired entries are in the same order.** -/
theorem Paired.lt_iff (h : Matched u respellMention text text' ps qs) (ht : Told u text gold) (ht' : Told u text' gold)
    {v v' w w' : ℕ × Str} (hv : Paired u text text' gold ps qs v v') (hw : Paired u text text' gold ps qs w w') :
    v.1 < w.1 ↔ v'.1 < w'.1 := by
  cases hv with
  | mention hm =>
    cases hw with
    | mention hn => exact hm.plain.lt_iff h.soundPlain hn.plain
    | bare hg hi hj hal =>
      rw [(ht.compare_bare hg hi hm.mem).2, (ht'.compare_bare hg hj hm.mem').2]
      exact hm.folded.lt_iff h.sound hal
  | bare hg hi hj hal =>
    cases hw with
    | mention hn =>
      rw [(ht.compare_bare hg hi hn.mem).1, (ht'.compare_bare hg hj hn.mem').1]
      exact hal.lt_iff h.sound hn.folded
    | bare _ _ _ hal' => exact hal.lt_iff h.sound hal'

/-- a bare place at a mention of an id that has an alias overlaps it -/
theorem not_isAlias_of_start (ht : Told u text gold) {g : Str} (hg : g ∈ gold) {m : Cursor × Cursor} (hm : m ∈ mentions u text)
    (hi : bareOffset u (u.fold (cleaned text)) g = some m.1.offset) : ¬IsAlias (candidate m) := by
  intro halias
  obtain ⟨⟨a, b, hat, hlen⟩, -⟩ := bareOffset_eq_some hi
  obtain ⟨hapart, hcmp⟩ := ht g hg a b hat m hm
  have hstart : a.length = foldOffset u m.1 := by
    rw [← compare_eq_iff_eq, ← hcmp, compare_eq_iff_eq]
    exact hlen
  -- the mention is not empty, so the name would be
  obtain ⟨htext, org, repo, horg, -, hspan⟩ := mentions_spec hm
  obtain ⟨x, t, rfl, hx⟩ := horg.first
  have hid := idChar_of_alnum hx
  have hone : u.casefold x = [x.toLower] := u.casefold_ascii x (by have := toNat_of_idChar hid; omega)
  obtain ⟨hsplit, hend⟩ := fold_around (u := u) htext hspan
  rw [List.cons_append, Unicode.fold_cons, hone] at hsplit hend
  have hempty : u.fold (repoName g) = [] := by
    rcases hapart halias with hle | hle
    · exact List.length_eq_zero_iff.1 (by omega)
    · simp only [List.length_append, List.length_singleton] at hend
      omega
  have hmeet := hat.split.symm.trans hsplit
  rw [hempty, List.nil_append] at hmeet
  have hright := hat.right
  rw [(List.append_inj hmeet hstart).2] at hright
  have hno := hright x.toLower rfl
  rw [idChar_toLower hid] at hno
  cases hno

/-- a mention that has no alias keeps its candidate -/
theorem candidate_eq {m m' : Cursor × Cursor} (hm : MentionPair u respellMention text text' ps qs m m')
    (h : ¬IsAlias (candidate m)) : candidate m' = candidate m := by
  rcases candidate_respelled hm.same with ⟨-, hsame⟩ | hpair
  · exact hsame
  · exact absurd (isAlias_of_pair hpair).1 h

/-- **Paired entries are sorted alike.** -/
theorem Paired.entryLe_iff (h : Matched u respellMention text text' ps qs) (ht : Told u text gold) (ht' : Told u text' gold)
    {v v' w w' : ℕ × Str} (hv : Paired u text text' gold ps qs v v') (hw : Paired u text text' gold ps qs w w') :
    entryLe v w ↔ entryLe v' w' := by
  have hlt := hv.lt_iff h ht ht' hw
  have hgt := hw.lt_iff h ht ht' hv
  have heq : v.1 = w.1 ↔ v'.1 = w'.1 := by omega
  unfold entryLe
  rw [hlt, heq]
  refine or_congr_right (and_congr_right fun htie' => ?_)
  have htie := heq.2 htie'
  -- on a tie the displayed ids are compared, and they are the same in both texts, or one id
  cases hv with
  | mention hm =>
    cases hw with
    | mention hn =>
      obtain rfl := mention_ext hm.mem hn.mem htie
      obtain rfl := mention_ext hm.mem' hn.mem' htie'
      simp
    | bare hg hi hj _ =>
      rw [candidate_eq hm (not_isAlias_of_start ht hg hm.mem (hi.trans (congrArg some htie.symm)))]
  | bare hg hi hj _ =>
    cases hw with
    | mention hn => rw [candidate_eq hn (not_isAlias_of_start ht hg hn.mem (hi.trans (congrArg some htie)))]
    | bare _ _ _ _ => exact Iff.rfl

/-! ## The entries of both texts -/

theorem find?_rel {α : Type} {R : α → α → Prop} {p q : α → Bool} {l l' : List α} (h : List.Forall₂ R l l')
    (hpq : ∀ a b, R a b → p a = q b) : Option.Rel R (l.find? p) (l'.find? q) := by
  induction h with
  | nil => exact .none
  | @cons a b l l' hab _ ih =>
    cases hp : p a with
    | true =>
      rw [List.find?_cons_of_pos hp, List.find?_cons_of_pos ((hpq a b hab).symm.trans hp)]
      exact .some hab
    | false =>
      rw [List.find?_cons_of_neg (by simp [hp]), List.find?_cons_of_neg (by simp [← hpq a b hab, hp])]
      exact ih

theorem earlier_rel {R : ℕ × Str → ℕ × Str → Prop} (hR : ∀ v v' w w', R v v' → R w w' → (v.1 < w.1 ↔ v'.1 < w'.1))
    {a a' b b' : Option (ℕ × Str)} (ha : Option.Rel R a a') (hb : Option.Rel R b b') :
    Option.Rel R (earlier a b) (earlier a' b') := by
  cases ha with
  | none => exact hb
  | @some v v' hv =>
    cases hb with
    | none => exact .some hv
    | @some w w' hw =>
      simp only [earlier, hR w w' v v' hw hv]
      split_ifs
      · exact .some hw
      · exact .some hv

theorem foldl_earlier_rel {R : ℕ × Str → ℕ × Str → Prop} (hR : ∀ v v' w w', R v v' → R w w' → (v.1 < w.1 ↔ v'.1 < w'.1))
    {a a' : Option (ℕ × Str)} {os os' : List (Option (ℕ × Str))} (ha : Option.Rel R a a')
    (hos : List.Forall₂ (Option.Rel R) os os') : Option.Rel R (os.foldl earlier a) (os'.foldl earlier a') := by
  induction hos generalizing a a' with
  | nil => exact ha
  | cons ho _ ih => exact ih (earlier_rel hR ha ho)

/-- a mention counts for a key in both texts or in neither -/
theorem names_pair (hcount : CountsAlike u catalogIds text) {m m' : Cursor × Cursor}
    (hm : MentionPair u respellMention text text' ps qs m m') (k : Str) :
    names u (catalogKeys u catalogIds) k m = names u (catalogKeys u catalogIds) k m' := by
  rcases candidate_respelled hm.same with ⟨-, hsame⟩ | hpair
  · rw [names, names, hsame]
  · have hcand := hpair.respell
    have hc := hcount m hm.mem (by rw [hcand]; exact hpair.ne)
    rw [hcand, looksLikeId, looksLikeId] at hc
    rw [names, names, hpair.norm_eq u]
    by_cases hk : Extract.norm u (candidate m) = k
    · rcases hc with hc | hc
      · simp [← hk, hc]
      · rw [hc]
    · simp [hk]

/-- **The entries of the two texts are paired.** -/
theorem paired_entries (h : Matched u respellMention text text' ps qs) (hcount : CountsAlike u catalogIds text)
    (ht : Told u text gold) (ht' : Told u text' gold) (k : Str) :
    Option.Rel (Paired u text text' gold ps qs) ((entries u catalogIds text gold).get? k)
      ((entries u catalogIds text' gold).get? k) := by
  rw [get?_entries, get?_entries]
  refine foldl_earlier_rel (fun v v' w w' hv hw => hv.lt_iff h ht ht' hw) ?_ ?_
  · have hfind := find?_rel h.pairs fun m m' hm => names_pair hcount hm k
    rw [firstNamed, firstNamed]
    generalize (mentions u text).find? _ = o at hfind
    generalize (mentions u text').find? _ = o' at hfind
    cases hfind with
    | none => exact .none
    | some hm => exact .some (.mention hm)
  · rw [List.forall₂_map_left_iff, List.forall₂_map_right_iff, List.forall₂_same]
    intro g hg
    have hgold := List.mem_of_mem_filter hg
    have hclear : ∀ a b, BareAt (u.fold (repoName g)) (u.fold (cleaned text)) a b →
        Splice.Clear ps a.length (u.fold (repoName g)).length := by
      intro a b hat
      refine h.clear _ _ fun m m' hm hne => (ht g hgold a b hat m hm.mem).1 ?_
      rcases candidate_respelled hm.same with ⟨hsame, -⟩ | hpair
      · exact absurd hsame hne
      · exact (isAlias_of_pair hpair).1
    have hback : ∀ a b, BareAt (u.fold (repoName g)) (u.fold (cleaned text')) a b →
        Splice.Clear (ps.map Piece.flip) a.length (u.fold (repoName g)).length := by
      intro a b hat
      refine h.clearBack _ _ fun m m' hm hne => (ht' g hgold a b hat m' hm.mem').1 ?_
      rcases candidate_respelled hm.same with ⟨hsame, -⟩ | hpair
      · exact absurd hsame hne
      · exact (isAlias_of_pair hpair).2
    have hbare := bareOffset_matched h hclear hback
    cases hi : bareOffset u (u.fold (cleaned text)) g with
    | none =>
      rw [hi] at hbare
      cases hj : bareOffset u (u.fold (cleaned text')) g with
      | none => exact .none
      | some j =>
        rw [hj] at hbare
        cases hbare
    | some i =>
      rw [hi] at hbare
      cases hj : bareOffset u (u.fold (cleaned text')) g with
      | none =>
        rw [hj] at hbare
        cases hbare
      | some j =>
        rw [hj] at hbare
        obtain ⟨hal⟩ := hbare
        exact .some (.bare hgold hi hj hal)

/-- **Respelling mentions changes no score**, if they count alike and the bare places are told in both texts. -/
theorem alike_of_told (h : RespelledText u text text') (hcount : CountsAlike u catalogIds text) (ht : Told u text gold)
    (ht' : Told u text' gold) : ScoresAlike u catalogIds text gold text' gold := by
  obtain ⟨ps, qs, hmatched⟩ := exists_matched keeps_respellMention h
  exact scoresAlike_of_keys rfl (predictions_congr (entries_keyed u catalogIds text gold) (entries_keyed u catalogIds text' gold)
    rfl (paired_entries hmatched hcount ht ht') fun v v' w w' hv hw => hv.entryLe_iff hmatched ht ht' hw)

end Pairs

/-! ## Every gold list -/

section AllGold

variable {u : Unicode} {catalogIds : List Str} {text text' : Str}

/-- a respelled text is not longer, and shorter if a mention is respelled -/
theorem fold_replaced_length (u : Unicode) (evs : List Event) :
    (u.fold (replaced respellMention evs)).length ≤ (u.fold (replaced id evs)).length ∧
      ((∃ m ∈ hits evs, respellMention (m.1.upto m.2) ≠ m.1.upto m.2) →
        (u.fold (replaced respellMention evs)).length < (u.fold (replaced id evs)).length) := by
  have hold : (u.fold oldPrefix).length = 22 := by
    rw [fold_oldPrefix]
    rfl
  have hnew : (u.fold newPrefix).length = 17 := by
    rw [fold_newPrefix]
    rfl
  induction evs with
  | nil => simp
  | cons ev evs ih =>
    cases ev with
    | inl x =>
      simp only [replaced_inl, hits_inl, Unicode.fold_cons, List.length_append]
      exact ⟨Nat.add_le_add_left ih.1 _, fun h => Nat.add_lt_add_left (ih.2 h) _⟩
    | inr m =>
      simp only [replaced_inr, hits_inr, Unicode.fold_append, List.length_append, List.exists_mem_cons_iff, id]
      rcases respellMention_cases (m.1.upto m.2) with hsame | ⟨t, l, x, h⟩
      · rw [hsame]
        refine ⟨Nat.add_le_add_left ih.1 _, fun hm => Nat.add_lt_add_left (ih.2 ?_) _⟩
        exact hm.resolve_left (fun hne => hne rfl)
      · rw [h.respellMention]
        have htext := congrArg (List.length ∘ u.fold) h.text
        simp only [Function.comp_apply, Unicode.fold_append, List.length_append, hold] at htext
        simp only [Unicode.fold_append, List.length_append, hnew]
        omega

/-- no mention is spelled the way before the rename -/
def Current (u : Unicode) (text : Str) : Prop := ∀ m ∈ mentions u text, respellMention (m.1.upto m.2) = m.1.upto m.2

theorem cleaned_eq_of_current (h : RespelledText u text text') (hc : Current u text) : cleaned text' = cleaned text := by
  obtain ⟨evs, hscan, hfind, -, hsub⟩ := exists_scan (modelIdRe_consumes u) (cleaned text)
  rw [h, hsub respellMention]
  have hall : ∀ m ∈ hits evs, respellMention (m.1.upto m.2) = m.1.upto m.2 := by
    intro m hm
    exact hc m (by rwa [mentions, hfind])
  have hsame : replaced respellMention evs = replaced id evs := by
    refine List.flatMap_congr fun ev hev => ?_
    cases ev with
    | inl x => rfl
    | inr m => exact hall m (mem_hits.2 hev)
  rw [hsame, hscan.source]

theorem fold_length_lt (h : RespelledText u text text') (hc : ¬Current u text) :
    (u.fold (cleaned text')).length < (u.fold (cleaned text)).length := by
  obtain ⟨evs, hscan, hfind, -, hsub⟩ := exists_scan (modelIdRe_consumes u) (cleaned text)
  unfold Current at hc
  push Not at hc
  rw [mentions, hfind] at hc
  have hlt := (fold_replaced_length u evs).2 hc
  rwa [hscan.source, ← hsub respellMention, ← show cleaned text' = _ from h] at hlt

/-- answers that score alike both have a relevant prediction, or neither -/
theorem relevant_iff_of_alike {gold gold' : List Str} (h : ScoresAlike u catalogIds text gold text' gold') :
    (∃ p ∈ extractPredictions u catalogIds text gold, Metrics.relevant u gold p = true) ↔
      ∃ p ∈ extractPredictions u catalogIds text' gold', Metrics.relevant u gold' p = true := by
  have hzero : ∀ predicted gold, Metrics.mrr u predicted gold ≠ 0 ↔ ∃ p ∈ predicted, Metrics.relevant u gold p = true := by
    intro predicted gold
    rcases Metrics.mrr_spec u predicted gold with ⟨hz, hall⟩ | ⟨r, p, hp, hrel, -, hval⟩
    · refine iff_of_false (by simp [hz]) ?_
      intro hex
      obtain ⟨p, hp, hrel⟩ := hex
      rw [hall p hp] at hrel
      cases hrel
    · refine iff_of_true ?_ ⟨p, List.mem_of_getElem? hp, hrel⟩
      rw [hval]
      positivity
  rw [← hzero, ← hzero, (h 1 le_rfl).2.2.1]

/-- a gold id whose repo name is the whole text -/
def whole (text : Str) : Str := 'x' :: '/' :: cleaned text

theorem repoName_whole (text : Str) : repoName (whole text) = cleaned text :=
  repoName_slash ['x'] (by decide) _

/-- if a mention is respelled, the id is credited in the text and not in the respelled text -/
theorem whole_shows (h : RespelledText u text text') (hc : ¬Current u text) :
    ¬ScoresAlike u catalogIds text [whole text] text' [whole text] := by
  intro hall
  have hlt := fold_length_lt h hc
  have hkey : Extract.norm u (whole text) ∈ goldKeys u [whole text] := List.mem_singleton_self _
  have hat : BareAt (u.fold (repoName (whole text))) (u.fold (cleaned text)) [] [] := by
    rw [repoName_whole]
    exact ⟨by simp, by simp, by simp⟩
  have hentry : Extract.norm u (whole text) ∈ (entries u catalogIds text [whole text]).keys :=
    mem_keys_entries.2 (Or.inr ⟨whole text, List.mem_singleton_self _, rfl, [], [], hat⟩)
  obtain ⟨p, hp, hk⟩ := (credited_iff hkey).2 hentry
  obtain ⟨p', hp', hrel⟩ := (relevant_iff_of_alike hall).1 ⟨p, hp, Metrics.relevant_iff.2 (hk ▸ hkey)⟩
  have hk' := List.mem_singleton.1 (Metrics.relevant_iff.1 hrel)
  rcases mem_keys_entries.1 ((credited_iff hkey).1 ⟨p', hp', hk'⟩) with ⟨m, hm, hn⟩ | ⟨g, hg, -, a, b, hat'⟩
  · -- a mention has one slash, the id two or more
    have hone := Credit.count_slash_candidate hm
    rw [(names_iff.1 hn).1, Credit.count_slash_norm] at hone
    have hle := Credit.count_slash_fold_le u (strip (whole text))
    have hcount : (whole text).count '/' = (cleaned text).count '/' + 1 := by
      rw [whole, List.count_cons_of_ne (by decide), List.count_cons_self]
    rw [Credit.count_slash_strip, hcount] at hle
    unfold Current at hc
    push Not at hc
    obtain ⟨n, hn, -⟩ := hc
    obtain ⟨htext, org, repo, -, -, hspan⟩ := mentions_spec hn
    have hslash : 0 < (cleaned text).count '/' := by
      rw [← htext, hspan.text_eq]
      exact List.count_pos_iff.2 (by simp)
    omega
  · obtain rfl := List.mem_singleton.1 hg
    have hlen := congrArg List.length hat'.split
    rw [repoName_whole, List.length_append, List.length_append] at hlen
    omega

/-- **Mentions can be respelled for every gold list iff there is none to respell.** -/
theorem alike_iff_current (h : RespelledText u text text') :
    (∀ gold, ScoresAlike u catalogIds text gold text' gold) ↔ Current u text := by
  refine ⟨fun hall => ?_, fun hc gold => ?_⟩
  · by_contra hc
    exact whole_shows h hc (hall _)
  · have hsame : extractPredictions u catalogIds text gold = extractPredictions u catalogIds text' gold := by
      have hclean := cleaned_eq_of_current h hc
      unfold cleaned at hclean
      rw [extractPredictions, extractPredictions, entries, entries, hclean]
    exact scoresAlike_of_keys rfl (by rw [hsame])

end AllGold

/-! ## Both respellings -/

/-- **When ids can be spelled by their alias.** In the gold list: an id in every gold list iff it is named first. In the
answer: for every gold list iff there is no mention to respell, and for a gold list whenever the mentions count alike and
the bare places of the gold names are told in both texts. -/
theorem alias_scores (u : Unicode) (catalogIds : List Str) (text : Str) :
    (∀ g, respell g ≠ g →
      ((∀ gold gold', List.Forall₂ (fun x x' => x' = x ∨ x = g ∧ x' = respell g) gold gold' →
        ScoresAlike u catalogIds text gold text gold') ↔ NamedFirst u catalogIds text g)) ∧
    (∀ gold, (∀ g ∈ gold, respell g ≠ g → NamedFirst u catalogIds text g) →
      ScoresAlike u catalogIds text gold text (gold.map respell)) ∧
    ∀ text', RespelledText u text text' →
      ((∀ gold, ScoresAlike u catalogIds text gold text' gold) ↔ Current u text) ∧
      ∀ gold, CountsAlike u catalogIds text → Told u text gold → Told u text' gold →
        ScoresAlike u catalogIds text gold text' gold := by
  refine ⟨fun g hg => alike_iff_namedFirst hg, fun gold hgold => ?_, fun text' h => ⟨alike_iff_current h, fun gold => ?_⟩⟩
  · refine alike_of_namedFirst (List.forall₂_map_right_iff.2 (List.forall₂_same.2 fun g hg => ?_))
    by_cases hne : respell g = g
    · exact Or.inl hne
    · exact Or.inr ⟨rfl, hgold g hg hne⟩
  · exact alike_of_told h

/-- a catalog id that is mentioned, in the answer and in the gold list -/
theorem alias_scores_mentioned :
    ScoresAlike .ascii ["meta-llama/Meta-Llama-3-8B-Instruct".toList]
        "Try meta-llama/Meta-Llama-3-8B-Instruct now".toList ["meta-llama/Meta-Llama-3-8B-Instruct".toList]
        "Try meta-llama/Meta-Llama-3-8B-Instruct now".toList
        (["meta-llama/Meta-Llama-3-8B-Instruct".toList].map respell) ∧
      ScoresAlike .ascii ["meta-llama/Meta-Llama-3-8B-Instruct".toList]
        "Try meta-llama/Meta-Llama-3-8B-Instruct now".toList ["meta-llama/Meta-Llama-3-8B-Instruct".toList]
        "Try meta-llama/Llama-3-8B-Instruct now".toList ["meta-llama/Meta-Llama-3-8B-Instruct".toList] := by
  have hno : ∀ s ∈ ["meta-llama/Meta-Llama-3-8B-Instruct".toList, "meta-llama/Llama-3-8B-Instruct".toList],
      bareOffset .ascii (Unicode.ascii.fold (cleaned "Try meta-llama/Meta-Llama-3-8B-Instruct now".toList)) s = none ∧
        bareOffset .ascii (Unicode.ascii.fold (cleaned "Try meta-llama/Llama-3-8B-Instruct now".toList)) s = none := by
    decide +kernel
  have hspell : respell "meta-llama/Meta-Llama-3-8B-Instruct".toList = "meta-llama/Llama-3-8B-Instruct".toList := by
    decide
  obtain ⟨-, hgold, htext⟩ := alias_scores .ascii ["meta-llama/Meta-Llama-3-8B-Instruct".toList]
    "Try meta-llama/Meta-Llama-3-8B-Instruct now".toList
  refine ⟨hgold _ fun g hg _ s hs a b hat => ?_, (htext _ (by unfold RespelledText; decide +kernel)).2 _ ?_ ?_ ?_⟩
  · obtain rfl := List.mem_singleton.1 hg
    rw [hspell] at hs
    exact absurd hat (bareOffset_eq_none.1 (hno s (by simpa using hs)).1 a b)
  · have hcat : ∀ m ∈ mentions .ascii "Try meta-llama/Meta-Llama-3-8B-Instruct now".toList,
        Extract.norm .ascii (candidate m) ∈ catalogKeys .ascii ["meta-llama/Meta-Llama-3-8B-Instruct".toList] := by
      decide +kernel
    exact fun m hm _ => Or.inl (hcat m hm)
  · intro g hg a b hat
    obtain rfl := List.mem_singleton.1 hg
    exact absurd hat (bareOffset_eq_none.1 (hno _ (by simp)).1 a b)
  · intro g hg a b hat
    obtain rfl := List.mem_singleton.1 hg
    exact absurd hat (bareOffset_eq_none.1 (hno _ (by simp)).2 a b)

/-- **An id that is named by its bare name is missed by its alias**, and one that is mentioned is not counted by its alias. -/
theorem alias_missed :
    ¬ScoresAlike .ascii ["meta-llama/Meta-Llama-3-8B-Instruct".toList] "Try Meta-Llama-3-8B-Instruct now".toList
        ["meta-llama/Meta-Llama-3-8B-Instruct".toList] "Try Meta-Llama-3-8B-Instruct now".toList
        (["meta-llama/Meta-Llama-3-8B-Instruct".toList].map respell) ∧
      RespelledText .ascii "Try meta-llama/Meta-Llama-Guard now".toList "Try meta-llama/Llama-Guard now".toList ∧
      ¬ScoresAlike .ascii [] "Try meta-llama/Meta-Llama-Guard now".toList ["meta-llama/Llama-Guard".toList]
        "Try meta-llama/Llama-Guard now".toList ["meta-llama/Llama-Guard".toList] := by
  refine ⟨fun h => ?_, by unfold RespelledText; decide +kernel, fun h => ?_⟩
  · have hprecision := (h 1 le_rfl).1
    revert hprecision
    decide +kernel
  · have hprecision := (h 1 le_rfl).1
    revert hprecision
    decide +kernel

end AgentPick.TextSpelling
