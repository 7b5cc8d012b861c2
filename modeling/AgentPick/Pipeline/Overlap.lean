/-
One `enrich_models` run without force and one `backfill` run on the same `models` table, statement by statement.

Each statement reads what is committed (READ COMMITTED). The enrichment selects once and then, row by row, fetches, updates
and commits. The backfill selects the ids without a count once, updates the ones that have a size and commits at the end.
An UPDATE locks its row until the commit, and an UPDATE of a row that the other program has locked waits: it is no step.
Without force every row the enrichment fetches lacks the card or the count, so it has an UPDATE. As in both modules, no statement
fails.
Neither UPDATE looks at the column again, which the docstring of the backfill relies on ("Only NULL rows are touched —
exact safetensors counts are never overwritten").

`Meets` is the condition on a step: an UPDATE of the backfill meets a count that is NULL (or the one it writes), and an UPDATE
of the enrichment that writes NULL meets NULL.

Results:
- `Inv`, `step_inv`: what holds in every state that is reached by steps that meet the condition.
- `no_lost_update`: in such a run no step resets a count or replaces an exact one, and at the end every row that had no
  count has the exact one if it was fetched, else the size of its id.
- `exact_overwritten`: a run in which the backfill overwrites an exact count.
-/
import Mathlib.Tactic
import AgentPick.Pipeline.Backfill
import AgentPick.Pipeline.Enrich

namespace AgentPick.Overlap

open AgentPick.Models AgentPick.Enrich AgentPick.Backfill

/-! ## States and steps -/

/-- the enrichment after its SELECT -/
structure Enricher where
  fetched : List Selection
  left : List Selection
  /-- the row that is fetched and not committed, and whether its UPDATE has run -/
  current : Option (Selection × Bool)

/-- the backfill after its SELECT -/
structure Backfiller where
  left : List (Str × ℤ)
  /-- the rows updated and not committed -/
  pending : List (Str × ℤ)
  committed : Bool

/-- the committed table and the two programs, `none` before their SELECT -/
structure State where
  table : Models
  enricher : Option Enricher
  backfiller : Option Backfiller

inductive Action where
  | enrichSelect
  | enrichFetch
  | enrichUpdate
  | enrichCommit
  | backfillSelect
  | backfillUpdate
  | backfillCommit
deriving DecidableEq, Repr

/-- the enrichment has locked the row -/
def EnrichLocks (s : State) (id : Str) : Prop := ∃ e r, s.enricher = some e ∧ e.current = some (r, true) ∧ r.modelId = id

/-- the backfill has locked the row -/
def BackfillLocks (s : State) (id : Str) : Prop := ∃ b, s.backfiller = some b ∧ id ∈ b.pending.map Prod.fst

inductive Step (nums : Numerals) (hub : Hub) (limit : Option ℤ) : State → Action → State → Prop where
  | enrichSelect {s : State} {rows : List (Str × ModelRow)} (start : s.enricher = none) (selected : Selected s.table rows) :
      Step nums hub limit s .enrichSelect { s with enricher := some ⟨[], processed rows limit false, none⟩ }
  | enrichFetch {s : State} {fetched left : List Selection} {r : Selection}
      (atRow : s.enricher = some ⟨fetched, r :: left, none⟩) :
      Step nums hub limit s .enrichFetch { s with enricher := some ⟨fetched ++ [r], left, some (r, false)⟩ }
  | enrichUpdate {s : State} {fetched left : List Selection} {r : Selection}
      (atRow : s.enricher = some ⟨fetched, left, some (r, false)⟩) (unlocked : ¬ BackfillLocks s r.modelId) :
      Step nums hub limit s .enrichUpdate { s with enricher := some ⟨fetched, left, some (r, true)⟩ }
  | enrichCommit {s : State} {fetched left : List Selection} {r : Selection}
      (atRow : s.enricher = some ⟨fetched, left, some (r, true)⟩) :
      Step nums hub limit s .enrichCommit
        { s with
          table := s.table.modify r.modelId (setColumns (updatesFor hub false r))
          enricher := some ⟨fetched, left, none⟩ }
  | backfillSelect {s : State} {missing : List Str} {updates : List (Str × ℤ)} (start : s.backfiller = none)
      (selected : Missing s.table missing) (parsed : updatesOf nums missing = some updates) :
      Step nums hub limit s .backfillSelect { s with backfiller := some ⟨updates, [], false⟩ }
  | backfillUpdate {s : State} {p : Str × ℤ} {left pending : List (Str × ℤ)}
      (atRow : s.backfiller = some ⟨p :: left, pending, false⟩) (unlocked : ¬ EnrichLocks s p.1) :
      Step nums hub limit s .backfillUpdate { s with backfiller := some ⟨left, pending ++ [p], false⟩ }
  | backfillCommit {s : State} {pending : List (Str × ℤ)} (atEnd : s.backfiller = some ⟨[], pending, false⟩) :
      Step nums hub limit s .backfillCommit
        { s with table := writeCounts s.table pending, backfiller := some ⟨[], [], true⟩ }

/-- both programs at their start -/
def start (t : Models) : State := ⟨t, none, none⟩

/-- both programs at their end -/
def Done (s : State) : Prop := (∃ fetched, s.enricher = some ⟨fetched, [], none⟩) ∧ s.backfiller = some ⟨[], [], true⟩

/-! ## Counts -/

/-- the committed count of a row -/
def count (t : Models) (id : Str) : Option ℤ := (t.get? id).bind ModelRow.parameterCount

/-- what the enrichment's UPDATE of a row does to the count: `none` does not name the column -/
def newCount (hub : Hub) (r : Selection) : Option (Option ℤ) := (updatesFor hub false r).parameterCount

/-- the exact count fetched for a row -/
def exactOf (hub : Hub) (s : State) (id : Str) : Option ℤ :=
  (s.enricher.bind fun e => e.fetched.find? fun r => r.modelId = id).bind fun r => (newCount hub r).join

/-- the size of an id -/
def nominal (nums : Numerals) (id : Str) : Option ℤ := (parseParamsFromId nums id).join

/-- the condition on a step, in the state before it -/
def Meets (hub : Hub) (s : State) : Action → Prop
  | .enrichUpdate => ∀ fetched left r, s.enricher = some ⟨fetched, left, some (r, false)⟩ →
      newCount hub r = some none → count s.table r.modelId = none
  | .backfillUpdate => ∀ p left pending, s.backfiller = some ⟨p :: left, pending, false⟩ →
      count s.table p.1 = none ∨ count s.table p.1 = some p.2
  | _ => True

theorem count_modify (t : Models) (u : Updates) (id id' : Str) :
    count (t.modify id (setColumns u)) id' =
      if id' = id ∧ id ∈ t.keys then u.parameterCount.getD (count t id) else count t id' := by
  unfold count
  rw [Dict.get?_modify]
  by_cases h : id' = id
  · subst h
    cases hget : t.get? id' with
    | none =>
      have hno : id' ∉ t.keys := Dict.get?_eq_none.1 hget
      simp [hno]
    | some r =>
      have hin : id' ∈ t.keys := Dict.get?_isSome.1 (by rw [hget]; rfl)
      simp [hin]
  · simp [h]

/-- a committed backfill: a row among the updates has its size, the others keep their count -/
theorem count_writeCounts {t : Models} {ps : List (Str × ℤ)} (hn : (ps.map Prod.fst).Nodup) (hkeys : ∀ p ∈ ps, p.1 ∈ t.keys)
    (id : Str) :
    (∃ p ∈ ps, p.1 = id ∧ count (writeCounts t ps) id = some p.2) ∨
      (id ∉ ps.map Prod.fst ∧ count (writeCounts t ps) id = count t id) := by
  by_cases hid : id ∈ ps.map Prod.fst
  · obtain ⟨p, hp, rfl⟩ := List.mem_map.1 hid
    obtain ⟨r, hr⟩ := Option.isSome_iff_exists.1 (Dict.get?_isSome.2 (hkeys p hp))
    refine .inl ⟨p, hp, rfl, ?_⟩
    rw [count, get?_writeCounts hn hp, hr]
    rfl
  · refine .inr ⟨hid, ?_⟩
    rw [count, get?_writeCounts_of_notMem hid, count]

theorem newCount_some {hub : Hub} {r : Selection} {x : Option ℤ} (h : newCount hub r = some x) : r.hasCount = false := by
  unfold newCount updatesFor at h
  cases hc : r.hasCount with
  | false => rfl
  | true => simp [hc] at h

/-! ## The invariant -/

/-- the enrichment, on a table and with the rows that the backfill has locked -/
structure EnrichInv (hub : Hub) (t0 table : Models) (locked : List Str) (e : Enricher) : Prop where
  nodup : ((e.fetched ++ e.left).map Selection.modelId).Nodup
  known : ∀ r ∈ e.fetched ++ e.left, r.modelId ∈ t0.keys
  /-- a row selected without a count had none at the start -/
  null : ∀ r ∈ e.fetched ++ e.left, r.hasCount = false → count t0 r.modelId = none
  current : ∀ r b, e.current = some (r, b) → r ∈ e.fetched
  /-- an exact count that is committed stays -/
  written : ∀ r ∈ e.fetched, (∀ b, e.current ≠ some (r, b)) → ∀ v, newCount hub r = some (some v) →
    count table r.modelId = some v
  /-- an UPDATE that waits for its commit -/
  waiting : ∀ r, e.current = some (r, true) →
    r.modelId ∉ locked ∧ (newCount hub r = some none → count table r.modelId = none)

/-- the backfill, on a table -/
structure BackfillInv (nums : Numerals) (t0 table : Models) (b : Backfiller) : Prop where
  nodup : ((b.left ++ b.pending).map Prod.fst).Nodup
  size : ∀ p ∈ b.left ++ b.pending, nominal nums p.1 = some p.2
  null : ∀ p ∈ b.left ++ b.pending, p.1 ∈ t0.keys ∧ count t0 p.1 = none
  pending : ∀ p ∈ b.pending, count table p.1 = none ∨ count table p.1 = some p.2
  /-- a row that still has no count is among the updates to come, if its id has a size -/
  covered : ∀ id ∈ t0.keys, count table id = none → ∀ n, nominal nums id = some n → (id, n) ∈ b.left ++ b.pending

/-- the rows that the backfill has locked -/
def lockedBy (b : Option Backfiller) : List Str := (b.map fun b => b.pending.map Prod.fst).getD []

structure Inv (nums : Numerals) (hub : Hub) (t0 : Models) (s : State) : Prop where
  keys : s.table.keys = t0.keys
  kept : ∀ id v, count t0 id = some v → count s.table id = some v
  /-- a count that was not there is a size or was fetched -/
  origin : ∀ id v, count s.table id = some v → count t0 id = none → nominal nums id = some v ∨
    ∃ e r, s.enricher = some e ∧ r ∈ e.fetched ∧ r.modelId = id ∧ newCount hub r = some (some v)
  enrich : ∀ e, s.enricher = some e → EnrichInv hub t0 s.table (lockedBy s.backfiller) e
  backfill : ∀ b, s.backfiller = some b → BackfillInv nums t0 s.table b

section Steps

variable {nums : Numerals} {hub : Hub} {limit : Option ℤ} {t0 : Models} {s : State}

/-- a row without a count has none since the start -/
theorem Inv.null (h : Inv nums hub t0 s) {id : Str} (hnull : count s.table id = none) : count t0 id = none := by
  cases h0 : count t0 id with
  | none => rfl
  | some v =>
    rw [h.kept id v h0] at hnull
    cases hnull

/-- a count that was not there is a size or that of a fetched row -/
theorem Inv.origin_fetched (h : Inv nums hub t0 s) {fetched left : List Selection} {current : Option (Selection × Bool)}
    (atRow : s.enricher = some ⟨fetched, left, current⟩) {id : Str} {v : ℤ} (hv : count s.table id = some v)
    (hnull : count t0 id = none) :
    nominal nums id = some v ∨ ∃ r ∈ fetched, r.modelId = id ∧ newCount hub r = some (some v) := by
  refine (h.origin id v hv hnull).imp_right fun hfetched => ?_
  obtain ⟨e, r, he, hr, hid, hnew⟩ := hfetched
  obtain rfl := Option.some.inj (atRow.symm.trans he)
  exact ⟨r, hr, hid, hnew⟩

theorem EnrichInv.fetched_nodup {table : Models} {locked : List Str} {e : Enricher} (h : EnrichInv hub t0 table locked e) :
    (e.fetched.map Selection.modelId).Nodup :=
  List.Nodup.sublist ((List.sublist_append_left _ _).map _) h.nodup

theorem inv_start (nums : Numerals) (hub : Hub) (t0 : Models) : Inv nums hub t0 (start t0) := by
  refine ⟨rfl, fun id v h => h, ?_, ?_, ?_⟩
  · intro id v h hnull
    rw [show count t0 id = some v from h] at hnull
    cases hnull
  · intro e he
    cases he
  · intro b hb
    cases hb

theorem inv_enrichSelect (h : Inv nums hub t0 s) {rows : List (Str × ModelRow)} (hstart : s.enricher = none)
    (selected : Selected s.table rows) :
    Inv nums hub t0 { s with enricher := some ⟨[], processed rows limit false, none⟩ } := by
  refine ⟨h.keys, h.kept, ?_, ?_, h.backfill⟩
  · intro id v hv hnull
    refine (h.origin id v hv hnull).imp_right fun hfetched => ?_
    obtain ⟨e, _, he, _⟩ := hfetched
    rw [hstart] at he
    cases he
  · intro e he
    obtain rfl := Option.some.inj he
    constructor
    case nodup => exact processed_nodup selected
    case known =>
      intro r hr
      obtain ⟨row, hrow, -⟩ := mem_processed selected hr
      rw [← h.keys]
      exact Dict.get?_isSome.1 (by rw [hrow]; rfl)
    case null =>
      intro r hr hno
      obtain ⟨row, hrow, hsel⟩ := mem_processed selected hr
      apply h.null
      rw [hsel] at hno
      rw [count, hrow]
      exact Option.isSome_eq_false_iff.1 hno |> Option.isNone_iff_eq_none.1
    case current =>
      intro r b hc
      cases hc
    case written =>
      intro r hr
      cases hr
    case waiting =>
      intro r hc
      cases hc

theorem inv_enrichFetch (h : Inv nums hub t0 s) {fetched left : List Selection} {r : Selection}
    (atRow : s.enricher = some ⟨fetched, r :: left, none⟩) :
    Inv nums hub t0 { s with enricher := some ⟨fetched ++ [r], left, some (r, false)⟩ } := by
  have he := h.enrich _ atRow
  have hsplit : fetched ++ [r] ++ left = fetched ++ r :: left := List.append_assoc _ _ _
  refine ⟨h.keys, h.kept, ?_, ?_, h.backfill⟩
  · intro id v hv hnull
    rcases h.origin_fetched atRow hv hnull with hsize | ⟨r', hr', hid, hnew⟩
    · exact .inl hsize
    · exact .inr ⟨_, r', rfl, List.mem_append_left _ hr', hid, hnew⟩
  · intro e he'
    obtain rfl := Option.some.inj he'
    constructor
    case nodup =>
      rw [hsplit]
      exact he.nodup
    case known =>
      rw [hsplit]
      exact he.known
    case null =>
      rw [hsplit]
      exact he.null
    case current =>
      intro r' b hc
      obtain ⟨rfl, -⟩ := Prod.mk.inj (Option.some.inj hc)
      exact List.mem_append_right _ (List.mem_singleton_self _)
    case written =>
      intro r' hr' hcurrent
      rcases List.mem_append.1 hr' with hr' | hr'
      · exact he.written r' hr' fun b hb => by cases hb
      · rw [List.mem_singleton.1 hr'] at hcurrent
        exact absurd rfl (hcurrent false)
    case waiting =>
      intro r' hc
      cases hc

theorem inv_enrichUpdate (h : Inv nums hub t0 s) {fetched left : List Selection} {r : Selection}
    (atRow : s.enricher = some ⟨fetched, left, some (r, false)⟩) (unlocked : ¬ BackfillLocks s r.modelId)
    (hmeets : Meets hub s .enrichUpdate) :
    Inv nums hub t0 { s with enricher := some ⟨fetched, left, some (r, true)⟩ } := by
  have he := h.enrich _ atRow
  refine ⟨h.keys, h.kept, ?_, ?_, h.backfill⟩
  · intro id v hv hnull
    rcases h.origin_fetched atRow hv hnull with hsize | ⟨r', hr', hid, hnew⟩
    · exact .inl hsize
    · exact .inr ⟨_, r', rfl, hr', hid, hnew⟩
  · intro e he'
    obtain rfl := Option.some.inj he'
    refine ⟨he.nodup, he.known, he.null, ?_, ?_, ?_⟩
    · intro r' b hc
      obtain ⟨rfl, -⟩ := Prod.mk.inj (Option.some.inj hc)
      exact he.current r false rfl
    · intro r' hr' hcurrent
      apply he.written r' hr'
      intro b hb
      obtain ⟨rfl, -⟩ := Prod.mk.inj (Option.some.inj hb)
      exact hcurrent true rfl
    · intro r' hc
      obtain ⟨rfl, -⟩ := Prod.mk.inj (Option.some.inj hc)
      refine ⟨?_, hmeets fetched left r atRow⟩
      intro hlocked
      apply unlocked
      cases hb : s.backfiller with
      | none =>
        rw [lockedBy, hb] at hlocked
        cases hlocked
      | some b =>
        rw [lockedBy, hb] at hlocked
        exact ⟨b, hb, hlocked⟩

/-- the counts after the commit of a row -/
theorem count_enrichCommit (h : Inv nums hub t0 s) {fetched left : List Selection} {r : Selection}
    (atRow : s.enricher = some ⟨fetched, left, some (r, true)⟩) (id : Str) :
    count (s.table.modify r.modelId (setColumns (updatesFor hub false r))) id =
      if id = r.modelId then (newCount hub r).getD (count s.table id) else count s.table id := by
  have he := h.enrich _ atRow
  have hkey : r.modelId ∈ s.table.keys := by
    rw [h.keys]
    exact he.known r (List.mem_append_left _ (he.current r true rfl))
  rw [count_modify]
  by_cases hid : id = r.modelId
  · simp only [hid, hkey, and_self, if_true]
    rfl
  · simp only [hid, false_and, if_false]

/-- it replaces a count only by the one that was fetched -/
theorem keep_enrichCommit (h : Inv nums hub t0 s) {fetched left : List Selection} {r : Selection}
    (atRow : s.enricher = some ⟨fetched, left, some (r, true)⟩) {id : Str} {v : ℤ} (hv : count s.table id = some v) :
    count (s.table.modify r.modelId (setColumns (updatesFor hub false r))) id = some v ∨
      id = r.modelId ∧ ∃ w, newCount hub r = some (some w) := by
  rw [count_enrichCommit h atRow]
  split_ifs with hid
  · cases hnew : newCount hub r with
    | none => exact .inl hv
    | some x =>
      cases x with
      | none =>
        rw [hid, ((h.enrich _ atRow).waiting r rfl).2 hnew] at hv
        cases hv
      | some w => exact .inr ⟨hid, w, rfl⟩
  · exact .inl hv

theorem enricher_enrichCommit (h : Inv nums hub t0 s) {fetched left : List Selection} {r : Selection}
    (atRow : s.enricher = some ⟨fetched, left, some (r, true)⟩) :
    EnrichInv hub t0 (s.table.modify r.modelId (setColumns (updatesFor hub false r))) (lockedBy s.backfiller)
      ⟨fetched, left, none⟩ := by
  have he := h.enrich _ atRow
  refine ⟨he.nodup, he.known, he.null, fun r' b hc => ?_, fun r' hr' _ v hnew => ?_, fun r' hc => ?_⟩
  · cases hc
  · rw [count_enrichCommit h atRow]
    by_cases hid : r'.modelId = r.modelId
    · obtain rfl := List.inj_on_of_nodup_map he.fetched_nodup hr' (he.current r true rfl) hid
      rw [if_pos rfl, hnew]
      rfl
    · rw [if_neg hid]
      refine he.written r' hr' (fun b hb => ?_) v hnew
      obtain ⟨rfl, -⟩ := Prod.mk.inj (Option.some.inj hb)
      exact hid rfl
  · cases hc

/-- the row is not locked by the backfill, so no pending update meets the new count -/
theorem backfiller_enrichCommit (h : Inv nums hub t0 s) {fetched left : List Selection} {r : Selection}
    (atRow : s.enricher = some ⟨fetched, left, some (r, true)⟩) {b : Backfiller} (hb : s.backfiller = some b) :
    BackfillInv nums t0 (s.table.modify r.modelId (setColumns (updatesFor hub false r))) b := by
  have hbackfill := h.backfill b hb
  have hcount := count_enrichCommit h atRow
  refine ⟨hbackfill.nodup, hbackfill.size, hbackfill.null, fun p hp => ?_, fun id hin hid n hn => ?_⟩
  · have hid : p.1 ≠ r.modelId := by
      intro hid
      apply ((h.enrich _ atRow).waiting r rfl).1
      rw [lockedBy, hb, ← hid]
      exact List.mem_map_of_mem hp
    rw [hcount, if_neg hid]
    exact hbackfill.pending p hp
  · apply hbackfill.covered id hin _ n hn
    cases hv : count s.table id with
    | none => rfl
    | some v =>
      rcases keep_enrichCommit h atRow hv with hkept | ⟨rfl, w, hnew⟩
      · exact hkept.symm.trans hid
      · rw [hcount, if_pos rfl, hnew] at hid
        cases hid

theorem inv_enrichCommit (h : Inv nums hub t0 s) {fetched left : List Selection} {r : Selection}
    (atRow : s.enricher = some ⟨fetched, left, some (r, true)⟩) :
    Inv nums hub t0
      { s with
        table := s.table.modify r.modelId (setColumns (updatesFor hub false r))
        enricher := some ⟨fetched, left, none⟩ } := by
  have he := h.enrich _ atRow
  have hr : r ∈ fetched := he.current r true rfl
  constructor
  case keys => exact (Dict.keys_modify _ _ _).trans h.keys
  case kept =>
    intro id v hv
    refine (keep_enrichCommit h atRow (h.kept id v hv)).resolve_right fun hreplaced => ?_
    obtain ⟨rfl, w, hnew⟩ := hreplaced
    rw [he.null r (List.mem_append_left _ hr) (newCount_some hnew)] at hv
    cases hv
  case origin =>
    intro id v hv h0
    -- the count is the old one, or the row's UPDATE wrote it
    have hcases : count s.table id = some v ∨ id = r.modelId ∧ newCount hub r = some (some v) := by
      rw [count_enrichCommit h atRow] at hv
      split_ifs at hv with hid
      · cases hnew : newCount hub r with
        | none =>
          rw [hnew] at hv
          exact .inl hv
        | some x =>
          rw [hnew] at hv
          exact .inr ⟨hid, congrArg some hv⟩
      · exact .inl hv
    rcases hcases with hv | ⟨rfl, hnew⟩
    · rcases h.origin_fetched atRow hv h0 with hsize | ⟨r', hr', hid, hnew⟩
      · exact .inl hsize
      · exact .inr ⟨_, r', rfl, hr', hid, hnew⟩
    · exact .inr ⟨_, r, rfl, hr, rfl, hnew⟩
  case enrich =>
    intro e he'
    obtain rfl := Option.some.inj he'
    exact enricher_enrichCommit h atRow
  case backfill => exact fun b hb => backfiller_enrichCommit h atRow hb

theorem inv_backfillSelect (h : Inv nums hub t0 s) {missing : List Str} {updates : List (Str × ℤ)}
    (selected : Missing s.table missing) (parsed : updatesOf nums missing = some updates) :
    Inv nums hub t0 { s with backfiller := some ⟨updates, [], false⟩ } := by
  have hsizes : updates = sizes nums missing := (updatesOf_spec parsed).2
  have hmissing {id : Str} (hid : id ∈ missing) : id ∈ t0.keys ∧ count s.table id = none := by
    obtain ⟨row, hrow, hnull⟩ := (mem_missing selected).1 hid
    refine ⟨?_, by rw [count, hrow]; exact hnull⟩
    rw [← h.keys]
    exact Dict.get?_isSome.1 (by rw [hrow]; rfl)
  refine ⟨h.keys, h.kept, h.origin, ?_, ?_⟩
  · intro e he
    have he' := h.enrich e he
    exact ⟨he'.nodup, he'.known, he'.null, he'.current, he'.written, fun r hr => ⟨List.not_mem_nil, (he'.waiting r hr).2⟩⟩
  · intro b hb
    obtain rfl := Option.some.inj hb
    rw [hsizes]
    constructor
    case nodup =>
      rw [List.append_nil]
      exact sizes_nodup (missing_nodup selected)
    case size =>
      intro p hp
      exact (mem_sizes.1 (List.append_nil _ ▸ hp)).2
    case null =>
      intro p hp
      obtain ⟨hin, hnull⟩ := hmissing (mem_sizes.1 (List.append_nil _ ▸ hp)).1
      exact ⟨hin, h.null hnull⟩
    case pending =>
      intro p hp
      cases hp
    case covered =>
      intro id hin hnull n hn
      obtain ⟨row, hrow⟩ := Option.isSome_iff_exists.1 (Dict.get?_isSome.2 (h.keys.symm ▸ hin : id ∈ s.table.keys))
      have hid : id ∈ missing := by
        refine (mem_missing selected).2 ⟨row, hrow, ?_⟩
        have hnull' : count s.table id = none := hnull
        rw [count, hrow] at hnull'
        exact hnull'
      exact List.mem_append_left _ (mem_sizes.2 ⟨hid, hn⟩)

theorem inv_backfillUpdate (h : Inv nums hub t0 s) {p : Str × ℤ} {left pending : List (Str × ℤ)}
    (atRow : s.backfiller = some ⟨p :: left, pending, false⟩) (unlocked : ¬ EnrichLocks s p.1)
    (hmeets : Meets hub s .backfillUpdate) :
    Inv nums hub t0 { s with backfiller := some ⟨left, pending ++ [p], false⟩ } := by
  have hb := h.backfill _ atRow
  have hperm : (left ++ (pending ++ [p])).Perm (p :: left ++ pending) := by
    rw [← List.append_assoc]
    exact List.perm_append_singleton p (left ++ pending)
  refine ⟨h.keys, h.kept, h.origin, ?_, ?_⟩
  · intro e he
    have he' := h.enrich e he
    refine ⟨he'.nodup, he'.known, he'.null, he'.current, he'.written, fun r hr => ?_⟩
    obtain ⟨hfree, hnull⟩ := he'.waiting r hr
    refine ⟨?_, hnull⟩
    intro hlocked
    have hcases : r.modelId ∈ pending.map Prod.fst ∨ r.modelId = p.1 := by
      simpa [lockedBy, eq_comm] using hlocked
    rcases hcases with hin | hid
    · apply hfree
      rw [lockedBy, atRow]
      exact hin
    · exact unlocked ⟨e, r, he, hr, hid⟩
  · intro b hb'
    obtain rfl := Option.some.inj hb'
    constructor
    case nodup => exact (hperm.map Prod.fst).nodup_iff.2 hb.nodup
    case size => exact fun q hq => hb.size q (hperm.mem_iff.1 hq)
    case null => exact fun q hq => hb.null q (hperm.mem_iff.1 hq)
    case pending =>
      intro q hq
      rcases List.mem_append.1 hq with hq | hq
      · exact hb.pending q hq
      · rw [List.mem_singleton.1 hq]
        exact hmeets p left pending atRow
    case covered => exact fun id hin hnull n hn => hperm.mem_iff.2 (hb.covered id hin hnull n hn)

/-- the counts after the commit of the backfill -/
theorem count_backfillCommit (h : Inv nums hub t0 s) {pending : List (Str × ℤ)}
    (atEnd : s.backfiller = some ⟨[], pending, false⟩) (id : Str) :
    (∃ p ∈ pending, p.1 = id ∧ count (writeCounts s.table pending) id = some p.2) ∨
      (id ∉ pending.map Prod.fst ∧ count (writeCounts s.table pending) id = count s.table id) := by
  have hb := h.backfill _ atEnd
  exact count_writeCounts hb.nodup (fun p hp => h.keys.symm ▸ (hb.null p hp).1) id

/-- it keeps the counts that are there: an update of such a row writes the same -/
theorem keep_backfillCommit (h : Inv nums hub t0 s) {pending : List (Str × ℤ)}
    (atEnd : s.backfiller = some ⟨[], pending, false⟩) {id : Str} {v : ℤ} (hv : count s.table id = some v) :
    count (writeCounts s.table pending) id = some v := by
  rcases count_backfillCommit h atEnd id with ⟨p, hp, rfl, hw⟩ | ⟨-, hw⟩
  · rcases (h.backfill _ atEnd).pending p hp with hnone | hsome
    · rw [hnone] at hv
      cases hv
    · exact hw.trans (hsome.symm.trans hv)
  · exact hw.trans hv

theorem inv_backfillCommit (h : Inv nums hub t0 s) {pending : List (Str × ℤ)}
    (atEnd : s.backfiller = some ⟨[], pending, false⟩) :
    Inv nums hub t0 { s with table := writeCounts s.table pending, backfiller := some ⟨[], [], true⟩ } := by
  have hb := h.backfill _ atEnd
  have hcount := count_backfillCommit h atEnd
  constructor
  case keys => exact (keys_writeCounts _ _).trans h.keys
  case kept => exact fun id v hv => keep_backfillCommit h atEnd (h.kept id v hv)
  case origin =>
    intro id v hv h0
    rcases hcount id with ⟨p, hp, rfl, hw⟩ | ⟨-, hw⟩
    · left
      rw [hb.size p hp]
      exact hw.symm.trans hv
    · exact h.origin id v (hw.symm.trans hv) h0
  case enrich =>
    intro e he
    have he' := h.enrich e he
    refine ⟨he'.nodup, he'.known, he'.null, he'.current, ?_, ?_⟩
    · exact fun r hr hcurrent v hnew => keep_backfillCommit h atEnd (he'.written r hr hcurrent v hnew)
    · intro r hr
      obtain ⟨hfree, hnull⟩ := he'.waiting r hr
      refine ⟨List.not_mem_nil, fun hnew => ?_⟩
      rcases hcount r.modelId with ⟨p, hp, hid, -⟩ | ⟨-, hw⟩
      · exfalso
        apply hfree
        rw [lockedBy, atEnd, ← hid]
        exact List.mem_map_of_mem hp
      · exact hw.trans (hnull hnew)
  case backfill =>
    intro b hb'
    obtain rfl := Option.some.inj hb'
    refine ⟨List.nodup_nil, ?_, ?_, ?_, ?_⟩
    · intro p hp
      cases hp
    · intro p hp
      cases hp
    · intro p hp
      cases hp
    · -- a row that still has no count was not among the updates
      intro id hin hnull n hn
      rcases hcount id with ⟨p, -, -, hw⟩ | ⟨hno, hw⟩
      · exact absurd (hw.symm.trans hnull) (Option.some_ne_none _)
      · have hin' := hb.covered id hin (hw.symm.trans hnull) n hn
        exact absurd (List.mem_map_of_mem (f := Prod.fst) hin') hno

/-- **A step that meets the condition keeps the invariant.** -/
theorem step_inv {s' : State} {a : Action} (h : Inv nums hub t0 s) (hstep : Step nums hub limit s a s')
    (hmeets : Meets hub s a) : Inv nums hub t0 s' := by
  cases hstep with
  | enrichSelect hstart selected => exact inv_enrichSelect h hstart selected
  | enrichFetch atRow => exact inv_enrichFetch h atRow
  | enrichUpdate atRow unlocked => exact inv_enrichUpdate h atRow unlocked hmeets
  | enrichCommit atRow => exact inv_enrichCommit h atRow
  | backfillSelect _ selected parsed => exact inv_backfillSelect h selected parsed
  | backfillUpdate atRow unlocked => exact inv_backfillUpdate h atRow unlocked hmeets
  | backfillCommit atEnd => exact inv_backfillCommit h atEnd

end Steps

/-! ## Runs -/

/-- the states that are reached by steps that satisfy a condition -/
inductive Run (nums : Numerals) (hub : Hub) (limit : Option ℤ) (cond : State → Action → Prop) (s0 : State) : State → Prop where
  | start : Run nums hub limit cond s0 s0
  | step {s s' : State} {a : Action} (run : Run nums hub limit cond s0 s) (step : Step nums hub limit s a s')
      (meets : cond s a) : Run nums hub limit cond s0 s'

/-- a step resets no count, and replaces one only by the exact count that was fetched for its row -/
def NoLoss (hub : Hub) (s s' : State) : Prop :=
  ∀ id v, count s.table id = some v → ∃ v', count s'.table id = some v' ∧ (v' = v ∨ exactOf hub s' id = some v')

/-- the exact count if it was fetched, else the size of the id, in every row that had no count; the others keep theirs -/
def Outcome (nums : Numerals) (hub : Hub) (t0 : Models) (s : State) : Prop :=
  ∀ id ∈ t0.keys, (count t0 id = none → count s.table id = (exactOf hub s id).or (nominal nums id)) ∧
    ∀ v, count t0 id = some v → count s.table id = some v

variable {nums : Numerals} {hub : Hub} {limit : Option ℤ} {t0 : Models} {s : State}

theorem run_inv (h : Run nums hub limit (Meets hub) (start t0) s) : Inv nums hub t0 s := by
  induction h with
  | start => exact inv_start nums hub t0
  | step _ hstep hmeets ih => exact step_inv ih hstep hmeets

/-- the first fetched row of an id is the only one -/
theorem exactOf_eq {fetched left : List Selection} {current : Option (Selection × Bool)}
    (henricher : s.enricher = some ⟨fetched, left, current⟩) (hn : (fetched.map Selection.modelId).Nodup) {r : Selection}
    (hr : r ∈ fetched) : exactOf hub s r.modelId = (newCount hub r).join := by
  have hfind : (fetched.find? fun r' => r'.modelId = r.modelId) = some r := by
    cases hf : fetched.find? fun r' => r'.modelId = r.modelId with
    | none =>
      rw [List.find?_eq_none] at hf
      exact absurd (decide_eq_true rfl) (hf r hr)
    | some r' =>
      have hid : r'.modelId = r.modelId := by simpa using List.find?_some hf
      rw [List.inj_on_of_nodup_map hn (List.mem_of_find?_eq_some hf) hr hid]
  rw [exactOf, henricher, Option.bind_some, hfind, Option.bind_some]

theorem noLoss_of_step {s' : State} {a : Action} (h : Inv nums hub t0 s) (hstep : Step nums hub limit s a s') :
    NoLoss hub s s' := by
  intro id v hv
  cases hstep with
  | @enrichCommit fetched left r atRow =>
    rcases keep_enrichCommit h atRow hv with hkept | ⟨rfl, w, hnew⟩
    · exact ⟨v, hkept, .inl rfl⟩
    · have he := h.enrich _ atRow
      refine ⟨w, ?_, .inr ?_⟩
      · exact (count_enrichCommit h atRow r.modelId).trans (by rw [if_pos rfl, hnew]; rfl)
      · rw [exactOf_eq rfl he.fetched_nodup (he.current r true rfl), hnew]
        rfl
  | backfillCommit atEnd => exact ⟨v, keep_backfillCommit h atEnd hv, .inl rfl⟩
  | enrichSelect => exact ⟨v, hv, .inl rfl⟩
  | enrichFetch => exact ⟨v, hv, .inl rfl⟩
  | enrichUpdate => exact ⟨v, hv, .inl rfl⟩
  | backfillSelect => exact ⟨v, hv, .inl rfl⟩
  | backfillUpdate => exact ⟨v, hv, .inl rfl⟩

theorem outcome_of_done (h : Inv nums hub t0 s) (hdone : Done s) : Outcome nums hub t0 s := by
  obtain ⟨⟨fetched, henricher⟩, hbackfiller⟩ := hdone
  have he := h.enrich _ henricher
  have hb := h.backfill _ hbackfiller
  intro id hin
  refine ⟨fun h0 => ?_, h.kept id⟩
  cases hexact : exactOf hub s id with
  | some v =>
    -- fetched, so committed
    rw [exactOf, henricher, Option.bind_some] at hexact
    obtain ⟨r, hfind, hjoin⟩ := Option.bind_eq_some_iff.1 hexact
    have hr := List.mem_of_find?_eq_some hfind
    have hid : r.modelId = id := by simpa using List.find?_some hfind
    have hnew : newCount hub r = some (some v) := Option.join_eq_some_iff.1 hjoin
    rw [← hid]
    exact he.written r hr (fun b hc => by cases hc) v hnew
  | none =>
    rw [Option.none_or]
    cases hv : count s.table id with
    | none =>
      -- nothing is left for the backfill
      cases hsize : nominal nums id with
      | none => rfl
      | some n => exact absurd (hb.covered id hin hv n hsize) List.not_mem_nil
    | some v =>
      rcases h.origin_fetched henricher hv h0 with hsize | ⟨r, hr, rfl, hnew⟩
      · exact hsize.symm
      · rw [exactOf_eq henricher he.fetched_nodup hr, hnew] at hexact
        cases hexact

/-- nothing is lost from a state on, and the counts are right if both programs are at their end -/
structure NoLostUpdate (nums : Numerals) (hub : Hub) (limit : Option ℤ) (t0 : Models) (s : State) : Prop where
  step : ∀ a s', Step nums hub limit s a s' → NoLoss hub s s'
  done : Done s → Outcome nums hub t0 s

/-- **No update is lost in a run whose steps all meet the condition**, in every state that it reaches. -/
theorem no_lost_update (h : Run nums hub limit (Meets hub) (start t0) s) : NoLostUpdate nums hub limit t0 s :=
  ⟨fun _ _ hstep => noLoss_of_step (run_inv h) hstep, outcome_of_done (run_inv h)⟩

/-! ## Two runs -/

/-- the product in exact arithmetic -/
def exactNumerals : Numerals where
  isDecimal := Char.isDigit
  product digits mult :=
    let fraction := (digits.dropWhile (· ≠ '.')).drop 1
    some (Nat.ofDigitChars 10 (digits.takeWhile (· ≠ '.')) 0 * mult +
      Nat.ofDigitChars 10 fraction 0 * mult / 10 ^ fraction.length : ℕ)
  isDecimal_ascii _ _ := rfl

/-- no card, and an exact count -/
def exactHub : Hub := ⟨fun _ _ => .entryNotFound, fun _ _ => .info (some (some 7241732096))⟩

/-- a row of which only the id and the count are known -/
def bareRow (parameterCount : Option ℤ) : ModelRow :=
  ⟨none, none, none, none, none, none, none, none, none, parameterCount, none⟩

/-- one model with a size in its id -/
def bareTable (parameterCount : Option ℤ) : Models := ⟨[("org/m-7b".toList, bareRow parameterCount)], List.nodup_singleton _⟩

def bareSelection : Selection := ⟨"org/m-7b".toList, false, false⟩

/-- the update of the backfill -/
def bareSize : Str × ℤ := ("org/m-7b".toList, 7000000000)

/-- the enrichment after its only row -/
def enriched : Enricher := ⟨[bareSelection], [], none⟩

theorem bare_selected : Selected (bareTable none) (bareTable none).entries := ⟨List.Perm.refl _, by decide⟩

theorem bare_missing : Missing (bareTable none) ["org/m-7b".toList] := by
  rw [Missing, show (((bareTable none).entries.filter fun e => e.2.parameterCount.isNone).map Prod.fst) =
    ["org/m-7b".toList] from by decide]

theorem bare_sizes : updatesOf exactNumerals ["org/m-7b".toList] = some [bareSize] := by decide +kernel

theorem bare_processed : processed (bareTable none).entries none false = [bareSelection] := by decide

theorem bare_commit (c : Option ℤ) :
    (bareTable c).modify bareSelection.modelId (setColumns (updatesFor exactHub false bareSelection)) =
      bareTable (some 7241732096) := rfl

theorem bare_write (c : Option ℤ) : writeCounts (bareTable c) [bareSize] = bareTable (some 7000000000) := rfl

/-- the enrichment selects its only row and fetches for it -/
theorem run_fetch (cond : State → Action → Prop) (hcond : ∀ s, cond s .enrichSelect ∧ cond s .enrichFetch) :
    Run exactNumerals exactHub none cond (start (bareTable none))
      ⟨bareTable none, some ⟨[bareSelection], [], some (bareSelection, false)⟩, none⟩ := by
  have hselect : Step exactNumerals exactHub none (start (bareTable none)) .enrichSelect
      ⟨bareTable none, some ⟨[], [bareSelection], none⟩, none⟩ := by
    rw [← bare_processed]
    exact .enrichSelect rfl bare_selected
  have hfetch : Step exactNumerals exactHub none ⟨bareTable none, some ⟨[], [bareSelection], none⟩, none⟩ .enrichFetch
      ⟨bareTable none, some ⟨[bareSelection], [], some (bareSelection, false)⟩, none⟩ :=
    @Step.enrichFetch _ _ _ ⟨bareTable none, _, none⟩ [] [] bareSelection rfl
  exact .step (.step .start hselect (hcond _).1) hfetch (hcond _).2

/-- and the backfill selects the same row -/
theorem run_selected (cond : State → Action → Prop) (hcond : ∀ s, cond s .enrichSelect ∧ cond s .enrichFetch)
    (hselect : ∀ s, cond s .backfillSelect) :
    Run exactNumerals exactHub none cond (start (bareTable none))
      ⟨bareTable none, some ⟨[bareSelection], [], some (bareSelection, false)⟩, some ⟨[bareSize], [], false⟩⟩ :=
  .step (run_fetch cond hcond) (.backfillSelect rfl bare_missing bare_sizes) (hselect _)

/-- the enrichment commits the exact count -/
theorem step_enrichCommit (c : Option ℤ) (b : Option Backfiller) :
    Step exactNumerals exactHub none ⟨bareTable c, some ⟨[bareSelection], [], some (bareSelection, true)⟩, b⟩
      .enrichCommit ⟨bareTable (some 7241732096), some enriched, b⟩ := by
  rw [← bare_commit c]
  exact .enrichCommit rfl

/-- the backfill commits the size -/
theorem step_backfillCommit (c : Option ℤ) (e : Option Enricher) :
    Step exactNumerals exactHub none ⟨bareTable c, e, some ⟨[], [bareSize], false⟩⟩
      .backfillCommit ⟨bareTable (some 7000000000), e, some ⟨[], [], true⟩⟩ := by
  rw [← bare_write c]
  exact .backfillCommit rfl

/-- the backfill updates and commits while the enrichment fetches, whose exact count comes last -/
theorem no_lost_update_overlap :
    NoLostUpdate exactNumerals exactHub none (bareTable none) ⟨bareTable (some 7000000000),
        some ⟨[bareSelection], [], some (bareSelection, false)⟩, some ⟨[], [], true⟩⟩ ∧
      NoLostUpdate exactNumerals exactHub none (bareTable none)
        ⟨bareTable (some 7241732096), some enriched, some ⟨[], [], true⟩⟩ := by
  have hnew : newCount exactHub bareSelection = some (some 7241732096) := rfl
  have hfetching := run_selected (Meets exactHub) (fun s => ⟨trivial, trivial⟩) fun s => trivial
  have hupdated : Run exactNumerals exactHub none (Meets exactHub) (start (bareTable none)) ⟨bareTable none,
      some ⟨[bareSelection], [], some (bareSelection, false)⟩, some ⟨[], [bareSize], false⟩⟩ := by
    refine .step hfetching (@Step.backfillUpdate _ _ _ ⟨bareTable none, _, _⟩ bareSize [] [] rfl ?_) ?_
    · rintro ⟨e, r, he, hcurrent, -⟩
      obtain rfl := Option.some.inj he
      cases hcurrent
    · -- the count that the UPDATE meets is NULL
      intro p left pending hp
      obtain ⟨hleft, -⟩ := Backfiller.mk.inj (Option.some.inj hp)
      obtain ⟨rfl, -⟩ := List.cons.inj hleft
      exact .inl (by decide)
  have hfilled := Run.step hupdated (step_backfillCommit none _) trivial
  have hlocked : Run exactNumerals exactHub none (Meets exactHub) (start (bareTable none)) ⟨bareTable (some 7000000000),
      some ⟨[bareSelection], [], some (bareSelection, true)⟩, some ⟨[], [], true⟩⟩ := by
    refine .step hfilled (.enrichUpdate rfl ?_) ?_
    · rintro ⟨b, hb, hlocked⟩
      obtain rfl := Option.some.inj hb
      cases hlocked
    · intro fetched left r hr hnull
      obtain ⟨rfl, rfl, hcurrent⟩ := Enricher.mk.inj (Option.some.inj hr)
      obtain ⟨rfl, -⟩ := Prod.mk.inj (Option.some.inj hcurrent)
      rw [hnew] at hnull
      cases hnull
  exact ⟨no_lost_update hfilled, no_lost_update (.step hlocked (step_enrichCommit _ _) trivial)⟩

/-- **An exact count is overwritten.** The backfill selects before the enrichment commits the count, and updates after it. -/
theorem exact_overwritten :
    Run exactNumerals exactHub none (fun _ _ => True) (start (bareTable none))
        ⟨bareTable (some 7000000000), some enriched, some ⟨[], [], true⟩⟩ ∧
      Done ⟨bareTable (some 7000000000), some enriched, some ⟨[], [], true⟩⟩ ∧
      exactOf exactHub ⟨bareTable (some 7000000000), some enriched, some ⟨[], [], true⟩⟩ "org/m-7b".toList =
        some 7241732096 ∧
      ¬ Outcome exactNumerals exactHub (bareTable none)
        ⟨bareTable (some 7000000000), some enriched, some ⟨[], [], true⟩⟩ := by
  have h3 := run_selected (fun _ _ => True) (fun s => ⟨trivial, trivial⟩) fun s => trivial
  have h4 : Run exactNumerals exactHub none (fun _ _ => True) (start (bareTable none))
      ⟨bareTable none, some ⟨[bareSelection], [], some (bareSelection, true)⟩, some ⟨[bareSize], [], false⟩⟩ := by
    refine .step h3 (.enrichUpdate rfl ?_) trivial
    intro hlocks
    obtain ⟨b, hb, hlocked⟩ := hlocks
    obtain rfl := Option.some.inj hb
    cases hlocked
  have h5 := Run.step h4 (step_enrichCommit none _) trivial
  have h6 : Run exactNumerals exactHub none (fun _ _ => True) (start (bareTable none))
      ⟨bareTable (some 7241732096), some enriched, some ⟨[], [bareSize], false⟩⟩ := by
    refine .step h5 (@Step.backfillUpdate _ _ _ ⟨bareTable (some 7241732096), _, _⟩ bareSize [] [] rfl ?_) trivial
    intro hlocks
    obtain ⟨e, r, he, hcurrent, -⟩ := hlocks
    obtain rfl := Option.some.inj he
    cases hcurrent
  have hexact : exactOf exactHub ⟨bareTable (some 7000000000), some enriched, some ⟨[], [], true⟩⟩ "org/m-7b".toList =
      some 7241732096 := by decide
  refine ⟨.step h6 (step_backfillCommit _ _) trivial, ⟨⟨_, rfl⟩, rfl⟩, hexact, ?_⟩
  intro h
  have hright := (h "org/m-7b".toList (by decide)).1 (by decide)
  rw [hexact] at hright
  exact absurd hright (by decide)

end AgentPick.Overlap
