/-
One run of the vectorizer (`hf_vectorizer/vectorizer.py`, `process_model` and `run`).

Four pieces of state change at different lines: the writer's buffer, the file, the processed models (in memory and in
`processed_models.txt`) and the id counter, which `process_model` returns and any exception leaves as it was. A call ends
in one of five ways (`Outcome`):
- `skipped`: no record was handed to the writer;
- `kept`: `add` or `flush` raised, the records stay in the buffer;
- `unlisted`: the rows are written, the line is not;
- `unfinished`: the rows and the line are written, the counter does not move;
- `recorded`: rows, line and counter.
`processed_models.txt` is the list of its lines (an id holds no line break).

Results:
- `processModel_cases`: all that one call can do.
- `step_inv`, `run_inv`: in a run from an empty data directory, what the file, the buffer and the lines hold after any
  pattern of outcomes.
- `intact_iff`: the ids in the file are distinct, every row belongs to a listed model and each listed model has exactly
  the records of one call, if and only if no rows went unlisted, no flush wrote anything after a failed call, and the
  final flush raised if records were kept.
- `kept_records_contaminate`: a flush that raises once leaves two rows with one id and a row of an unlisted model.
-/
import Mathlib.Tactic
import AgentPick.Pipeline.Storage

namespace AgentPick.Vectorizer

open AgentPick.Records AgentPick.Storage

/-! ## The model -/

/-- appending the line to `processed_models.txt`; the block may raise before or after the line is in the file -/
inductive Mark where
  | done
  | failsBefore
  | failsAfter
deriving DecidableEq, Repr

/-- one call of `process_model`: the outside world's answers and which calls raise -/
structure Task where
  call : Call
  addFault : Fault
  flushFault : Fault
  mark : Mark

/-- the data directory and the vectorizer working on it -/
structure Data where
  store : Store
  /-- `self.processed` -/
  processed : List Str
  /-- `processed_models.txt` -/
  lines : List Str
deriving DecidableEq, Repr

/-- `HFModelVectorizer.__init__` on a data directory -/
def Data.new (file : Option PFile) (lines : List Str) : Data := ⟨Store.new file, lines, lines⟩

def Data.rows (d : Data) : List Record := rowsOf d.store.file

/-- how a call ended; the source only logs it -/
inductive Outcome where
  | skipped
  | kept
  | unlisted
  | unfinished
  | recorded
deriving DecidableEq, Repr

/-- the call raised after it had handed records to the writer, and changed something -/
def Outcome.failed : Outcome → Bool
  | .kept | .unlisted | .unfinished => true
  | .skipped | .recorded => false

/-- the call's flush wrote the buffer -/
def Outcome.wrote : Outcome → Bool
  | .unlisted | .unfinished | .recorded => true
  | .skipped | .kept => false

section Model

variable (embed : Str → Vec) (batchSize : ℕ)

/-- `process_model` -/
def processModel (t : Task) (d : Data) (pointId : ℕ) : Outcome × Data × ℕ :=
  if t.call.modelId ∈ d.processed then (.skipped, d, pointId)
  else
    match prepare embed batchSize t.call pointId with
    | .error _ => (.skipped, d, pointId)
    | .ok records =>
      match write t.addFault t.flushFault records d.store with
      | (store, false) => (.kept, { d with store := store }, pointId)
      | (store, true) =>
        let d1 := { d with store := store, processed := d.processed ++ [t.call.modelId] }
        match t.mark with
        | .failsBefore => (.unlisted, d1, pointId)
        | .failsAfter => (.unfinished, { d1 with lines := d.lines ++ [t.call.modelId] }, pointId)
        | .done => (.recorded, { d1 with lines := d.lines ++ [t.call.modelId] }, pointId + records.length)

/-- the state of the loop over the models, with the outcomes so far -/
structure Progress where
  outcomes : List Outcome
  data : Data
  pointId : ℕ
deriving DecidableEq, Repr

def advance (st : Progress) (t : Task) : Progress :=
  let s := processModel embed batchSize t st.data st.pointId
  ⟨st.outcomes ++ [s.1], s.2.1, s.2.2⟩

/-- `for model_id in models` -/
def runModels (tasks : List Task) (st : Progress) : Progress := tasks.foldl (advance embed batchSize) st

/-- the point id a run starts from, `none` when the file cannot be read -/
def resumePoint : Option PFile → Option ℕ
  | none => some 0
  | some f =>
    if f.closed then some (if f.rows = [] then 0 else (f.rows.map Record.id).foldl max 0 + 1) else none

/-- `pq.ParquetFile(path)` for the final statistics -/
def readable : Option PFile → Bool
  | none => true
  | some f => f.closed

/-- the final flush and close, and the statistics; whether they all returned -/
def finish (finalFault : Fault) (closeRaises : Bool) (d : Data) : Data × Bool :=
  match flush finalFault d.store with
  | (store, false) => ({ d with store := store }, false)
  | (store, true) =>
    match close closeRaises store with
    | (store, ok) => ({ d with store := store }, ok && readable store.file)

/-- `run`: the outcomes of its calls, the data directory after it, and whether it completed -/
def run (tasks : List Task) (finalFault : Fault) (closeRaises : Bool) (d : Data) : List Outcome × Data × Bool :=
  match resumePoint d.store.file with
  | none => ([], d, false)
  | some pointId =>
    let st := runModels embed batchSize tasks ⟨[], d, pointId⟩
    (st.outcomes, finish finalFault closeRaises st.data)

/-! ## One call -/

/-- all that one call can do -/
theorem processModel_cases (t : Task) (d : Data) (pointId : ℕ) :
    processModel embed batchSize t d pointId = (.skipped, d, pointId) ∨
    ∃ records, t.call.modelId ∉ d.processed ∧ prepare embed batchSize t.call pointId = .ok records ∧
      ∃ store,
        (write t.addFault t.flushFault records d.store = (store, false) ∧
          processModel embed batchSize t d pointId = (.kept, { d with store := store }, pointId)) ∨
        (write t.addFault t.flushFault records d.store = (store, true) ∧
          (processModel embed batchSize t d pointId =
            (.unlisted, ⟨store, d.processed ++ [t.call.modelId], d.lines⟩, pointId) ∨
          ∃ o p, (o = .unfinished ∧ p = pointId ∨ o = .recorded ∧ p = pointId + records.length) ∧
            processModel embed batchSize t d pointId =
              (o, ⟨store, d.processed ++ [t.call.modelId], d.lines ++ [t.call.modelId]⟩, p))) := by
  by_cases hm : t.call.modelId ∈ d.processed
  · exact Or.inl (by simp [processModel, hm])
  cases hp : prepare embed batchSize t.call pointId with
  | error e => exact Or.inl (by simp [processModel, hm, hp])
  | ok records =>
    refine Or.inr ⟨records, hm, rfl, ?_⟩
    rcases hw : write t.addFault t.flushFault records d.store with ⟨store, ok⟩
    refine ⟨store, ?_⟩
    cases ok with
    | false => exact Or.inl ⟨rfl, by simp [processModel, hm, hp, hw]⟩
    | true =>
      refine Or.inr ⟨rfl, ?_⟩
      cases hk : t.mark with
      | failsBefore => exact Or.inl (by simp [processModel, hm, hp, hw, hk])
      | failsAfter => exact Or.inr ⟨_, _, Or.inl ⟨rfl, rfl⟩, by simp [processModel, hm, hp, hw, hk]⟩
      | done => exact Or.inr ⟨_, _, Or.inr ⟨rfl, rfl⟩, by simp [processModel, hm, hp, hw, hk]⟩

/-! ## What a run leaves behind -/

/-- distinct ids, no row without its line, and each listed model's rows are the records of one of its calls -/
structure Intact (tasks : List Task) (d : Data) : Prop where
  ids : (d.rows.map Record.id).Nodup
  listed : ∀ r ∈ d.rows, r.modelId ∈ d.lines
  once : ∀ m ∈ d.lines, ∃ t ∈ tasks, t.call.modelId = m ∧
    ∃ p, prepare embed batchSize t.call p = .ok (d.rows.filter fun r => r.modelId = m)

/-- no rows went unlisted, and after a failed call nothing was written -/
def Clean (os : List Outcome) : Prop :=
  .unlisted ∉ os ∧ os.Pairwise fun a b => a.failed → b.wrote = false

theorem clean_snoc (os : List Outcome) (o : Outcome) :
    Clean (os ++ [o]) ↔ Clean os ∧ o ≠ .unlisted ∧ ((∃ a ∈ os, a.failed) → o.wrote = false) := by
  simp only [Clean, List.mem_append, List.mem_singleton, not_or, List.pairwise_append, List.pairwise_singleton,
    true_and, forall_eq, ne_eq, eq_comm (a := Outcome.unlisted)]
  refine ⟨?_, ?_⟩
  · rintro ⟨⟨h1, h2⟩, h3, h4⟩
    exact ⟨⟨h1, h3⟩, h2, fun ⟨a, ha, hf⟩ => h4 a ha hf⟩
  · rintro ⟨⟨h1, h3⟩, h2, h4⟩
    exact ⟨⟨h1, h2⟩, h3, fun a ha hf => h4 ⟨a, ha, hf⟩⟩

/-- an id occurs twice, or a row's model was added to `self.processed` without its line -/
def Broken (d : Data) : Prop :=
  ¬ (d.rows.map Record.id).Nodup ∨ ∃ r ∈ d.rows, r.modelId ∈ d.processed ∧ r.modelId ∉ d.lines

/-- rows are only appended and a line is only added for a model that was not processed: broken stays broken -/
theorem Broken.mono {d d' : Data} (h : Broken d) (rows : List Record) (hr : d'.rows = d.rows ++ rows)
    (hp : ∀ m ∈ d.processed, m ∈ d'.processed) (hl : ∀ m ∈ d'.lines, m ∈ d.lines ∨ m ∉ d.processed) : Broken d' := by
  rcases h with h | ⟨r, hr', hp', hl'⟩
  · refine Or.inl fun hn => h ?_
    rw [hr, List.map_append] at hn
    exact hn.of_append_left
  · refine Or.inr ⟨r, by rw [hr]; exact List.mem_append_left _ hr', hp _ hp', fun hc => ?_⟩
    exact (hl _ hc).elim hl' fun h => h hp'

theorem not_intact_of_broken {tasks : List Task} {d : Data} (h : Broken d) : ¬ Intact embed batchSize tasks d := by
  intro hi
  rcases h with h | ⟨r, hr, -, hl⟩
  · exact h hi.ids
  · exact hl (hi.listed r hr)

/-- what the data directory and the buffer hold while nothing has gone wrong in the file -/
structure Sound (tasks : List Task) (st : Progress) : Prop where
  intact : Intact embed batchSize tasks st.data
  sync : ∀ m ∈ st.data.processed, m ∈ st.data.lines
  pending : ∀ r ∈ st.data.store.buffer, r.modelId ∉ st.data.lines
  kept : .kept ∈ st.outcomes ↔ st.data.store.buffer ≠ []
  fresh : (∀ o ∈ st.outcomes, o.failed = false) → ∀ r ∈ st.data.rows, r.id < st.pointId
  /-- after a failed call the counter is an id already given out -/
  debt : (∃ o ∈ st.outcomes, o.failed) → ∃ r ∈ st.data.rows ++ st.data.store.buffer, r.id = st.pointId

structure Inv (tasks : List Task) (st : Progress) : Prop where
  attached : st.data.store.Attached
  known : ∀ m ∈ st.data.lines, m ∈ st.data.processed
  clean : Clean st.outcomes → Sound embed batchSize tasks st
  broken : ¬ Clean st.outcomes → Broken st.data

theorem init_inv (tasks : List Task) : Inv embed batchSize tasks ⟨[], Data.new none [], 0⟩ where
  attached := new_attached rfl
  known := fun _ h => h
  clean := fun _ =>
    { intact := ⟨List.nodup_nil, by simp [Data.rows, Data.new, Store.new, rowsOf], by simp [Data.new]⟩
      sync := fun _ h => h
      pending := by simp [Data.new, Store.new]
      kept := by simp [Data.new, Store.new]
      fresh := by simp [Data.rows, Data.new, Store.new, rowsOf]
      debt := by simp }
  broken := fun h => absurd ⟨by simp, List.Pairwise.nil⟩ h

variable {embed batchSize}

/-- the first record of a call has the counter as its id -/
theorem exists_first {c : Call} {p : ℕ} {records : List Record} (h : prepare embed batchSize c p = .ok records) :
    ∃ r ∈ records, r.id = p ∧ r.modelId = c.modelId := by
  obtain ⟨r, rs, rfl⟩ := List.exists_cons_of_ne_nil (prepare_ne_nil h)
  have hid := prepare_ids h
  rw [List.map_cons, List.length_cons, List.range'_succ] at hid
  exact ⟨r, List.mem_cons_self, (List.cons.inj hid).1, prepare_modelId h r List.mem_cons_self⟩

theorem skipped_inv {tasks : List Task} {st : Progress} (h : Inv embed batchSize tasks st) :
    Inv embed batchSize tasks ⟨st.outcomes ++ [.skipped], st.data, st.pointId⟩ := by
  have hc : Clean (st.outcomes ++ [.skipped]) ↔ Clean st.outcomes := by
    rw [clean_snoc]
    simp [Outcome.wrote]
  refine ⟨h.attached, h.known, fun hcl => ?_, fun hcl => h.broken fun hc' => hcl (hc.2 hc')⟩
  have hs := h.clean (hc.1 hcl)
  exact
    { intact := hs.intact
      sync := hs.sync
      pending := hs.pending
      kept := by simpa using hs.kept
      fresh := fun ho => hs.fresh fun o hmem => ho o (List.mem_append_left _ hmem)
      debt := by
        rintro ⟨o, ho, hf⟩
        rcases List.mem_append.1 ho with ho | ho
        · exact hs.debt ⟨o, ho, hf⟩
        · rw [List.mem_singleton.1 ho] at hf
          cases hf }

theorem kept_inv {tasks : List Task} {st : Progress} (h : Inv embed batchSize tasks st) {t : Task}
    {records : List Record} (hp : prepare embed batchSize t.call st.pointId = .ok records)
    (hm : t.call.modelId ∉ st.data.processed) {store : Store}
    (hw : write t.addFault t.flushFault records st.data.store = (store, false)) :
    Inv embed batchSize tasks ⟨st.outcomes ++ [.kept], { st.data with store := store }, st.pointId⟩ := by
  obtain ⟨hr, hb⟩ := write_rows (h.attached.creates _ _) hw
  simp only [Bool.false_eq_true, if_false, List.append_nil] at hr hb
  have hrows : ({ st.data with store := store } : Data).rows = st.data.rows := hr
  have hc : Clean (st.outcomes ++ [.kept]) ↔ Clean st.outcomes := by
    rw [clean_snoc]
    simp [Outcome.wrote]
  refine ⟨write_attached h.attached hw, h.known, fun hcl => ?_, fun hcl => ?_⟩
  · have hs := h.clean (hc.1 hcl)
    obtain ⟨r0, hr0, hid, -⟩ := exists_first hp
    exact
      { intact := ⟨by rw [hrows]; exact hs.intact.ids, by rw [hrows]; exact hs.intact.listed,
          by rw [hrows]; exact hs.intact.once⟩
        sync := hs.sync
        pending := fun r hr' => by
          rw [hb] at hr'
          rcases List.mem_append.1 hr' with hr' | hr'
          · exact hs.pending r hr'
          · rw [prepare_modelId hp r hr']
            exact fun hl => hm (h.known _ hl)
        kept := by
          rw [hb]
          simp [prepare_ne_nil hp]
        fresh := fun ho => absurd (ho .kept (by simp)) (by decide)
        debt := fun _ => ⟨r0, by rw [hb]; simp [hr0], hid⟩ }
  · exact (h.broken fun hc' => hcl (hc.2 hc')).mono [] (by rw [hrows, List.append_nil]) (fun _ hm => hm)
      fun _ hl => Or.inl hl

theorem unlisted_inv {tasks : List Task} {st : Progress} (h : Inv embed batchSize tasks st) {t : Task}
    {records : List Record} (hp : prepare embed batchSize t.call st.pointId = .ok records)
    (hm : t.call.modelId ∉ st.data.processed) {store : Store}
    (hw : write t.addFault t.flushFault records st.data.store = (store, true)) :
    Inv embed batchSize tasks ⟨st.outcomes ++ [.unlisted],
      ⟨store, st.data.processed ++ [t.call.modelId], st.data.lines⟩, st.pointId⟩ := by
  obtain ⟨hr, hb⟩ := write_rows (h.attached.creates _ _) hw
  simp only [if_true] at hr hb
  refine ⟨write_attached h.attached hw, fun m hl => List.mem_append_left _ (h.known m hl), fun hcl => ?_, fun _ => ?_⟩
  · exact absurd rfl ((clean_snoc _ _).1 hcl).2.1
  · obtain ⟨r0, hr0, -, hid⟩ := exists_first hp
    refine Or.inr ⟨r0, ?_, ?_, ?_⟩
    · show r0 ∈ rowsOf store.file
      rw [hr]
      simp [hr0]
    · simp [hid]
    · rw [hid]
      exact fun hl => hm (h.known _ hl)

/-- the rows after the first write of a call, when everything before went well -/
theorem intact_append {tasks : List Task} {d : Data} (h : Intact embed batchSize tasks d) {t : Task} (ht : t ∈ tasks)
    {p : ℕ} {records : List Record} (hp : prepare embed batchSize t.call p = .ok records)
    (hm : t.call.modelId ∉ d.lines) (hlt : ∀ r ∈ d.rows, r.id < p) {d' : Data} (hr : d'.rows = d.rows ++ records)
    (hl : d'.lines = d.lines ++ [t.call.modelId]) : Intact embed batchSize tasks d' := by
  have hmod := prepare_modelId hp
  refine ⟨?_, fun r hr' => ?_, fun m hm' => ?_⟩
  · rw [hr, List.map_append, List.nodup_append]
    refine ⟨h.ids, by rw [prepare_ids hp]; exact List.nodup_range', ?_⟩
    rintro a ha b hb rfl
    obtain ⟨r, hr', rfl⟩ := List.mem_map.1 ha
    rw [prepare_ids hp, List.mem_range'_1] at hb
    have := hlt r hr'
    omega
  · rw [hl]
    rw [hr] at hr'
    rcases List.mem_append.1 hr' with hr' | hr'
    · exact List.mem_append_left _ (h.listed r hr')
    · rw [hmod r hr']
      simp
  · rw [hl] at hm'
    rw [hr]
    rcases List.mem_append.1 hm' with hm' | hm'
    · have hne : ∀ r ∈ records, r.modelId ≠ m := fun r hr' e => hm (by rw [← hmod r hr', e]; exact hm')
      have hnil : records.filter (fun r => r.modelId = m) = [] :=
        List.filter_eq_nil_iff.2 fun r hr' => by simpa using hne r hr'
      rw [List.filter_append, hnil, List.append_nil]
      exact h.once m hm'
    · obtain rfl := List.mem_singleton.1 hm'
      have hnil : d.rows.filter (fun r => r.modelId = t.call.modelId) = [] :=
        List.filter_eq_nil_iff.2 fun r hr' => by simpa using fun e => hm (by rw [← e]; exact h.listed r hr')
      have hall : records.filter (fun r => r.modelId = t.call.modelId) = records :=
        List.filter_eq_self.2 fun r hr' => by simpa using hmod r hr'
      exact ⟨t, ht, rfl, p, by rw [List.filter_append, hnil, List.nil_append, hall]; exact hp⟩

section Listed

variable {tasks : List Task} {st : Progress} (h : Inv embed batchSize tasks st) {t : Task} {records : List Record}
  (hp : prepare embed batchSize t.call st.pointId = .ok records) {store : Store}
  (hw : write t.addFault t.flushFault records st.data.store = (store, true))

include h hp hw

/-- after a failed call the counter is given out a second time -/
theorem listed_collision (hcl : Clean st.outcomes) (hf : ∃ a ∈ st.outcomes, a.failed) :
    ¬ ((rowsOf store.file).map Record.id).Nodup := by
  intro hn
  obtain ⟨hr, -⟩ := write_rows (h.attached.creates _ _) hw
  simp only [if_true] at hr
  have hrows : rowsOf store.file = (st.data.rows ++ st.data.store.buffer) ++ records := by
    rw [hr, List.append_assoc]
    rfl
  obtain ⟨r, hr', hid'⟩ := (h.clean hcl).debt hf
  obtain ⟨r0, hr0, hid, -⟩ := exists_first hp
  rw [hrows, List.map_append] at hn
  refine List.disjoint_of_nodup_append hn (List.mem_map_of_mem hr') ?_
  rw [hid', ← hid]
  exact List.mem_map_of_mem hr0

/-- nothing failed before: the records follow the rows of the earlier calls -/
theorem listed_sound (ht : t ∈ tasks) (hm : t.call.modelId ∉ st.data.processed) (hcl : Clean st.outcomes)
    (hok : ∀ a ∈ st.outcomes, a.failed = false) {o : Outcome} {p : ℕ}
    (ho : o = .unfinished ∧ p = st.pointId ∨ o = .recorded ∧ p = st.pointId + records.length) :
    Sound embed batchSize tasks ⟨st.outcomes ++ [o],
      ⟨store, st.data.processed ++ [t.call.modelId], st.data.lines ++ [t.call.modelId]⟩, p⟩ := by
  obtain ⟨hr, hb⟩ := write_rows (h.attached.creates _ _) hw
  simp only [if_true] at hr hb
  have hs := h.clean hcl
  have hl : t.call.modelId ∉ st.data.lines := fun hl => hm (h.known _ hl)
  have hbuf : st.data.store.buffer = [] := by
    by_contra hb'
    exact absurd (hok _ (hs.kept.2 hb')) (by decide)
  rw [hbuf, List.nil_append] at hr
  have hlt := hs.fresh hok
  exact
    { intact := intact_append hs.intact ht hp hl hlt hr rfl
      sync := fun m hm' => (List.mem_append.1 hm').elim (fun h' => List.mem_append_left _ (hs.sync m h'))
        fun h' => List.mem_append_right _ h'
      pending := by simp [hb]
      kept := by
        rw [hb]
        simp only [List.mem_append, List.mem_singleton, ne_eq, not_true_eq_false, iff_false, not_or]
        refine ⟨fun hk => absurd (hok _ hk) (by decide), fun hk => ?_⟩
        rcases ho with ⟨rfl, -⟩ | ⟨rfl, -⟩ <;> cases hk
      fresh := fun hf r hr' => by
        have hr'' : r ∈ rowsOf store.file := hr'
        rcases ho with ⟨rfl, -⟩ | ⟨-, rfl⟩
        · exact absurd (hf .unfinished (by simp)) (by decide)
        rw [hr] at hr''
        rcases List.mem_append.1 hr'' with h' | h'
        · exact Nat.lt_add_right _ (hlt r h')
        · have hid := List.mem_map_of_mem (f := Record.id) h'
          rw [prepare_ids hp, List.mem_range'_1] at hid
          exact hid.2
      debt := by
        intro hfailed
        obtain ⟨a, ha', hf⟩ := hfailed
        rcases List.mem_append.1 ha' with ha' | ha'
        · rw [hok a ha'] at hf
          cases hf
        · obtain rfl := List.mem_singleton.1 ha'
          rcases ho with ⟨-, rfl⟩ | ⟨rfl, -⟩
          · obtain ⟨r0, hr0, hid, -⟩ := exists_first hp
            refine ⟨r0, List.mem_append_left _ ?_, hid⟩
            show r0 ∈ rowsOf store.file
            rw [hr]
            exact List.mem_append_right _ hr0
          · cases hf }

theorem listed_inv (ht : t ∈ tasks) (hm : t.call.modelId ∉ st.data.processed) {o : Outcome} {p : ℕ}
    (ho : o = .unfinished ∧ p = st.pointId ∨ o = .recorded ∧ p = st.pointId + records.length) :
    Inv embed batchSize tasks ⟨st.outcomes ++ [o],
      ⟨store, st.data.processed ++ [t.call.modelId], st.data.lines ++ [t.call.modelId]⟩, p⟩ := by
  have howr : o.wrote = true := by rcases ho with ⟨rfl, -⟩ | ⟨rfl, -⟩ <;> rfl
  have hne : o ≠ .unlisted := by rcases ho with ⟨rfl, -⟩ | ⟨rfl, -⟩ <;> decide
  have hknown : ∀ m ∈ st.data.lines ++ [t.call.modelId], m ∈ st.data.processed ++ [t.call.modelId] := fun m hm' =>
    (List.mem_append.1 hm').elim (fun h' => List.mem_append_left _ (h.known m h')) fun h' => List.mem_append_right _ h'
  refine ⟨write_attached h.attached hw, hknown, fun hcl => ?_, fun hcl => ?_⟩
  · obtain ⟨hcl', -, hnf⟩ := (clean_snoc _ _).1 hcl
    refine listed_sound h hp hw ht hm hcl' (fun a ha' => ?_) ho
    by_contra hf
    rw [hnf ⟨a, ha', by simpa using hf⟩] at howr
    cases howr
  · by_cases hcl' : Clean st.outcomes
    · have hf : ∃ a ∈ st.outcomes, a.failed := by
        by_contra hf
        exact hcl ((clean_snoc _ _).2 ⟨hcl', hne, fun h' => absurd h' hf⟩)
      exact Or.inl (listed_collision h hp hw hcl' hf)
    · obtain ⟨hr, -⟩ := write_rows (h.attached.creates _ _) hw
      simp only [if_true] at hr
      refine (h.broken hcl').mono (st.data.store.buffer ++ records) hr
        (fun m hm' => List.mem_append_left _ hm') fun m hm' => ?_
      rcases List.mem_append.1 hm' with hm' | hm'
      · exact Or.inl hm'
      · rw [List.mem_singleton.1 hm']
        exact Or.inr hm

end Listed

/-- one call keeps the invariant -/
theorem step_inv {tasks : List Task} {st : Progress} (h : Inv embed batchSize tasks st) {t : Task} (ht : t ∈ tasks) :
    Inv embed batchSize tasks (advance embed batchSize st t) := by
  unfold advance
  rcases processModel_cases embed batchSize t st.data st.pointId with
    e | ⟨records, hm, hp, store, ⟨hw, e⟩ | ⟨hw, e | ⟨o, p, ho, e⟩⟩⟩ <;> rw [e]
  · exact skipped_inv h
  · exact kept_inv h hp hm hw
  · exact unlisted_inv h hp hm hw
  · exact listed_inv h hp hw ht hm ho

/-- every list of calls keeps the invariant -/
theorem run_inv {tasks ts : List Task} (hts : ∀ t ∈ ts, t ∈ tasks) {st : Progress} (h : Inv embed batchSize tasks st) :
    Inv embed batchSize tasks (runModels embed batchSize ts st) := by
  induction ts generalizing st with
  | nil => exact h
  | cons t ts ih =>
    exact ih (fun t' ht' => hts t' (List.mem_cons_of_mem _ ht')) (step_inv h (hts t List.mem_cons_self))

/-! ## The end of a run -/

/-- the final flush either raises and leaves the rows, or appends the buffer to them -/
theorem finish_cases {d : Data} (ha : d.store.Attached) (finalFault : Fault) (closeRaises : Bool) :
    (finish finalFault closeRaises d).1.lines = d.lines ∧ (finish finalFault closeRaises d).1.processed = d.processed ∧
      (((flush finalFault d.store).2 = false ∧ (finish finalFault closeRaises d).1.rows = d.rows) ∨
        ((flush finalFault d.store).2 = true ∧
          (finish finalFault closeRaises d).1.rows = d.rows ++ d.store.buffer)) := by
  unfold finish
  rcases hf : flush finalFault d.store with ⟨store, ok⟩
  have hr := (flush_rows (fun hc => ha hc.2.2.2) hf).1
  cases ok with
  | false => exact ⟨rfl, rfl, Or.inl ⟨rfl, by simpa [Data.rows] using hr⟩⟩
  | true =>
    refine ⟨rfl, rfl, Or.inr ⟨rfl, ?_⟩⟩
    exact (close_rows closeRaises store).trans hr

/-- the statistics after a completed run need a readable file -/
theorem readable_of_finish {d : Data} {finalFault : Fault} {closeRaises : Bool}
    (h : (finish finalFault closeRaises d).2 = true) :
    readable (finish finalFault closeRaises d).1.store.file = true := by
  unfold finish at h ⊢
  rcases hf : flush finalFault d.store with ⟨store, ok⟩
  simp only [hf] at h ⊢
  cases ok with
  | false => cases h
  | true => exact (Bool.and_eq_true_iff.1 h).2

theorem intact_congr {tasks : List Task} {d d' : Data} (hr : d'.rows = d.rows) (hl : d'.lines = d.lines) :
    Intact embed batchSize tasks d' ↔ Intact embed batchSize tasks d :=
  ⟨fun h => ⟨hr ▸ h.ids, by rw [← hr, ← hl]; exact h.listed, by rw [← hr, ← hl]; exact h.once⟩,
    fun h => ⟨hr ▸ h.ids, by rw [hr, hl]; exact h.listed, by rw [hr, hl]; exact h.once⟩⟩

/-- **What a failing model leaves.** After a run from an empty data directory the ids are distinct, every row belongs to
a listed model and each listed model has exactly the records of one call, if and only if no rows went unlisted, nothing
was written after a failed call, and the final flush raised if records were kept. -/
theorem intact_iff (tasks : List Task) (finalFault : Fault) (closeRaises : Bool) :
    Intact embed batchSize tasks (run embed batchSize tasks finalFault closeRaises (Data.new none [])).2.1 ↔
      Clean (run embed batchSize tasks finalFault closeRaises (Data.new none [])).1 ∧
        (.kept ∈ (run embed batchSize tasks finalFault closeRaises (Data.new none [])).1 →
          (flush finalFault (runModels embed batchSize tasks ⟨[], Data.new none [], 0⟩).data.store).2 = false) := by
  have h := run_inv (fun t ht => ht) (init_inv embed batchSize tasks)
  simp only [run, resumePoint, Data.new, Store.new] at h ⊢
  set st := runModels embed batchSize tasks ⟨[], ⟨⟨[], false, none, none⟩, [], []⟩, 0⟩
  obtain ⟨hl, hp, ⟨hf, hr⟩ | ⟨hf, hr⟩⟩ := finish_cases h.attached finalFault closeRaises
  · rw [intact_congr hr hl]
    exact ⟨fun hi => ⟨by_contra fun hc => not_intact_of_broken _ _ (h.broken hc) hi, fun _ => hf⟩,
      fun hc => (h.clean hc.1).intact⟩
  · refine ⟨?_, ?_⟩
    · intro hi
      have hc : Clean st.outcomes := by
        by_contra hc
        exact not_intact_of_broken _ _ ((h.broken hc).mono _ hr (fun m hm => hp ▸ hm) fun m hm => Or.inl (hl ▸ hm)) hi
      refine ⟨hc, fun hk => ?_⟩
      -- the records kept are now in the file, and their model has no line
      obtain ⟨r, hr'⟩ := List.exists_mem_of_ne_nil _ ((h.clean hc).kept.1 hk)
      have hmem := hi.listed r (by rw [hr]; exact List.mem_append_right _ hr')
      rw [hl] at hmem
      exact absurd hmem ((h.clean hc).pending r hr')
    · rintro ⟨hc, hk⟩
      have hs := h.clean hc
      have hb : st.data.store.buffer = [] := by
        by_contra hb
        rw [hk (hs.kept.2 hb)] at hf
        cases hf
      rw [hb, List.append_nil] at hr
      rw [intact_congr hr hl]
      exact hs.intact

end Model

/-! ## A flush that raises once -/

/-- a model with one chunk, and which of its flushes raises -/
def oneChunk (modelId : Str) (fault : Fault) : Task where
  call :=
    { modelId := modelId
      info := some ⟨some 20000, some 0, [], none, none, none, none⟩
      readme := some (some "## A\ntext".toList)
      chunk := fun s => some [s]
      attempts := fun _ => ⟨.ok, .ok, .ok⟩ }
  addFault := .none
  flushFault := fault
  mark := .done

/-- **A flush that raises once contaminates the file.** The records of the first model are written by the second model's
flush: two rows have id 0. -/
theorem kept_records_contaminate :
    ¬ Intact (fun _ => []) 32 [oneChunk "org/a".toList .write, oneChunk "org/b".toList .none]
      (run (fun _ => []) 32 [oneChunk "org/a".toList .write, oneChunk "org/b".toList .none] .none false
        (Data.new none [])).2.1 :=
  fun h => absurd h.ids (by decide)

end AgentPick.Vectorizer
