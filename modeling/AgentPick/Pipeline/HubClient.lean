/-
The vectorizer and the Hub (`hf_vectorizer/hf_client.py`, `hf_vectorizer/utils.py` `retry`; the requests of
`hf_vectorizer/vectorizer.py`, `process_model` and `run`).

`Hub` is what the Hub has; `Weather` says which requests fail on the way, the n-th request of the run at a time. A listing can
fail in its middle. A request to a quiet Hub can raise, too: for a model that is not there.

A limit is not negative, and 0 is none, as in the code. What else a call meets (tokenizer, embedding model, files) is `Rest`.

Results:
- `collect_broken`: a listing that fails in its middle gives no list, or the whole one.
- `fetchAllModels_eq`: the models are the listed ones before the first that is known to be below the threshold, up to the limit.
- `unreliable_hub`: in any weather, a run is one in which the Hub's answers are what it has, or missing; if no three requests in
  a row fail, it is that of a quiet Hub.
- `run_dropped`: three failures in a row drop a model.
-/
import Mathlib.Tactic
import AgentPick.Core.Retry
import AgentPick.Pipeline.Vectorizer

namespace AgentPick.HubClient

open AgentPick.Records AgentPick.Storage AgentPick.Vectorizer AgentPick.Retry

/-! ## The client -/

structure Hub where
  /-- `list_models`: ids with their downloads, in order -/
  listing : List (Str × Option ℤ)
  info : Str → Except Str ModelInfo
  /-- the file that the download leaves: unreadable, or its text -/
  readme : Str → Except Str (Option Str)

/-- a failure on the way; in a listing, after some of its entries -/
structure Outage where
  position : ℕ
  error : Str

/-- which requests fail -/
abbrev Weather := ℕ → Option Outage

/-- the n-th request -/
def attempt {α : Type} (weather : Weather) (answer : Except Str α) (n : ℕ) : Except Str α × ℕ :=
  ((weather n).elim answer fun f => .error f.error, n + 1)

/-- `model.downloads < MIN_DOWNLOADS_THRESHOLD`, where they are known -/
def unpopular (downloads : Option ℤ) : Bool := downloads.any fun d => d < minDownloadsThreshold

/-- the loop of `fetch_models` over what the listing gives before it raises, if it does -/
def collect (limit : ℕ) (models : List Str) : List (Str × Option ℤ) → Option Str → Except Str (List Str)
  | [], none => .ok models
  | [], some e => .error e
  | (modelId, downloads) :: rest, fault =>
    if unpopular downloads then .ok models
    else if limit ≠ 0 ∧ limit ≤ models.length + 1 then .ok (models ++ [modelId])
    else collect limit (models ++ [modelId]) rest fault

/-- the entries that the API is asked for -/
def Hub.page (hub : Hub) (limit : ℕ) : List (Str × Option ℤ) := if limit = 0 then hub.listing else hub.listing.take limit

/-- `fetch_models`, at the n-th request -/
def fetchModels (hub : Hub) (weather : Weather) (limit n : ℕ) : Except Str (List Str) × ℕ :=
  ((weather n).elim (collect limit [] (hub.page limit) none) fun f =>
    collect limit [] ((hub.page limit).take f.position) (some f.error), n + 1)

/-- `fetch_all_models`; `none` is an exception -/
def fetchAllModels (hub : Hub) (weather : Weather) (limit n : ℕ) : Option (List Str) × ℕ :=
  let (models, n') := retry (fetchModels hub weather limit) 3 n
  (returned models, n')

/-- `get_model_info`, `download_readme`: what is raised after the retries is logged, and the answer is None -/
def ask {α : Type} (weather : Weather) (answer : Except Str α) (n : ℕ) : Option α × ℕ :=
  let (a, n') := retry (attempt weather answer) 3 n
  (returned a, n')

/-! ## The run -/

/-- what else a call meets -/
structure Rest where
  chunk : Str → Option (List Str)
  attempts : ℕ → Attempts
  addFault : Fault
  flushFault : Fault
  mark : Mark

/-- the call of a model for which the Hub gives these answers -/
def Rest.task (r : Rest) (modelId : Str) (info : Option ModelInfo) (readme : Option (Option Str)) : Task :=
  ⟨⟨modelId, info, readme, r.chunk, r.attempts⟩, r.addFault, r.flushFault, r.mark⟩

/-- the downloads are known and reach the threshold, so that the README is asked for -/
def wanted (info : Option ModelInfo) : Bool := info.any fun i => i.downloads.any fun d => minDownloadsThreshold ≤ d

section Model

variable (hub : Hub) (weather : Weather) (rests : ℕ → Rest) (embed : Str → Vec) (batchSize : ℕ)

/-- the requests of `process_model` from the n-th on; the i-th model of the run -/
def request (modelId : Str) (i n : ℕ) : Task × ℕ :=
  let (info, n₁) := ask weather (hub.info modelId) n
  if wanted info then
    let (readme, n₂) := ask weather (hub.readme modelId) n₁
    ((rests i).task modelId info readme, n₂)
  else ((rests i).task modelId info none, n₁)

/-- the loop of `run`: a processed model asks for nothing -/
def advance (acc : Progress × ℕ) (p : Str × ℕ) : Progress × ℕ :=
  if p.1 ∈ acc.1.data.processed then (Vectorizer.advance embed batchSize acc.1 ((rests p.2).task p.1 none none), acc.2)
  else
    let (t, n) := request hub weather rests p.1 p.2 acc.2
    (Vectorizer.advance embed batchSize acc.1 t, n)

/-- `run`, from the n-th request on; `none`: it ends before it touches the data directory -/
def run (limit : ℕ) (finalFault : Fault) (closeRaises : Bool) (d : Data) (n : ℕ) : Option (List Outcome × Data × Bool) :=
  match fetchAllModels hub weather limit n with
  | (none, _) => none
  | (some models, n') =>
    match resumePoint d.store.file with
    | none => some ([], d, false)
    | some pointId =>
      let st := (models.zipIdx.foldl (advance hub weather rests embed batchSize) (⟨[], d, pointId⟩, n')).1
      some (st.outcomes, finish finalFault closeRaises st.data)

end Model

/-! ## The listing -/

/-- the listed models before the first that is known to be below the threshold, up to the limit -/
def Hub.models (hub : Hub) (limit : ℕ) : List Str :=
  let popular := (hub.listing.takeWhile fun e => !unpopular e.2).map Prod.fst
  if limit = 0 then popular else popular.take limit

theorem collect_eq {limit : ℕ} {models : List Str} (h : limit = 0 ∨ models.length < limit) (page : List (Str × Option ℤ)) :
    collect limit models page none = .ok (models ++
      let popular := (page.takeWhile fun e => !unpopular e.2).map Prod.fst
      if limit = 0 then popular else popular.take (limit - models.length)) := by
  induction page generalizing models with
  | nil => simp [collect]
  | cons e page ih =>
    obtain ⟨modelId, downloads⟩ := e
    rw [collect]
    by_cases hpop : unpopular downloads = true
    · simp [hpop]
    · rw [if_neg hpop, List.takeWhile_cons_of_pos (by simpa using hpop), List.map_cons]
      by_cases hlimit : limit = 0
      · rw [if_neg (by simp [hlimit]), ih (Or.inl hlimit), List.append_assoc]
        simp [hlimit]
      · have hlt := h.resolve_left hlimit
        obtain ⟨m, hm⟩ : ∃ m, limit - models.length = m + 1 := ⟨limit - models.length - 1, by omega⟩
        by_cases hlast : limit ≤ models.length + 1
        · have hm0 : m = 0 := by omega
          simp [hlimit, hlast, hm, hm0]
        · have hlen : (models ++ [modelId]).length < limit := by
            rw [List.length_append, List.length_singleton]
            omega
          have hm' : limit - (models ++ [modelId]).length = m := by
            rw [List.length_append, List.length_singleton]
            omega
          rw [if_neg (by simp [hlast]), ih (Or.inr hlen), hm', hm]
          simp [hlimit]

/-- **A listing that fails in its middle gives no list, or the whole one.** -/
theorem collect_broken (limit : ℕ) (models : List Str) (page : List (Str × Option ℤ)) (position : ℕ) (e : Str) :
    collect limit models (page.take position) (some e) = .error e ∨
      collect limit models (page.take position) (some e) = collect limit models page none := by
  induction page generalizing models position with
  | nil =>
    rw [List.take_nil]
    exact Or.inl rfl
  | cons x page ih =>
    cases position with
    | zero => exact Or.inl rfl
    | succ position =>
      obtain ⟨modelId, downloads⟩ := x
      rw [List.take_succ_cons, collect, collect]
      split_ifs
      · exact Or.inr rfl
      · exact Or.inr rfl
      · exact ih _ _

theorem collect_page (hub : Hub) (limit : ℕ) : collect limit [] (hub.page limit) none = .ok (hub.models limit) := by
  have hstart : limit = 0 ∨ ([] : List Str).length < limit := by
    rw [List.length_nil]
    omega
  rw [collect_eq hstart, Hub.page, Hub.models]
  by_cases hlimit : limit = 0
  · simp [hlimit]
  · simp [hlimit, ← List.take_takeWhile, List.map_take, List.take_take]

/-! ## Weather -/

section Weather

variable {hub : Hub} {weather : Weather}

/-- of three requests in a row one gets through -/
def Clear (weather : Weather) : Prop := ∀ n, ∃ k < 3, weather (n + k) = none

theorem after_snd {α : Type} {fn : ℕ → Except Str α × ℕ} (h : ∀ n, (fn n).2 = n + 1) (k n : ℕ) : after fn k n = n + k := by
  induction k with
  | zero => rfl
  | succ k ih =>
    rw [after, Function.iterate_succ_apply', ← after, ih, h, Nat.add_assoc]

theorem fst_attempt {α : Type} (answer : Except Str α) (n : ℕ) :
    (attempt weather answer n).1 = (weather n).elim answer fun f => .error f.error := rfl

theorem fst_ask {α : Type} (answer : Except Str α) (n : ℕ) :
    (ask weather answer n).1 = returned (retry (attempt weather answer) 3 n).1 := rfl

/-- an answer that arrives is what the Hub has -/
theorem ask_eq_some {α : Type} {answer : Except Str α} {n : ℕ} {a : α} (h : (ask weather answer n).1 = some a) :
    answer = .ok a := by
  rw [fst_ask] at h
  refine retry_returned (P := fun a => answer = .ok a) (fun n b hb => ?_) h
  rw [fst_attempt] at hb
  cases hw : weather n with
  | none => rwa [hw, Option.elim_none] at hb
  | some f =>
    rw [hw] at hb
    cases hb

/-- **Two failures in a row are hidden.** -/
theorem ask_clear {α : Type} (hclear : Clear weather) (answer : Except Str α) (n : ℕ) :
    (ask weather answer n).1 = answer.toOption := by
  cases answer with
  | error e =>
    cases hask : (ask weather (.error e : Except Str α) n).1 with
    | none => rfl
    | some a => cases ask_eq_some hask
  | ok a =>
    have hsame : ∀ s b, (attempt weather (.ok a) s).1 = .ok b → b = a := by
      intro s b hb
      rw [fst_attempt] at hb
      cases hw : weather s with
      | none =>
        rw [hw, Option.elim_none] at hb
        exact (Except.ok.inj hb).symm
      | some f =>
        rw [hw] at hb
        cases hb
    rw [fst_ask]
    refine retry_ok hsame ?_
    obtain ⟨k, hk, hw⟩ := hclear n
    exact ⟨k, hk, by rw [after_snd (fun _ => rfl), fst_attempt, hw, Option.elim_none]⟩

theorem fetchModels_cases (hub : Hub) (weather : Weather) (limit n : ℕ) :
    (fetchModels hub weather limit n).1 = .ok (hub.models limit) ∨
      ∃ f, weather n = some f ∧ (fetchModels hub weather limit n).1 = .error f.error := by
  rw [fetchModels]
  cases hw : weather n with
  | none => exact Or.inl (collect_page hub limit)
  | some f =>
    rcases collect_broken limit [] (hub.page limit) f.position f.error with herror | hwhole
    · exact Or.inr ⟨f, rfl, herror⟩
    · exact Or.inl (hwhole.trans (collect_page hub limit))

theorem fetchModels_eq_ok {limit n : ℕ} {models : List Str} (h : (fetchModels hub weather limit n).1 = .ok models) :
    models = hub.models limit := by
  rcases fetchModels_cases hub weather limit n with hall | ⟨f, -, herror⟩
  · exact Except.ok.inj (h.symm.trans hall)
  · rw [herror] at h
    cases h

theorem fst_fetchAllModels (limit n : ℕ) :
    (fetchAllModels hub weather limit n).1 = returned (retry (fetchModels hub weather limit) 3 n).1 := rfl

/-- **The models of a run**, in any weather in which there are any. -/
theorem fetchAllModels_eq {limit n : ℕ} {models : List Str} (h : (fetchAllModels hub weather limit n).1 = some models) :
    models = hub.models limit := by
  rw [fst_fetchAllModels] at h
  exact retry_returned (P := fun models => models = hub.models limit) (fun _ _ => fetchModels_eq_ok) h

theorem fetchAllModels_clear (hub : Hub) (hclear : Clear weather) (limit n : ℕ) :
    (fetchAllModels hub weather limit n).1 = some (hub.models limit) := by
  rw [fst_fetchAllModels]
  refine retry_ok (fun _ _ => fetchModels_eq_ok) ?_
  obtain ⟨k, hk, hw⟩ := hclear n
  refine ⟨k, hk, ?_⟩
  rw [after_snd (fun _ => rfl)]
  refine (fetchModels_cases hub weather limit (n + k)).resolve_right fun hfail => ?_
  obtain ⟨f, hf, -⟩ := hfail
  rw [hw] at hf
  cases hf

end Weather

/-! ## Runs -/

section Runs

variable {hub : Hub} {weather : Weather} {rests : ℕ → Rest} {embed : Str → Vec} {batchSize : ℕ}

/-- the call of the i-th model: what the Hub answers is what it has, or missing -/
structure Asked (hub : Hub) (rests : ℕ → Rest) (p : Str × ℕ) (t : Task) : Prop where
  task : t = (rests p.2).task p.1 t.call.info t.call.readme
  info : ∀ i, t.call.info = some i → hub.info p.1 = .ok i
  readme : ∀ file, t.call.readme = some file → hub.readme p.1 = .ok file

/-- the call over a quiet Hub -/
def quiet (hub : Hub) (rests : ℕ → Rest) (p : Str × ℕ) : Task :=
  (rests p.2).task p.1 (hub.info p.1).toOption (hub.readme p.1).toOption

theorem asked_none (p : Str × ℕ) : Asked hub rests p ((rests p.2).task p.1 none none) where
  task := rfl
  info i h := by cases h
  readme file h := by cases h

theorem fst_request (modelId : Str) (i n : ℕ) : (request hub weather rests modelId i n).1 =
    (rests i).task modelId (ask weather (hub.info modelId) n).1 (if wanted (ask weather (hub.info modelId) n).1 then
      (ask weather (hub.readme modelId) (ask weather (hub.info modelId) n).2).1 else none) := by
  unfold request
  dsimp only
  split_ifs
  · rfl
  · rfl

theorem asked_request (p : Str × ℕ) (n : ℕ) : Asked hub rests p (request hub weather rests p.1 p.2 n).1 := by
  rw [fst_request]
  refine ⟨rfl, fun i h => ask_eq_some h, fun file h => ?_⟩
  change (if _ then _ else none) = some file at h
  split_ifs at h
  exact ask_eq_some h

theorem loop_asked (hub : Hub) (weather : Weather) (rests : ℕ → Rest) (embed : Str → Vec) (batchSize : ℕ) (ps : List (Str × ℕ))
    (st : Progress) (n : ℕ) :
    ∃ tasks, (ps.foldl (advance hub weather rests embed batchSize) (st, n)).1 = runModels embed batchSize tasks st ∧
      List.Forall₂ (Asked hub rests) ps tasks := by
  induction ps generalizing st n with
  | nil => exact ⟨[], rfl, .nil⟩
  | cons p ps ih =>
    rw [List.foldl_cons, advance]
    split_ifs with hp
    · obtain ⟨tasks, hrun, htasks⟩ := ih (Vectorizer.advance embed batchSize st ((rests p.2).task p.1 none none)) n
      exact ⟨_ :: tasks, hrun, .cons (asked_none p) htasks⟩
    · obtain ⟨tasks, hrun, htasks⟩ := ih (Vectorizer.advance embed batchSize st (request hub weather rests p.1 p.2 n).1)
        (request hub weather rests p.1 p.2 n).2
      exact ⟨_ :: tasks, hrun, .cons (asked_request p n) htasks⟩

/-- a README that is not asked for does not matter -/
theorem prepare_unwanted {c c' : Call} (hinfo : c'.info = c.info) (h : wanted c.info = false) (start : ℕ) :
    ∃ e, prepare embed batchSize c' start = .error e ∧ prepare embed batchSize c start = .error e := by
  have hchunked : ∃ e, chunked c' = .error e ∧ chunked c = .error e := by
    unfold chunked
    rw [hinfo]
    cases hc : c.info with
    | none => exact ⟨_, rfl, rfl⟩
    | some info =>
      cases hd : info.downloads with
      | none => exact ⟨.raised, by simp only [hd], by simp only [hd]⟩
      | some d =>
        have hlow : d < minDownloadsThreshold := by simpa [wanted, hc, hd] using h
        exact ⟨.lowDownloads, by simp only [hd, if_pos hlow], by simp only [hd, if_pos hlow]⟩
  obtain ⟨e, he', he⟩ := hchunked
  exact ⟨e, by rw [prepare, he'], by rw [prepare, he]⟩

theorem advance_congr {st : Progress} {t t' : Task} (hid : t'.call.modelId = t.call.modelId)
    (hrecords : t.call.modelId ∉ st.data.processed → t' = t ∨
      ∃ e, prepare embed batchSize t'.call st.pointId = .error e ∧ prepare embed batchSize t.call st.pointId = .error e) :
    Vectorizer.advance embed batchSize st t' = Vectorizer.advance embed batchSize st t := by
  have hcall : processModel embed batchSize t' st.data st.pointId = processModel embed batchSize t st.data st.pointId := by
    by_cases hp : t.call.modelId ∈ st.data.processed
    · rw [processModel, processModel, hid, if_pos hp, if_pos hp]
    · rcases hrecords hp with rfl | ⟨e, he', he⟩
      · rfl
      · rw [processModel, processModel, hid, if_neg hp, if_neg hp, he', he]
  rw [Vectorizer.advance, Vectorizer.advance, hcall]

/-- one model, in clear weather -/
theorem advance_clear (hclear : Clear weather) (p : Str × ℕ) (st : Progress) (n : ℕ) :
    (advance hub weather rests embed batchSize (st, n) p).1 = Vectorizer.advance embed batchSize st (quiet hub rests p) := by
  rw [advance]
  split_ifs with hp
  · exact advance_congr rfl fun hnot => absurd hp hnot
  · change Vectorizer.advance embed batchSize st (request hub weather rests p.1 p.2 n).1 = _
    rw [fst_request, ask_clear hclear, ask_clear hclear]
    refine advance_congr rfl fun _ => ?_
    by_cases hwanted : wanted (hub.info p.1).toOption = true
    · rw [if_pos hwanted]
      exact Or.inl rfl
    · have hunwanted : wanted (quiet hub rests p).call.info = false := Bool.eq_false_of_not_eq_true hwanted
      have hinfo : ((rests p.2).task p.1 (hub.info p.1).toOption none).call.info = (quiet hub rests p).call.info := rfl
      rw [if_neg hwanted]
      exact Or.inr (prepare_unwanted hinfo hunwanted st.pointId)

theorem loop_clear (hclear : Clear weather) (ps : List (Str × ℕ)) (st : Progress) (n : ℕ) :
    (ps.foldl (advance hub weather rests embed batchSize) (st, n)).1 = runModels embed batchSize (ps.map (quiet hub rests)) st := by
  induction ps generalizing st n with
  | nil => rfl
  | cons p ps ih =>
    rw [List.foldl_cons, List.map_cons, ← Prod.eta (advance hub weather rests embed batchSize (st, n) p), ih,
      advance_clear hclear]
    rfl

/-- in any weather -/
theorem run_asked {limit : ℕ} {finalFault : Fault} {closeRaises : Bool} {d : Data} {n : ℕ} {result : List Outcome × Data × Bool}
    (h : run hub weather rests embed batchSize limit finalFault closeRaises d n = some result) :
    ∃ tasks, result = Vectorizer.run embed batchSize tasks finalFault closeRaises d ∧
      List.Forall₂ (Asked hub rests) (hub.models limit).zipIdx tasks := by
  unfold run at h
  split at h
  · cases h
  next models n' hfetch =>
    have hmodels : models = hub.models limit := fetchAllModels_eq (by rw [hfetch])
    subst hmodels
    split at h
    next hpoint =>
      -- the Parquet file cannot be read: any calls do
      cases h
      obtain ⟨tasks, -, htasks⟩ := loop_asked hub weather rests embed batchSize (hub.models limit).zipIdx ⟨[], d, 0⟩ n'
      exact ⟨tasks, by rw [Vectorizer.run, hpoint], htasks⟩
    next pointId hpoint =>
      cases h
      obtain ⟨tasks, hloop, htasks⟩ := loop_asked hub weather rests embed batchSize (hub.models limit).zipIdx ⟨[], d, pointId⟩ n'
      exact ⟨tasks, by rw [Vectorizer.run, hpoint, hloop], htasks⟩

/-- in clear weather -/
theorem run_clear (hclear : Clear weather) (limit : ℕ) (finalFault : Fault) (closeRaises : Bool) (d : Data) (n : ℕ) :
    run hub weather rests embed batchSize limit finalFault closeRaises d n =
      some (Vectorizer.run embed batchSize ((hub.models limit).zipIdx.map (quiet hub rests)) finalFault closeRaises d) := by
  have hmodels := fetchAllModels_clear hub hclear limit n
  obtain ⟨models, n', hfetch⟩ : ∃ models n', fetchAllModels hub weather limit n = (models, n') := ⟨_, _, rfl⟩
  rw [hfetch] at hmodels
  obtain rfl : models = _ := hmodels
  unfold run
  rw [hfetch, Vectorizer.run]
  cases resumePoint d.store.file with
  | none => rfl
  | some pointId =>
    dsimp only
    rw [loop_clear hclear]

end Runs

/-- **Runs over an unreliable Hub.** In any weather a run ends before it touches the data directory, or it is one whose calls
were answered as the Hub answers, or not at all. If no three requests in a row fail, it is the run over a quiet Hub. -/
theorem unreliable_hub (hub : Hub) (weather : Weather) (rests : ℕ → Rest) (embed : Str → Vec) (batchSize limit : ℕ)
    (finalFault : Fault) (closeRaises : Bool) (d : Data) (n : ℕ) :
    (∀ result, run hub weather rests embed batchSize limit finalFault closeRaises d n = some result →
      ∃ tasks, result = Vectorizer.run embed batchSize tasks finalFault closeRaises d ∧
        List.Forall₂ (Asked hub rests) (hub.models limit).zipIdx tasks) ∧
      (Clear weather → run hub weather rests embed batchSize limit finalFault closeRaises d n =
        some (Vectorizer.run embed batchSize ((hub.models limit).zipIdx.map (quiet hub rests)) finalFault closeRaises d)) :=
  ⟨fun _ h => run_asked h, fun hclear => run_clear hclear limit finalFault closeRaises d n⟩

/-- a Hub with one model, which the vectorizer can read -/
def sampleHub : Hub where
  listing := [("org/a".toList, some 20000), ("org/b".toList, some 5)]
  info _ := .ok ⟨some 20000, some 0, [], none, none, none, none⟩
  readme _ := .ok (some "## A\ntext".toList)

def sampleRest : Rest where
  chunk s := some [s]
  attempts _ := ⟨.ok, .ok, .ok⟩
  addFault := .none
  flushFault := .none
  mark := .done

/-- two of three requests fail, the listing in its middle -/
def windy : Weather := fun n => if n % 3 = 2 then none else some ⟨1, "timed out".toList⟩

theorem clear_windy : Clear windy := by
  intro n
  have hn : n % 3 = 0 ∨ n % 3 = 1 ∨ n % 3 = 2 := by omega
  rcases hn with hn | hn | hn
  · exact ⟨2, by omega, if_pos (by omega)⟩
  · exact ⟨1, by omega, if_pos (by omega)⟩
  · exact ⟨0, by omega, if_pos hn⟩

/-- every request gets three attempts, and the run has the model -/
theorem unreliable_hub_windy : sampleHub.models 0 = ["org/a".toList] ∧
    run sampleHub windy (fun _ => sampleRest) (fun _ => []) 32 0 .none false (Data.new none []) 0 =
      some (Vectorizer.run (fun _ => []) 32 ((sampleHub.models 0).zipIdx.map (quiet sampleHub fun _ => sampleRest)) .none false
        (Data.new none [])) :=
  ⟨rfl, (unreliable_hub sampleHub windy (fun _ => sampleRest) (fun _ => []) 32 0 .none false (Data.new none []) 0).2 clear_windy⟩

/-- **Three failures in a row drop a model.** -/
theorem run_dropped :
    (run sampleHub (fun n => if n = 0 ∨ 4 ≤ n then none else some ⟨0, "timed out".toList⟩) (fun _ => sampleRest) (fun _ => []) 32 0
      .none false (Data.new none []) 0).map (fun result => result.1) = some [.skipped] ∧
    (run sampleHub (fun _ => none) (fun _ => sampleRest) (fun _ => []) 32 0 .none false (Data.new none []) 0).map
      (fun result => result.1) = some [.recorded] :=
  ⟨by decide, by decide⟩

end AgentPick.HubClient
