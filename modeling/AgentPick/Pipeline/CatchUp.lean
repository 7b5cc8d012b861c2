/-
What unreliable rounds leave out, a clear one makes up for (`hf_vectorizer/vectorizer.py`, `run`, `_load_processed`; the loaders).

Rounds are fresh and successful, as in `AgentPick.Rounds`; the Hub may have answered them or not. A model that a round misses is
not listed as processed, so that the next run asks for it again.

Results:
- `lines_of_run`: a successful run lists the models that were listed, and those with rows in the file.
- `loaded_of_reached`: after fresh rounds, every listed model has points in the collection.
- `catalog_complete`: after any fresh rounds and one more in clear weather, the collection and the table have each model that the
  Hub lists and whose card gives records.
-/
import AgentPick.Pipeline.HubClient
import AgentPick.Pipeline.Rounds

namespace AgentPick.CatchUp

open AgentPick.Records AgentPick.Storage AgentPick.Vectorizer AgentPick.Models AgentPick.Loaders AgentPick.Rounds
open AgentPick.HubClient (Hub Weather Rest Clear quiet)

section

variable {embed : Str → Vec} {batchSize : ℕ}

/-! ## The list of processed models -/

/-- the lines are of processed models -/
theorem advance_lines {st : Progress} {t : Task} (h : st.data.lines ⊆ st.data.processed) :
    (advance embed batchSize st t).data.lines ⊆ (advance embed batchSize st t).data.processed := by
  unfold advance
  rcases processModel_cases embed batchSize t st.data st.pointId with
    e | ⟨records, -, -, store, ⟨-, e⟩ | ⟨-, e | ⟨o, p, -, e⟩⟩⟩
  · rw [e]
    exact h
  · rw [e]
    exact h
  · rw [e]
    exact fun m hm => List.mem_append_left _ (h hm)
  · rw [e]
    exact List.append_subset.2 ⟨fun m hm => List.mem_append_left _ (h hm), List.subset_append_right _ _⟩

theorem runModels_lines (tasks : List Task) {st : Progress} (h : st.data.lines ⊆ st.data.processed) :
    (runModels embed batchSize tasks st).data.lines ⊆ (runModels embed batchSize tasks st).data.processed := by
  induction tasks using List.reverseRecOn with
  | nil => exact h
  | append_singleton tasks t ih =>
    rw [runModels_snoc]
    exact advance_lines ih

/-- a successful run lists what was listed, and the models with rows in the file -/
theorem lines_of_run {r : Round} {w : World} (h : Successful embed batchSize r w) :
    ∀ m ∈ (vectorize embed batchSize r w).2.1.lines, m ∈ r.listed w ∨
      ∃ x ∈ rowsOf (vectorize embed batchSize r w).2.1.store.file, x.modelId = m := by
  obtain ⟨hcompleted, hunfailed⟩ := h
  intro m hm
  unfold vectorize run at *
  have hnew : (Data.new w.file (r.listed w)).store.file = w.file := rfl
  rw [hnew] at hcompleted hunfailed hm ⊢
  cases hresume : resumePoint w.file with
  | none =>
    rw [hresume] at hcompleted
    cases hcompleted
  | some pointId =>
    rw [hresume] at hcompleted hunfailed hm
    obtain ⟨hbuffer, -, hstore⟩ := runModels_unfailed (fun t ht => ht) hunfailed
    have hlines : (runModels embed batchSize r.tasks ⟨[], Data.new w.file (r.listed w), pointId⟩).data.lines ⊆
        (runModels embed batchSize r.tasks ⟨[], Data.new w.file (r.listed w), pointId⟩).data.processed :=
      runModels_lines r.tasks (List.Subset.refl _)
    simp only [finish, flush_nil hbuffer] at hcompleted hm ⊢
    have hprocessed := hlines hm
    rcases hstore with ⟨-, -, -, hnone⟩ | ⟨rows, -, hopen, hfile, -, -, hknown⟩
    · rw [hnone] at hprocessed
      exact Or.inl hprocessed
    · cases hraises : r.closeRaises with
      | true =>
        rw [hraises, close, hopen] at hcompleted
        cases hcompleted
      | false =>
        refine (hknown m hprocessed).imp_right fun hrow => ?_
        obtain ⟨x, hx, hxm⟩ := hrow
        refine ⟨x, ?_, hxm⟩
        rw [close, hopen, hfile]
        exact hx

/-! ## Points of the listed models -/

/-- a model has a point in the collection -/
def HasPoint (w : World) (m : Str) : Prop := ∃ i p, w.points.get? i = some p ∧ p.payload.modelId = some m

/-- the listed models have points -/
def Loaded (w : World) : Prop := ∀ m ∈ w.lines, HasPoint w m

/-- a row of the file has its point -/
theorem hasPoint_of_row {w : World} (h : Inv w) {x : Record} (hx : x ∈ rowsOf w.file) : HasPoint w x.modelId := by
  have hrow : ofRecord x ∈ fileRows w.file := List.mem_map_of_mem hx
  have hids : ((fileRows w.file).map Row.id).Nodup := (wellformed_ofRecord h.ids h.trimmed).ids
  refine ⟨x.id, ⟨(ofRecord x).vector, (ofRecord x).payload⟩, ?_, rfl⟩
  rw [← h.loaded, get?_upsert (ids_nodup hids)]
  exact Or.inl (mem_points.2 ⟨ofRecord x, hrow, rfl, rfl⟩)

/-- a round keeps the points -/
theorem hasPoint_kept {w w' : World} {r : Round} (h : Inv w) (hstep : Step embed batchSize w r w') {m : Str}
    (hm : HasPoint w m) : HasPoint w' m := by
  obtain ⟨i, p, hp, hpm⟩ := hm
  rcases hstep.cases h with ⟨-, hpoints, -, -⟩ | ⟨pointId, rows, hresume, -, hwritten, htrim, -, hpoints, -, -⟩
  · exact ⟨i, p, by rw [hpoints, hp], hpm⟩
  · refine ⟨i, p, ?_, hpm⟩
    rw [hpoints]
    exact (get?_rewritten h hresume hwritten (wellformed_ofRecord hwritten.nodup htrim) i p).2 (Or.inr hp)

theorem mem_lines_of_listed {r : Round} {w : World} {m : Str} (h : m ∈ r.listed w) : m ∈ w.lines := by
  unfold Round.listed at h
  split_ifs at h
  · cases h
  · exact h

theorem step_loaded {w w' : World} {r : Round} (h : Inv w) (hloaded : Loaded w) (hstep : Step embed batchSize w r w')
    (hfresh : Fresh embed batchSize w r) : Loaded w' := by
  have hinv := step_inv h hstep hfresh
  intro m hm
  have hkept : m ∈ r.listed w → HasPoint w' m := fun hl => hasPoint_kept h hstep (hloaded m (mem_lines_of_listed hl))
  obtain ⟨hsuccessful, -, b⟩ := hstep
  rcases lines_of_run hsuccessful m hm with hlisted | ⟨x, hx, rfl⟩
  · exact hkept hlisted
  · exact hasPoint_of_row hinv hx

/-- **The listed models have points**, after any fresh rounds. -/
theorem loaded_of_reached {w : World} (h : Reached embed batchSize (Fresh embed batchSize) w) : Loaded w := by
  induction h with
  | start =>
    intro m hm
    cases hm
  | step hreached hstep hfresh ih => exact step_loaded (reached_inv hreached) ih hstep hfresh

/-- a model that gives records has points after a round that asked for it -/
theorem hasPoint_of_step {w w' : World} {r : Round} (h : Reached embed batchSize (Fresh embed batchSize) w)
    (hstep : Step embed batchSize w r w') (hfresh : Fresh embed batchSize w r) {t : Task} (ht : t ∈ r.tasks)
    (hv : Vectorises embed batchSize t) : HasPoint w' t.call.modelId := by
  have hinv := reached_inv h
  have hlisted : t.call.modelId ∈ r.listed w → HasPoint w' t.call.modelId := fun hl =>
    hasPoint_kept hinv hstep (loaded_of_reached h _ (mem_lines_of_listed hl))
  rcases hstep.cases hinv with ⟨-, -, -, hall⟩ | ⟨pointId, rows, -, -, -, -, hfile, -, -, hall⟩
  · exact hlisted (hall t ht hv)
  · rcases hall t ht hv with hl | ⟨x, hx, hxm⟩
    · exact hlisted hl
    · have hrow : x ∈ rowsOf w'.file := by rwa [hfile]
      rw [← hxm]
      exact hasPoint_of_row (step_inv hinv hstep hfresh) hrow

/-- a model with a point has a row -/
theorem row_of_hasPoint {w : World} (h : Inv w) {m : Str} (hm : HasPoint w m) : ∃ row, w.table.get? m = some row := by
  obtain ⟨i, p, hp, hpm⟩ := hm
  obtain ⟨m', row, ids, hrow, hids, hi⟩ := h.agree.cover i p hp
  obtain ⟨ids', hids', -, -, hiff⟩ := h.agree.chunkIds m' row hrow
  obtain rfl := Option.some.inj (hids.symm.trans hids')
  obtain ⟨p', hp', hpm'⟩ := (hiff i).1 hi
  obtain rfl := Option.some.inj (hp.symm.trans hp')
  obtain rfl := Option.some.inj (hpm.symm.trans hpm')
  exact ⟨row, hrow⟩

end

/-- a round that asks the Hub for all its models -/
def clearRound (hub : Hub) (rests : ℕ → Rest) (limit : ℕ) (removed : Bool) (finalFault : Fault) (closeRaises : Bool) : Round :=
  ⟨removed, (hub.models limit).zipIdx.map (quiet hub rests), finalFault, closeRaises⟩

/-- **The catalog is complete after a clear round.** Whatever the Hub answered in the fresh rounds before, a run without three
failures in a row is a round after which the collection and the table have every model that the Hub lists and whose card gives
records. -/
theorem catalog_complete {embed : Str → Vec} {batchSize : ℕ} {w : World} (h : Reached embed batchSize (Fresh embed batchSize) w)
    (hub : Hub) {weather : Weather} (hclear : Clear weather) (rests : ℕ → Rest) (limit n : ℕ) (removed : Bool)
    (finalFault : Fault) (closeRaises : Bool) :
    HubClient.run hub weather rests embed batchSize limit finalFault closeRaises
        (Data.new w.file ((clearRound hub rests limit removed finalFault closeRaises).listed w)) n =
        some (vectorize embed batchSize (clearRound hub rests limit removed finalFault closeRaises) w) ∧
      ∀ w', Step embed batchSize w (clearRound hub rests limit removed finalFault closeRaises) w' →
        Fresh embed batchSize w (clearRound hub rests limit removed finalFault closeRaises) →
        ∀ p ∈ (hub.models limit).zipIdx, Vectorises embed batchSize (quiet hub rests p) →
          HasPoint w' p.1 ∧ ∃ row, w'.table.get? p.1 = some row := by
  refine ⟨HubClient.run_clear hclear limit finalFault closeRaises _ n, fun w' hstep hfresh p hp hv => ?_⟩
  have hpoint : HasPoint w' p.1 := hasPoint_of_step h hstep hfresh (List.mem_map_of_mem hp) hv
  exact ⟨hpoint, row_of_hasPoint (step_inv (reached_inv h) hstep hfresh) hpoint⟩

/-- a round that misses the model, and the next one -/
def missed : Round := ⟨false, [HubClient.sampleRest.task "org/a".toList none none], .none, false⟩

def sampleRound : Round := clearRound HubClient.sampleHub (fun _ => HubClient.sampleRest) 0 false .none false

def missedWorld : World := start.next (fun _ => []) 32 missed (single _)

theorem reached_missed : Reached (fun _ => []) 32 (Fresh (fun _ => []) 32) missedWorld := by
  refine .step .start (.round ⟨by decide, by decide⟩ ?_ _) fun _ _ _ _ _ _ hp => by cases hp
  intro t ht
  rw [List.mem_singleton.1 ht]
  decide

theorem catalog_complete_sample : missedWorld.lines = [] ∧
    HasPoint (missedWorld.next (fun _ => []) 32 sampleRound (single _)) "org/a".toList := by
  have hempty : missedWorld.points = Dict.empty := by decide
  have hstep : Step (fun _ => []) 32 missedWorld sampleRound (missedWorld.next (fun _ => []) 32 sampleRound (single _)) := by
    refine .round ⟨by decide, by decide⟩ (fun t ht => ?_) _
    rw [List.mem_singleton.1 (show t ∈ [quiet HubClient.sampleHub (fun _ => HubClient.sampleRest) ("org/a".toList, 0)] from ht)]
    decide
  have hfresh : Fresh (fun _ => []) 32 missedWorld sampleRound := by
    intro t _ _ _ i p hp
    rw [hempty] at hp
    cases hp
  have hv : Vectorises (fun _ => []) 32 (quiet HubClient.sampleHub (fun _ => HubClient.sampleRest) ("org/a".toList, 0)) :=
    ⟨0, _, rfl⟩
  have hcomplete := catalog_complete reached_missed HubClient.sampleHub HubClient.clear_windy (fun _ => HubClient.sampleRest) 0 0
    false .none false
  exact ⟨by decide, (hcomplete.2 _ hstep hfresh _ (by decide) hv).1⟩

end AgentPick.CatchUp
