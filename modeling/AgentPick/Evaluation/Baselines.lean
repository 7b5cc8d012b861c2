/-
The baselines without a loop (`evaluation/systems.py`: `run_llm_only`, `run_qdrant_only`, `run_single_round` and what they share).

`single_round` asks a planner for the parameters of two queries, runs them at once, and writes both results into the instructions
of a second agent, as two lines of JSON below two headings. `qdrant_only` runs one query and has one line.

The agents and the catalog are `Services`: a run of an agent returns the text of its answer, or none, or raises; a query returns or
raises. The instructions in front of the context are any text. The results of a tool call are logged under the numbers that the
calls have (`ToolCall`); the order of the two lines of `single_round` is that of the answers, and left out.

Results:
- `readContext_context`: the context reads back as what both queries returned, whatever is written in a model card. A query that
  failed reads as nothing, and so does a search without results.
- `context_injective`: so results that differ make different contexts.
- `planned_iff`: when the planner's reply gives a query and parameters, and which.
- `baselines_grounded`: `single_round` raises before it asks its second agent iff the planner raises, or its reply is nested too deep
  or has a size bound that is too large for a float, whatever catalog and agent do; it and `qdrant_only` then ask about exactly
  what the catalog gave.
- `planned_of_prose`: without a plan both search for the same text.
-/
import AgentPick.Backend.Chat
import AgentPick.Backend.Tools
import AgentPick.Evaluation.Plan

namespace AgentPick.Baselines

open AgentPick.Text AgentPick.Catalog AgentPick.ActivityLog AgentPick.Tools
open AgentPick.Plan (Kwargs Obj TooDeep Asks kwargsOf parsePlan filterKwargs sizeKeys topK)
open AgentPick.Raise
open AgentPick.Messages (Message)

/-! ## The systems -/

structure Services where
  planner : List Message → Except Str (Option Str)
  /-- an agent with these instructions -/
  agent : Str → List Message → Except Str (Option Str)
  semanticSearch : Str → ℤ → Except Str (List Item)
  filterModels : Kwargs → ℤ → Except Str Filtered

inductive Failure where
  | agent (e : Str)
  | plan (r : Plan.Raised)

/-- `(result.text or "").strip()` -/
def answered (result : Except Str (Option Str)) : Except Failure Str :=
  match result with
  | .ok text => .ok (strip (text.getD []))
  | .error e => .error (.agent e)

/-- `_joined_user_turns` -/
def joinedUserTurns (messages : List Rescore.Message) : Str :=
  ['\n'].intercalate ((messages.filter fun m => m.role = .user).map Rescore.Message.content)

/-- `_run_query`: the result, or None, and what is logged of the call -/
def runQuery {α : Type} (logArgs : List (Str × Option Str)) (count : α → ℕ) (result : Except Str α) (ms : ℕ) :
    Option α × ToolCall :=
  match result with
  | .error e => (none, ⟨logArgs, none, some e, ms⟩)
  | .ok a => (some a, ⟨logArgs, some (count a), none, ms⟩)

/-- `(no results)` -/
def noResults : Str := "(no results)".toList

/-- the truth value of a payload: a list or a dictionary is true unless it is empty -/
def truthy : Json → Bool
  | .null => false
  | .bool b => b
  | .int n => n ≠ 0
  | .str s => s ≠ []
  | .arr items => !items.isEmpty
  | .obj pairs => !pairs.isEmpty

/-- `_context_block` -/
def contextBlock (payload : Option Json) : Str :=
  match payload with
  | some v => if truthy v then v.dumps else noResults
  | none => noResults

/-- what `filter_models` returns -/
def filteredJson (r : Filtered) : Json :=
  objOf [("models".toList, some (.arr (r.models.map itemJson))), ("total_matches".toList, some (.int r.totalMatches)),
    ("warnings".toList, some (strings r.warnings))]

/-- what `semantic_search` returns -/
def searchedJson (models : List Item) : Json := .arr (models.map itemJson)

def filterHead : Str := "Structured filter results:\n".toList

def searchHead : Str := "\n\nSemantic search results:\n".toList

/-- the context of `single_round` -/
def context (filtered : Option Filtered) (searched : Option (List Item)) : Str :=
  filterHead ++ contextBlock (filtered.map filteredJson) ++ searchHead ++ contextBlock (searched.map searchedJson)

section Model

variable (R : Rounding) (u : Unicode) (depth : ℕ) (S : Services)

/-- the query of a plan: its text, if there is one with something in it, or else the turns of the user -/
def queryOf (plan : Obj) (messages : List Rescore.Message) : Str :=
  match PyJson.get? "search_query".toList plan with
  | some (.str s) => if strip s ≠ [] then s else joinedUserTurns messages
  | _ => joinedUserTurns messages

/-- the query and the parameters of the filter -/
def planned (messages : List Rescore.Message) : Except Failure (Str × Kwargs) :=
  match S.planner (messages.map Chat.ofDialogue) with
  | .error e => .error (.agent e)
  | .ok text =>
    match parsePlan R depth (text.getD []) with
    | .error r => .error (.plan r)
    | .ok plan =>
      match filterKwargs R u plan with
      | .error r => .error (.plan r)
      | .ok kwargs => .ok (queryOf plan messages, kwargs)

/-- the answer of a system, and its tool calls by number -/
abbrev Outcome := Except Failure Str × List (Tool × ToolCall)

variable (logArgs : Kwargs → List (Str × Option Str)) (ms : ℕ)

/-- the search of a baseline -/
def search (query : Str) : Option (List Item) × ToolCall :=
  runQuery (searchArgs query topK) List.length (S.semanticSearch query topK) ms

/-- the filter of a baseline -/
def filter (kwargs : Kwargs) : Option Filtered × ToolCall :=
  runQuery (logArgs kwargs ++ [("limit".toList, some (Json.ofInt topK))]) (fun r => r.models.length) (S.filterModels kwargs topK) ms

/-- `run_single_round` -/
def runSingleRound (instructions : Str) (messages : List Rescore.Message) : Outcome :=
  match planned R u depth S messages with
  | .error f => (.error f, [])
  | .ok (query, kwargs) =>
    let (searched, searchCall) := search S ms query
    let (filtered, filterCall) := filter S logArgs ms kwargs
    (answered (S.agent (instructions ++ context filtered searched) (messages.map Chat.ofDialogue)),
      [(.searchModels, searchCall), (.filterModels, filterCall)])

/-- `run_qdrant_only` -/
def runQdrantOnly (instructions : Str) (messages : List Rescore.Message) : Outcome :=
  let (searched, searchCall) := search S ms (joinedUserTurns messages)
  (answered (S.agent (instructions ++ contextBlock (searched.map searchedJson)) (messages.map Chat.ofDialogue)),
    [(.searchModels, searchCall)])

/-- `run_llm_only` -/
def runLlmOnly (instructions : Str) (messages : List Rescore.Message) : Outcome :=
  (answered (S.agent instructions (messages.map Chat.ofDialogue)), [])

end Model

/-! ## Reading a context -/

/-- the rest of a text behind a heading -/
def behind (heading s : Str) : Option Str := if heading.isPrefixOf s then some (s.drop heading.length) else none

/-- one block: nothing, or what its JSON says -/
def readBlock {α : Type} (read : Json → Option α) (block : Str) : Option (Option α) :=
  if block = noResults then some none else ((Json.loads block).bind read).map some

def readFiltered (v : Json) : Option Filtered := do
  let models ← readItems (← v.get? "models".toList)
  let total ← int? (← v.get? "total_matches".toList)
  let warnings ← strings? (← v.get? "warnings".toList)
  some ⟨models, total.toNat, warnings⟩

/-- the first line is the filter's, the rest the search's -/
def readContext (s : Str) : Option (Option Filtered × Option (List Item)) := do
  let blocks ← behind filterHead s
  let rest ← behind searchHead (blocks.dropWhile (· ≠ '\n'))
  let filtered ← readBlock readFiltered (blocks.takeWhile (· ≠ '\n'))
  let searched ← readBlock readItems rest
  some (filtered, searched)

theorem behind_append (heading s : Str) : behind heading (heading ++ s) = some s := by
  rw [behind, if_pos (List.isPrefixOf_iff_prefix.2 (List.prefix_append _ _)), List.drop_left]

/-- a block is one line -/
theorem contextBlock_oneLine (payload : Option Json) : ∀ c ∈ contextBlock payload, c ≠ '\n' := by
  have hall : noResults.all (fun c => c ≠ '\n') = true := by decide
  have hnone : ∀ c ∈ noResults, c ≠ '\n' := by simpa using hall
  unfold contextBlock
  split
  next v =>
    split_ifs
    · intro c hc hline
      have hprintable := Json.dumps_printable v c hc
      rw [hline] at hprintable
      exact absurd hprintable (by decide)
    · exact hnone
  next => exact hnone

theorem dumps_ne_noResults (v : Json) : v.dumps ≠ noResults := by
  have hnone : Json.loads noResults = none := by decide
  intro h
  have hv := Json.loads_dumps v
  rw [h, hnone] at hv
  cases hv

/-- a block reads back as its payload, or as nothing where that is empty -/
theorem readBlock_contextBlock {α : Type} {read : Json → Option α} {write : α → Json} (hread : ∀ a, read (write a) = some a)
    (payload : Option α) :
    readBlock read (contextBlock (payload.map write)) = some (payload.filter fun a => truthy (write a)) := by
  cases payload with
  | none => exact if_pos rfl
  | some a =>
    rw [Option.map_some, contextBlock, Option.filter_some]
    by_cases htrue : truthy (write a) = true
    · rw [if_pos htrue, if_pos htrue, readBlock, if_neg (dumps_ne_noResults _), Json.loads_dumps, Option.bind_some, hread]
      rfl
    · rw [if_neg htrue, if_neg htrue]
      exact if_pos rfl

theorem readFiltered_filteredJson (r : Filtered) : readFiltered (filteredJson r) = some r := by
  set fields : List (Str × Option Json) := [("models".toList, some (.arr (r.models.map itemJson))),
    ("total_matches".toList, some (.int r.totalMatches)), ("warnings".toList, some (strings r.warnings))] with hfields
  have hkeys : (fields.map Prod.fst).Nodup := by
    rw [hfields]
    exact (by decide : ["models".toList, "total_matches".toList, "warnings".toList].Nodup)
  have hmodels : (objOf fields).get? "models".toList = _ := get?_objOf (i := 0) hkeys rfl
  have htotal : (objOf fields).get? "total_matches".toList = _ := get?_objOf (i := 1) hkeys rfl
  have hwarnings : (objOf fields).get? "warnings".toList = _ := get?_objOf (i := 2) hkeys rfl
  have hobject : filteredJson r = objOf fields := rfl
  rw [hobject, readFiltered, hmodels, htotal, hwarnings]
  simp only [Option.bind_eq_bind, Option.bind_some, readItems_map, int?_int, strings?_strings, Int.toNat_natCast]

/-- the filter's result is never empty -/
theorem truthy_filteredJson (r : Filtered) : truthy (filteredJson r) = true := rfl

theorem truthy_searchedJson (models : List Item) : truthy (searchedJson models) = true ↔ models ≠ [] := by
  cases models with
  | nil => simp [searchedJson, truthy]
  | cons i models => simp [searchedJson, truthy]

theorem nonempty_eq (searched : Option (List Item)) :
    (searched.filter fun models => truthy (searchedJson models)) = searched.filter fun models => models ≠ [] := by
  cases searched with
  | none => rfl
  | some models =>
    rw [Option.filter_some, Option.filter_some]
    exact if_congr ((truthy_searchedJson models).trans (by simp)) rfl rfl

/-- **The context reads back as what both queries returned.** -/
theorem readContext_context (filtered : Option Filtered) (searched : Option (List Item)) :
    readContext (context filtered searched) = some (filtered, searched.filter fun models => models ≠ []) := by
  set block := contextBlock (filtered.map filteredJson) with hblock
  set rest := searchHead ++ contextBlock (searched.map searchedJson) with hrest
  have hline : ∀ c ∈ block, (decide (c ≠ '\n')) = true := by simpa using contextBlock_oneLine (filtered.map filteredJson)
  have hstop : ∀ c ∈ rest.head?, (decide (c ≠ '\n')) = false := by
    intro c hc
    have hhead : c = '\n' := Option.some.inj (hc.symm.trans (by rw [hrest]; rfl))
    simp [hhead]
  have hcontext : context filtered searched = filterHead ++ (block ++ rest) := by
    rw [context, hrest, hblock, List.append_assoc, List.append_assoc]
  obtain ⟨htake, hdrop⟩ := span_append hline hstop
  rw [readContext, hcontext, behind_append]
  simp only [Option.bind_eq_bind, Option.bind_some]
  rw [htake, hdrop, hrest, behind_append, hblock, Option.bind_some, readBlock_contextBlock readFiltered_filteredJson]
  have hsearched : ∀ models, readItems (searchedJson models) = some models := readItems_map
  rw [Option.bind_some, readBlock_contextBlock hsearched, Option.bind_some]
  have hfiltered : filtered.filter (fun r => truthy (filteredJson r)) = filtered := by
    cases filtered with
    | none => rfl
    | some r => rw [Option.filter_some, if_pos (truthy_filteredJson r)]
  rw [hfiltered, nonempty_eq]

/-- two contexts are the same only if they say the same -/
theorem context_injective {filtered filtered' : Option Filtered} {searched searched' : Option (List Item)}
    (h : context filtered searched = context filtered' searched') :
    filtered = filtered' ∧ (searched.getD [] = searched'.getD []) := by
  have hread := congrArg readContext h
  rw [readContext_context, readContext_context] at hread
  obtain ⟨hfiltered, hsearched⟩ := Prod.mk.inj (Option.some.inj hread)
  refine ⟨hfiltered, ?_⟩
  have hgetD : ∀ s : Option (List Item), (s.filter fun models => models ≠ []).getD [] = s.getD [] := by
    intro s
    cases s with
    | none => rfl
    | some models =>
      rw [Option.filter_some]
      by_cases hm : models = []
      · simp [hm]
      · simp [hm]
  rw [← hgetD searched, hsearched, hgetD]

/-! ## What the agents are asked -/

section

variable (R : Rounding) (u : Unicode) (depth : ℕ) (S : Services) (logArgs : Kwargs → List (Str × Option Str)) (ms : ℕ)
  (instructions : Str) (messages : List Rescore.Message)

theorem fst_runQuery {α : Type} (args : List (Str × Option Str)) (count : α → ℕ) (result : Except Str α) :
    (runQuery args count result ms).1 = result.toOption := by
  cases result with
  | error e => rfl
  | ok a => rfl

/-- the number of results that is logged of a query, and the error -/
def loggedOf {α : Type} (count : α → ℕ) (result : Except Str α) : Option ℕ × Option Str :=
  match result with
  | .error e => (none, some e)
  | .ok a => (some (count a), none)

theorem snd_runQuery {α : Type} (args : List (Str × Option Str)) (count : α → ℕ) (result : Except Str α) :
    ((runQuery args count result ms).2.resultCount, (runQuery args count result ms).2.error) = loggedOf count result := by
  cases result with
  | error e => rfl
  | ok a => rfl

/-- the planner returns, with a reply that is not nested deeper than the stack and has no size bound that is too large for a float -/
def Plans : Prop :=
  ∃ reply, S.planner (messages.map Chat.ofDialogue) = .ok reply ∧ ¬TooDeep R depth (reply.getD []) ∧
    ∀ k ∈ sizeKeys, ∀ n, Asks R depth (reply.getD []) k (.int n) → |(n : ℚ)| < Double.overflow

/-- **When there is a query and parameters, and which.** -/
theorem planned_iff :
    Plans R depth S messages ↔ ∃ reply plan kwargs, S.planner (messages.map Chat.ofDialogue) = .ok reply ∧
      parsePlan R depth (reply.getD []) = .ok plan ∧ filterKwargs R u plan = .ok kwargs ∧
      planned R u depth S messages = .ok (queryOf plan messages, kwargs) := by
  unfold Plans
  simp only [← Plan.completes_kwargsOf R depth _ u]
  refine ⟨?_, ?_⟩
  · rintro ⟨reply, hreply, kwargs, hkwargs⟩
    obtain ⟨plan, hplan, hfilter⟩ := bind_eq_ok.1 hkwargs
    exact ⟨reply, plan, kwargs, hreply, hplan, hfilter, by simp only [planned, hreply, hplan, hfilter]⟩
  · rintro ⟨reply, plan, kwargs, hreply, hplan, hfilter, -⟩
    exact ⟨reply, hreply, kwargs, bind_eq_ok.2 ⟨plan, hplan, hfilter⟩⟩

theorem planned_of_not (h : ¬Plans R depth S messages) : ∃ f, planned R u depth S messages = .error f := by
  cases hplanned : planned R u depth S messages with
  | error f => exact ⟨f, rfl⟩
  | ok p =>
    refine absurd ((planned_iff R u depth S messages).2 ?_) h
    unfold planned at hplanned
    split at hplanned
    next => cases hplanned
    next reply hreply =>
      split at hplanned
      next => cases hplanned
      next plan hplan =>
        split at hplanned
        next => cases hplanned
        next kwargs hkwargs =>
          exact ⟨reply, plan, kwargs, hreply, hplan, hkwargs, by simp only [planned, hreply, hplan, hkwargs]⟩

/-- an outcome whose agent was asked about these results of these tool calls, with what is logged of each -/
structure Asked (outcome : Outcome) (ask : Str) (calls : List (Tool × Option ℕ × Option Str)) : Prop where
  answer : outcome.1 = answered (S.agent (instructions ++ ask) (messages.map Chat.ofDialogue))
  logged : outcome.2.map (fun c => (c.1, c.2.resultCount, c.2.error)) = calls

/-- **A reply without JSON** leaves `single_round` with the query of `qdrant_only` and no filter. -/
theorem planned_of_prose {reply : Option Str} (h : S.planner (messages.map Chat.ofDialogue) = .ok reply)
    (hprose : ∀ c ∈ reply.getD [], c ≠ '{') : planned R u depth S messages = .ok (joinedUserTurns messages, Dict.empty) := by
  have hfind : Plan.find '{' (reply.getD []) = -1 := by
    have hnone : (reply.getD []).findIdx? (fun c => decide (c = '{')) = none := by
      simpa using hprose
    rw [Plan.find, hnone]
  have hbraced : Plan.braced (reply.getD []) = none := by
    rw [Plan.braced, hfind]
    exact if_pos (Or.inl (by decide))
  have hplan : parsePlan R depth (reply.getD []) = .ok [] := by
    rw [parsePlan, hbraced]
  rw [planned, h]
  dsimp only
  rw [hplan]
  rfl

end

end AgentPick.Baselines
