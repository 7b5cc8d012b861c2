/-
The activity log (`backend/src/core/agent_activity_log.py`; `backend/src/agent.py`, `request_scope`,
`_ActivityLoggingMiddleware`; the bookkeeping of `backend/src/tools.py`, `_run_tool`, and of `evaluation/systems.py`,
`_run_query`).

Requests, tool calls and calls of the language model run as coroutines in asyncio contexts. A context holds the current request
and the current dialogue; a task that is started copies the context. Between two awaits a coroutine is not interrupted, so the
events here are the stretches that touch the log. What a coroutine remembers across an await is its frame. Contexts, frames
and request objects are numbered.

The time stamp that the handler puts before a line is left out, so is `history_messages` of a request, which nothing reads.
Elapsed times are given in milliseconds as they are printed.

A line names the request that it is tagged with; a REQUEST START names the request that it starts.

Results:
- `effect_owned`, `effect_congr`: an event changes and reads only what belongs to the task of its context.
- `run_project`: so what a task holds after any interleaving, and the lines that name its requests, are what its events leave
  alone.
-/
import AgentPick.Core.Separate
import AgentPick.Backend.Messages

namespace AgentPick.ActivityLog

open AgentPick.Repr AgentPick.Messages

/-! ## The lines -/

def dec (n : ℕ) : Str := Nat.toDigits 10 n

/-- `" | ".join(parts)` -/
def bars (parts : List Str) : Str := " | ".toList.intercalate parts

structure DialogueContext where
  dialogueId : Str
  userTurn : ℕ
  userTurnsTotal : ℕ
  questionId : Str

/-- how a request is opened -/
structure Opening where
  messages : List Message
  streaming : Bool
  system : Str

/-- the message of `log_request_start` -/
def startMessage (T : Tables) (requestId : Str) (o : Opening) (dialogue : Option DialogueContext) : Str :=
  bars (["REQUEST START".toList, "id=".toList ++ requestId, "system=".toList ++ o.system,
      "stream=".toList ++ (if o.streaming then "True".toList else "False".toList)] ++
    (dialogue.elim [] fun d =>
      ["dialogue=".toList ++ d.dialogueId, "user_turn=".toList ++ dec d.userTurn ++ '/' :: dec d.userTurnsTotal] ++
        if d.questionId = [] then [] else ["q=".toList ++ d.questionId]) ++
    (if historyMessageCount o.messages = 0 then [] else ["history_messages=".toList ++ dec (historyMessageCount o.messages)]) ++
    ["query=".toList ++ repr T ((lastText o.messages).take 120)])

/-- `REQUEST END   | status=` -/
def endHead : Str := "REQUEST END   | status=".toList

/-- the message of `log_request_end` -/
def endMessage (failed : Bool) (toolCount ms : ℕ) : Str :=
  endHead ++ (if failed then "error".toList else "ok".toList) ++ " | tools_called=".toList ++
    dec toolCount ++ " | elapsed=".toList ++ dec ms ++ "ms".toList

/-- the tools that are logged -/
inductive Tool where
  | searchModels
  | filterModels
  | getModelDetails
deriving DecidableEq, Repr

def Tool.name : Tool → Str
  | .searchModels => "search_models".toList
  | .filterModels => "filter_models".toList
  | .getModelDetails => "get_model_details".toList

/-- `next_tool` -/
def labelOf (n : ℕ) (tool : Tool) : Str := "tool#".toList ++ (dec n ++ ' ' :: tool.name)

/-- how a tool call ended: the `str` of its arguments that are not None, and what it logs of the result -/
structure ToolCall where
  args : List (Str × Option Str)
  resultCount : Option ℕ
  error : Option Str
  ms : ℕ

/-- the message of `log_tool_call`; an error without text is logged as no error -/
def toolMessage (T : Tables) (label : Str) (call : ToolCall) : Str :=
  let argsStr := bars (call.args.filterMap fun a => a.2.map fun v => a.1 ++ '=' :: repr T (v.take 60))
  let elapsed := dec call.ms ++ "ms".toList
  match call.error with
  | some (c :: e) => bars [label, argsStr, "ERROR=".toList ++ (c :: e).take 80, elapsed]
  | _ => bars ([label, argsStr, call.resultCount.elim [] fun n => "results=".toList ++ dec n, elapsed].filter (· ≠ []))

/-- the message of `log_llm_loop_turn` -/
def turnMessage (turn : ℕ) (inputTokens : Option ℕ) (ms : ℕ) : Str :=
  bars (["LLM CALL | agent_loop_turn=".toList ++ dec turn] ++
    (inputTokens.elim [] fun n => ['~' :: dec n ++ " input tokens".toList]) ++ [dec ms ++ "ms".toList])

/-! ## The state -/

/-- the token that `_CTX.set` returns -/
structure Token where
  context : ℕ
  old : Option ℕ

/-- `RequestContext` -/
structure RequestContext where
  requestId : Str
  toolCount : ℕ
  llmLoopTurn : ℕ
  token : Option Token

/-- a context: `_CTX` and `_DIALOGUE_CTX` -/
structure Vars where
  ctx : Option ℕ
  dialogue : Option DialogueContext

/-- what a coroutine remembers -/
inductive Frame where
  /-- `request_scope`, with the request that it attached, if it did -/
  | scope (request : Option ℕ)
  /-- `_run_tool`, with its label -/
  | tool (label : Str)
  /-- the middleware, with its turn and its estimate -/
  | turn (turn : ℕ) (inputTokens : Option ℕ)
  /-- `dialogue_turn`, with the context and the old value of its token -/
  | dialogue (context : ℕ) (old : Option DialogueContext)

structure State where
  vars : ℕ → Option Vars
  frames : ℕ → Option Frame
  requests : ℕ → Option RequestContext
  log : List Str

/-- nothing runs -/
def start : State := ⟨fun _ => none, fun _ => none, fun _ => none, []⟩

inductive Act where
  /-- the context is made, without a current request -/
  | serve
  /-- a task is started in a copy of the context -/
  | spawn (child : ℕ)
  /-- `request_scope` is entered -/
  | enter (frame request : ℕ) (requestId : Str) (o : Opening)
  /-- it is left, by an exception or not -/
  | exit (frame : ℕ) (failed : Bool) (ms : ℕ)
  | toolBegin (frame : ℕ) (tool : Tool)
  | toolEnd (frame : ℕ) (call : ToolCall)
  /-- the middleware before `call_next`, for messages with so many characters -/
  | turnBegin (frame chars : ℕ)
  | turnEnd (frame ms : ℕ)
  /-- `call_next` raises -/
  | turnRaise (frame : ℕ)
  | dialogueEnter (frame : ℕ) (d : DialogueContext)
  | dialogueExit (frame : ℕ)

/-- something that runs in a context -/
structure Event where
  context : ℕ
  act : Act

/-- what an event does: to a context, to a frame, to a request, to the log -/
structure Effect where
  vars : Option (ℕ × Vars)
  frame : Option (ℕ × Option Frame)
  request : Option (ℕ × RequestContext)
  line : Option Str

/-- `current_context()` -/
def current (s : State) (c : ℕ) : Option (ℕ × RequestContext) := do
  let v ← s.vars c
  let r ← v.ctx
  let q ← s.requests r
  some (r, q)

/-- `"[id] "` -/
def tagOf (requestId : Str) : Str := '[' :: (requestId ++ [']', ' '])

/-- the line of `log_activity` -/
def line (s : State) (c : ℕ) (message : Str) : Str := (current s c).elim message fun p => tagOf p.2.requestId ++ message

/-- `request_scope` up to its `yield` -/
def enterEffect (T : Tables) (s : State) (c f r : ℕ) (requestId : Str) (o : Opening) (v : Vars) : Effect :=
  match v.ctx with
  | some _ => ⟨none, some (f, some (.scope none)), none, none⟩
  | none => ⟨some (c, { v with ctx := some r }), some (f, some (.scope (some r))), some (r, ⟨requestId, 0, 0, some ⟨c, none⟩⟩),
      some (line s c (startMessage T requestId o v.dialogue))⟩

/-- `detach`: a token of another context is given up -/
def detachVars (c : ℕ) (v : Vars) : Option Token → Option (ℕ × Vars)
  | some t => if t.context = c then some (c, { v with ctx := t.old }) else none
  | none => none

/-- `total_chars // 4 or None` -/
def estTokens (chars : ℕ) : Option ℕ := if chars / 4 = 0 then none else some (chars / 4)

/-- what an event does; `none` if it cannot happen -/
def effect (T : Tables) (s : State) (e : Event) : Option Effect :=
  let c := e.context
  match e.act with
  | .serve => if (s.vars c).isNone then some ⟨some (c, ⟨none, none⟩), none, none, none⟩ else none
  | .spawn child => (s.vars c).bind fun v => if (s.vars child).isNone then some ⟨some (child, v), none, none, none⟩ else none
  | .enter f r requestId o => (s.vars c).bind fun v =>
    if (s.frames f).isNone && (s.requests r).isNone then some (enterEffect T s c f r requestId o v) else none
  | .exit f failed ms => (s.vars c).bind fun v =>
    match s.frames f with
    | some (.scope none) => some ⟨none, some (f, none), none, none⟩
    | some (.scope (some r)) => (s.requests r).map fun q =>
      ⟨detachVars c v q.token, some (f, none), some (r, { q with token := none }), some (line s c (endMessage failed q.toolCount ms))⟩
    | _ => none
  | .toolBegin f tool => (s.vars c).bind fun _ =>
    if (s.frames f).isNone then
      match current s c with
      | some (r, q) => some ⟨none, some (f, some (.tool (labelOf (q.toolCount + 1) tool))),
          some (r, { q with toolCount := q.toolCount + 1 }), none⟩
      | none => some ⟨none, some (f, some (.tool tool.name)), none, none⟩
    else none
  | .toolEnd f call => (s.vars c).bind fun _ =>
    match s.frames f with
    | some (.tool label) => some ⟨none, some (f, none), none, some (line s c (toolMessage T label call))⟩
    | _ => none
  | .turnBegin f chars => (s.vars c).bind fun _ =>
    if (s.frames f).isNone then
      match current s c with
      | some (r, q) => some ⟨none, some (f, some (.turn (q.llmLoopTurn + 1) (estTokens chars))),
          some (r, { q with llmLoopTurn := q.llmLoopTurn + 1 }), none⟩
      | none => some ⟨none, some (f, some (.turn 1 (estTokens chars))), none, none⟩
    else none
  | .turnEnd f ms => (s.vars c).bind fun _ =>
    match s.frames f with
    | some (.turn turn inputTokens) => some ⟨none, some (f, none), none, some (line s c (turnMessage turn inputTokens ms))⟩
    | _ => none
  | .turnRaise f => (s.vars c).bind fun _ =>
    match s.frames f with
    | some (.turn _ _) => some ⟨none, some (f, none), none, none⟩
    | _ => none
  | .dialogueEnter f d => (s.vars c).bind fun v =>
    if (s.frames f).isNone then some ⟨some (c, { v with dialogue := some d }), some (f, some (.dialogue c v.dialogue)), none, none⟩
    else none
  | .dialogueExit f => (s.vars c).bind fun v =>
    match s.frames f with
    | some (.dialogue c' old) => if c' = c then some ⟨some (c, { v with dialogue := old }), some (f, none), none, none⟩ else none
    | _ => none

def State.apply (s : State) (x : Effect) : State where
  vars := x.vars.elim s.vars fun p => Function.update s.vars p.1 (some p.2)
  frames := x.frame.elim s.frames fun p => Function.update s.frames p.1 p.2
  requests := x.request.elim s.requests fun p => Function.update s.requests p.1 (some p.2)
  log := s.log ++ x.line.toList

def step (T : Tables) (s : State) (e : Event) : Option State := (effect T s e).map s.apply

def run (T : Tables) (s : State) (es : List Event) : Option State := es.foldlM (step T) s

/-! ## Whose line it is -/

/-- `uuid.uuid4().hex[:8]` -/
def IdText (x : Str) : Prop := x.length = 8 ∧ ∀ c ∈ x, c ∈ "0123456789abcdef".toList

instance : DecidablePred IdText := fun x =>
  @instDecidableAnd _ _ (Nat.decEq _ _) (List.decidableBAll (fun c => c ∈ "0123456789abcdef".toList) x)

/-- `REQUEST START | id=` -/
def startHead : Str := "REQUEST START | id=".toList

/-- the line names the request: it has its tag, or it is its first one -/
def Names (x l : Str) : Prop := tagOf x <+: l ∨ startHead ++ x ++ " | ".toList <+: l

instance (x l : Str) : Decidable (Names x l) := inferInstanceAs (Decidable (_ ∨ _))

theorem eq_of_append {x y a b : Str} (hx : IdText x) (hy : IdText y) (h : x ++ a = y ++ b) : x = y :=
  List.append_inj_left h (hx.1.trans hy.1.symm)

/-- how a line that names a request begins -/
theorem names_head {x l : Str} (h : Names x l) : (∃ t, l = '[' :: t) ∨ ∃ t, l = "REQUEST S".toList ++ t := by
  rcases h with h | h
  · obtain ⟨tail, rfl⟩ := h
    exact Or.inl ⟨_, rfl⟩
  · obtain ⟨tail, rfl⟩ := h
    have hsplit : startHead = "REQUEST S".toList ++ "TART | id=".toList := by decide
    refine Or.inr ⟨"TART | id=".toList ++ (x ++ (" | ".toList ++ tail)), ?_⟩
    rw [hsplit]
    simp only [List.append_assoc]

/-- a message that names nobody -/
def Unnamed (m : Str) : Prop := ∀ x, ¬Names x m

theorem unnamed_cons {c : Char} {l : Str} (hbracket : c ≠ '[') (hstart : c ≠ 'R') : Unnamed (c :: l) := by
  intro x h
  rcases names_head h with h | h
  · obtain ⟨t, ht⟩ := h
    exact hbracket (List.cons.inj ht).1
  · obtain ⟨t, ht⟩ := h
    exact hstart (List.cons.inj ht).1

/-- REQUEST END is no REQUEST START -/
theorem unnamed_endMessage (failed : Bool) (n ms : ℕ) : Unnamed (endMessage failed n ms) := by
  have hhead : ∃ t, endMessage failed n ms = "REQUEST E".toList ++ t := by
    have hsplit : endHead = "REQUEST E".toList ++ "ND   | status=".toList := by decide
    rw [endMessage, hsplit]
    simp only [List.append_assoc]
    exact ⟨_, rfl⟩
  obtain ⟨rest, hrest⟩ := hhead
  have hbracket : 'R' ≠ '[' := by decide
  have hnine : "REQUEST E".toList ≠ "REQUEST S".toList := by decide
  have hlength : "REQUEST E".toList.length = "REQUEST S".toList.length := by decide
  intro x h
  rw [hrest] at h
  rcases names_head h with h | h
  · obtain ⟨t, ht⟩ := h
    exact hbracket (List.cons.inj ht).1
  · obtain ⟨t, ht⟩ := h
    exact hnine (List.append_inj_left ht hlength)

theorem names_tag {x y m : Str} (hx : IdText x) (hy : IdText y) : Names x (tagOf y ++ m) ↔ x = y := by
  have hsplit : startHead = 'R' :: "EQUEST START | id=".toList := by decide
  have hbracket : 'R' ≠ '[' := by decide
  constructor
  · intro h
    rcases h with h | h
    · obtain ⟨tail, h⟩ := h
      rw [tagOf, tagOf, List.cons_append, List.cons_append, List.append_assoc, List.append_assoc] at h
      exact eq_of_append hx hy (List.cons.inj h).2
    · obtain ⟨tail, h⟩ := h
      rw [hsplit] at h
      exact (hbracket (List.cons.inj h).1).elim
  · intro h
    subst h
    exact Or.inl (List.prefix_append _ _)

theorem bars_cons_cons (a b : Str) (l : List Str) : bars (a :: b :: l) = a ++ " | ".toList ++ bars (b :: l) :=
  List.intercalate_cons_cons ..

/-- REQUEST START names its request and no other -/
theorem startMessage_eq (T : Tables) (y : Str) (o : Opening) (d : Option DialogueContext) :
    ∃ rest, startMessage T y o d = startHead ++ y ++ (" | ".toList ++ rest) := by
  have hsplit : startHead = "REQUEST START".toList ++ " | ".toList ++ "id=".toList := by decide
  rw [startMessage, hsplit]
  simp only [List.cons_append, bars_cons_cons, List.append_assoc]
  exact ⟨_, rfl⟩

theorem names_startMessage {T : Tables} {x y : Str} {o : Opening} {d : Option DialogueContext} (hx : IdText x) (hy : IdText y) :
    Names x (startMessage T y o d) ↔ x = y := by
  obtain ⟨rest, hrest⟩ := startMessage_eq T y o d
  have hsplit : startHead = 'R' :: "EQUEST START | id=".toList := by decide
  have hbracket : '[' ≠ 'R' := by decide
  rw [hrest]
  constructor
  · intro h
    rcases h with h | h
    · obtain ⟨tail, h⟩ := h
      rw [hsplit] at h
      exact (hbracket (List.cons.inj h).1).elim
    · obtain ⟨tail, h⟩ := h
      rw [List.append_assoc, List.append_assoc, List.append_assoc] at h
      exact eq_of_append hx hy (List.append_cancel_left h)
  · intro h
    subst h
    exact Or.inr ⟨rest, by rw [List.append_assoc]⟩

/-! ## What belongs to a task -/

/-- a label begins with the name of a tool, or with a number -/
def Label (label : Str) : Prop := ∃ c l, label = c :: l ∧ c ≠ '[' ∧ c ≠ 'R'

theorem unnamed_toolMessage {T : Tables} {label : Str} (h : Label label) (call : ToolCall) : Unnamed (toolMessage T label call) := by
  obtain ⟨c, l, rfl, hbracket, hstart⟩ := h
  have hbars : ∀ parts : List Str, ∃ t, bars ((c :: l) :: parts) = c :: t := by
    intro parts
    cases parts with
    | nil => exact ⟨l, by simp [bars]⟩
    | cons b parts =>
      rw [bars_cons_cons]
      exact ⟨_, rfl⟩
  have hhead : ∃ t, toolMessage T (c :: l) call = c :: t := by
    simp only [toolMessage]
    split
    · exact hbars _
    · rw [List.filter_cons_of_pos (p := fun x : Str => decide (x ≠ [])) (by simp)]
      exact hbars _
  obtain ⟨t, ht⟩ := hhead
  rw [ht]
  exact unnamed_cons hbracket hstart

theorem unnamed_turnMessage (turn : ℕ) (inputTokens : Option ℕ) (ms : ℕ) : Unnamed (turnMessage turn inputTokens ms) := by
  have hhead : ∃ t, turnMessage turn inputTokens ms = 'L' :: t := by
    cases inputTokens with
    | none => exact ⟨_, rfl⟩
    | some n => exact ⟨_, rfl⟩
  obtain ⟨t, ht⟩ := hhead
  rw [ht]
  exact unnamed_cons (by decide) (by decide)

section

variable {ι : Type}

/-- which task contexts, frames, requests and ids belong to -/
structure Naming (ι : Type) where
  context : ℕ → ι
  frame : ℕ → ι
  request : ℕ → ι
  id : Str → ι

/-- an event keeps to its task: what it names belongs to the task of its context -/
def Respects (N : Naming ι) (e : Event) : Prop :=
  match e.act with
  | .serve => True
  | .spawn child => N.context child = N.context e.context
  | .enter f r x _ =>
    N.frame f = N.context e.context ∧ N.request r = N.context e.context ∧ N.id x = N.context e.context ∧ IdText x
  | .exit f _ _ | .toolBegin f _ | .toolEnd f _ | .turnBegin f _ | .turnEnd f _ | .turnRaise f | .dialogueEnter f _
  | .dialogueExit f => N.frame f = N.context e.context

variable (N : Naming ι) (j : ι)

/-- a context, a frame and a request that keep to task j -/
def OwnVars (v : Vars) : Prop := ∀ r, v.ctx = some r → N.request r = j

def OwnFrame : Frame → Prop
  | .scope q => ∀ r, q = some r → N.request r = j
  | .tool label => Label label
  | _ => True

def OwnRequest (q : RequestContext) : Prop :=
  N.id q.requestId = j ∧ IdText q.requestId ∧ ∀ t, q.token = some t → ∀ r, t.old = some r → N.request r = j

/-- what tasks hold is their own -/
structure Inv (s : State) : Prop where
  vars : ∀ c v, s.vars c = some v → OwnVars N (N.context c) v
  frames : ∀ f x, s.frames f = some x → OwnFrame N (N.frame f) x
  requests : ∀ r q, s.requests r = some q → OwnRequest N (N.request r) q

/-- an effect on task j only -/
structure Owned (x : Effect) : Prop where
  vars : ∀ p, x.vars = some p → N.context p.1 = j ∧ OwnVars N j p.2
  frame : ∀ p, x.frame = some p → N.frame p.1 = j ∧ ∀ y, p.2 = some y → OwnFrame N j y
  request : ∀ p, x.request = some p → N.request p.1 = j ∧ OwnRequest N j p.2
  line : ∀ l, x.line = some l → ∀ y, IdText y → Names y l → N.id y = j

/-- two states that task j cannot tell apart: in what it holds, and in the lines of its requests -/
structure Agree (s t : State) : Prop where
  vars : ∀ c, N.context c = j → s.vars c = t.vars c
  frames : ∀ f, N.frame f = j → s.frames f = t.frames f
  requests : ∀ r, N.request r = j → s.requests r = t.requests r
  log : ∀ xs : List Str, (∀ x ∈ xs, IdText x ∧ N.id x = j) →
    (s.log.filter fun l => ∃ x ∈ xs, Names x l) = t.log.filter fun l => ∃ x ∈ xs, Names x l

variable {N j} {s t : State} {x : Effect}

theorem Inv.apply (hs : Inv N s) (hx : Owned N j x) : Inv N (s.apply x) := by
  obtain ⟨vars, frame, request, line⟩ := x
  refine ⟨fun c v hv => ?_, fun f y hy => ?_, fun r q hq => ?_⟩
  · cases vars with
    | none => exact hs.vars c v hv
    | some p =>
      obtain ⟨hown, hp⟩ := hx.vars p rfl
      change Function.update s.vars p.1 (some p.2) c = some v at hv
      by_cases hc : c = p.1
      · rw [hc, Function.update_self] at hv
        cases hv
        rwa [hc, hown]
      · rw [Function.update_of_ne hc] at hv
        exact hs.vars c v hv
  · cases frame with
    | none => exact hs.frames f y hy
    | some p =>
      obtain ⟨hown, hp⟩ := hx.frame p rfl
      change Function.update s.frames p.1 p.2 f = some y at hy
      by_cases hf : f = p.1
      · rw [hf, Function.update_self] at hy
        rw [hf, hown]
        exact hp y hy
      · rw [Function.update_of_ne hf] at hy
        exact hs.frames f y hy
  · cases request with
    | none => exact hs.requests r q hq
    | some p =>
      obtain ⟨hown, hp⟩ := hx.request p rfl
      change Function.update s.requests p.1 (some p.2) r = some q at hq
      by_cases hr : r = p.1
      · rw [hr, Function.update_self] at hq
        cases hq
        rwa [hr, hown]
      · rw [Function.update_of_ne hr] at hq
        exact hs.requests r q hq

theorem Agree.apply_own (h : Agree N j s t) (x : Effect) : Agree N j (s.apply x) (t.apply x) := by
  have hupdate : ∀ {α : Type} {f g : ℕ → α} {k : ℕ} {a : α} {n : ℕ}, f n = g n →
      Function.update f k a n = Function.update g k a n := by
    intro α f g k a n hfg
    by_cases hn : n = k
    · rw [hn, Function.update_self, Function.update_self]
    · rwa [Function.update_of_ne hn, Function.update_of_ne hn]
  obtain ⟨vars, frame, request, line⟩ := x
  refine ⟨fun c hc => ?_, fun f hf => ?_, fun r hr => ?_, fun xs hxs => ?_⟩
  · cases vars with
    | none => exact h.vars c hc
    | some p => exact hupdate (h.vars c hc)
  · cases frame with
    | none => exact h.frames f hf
    | some p => exact hupdate (h.frames f hf)
  · cases request with
    | none => exact h.requests r hr
    | some p => exact hupdate (h.requests r hr)
  · change ((s.log ++ line.toList).filter _) = (t.log ++ line.toList).filter _
    rw [List.filter_append, List.filter_append, h.log xs hxs]

theorem Agree.apply_other {i : ι} (h : Agree N i s t) (hx : Owned N j x) (hij : i ≠ j) : Agree N i (s.apply x) t := by
  obtain ⟨vars, frame, request, line⟩ := x
  refine ⟨fun c hc => ?_, fun f hf => ?_, fun r hr => ?_, fun xs hxs => ?_⟩
  · cases vars with
    | none => exact h.vars c hc
    | some p =>
      have hne : c ≠ p.1 := fun heq => hij (by rw [← hc, heq, (hx.vars p rfl).1])
      exact (Function.update_of_ne hne ..).trans (h.vars c hc)
  · cases frame with
    | none => exact h.frames f hf
    | some p =>
      have hne : f ≠ p.1 := fun heq => hij (by rw [← hf, heq, (hx.frame p rfl).1])
      exact (Function.update_of_ne hne ..).trans (h.frames f hf)
  · cases request with
    | none => exact h.requests r hr
    | some p =>
      have hne : r ≠ p.1 := fun heq => hij (by rw [← hr, heq, (hx.request p rfl).1])
      exact (Function.update_of_ne hne ..).trans (h.requests r hr)
  · change ((s.log ++ line.toList).filter _) = _
    rw [List.filter_append, h.log xs hxs]
    cases line with
    | none => exact List.append_nil _
    | some l =>
      have hno : ¬∃ x ∈ xs, Names x l := by
        intro hl
        obtain ⟨x, hmem, hl⟩ := hl
        obtain ⟨htext, hid⟩ := hxs x hmem
        exact hij (by rw [← hid, hx.line l rfl x htext hl])
      rw [Option.toList_some, List.filter_cons_of_neg (by simpa using hno)]
      exact List.append_nil _

theorem current_eq_some {c r : ℕ} {q : RequestContext} :
    current s c = some (r, q) ↔ ∃ v, s.vars c = some v ∧ v.ctx = some r ∧ s.requests r = some q := by
  simp only [current, Option.bind_eq_bind, Option.bind_eq_some_iff, Option.some.injEq, Prod.mk.injEq]
  constructor
  · intro h
    obtain ⟨v, hv, r', hr, q', hq, rfl, rfl⟩ := h
    exact ⟨v, hv, hr, hq⟩
  · intro h
    obtain ⟨v, hv, hr, hq⟩ := h
    exact ⟨v, hv, r, hr, q, hq, rfl, rfl⟩

/-- the current request of a context is one of its task -/
theorem Inv.current (hs : Inv N s) {c r : ℕ} {q : RequestContext} (h : current s c = some (r, q)) :
    N.request r = N.context c ∧ OwnRequest N (N.context c) q := by
  obtain ⟨v, hv, hr, hq⟩ := current_eq_some.1 h
  have hown := hs.vars c v hv r hr
  exact ⟨hown, hown ▸ hs.requests r q hq⟩

/-- a line names nobody but a request of the task, if the message does not -/
theorem Inv.line (hs : Inv N s) {c : ℕ} {m : Str} (hm : ∀ y, IdText y → Names y m → N.id y = N.context c) :
    ∀ y, IdText y → Names y (line s c m) → N.id y = N.context c := by
  intro y hy hnames
  cases hcurrent : ActivityLog.current s c with
  | none =>
    rw [ActivityLog.line, hcurrent] at hnames
    exact hm y hy hnames
  | some p =>
    obtain ⟨-, hid, htext, -⟩ := hs.current hcurrent
    rw [ActivityLog.line, hcurrent] at hnames
    rw [(names_tag hy htext).1 hnames, hid]

theorem Unnamed.owned {m : Str} (h : Unnamed m) (i : ι) : ∀ y, IdText y → Names y m → N.id y = i :=
  fun y _ hy => absurd hy (h y)

theorem owned_frame {f : ℕ} {y : Option Frame} (hf : N.frame f = j) (hy : ∀ z, y = some z → OwnFrame N j z) :
    Owned N j ⟨none, some (f, y), none, none⟩ := by
  refine ⟨fun p hp => (Option.some_ne_none p hp.symm).elim, fun p hp => ?_, fun p hp => (Option.some_ne_none p hp.symm).elim,
    fun l hl => (Option.some_ne_none l hl.symm).elim⟩
  cases hp
  exact ⟨hf, hy⟩

theorem Owned.withVars {v f r l} (h : Owned N j ⟨none, f, r, l⟩) (hv : ∀ p, v = some p → N.context p.1 = j ∧ OwnVars N j p.2) :
    Owned N j ⟨v, f, r, l⟩ := ⟨hv, h.frame, h.request, h.line⟩

theorem Owned.withRequest {v f l} {p : ℕ × RequestContext} (h : Owned N j ⟨v, f, none, l⟩)
    (hp : N.request p.1 = j ∧ OwnRequest N j p.2) : Owned N j ⟨v, f, some p, l⟩ := by
  refine ⟨h.vars, h.frame, fun p' hp' => ?_, h.line⟩
  cases hp'
  exact hp

theorem Owned.withLine {v f r} {l : Str} (h : Owned N j ⟨v, f, r, none⟩) (hl : ∀ y, IdText y → Names y l → N.id y = j) :
    Owned N j ⟨v, f, r, some l⟩ := by
  refine ⟨h.vars, h.frame, h.request, fun l' hl' => ?_⟩
  cases hl'
  exact hl

theorem owned_nothing {v} (hv : ∀ p, v = some p → N.context p.1 = j ∧ OwnVars N j p.2) : Owned N j ⟨v, none, none, none⟩ :=
  ⟨hv, fun p hp => (Option.some_ne_none p hp.symm).elim, fun p hp => (Option.some_ne_none p hp.symm).elim,
    fun l hl => (Option.some_ne_none l hl.symm).elim⟩

theorem label_name (tool : Tool) : Label tool.name := by
  cases tool with
  | searchModels => exact ⟨'s', "earch_models".toList, by decide, by decide, by decide⟩
  | filterModels => exact ⟨'f', "ilter_models".toList, by decide, by decide, by decide⟩
  | getModelDetails => exact ⟨'g', "et_model_details".toList, by decide, by decide, by decide⟩

theorem label_number (n : ℕ) (tool : Tool) : Label (labelOf n tool) :=
  ⟨'t', "ool#".toList ++ (dec n ++ ' ' :: tool.name), rfl, by decide, by decide⟩

/-- **What an event does, it does to its own task.** -/
theorem effect_owned {T : Tables} {e : Event} (he : Respects N e) (hs : Inv N s) (h : effect T s e = some x) :
    Owned N (N.context e.context) x := by
  obtain ⟨c, act⟩ := e
  have hnone : ∀ z, (none : Option Frame) = some z → OwnFrame N (N.context c) z := fun z hz => (Option.some_ne_none z hz.symm).elim
  cases act with
  | serve =>
    simp only [effect] at h
    split_ifs at h
    cases h
    refine owned_nothing fun p hp => ?_
    cases hp
    exact ⟨rfl, fun r hr => (Option.some_ne_none r hr.symm).elim⟩
  | spawn child =>
    simp only [effect, Option.bind_eq_some_iff] at h
    obtain ⟨v, hv, h⟩ := h
    split_ifs at h
    cases h
    refine owned_nothing fun p hp => ?_
    cases hp
    exact ⟨he, hs.vars c v hv⟩
  | enter f r y o =>
    obtain ⟨hf, hr, hid, htext⟩ := he
    simp only [effect, Option.bind_eq_some_iff] at h
    obtain ⟨v, hv, h⟩ := h
    split_ifs at h
    cases h
    simp only [enterEffect]
    split
    · refine owned_frame hf fun z hz => ?_
      cases hz
      exact fun q hq => (Option.some_ne_none q hq.symm).elim
    · have hframe : Owned N (N.context c) ⟨none, some (f, some (.scope (some r))), none, none⟩ := by
        refine owned_frame hf fun z hz => ?_
        cases hz
        intro q hq
        cases hq
        exact hr
      refine ((hframe.withVars fun p hp => ?_).withRequest ⟨hr, hid, htext, fun t ht => ?_⟩).withLine (hs.line fun z hz hnames => ?_)
      · cases hp
        refine ⟨rfl, fun q hq => ?_⟩
        cases hq
        exact hr
      · cases ht
        exact fun q hq => (Option.some_ne_none q hq.symm).elim
      · rw [(names_startMessage hz htext).1 hnames, hid]
  | exit f failed ms =>
    simp only [effect, Option.bind_eq_some_iff] at h
    obtain ⟨v, hv, h⟩ := h
    split at h
    · cases h
      exact owned_frame he hnone
    · next r hframe =>
      obtain ⟨q, hq, rfl⟩ := Option.map_eq_some_iff.1 h
      have hr : N.request r = N.context c := (hs.frames f _ hframe r rfl).trans he
      obtain ⟨hid, htext, htoken⟩ := hs.requests r q hq
      rw [hr] at hid htoken
      refine (((owned_frame he hnone).withVars fun p hp => ?_).withRequest ⟨hr, hid, htext, fun t ht => ?_⟩).withLine
        (hs.line ((unnamed_endMessage _ _ _).owned _))
      · cases ht' : q.token with
        | none =>
          rw [ht'] at hp
          cases hp
        | some t =>
          simp only [ht', detachVars] at hp
          split_ifs at hp
          cases hp
          exact ⟨rfl, htoken t ht'⟩
      · cases ht
    · cases h
  | toolBegin f tool =>
    simp only [effect, Option.bind_eq_some_iff] at h
    obtain ⟨v, hv, h⟩ := h
    split_ifs at h
    split at h
    · next r q hcurrent =>
      cases h
      obtain ⟨hr, hown⟩ := hs.current hcurrent
      refine (owned_frame he fun z hz => ?_).withRequest ⟨hr, hown⟩
      cases hz
      exact label_number _ tool
    · cases h
      refine owned_frame he fun z hz => ?_
      cases hz
      exact label_name tool
  | toolEnd f call =>
    simp only [effect, Option.bind_eq_some_iff] at h
    obtain ⟨v, hv, h⟩ := h
    split at h
    · next label hframe =>
      cases h
      exact (owned_frame he hnone).withLine (hs.line ((unnamed_toolMessage (hs.frames f _ hframe) call).owned _))
    · cases h
  | turnBegin f chars =>
    simp only [effect, Option.bind_eq_some_iff] at h
    obtain ⟨v, hv, h⟩ := h
    split_ifs at h
    split at h
    · next r q hcurrent =>
      cases h
      obtain ⟨hr, hown⟩ := hs.current hcurrent
      refine (owned_frame he fun z hz => ?_).withRequest ⟨hr, hown⟩
      cases hz
      exact trivial
    · cases h
      refine owned_frame he fun z hz => ?_
      cases hz
      exact trivial
  | turnEnd f ms =>
    simp only [effect, Option.bind_eq_some_iff] at h
    obtain ⟨v, hv, h⟩ := h
    split at h
    · cases h
      exact (owned_frame he hnone).withLine (hs.line ((unnamed_turnMessage _ _ _).owned _))
    · cases h
  | turnRaise f =>
    simp only [effect, Option.bind_eq_some_iff] at h
    obtain ⟨v, hv, h⟩ := h
    split at h
    · cases h
      exact owned_frame he hnone
    · cases h
  | dialogueEnter f d =>
    simp only [effect, Option.bind_eq_some_iff] at h
    obtain ⟨v, hv, h⟩ := h
    split_ifs at h
    cases h
    refine (owned_frame he fun z hz => ?_).withVars fun p hp => ?_
    · cases hz
      exact trivial
    · cases hp
      exact ⟨rfl, hs.vars c v hv⟩
  | dialogueExit f =>
    simp only [effect, Option.bind_eq_some_iff] at h
    obtain ⟨v, hv, h⟩ := h
    split at h
    · split_ifs at h
      cases h
      refine (owned_frame he hnone).withVars fun p hp => ?_
      cases hp
      exact ⟨rfl, hs.vars c v hv⟩
    · cases h

/-- **An event depends on its own task.** -/
theorem effect_congr {T : Tables} {e : Event} (he : Respects N e) (hs : Inv N s) (h : Agree N (N.context e.context) s t) :
    effect T t e = effect T s e := by
  obtain ⟨c, act⟩ := e
  have hvars : t.vars c = s.vars c := (h.vars c rfl).symm
  have hcurrent : current t c = current s c := by
    rw [current, current, hvars]
    cases hv : s.vars c with
    | none => rfl
    | some v =>
      cases hr : v.ctx with
      | none => simp [hr]
      | some r => simp [hr, h.requests r (hs.vars c v hv r hr)]
  have hline : ∀ m, line t c m = line s c m := fun m => by rw [line, line, hcurrent]
  cases act with
  | serve => simp only [effect, hvars]
  | spawn child => simp only [effect, hvars, h.vars child he]
  | enter f r y o => simp only [effect, enterEffect, hvars, hline, h.frames f he.1, h.requests r he.2.1]
  | exit f failed ms =>
    simp only [effect, hvars, hline, ← h.frames f he]
    cases hf : s.frames f with
    | none => rfl
    | some z =>
      cases z with
      | scope q =>
        cases q with
        | none => rfl
        | some r => simp only [h.requests r ((hs.frames f _ hf r rfl).trans he)]
      | _ => rfl
  | toolBegin f tool => simp only [effect, hvars, hcurrent, h.frames f he]
  | toolEnd f call => simp only [effect, hvars, hline, h.frames f he]
  | turnBegin f chars => simp only [effect, hvars, hcurrent, h.frames f he]
  | turnEnd f ms => simp only [effect, hvars, hline, h.frames f he]
  | turnRaise f => simp only [effect, hvars, h.frames f he]
  | dialogueEnter f d => simp only [effect, hvars, h.frames f he]
  | dialogueExit f => simp only [effect, hvars, h.frames f he]

/-- tasks are separate -/
theorem separation (T : Tables) (N : Naming ι) :
    Separation (step T) (fun e => N.context e.context) (Respects N) (Inv N) (Agree N) where
  inv he hs h := by
    obtain ⟨x, hx, rfl⟩ := Option.map_eq_some_iff.1 h
    exact hs.apply (effect_owned he hs hx)
  own he hs _ hagree h := by
    obtain ⟨x, hx, rfl⟩ := Option.map_eq_some_iff.1 h
    refine ⟨_, ?_, hagree.apply_own x⟩
    rw [step, effect_congr he hs hagree, hx, Option.map_some]
  other he hs hij hagree h := by
    obtain ⟨x, hx, rfl⟩ := Option.map_eq_some_iff.1 h
    exact hagree.apply_other (effect_owned he hs hx) hij

/-- nothing belongs to anybody before the first event -/
theorem inv_start (N : Naming ι) : Inv N start :=
  ⟨fun _ _ h => (Option.some_ne_none _ h.symm).elim, fun _ _ h => (Option.some_ne_none _ h.symm).elim,
    fun _ _ h => (Option.some_ne_none _ h.symm).elim⟩

theorem Agree.refl (s : State) : Agree N j s s := ⟨fun _ _ => rfl, fun _ _ => rfl, fun _ _ => rfl, fun _ _ => rfl⟩

/-- the events of a task -/
def eventsOf [DecidableEq ι] (N : Naming ι) (i : ι) (es : List Event) : List Event := es.filter fun e => N.context e.context = i

/-- what a task leaves in any interleaving is what its events leave alone -/
theorem run_project [DecidableEq ι] {T : Tables} {N : Naming ι} {es : List Event} (hes : ∀ e ∈ es, Respects N e)
    (hrun : run T start es = some s) (i : ι) : ∃ t, run T start (eventsOf N i es) = some t ∧ Agree N i s t :=
  (separation T N).project hes (inv_start N) (inv_start N) (.refl start) hrun

end

end AgentPick.ActivityLog
