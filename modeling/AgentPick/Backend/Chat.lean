/-
The chat route (`backend/app/routes/chat.py`, `chat_completions`; `openai_io.py`, `completion_response`, `sse_from_stream` when the
agent raises; `backend/src/agent.py`, `stream_reply`, `complete_reply`, `complete_task`), the dialogues that a client holds over
it, and those that the evaluation holds (`evaluation/systems.py`, `run_agent`).

A request has passed its schema. A client takes the content of a completion, and of a stream the contents of its frames once it
has seen [DONE]. While a stream goes on it reads what has come, but for the first bytes of a character that is not whole yet. It
keeps the dialogue and sends it whole with every turn.

ASSUMED OF THE AGENT FRAMEWORK: a run has updates with their texts and ends or raises an Exception; the text of a run that is not
streamed is the texts of its updates, one after another.
ASSUMED OF THE SERVER: what a body yields is sent; a body that raises is cut there.

Results:
- `answer_chatCompletions`: a client gets an answer iff the run ended, and up to space around it the same answer from a completion,
  a stream and a background task.
- `stream_cut`: a stream that is cut at any byte shows a start of the answer, and [DONE] iff the run ended and nothing is missing.
- `converse_eq`: a dialogue of plain turns over the route is the one that the evaluation holds with the agent, if that has the same
  runs streamed or not and never answers with nothing.
-/
import AgentPick.Backend.OpenaiIo
import AgentPick.Backend.ActivityLog
import AgentPick.Evaluation.Rescore

namespace AgentPick.Chat

open AgentPick.Text AgentPick.Repr AgentPick.Messages AgentPick.OpenaiIo

/-! ## The route -/

/-- `ChatCompletionRequest` -/
structure Request where
  model : Str
  messages : List ChatMessage
  stream : Bool

/-- what a run of an agent gives: the texts of its updates, and what it raises after them -/
structure Run where
  updates : List Str
  error : Option Str

def Run.text (run : Run) : Str := run.updates.flatten

/-- the agents: the one with the tools, and the plain one for background tasks -/
inductive Runner where
  | agent
  | task
deriving DecidableEq, Repr

/-- how an agent is asked -/
structure Call where
  runner : Runner
  messages : List Message
  streaming : Bool

/-- what `request_scope` logs of a call -/
def Call.opening (call : Call) : ActivityLog.Opening :=
  ⟨call.messages, call.streaming, if call.runner = .task then "task".toList else "agent".toList⟩

inductive Response where
  /-- `HTTPException` -/
  | refused (status : ℕ) (detail : Str)
  | completion (object : Json)
  /-- an event stream, and whether it is cut -/
  | stream (parts : List ByteArray) (cut : Bool)

/-- `completion_response` -/
def completionResponse (text completionId model : Str) (created : ℤ) : Json :=
  .obj [("id".toList, .str completionId), ("object".toList, .str "chat.completion".toList), ("created".toList, .int created),
    ("model".toList, .str model),
    ("choices".toList, .arr [.obj [("index".toList, .int 0),
      ("message".toList, .obj [("role".toList, .str assistant), ("content".toList, .str text)]),
      ("finish_reason".toList, .str "stop".toList)]]),
    ("usage".toList, .obj [("prompt_tokens".toList, .int 0), ("completion_tokens".toList, .int 0), ("total_tokens".toList, .int 0)])]

/-- `stream_reply` up to its end or its exception -/
def streamReply (run : Run) : List Str := run.updates.filter (· ≠ [])

/-- `complete_reply`, `complete_task` -/
def completeReply (run : Run) : Except Str Str := run.error.elim (.ok (strip run.text)) .error

/-- what `sse_from_stream` yields of pieces that are followed by an exception -/
def sseUntil (textChunks : List Str) (completionId model : Str) (created : ℤ) : List ByteArray :=
  let base := base completionId model created
  chunk base roleDelta none ::
    textChunks.flatMap fun piece => if piece ≠ [] then [chunk base (contentDelta piece) none] else []

/-- the stream of a run -/
def streamed (run : Run) (completionId model : Str) (created : ℤ) : Response :=
  match run.error with
  | none => .stream (sseFromStream (streamReply run) completionId model created) false
  | some _ => .stream (sseUntil (streamReply run) completionId model created) true

/-- the response to a run that is not streamed -/
def completed (request : Request) (run : Run) (completionId : Str) (created : ℤ) : Response :=
  match completeReply run with
  | .error e => .refused 500 ("Agent error: ".toList ++ e)
  | .ok text =>
    if request.stream then .stream (sseFromText text completionId request.model created) false
    else .completion (completionResponse text completionId request.model created)

section Route

variable (T : Tables) (u : Unicode) {σ : Type} (agents : σ → Call → Run × σ) (completionId : Str) (created : ℤ)

/-- `chat_completions` -/
def chatCompletions (request : Request) (s : σ) : Response × σ :=
  let userText := lastUserText T request.messages
  if userText = [] then (.refused 400 "No user message content provided".toList, s)
  else
    let agentMessages := toAgentMessages T request.messages
    let isTask := isOpenwebuiTask u userText
    if request.stream ∧ ¬isTask then
      let (run, s') := agents s ⟨.agent, agentMessages, true⟩
      (streamed run completionId request.model created, s')
    else
      let (run, s') := agents s ⟨if isTask then .task else .agent, agentMessages, false⟩
      (completed request run completionId created, s')

/-- the call that a request leads to -/
def callOf (request : Request) : Option Call :=
  let userText := lastUserText T request.messages
  if userText = [] then none
  else
    let isTask := isOpenwebuiTask u userText
    some ⟨if isTask then .task else .agent, toAgentMessages T request.messages, request.stream && !isTask⟩

end Route

/-! ## The client -/

def isDone : Event → Bool
  | .done => true
  | .frame _ => false

/-- `choices[0].message.content` -/
def contentOf (object : Json) : Option Str := do
  let choice ← (← object.get? "choices".toList).item? 0
  let content ← (← choice.get? "message".toList).get? "content".toList
  content.text?

/-- the answer that a client takes from a response -/
def Response.answer? : Response → Option Str
  | .refused _ _ => none
  | .completion object => contentOf object
  | .stream parts _ => (client parts).bind fun events => if events.any isDone then some (answer events) else none

/-- the events that a client has seen of a stream, of which these bytes have come -/
def seen (received : ByteArray) : Option (List Event) := do
  let datas ← Sse.decodeSoFar received
  datas.mapM readEvent

/-! ## What the client reads -/

section Reading

variable (completionId model : Str) (created : ℤ)

/-- the frames of a stream that is cut after some pieces -/
def framesUntil (pieces : List Str) : List Json :=
  let base := base completionId model created
  frame base roleDelta none :: (pieces.filter (· ≠ [])).map fun piece => frame base (contentDelta piece) none

theorem readEvent_framesUntil (pieces : List Str) :
    ∀ v ∈ framesUntil completionId model created pieces, readEvent v.dumps = some (.frame v) := by
  intro v hv
  rcases List.mem_cons.1 hv with rfl | hv
  · exact readEvent_dumps _ _ _
  · obtain ⟨piece, -, rfl⟩ := List.mem_map.1 hv
    exact readEvent_dumps _ _ _

theorem mapM_frames {objects : List Json} (h : ∀ v ∈ objects, readEvent v.dumps = some (.frame v)) :
    (objects.map Json.dumps).mapM readEvent = some (objects.map .frame) := by
  induction objects with
  | nil => rfl
  | cons v objects ih =>
    obtain ⟨hv, hobjects⟩ := List.forall_mem_cons.1 h
    rw [List.map_cons, List.mapM_cons, hv, ih hobjects]
    rfl

theorem sseUntil_eq (pieces : List Str) :
    sseUntil pieces completionId model created =
      (((framesUntil completionId model created pieces).map Json.dumps).map Sse.message).map Sse.encode := by
  simp only [sseUntil, flatMap_pieces, framesUntil, chunk_eq]
  simp

/-- the client sees the role and the pieces before the exception, no stop and no [DONE] -/
theorem client_sseUntil (pieces : List Str) :
    client (sseUntil pieces completionId model created) =
      some ((framesUntil completionId model created pieces).map .frame) := by
  have hlines : ∀ d ∈ (framesUntil completionId model created pieces).map Json.dumps, Sse.OneLine d := by
    intro d hd
    obtain ⟨v, -, rfl⟩ := List.mem_map.1 hd
    exact oneLine_dumps v
  have hdecode := Sse.decode_messages hlines
  rw [client, sseUntil_eq, Sse.joined_encode, ← List.flatMap_def, hdecode, Option.bind_eq_bind, Option.bind_some]
  exact mapM_frames (readEvent_framesUntil completionId model created pieces)

theorem any_isDone_events (pieces : List Str) : (events completionId model created pieces).any isDone = true := by
  rw [events, List.any_append]
  exact Bool.or_true _

theorem any_isDone_frames (objects : List Json) : (objects.map Event.frame).any isDone = false := by
  rw [List.any_map, List.any_eq_false]
  exact fun v _ => Bool.false_ne_true

theorem contentOf_completionResponse (text : Str) :
    contentOf (completionResponse text completionId model created) = some text := rfl

/-- the answer of a stream is its pieces -/
theorem answer?_stream (pieces : List Str) (cut : Bool) :
    (Response.stream (sseFromStream pieces completionId model created) cut).answer? = some pieces.flatten := by
  rw [Response.answer?, client_sseFromStream, Option.bind_some, any_isDone_events, if_pos rfl, answer_events]

theorem answer?_streamed (run : Run) :
    (streamed run completionId model created).answer? = if run.error = none then some run.text else none := by
  rw [streamed]
  cases herror : run.error with
  | none =>
    rw [if_pos rfl, answer?_stream, streamReply, Run.text]
    exact congrArg some List.flatten_filter_ne_nil
  | some e =>
    rw [if_neg (Option.some_ne_none e), Response.answer?, client_sseUntil, Option.bind_some, any_isDone_frames]
    exact if_neg Bool.false_ne_true

theorem answer?_completed (request : Request) (run : Run) :
    (completed request run completionId created).answer? = if run.error = none then some (strip run.text) else none := by
  rw [completed, completeReply]
  cases herror : run.error with
  | some e => rfl
  | none =>
    simp only [Option.elim_none, if_true]
    cases hstream : request.stream with
    | true => rw [if_pos rfl, sseFromText, answer?_stream, List.flatten_singleton]
    | false => exact contentOf_completionResponse _ _ _ _

end Reading

section Route

variable (T : Tables) (u : Unicode) {σ : Type} (agents : σ → Call → Run × σ) (completionId : Str) (created : ℤ)

/-- what the route does with a request that leads to a call -/
theorem chatCompletions_of_call {request : Request} {call : Call} (h : callOf T u request = some call) (s : σ) :
    chatCompletions T u agents completionId created request s =
      (if call.streaming then streamed (agents s call).1 completionId request.model created
        else completed request (agents s call).1 completionId created, (agents s call).2) := by
  rw [callOf] at h
  split_ifs at h with huser
  cases h
  rw [chatCompletions, if_neg huser]
  cases hstream : request.stream <;> cases htask : isOpenwebuiTask u (lastUserText T request.messages) <;> rfl

theorem chatCompletions_of_none {request : Request} (h : callOf T u request = none) (s : σ) :
    chatCompletions T u agents completionId created request s =
      (.refused 400 "No user message content provided".toList, s) := by
  have huser : lastUserText T request.messages = [] := by
    rw [callOf] at h
    split_ifs at h with huser
    exact huser
  rw [chatCompletions, if_pos huser]

/-- the answer to a request, up to space around it -/
theorem answer_of_call {request : Request} {call : Call} (h : callOf T u request = some call) (s : σ) :
    (chatCompletions T u agents completionId created request s).1.answer?.map strip =
      if (agents s call).1.error = none then some (strip (agents s call).1.text) else none := by
  rw [chatCompletions_of_call T u agents completionId created h]
  cases call.streaming with
  | true =>
    rw [if_pos rfl, answer?_streamed]
    split_ifs
    · rfl
    · rfl
  | false =>
    rw [if_neg Bool.false_ne_true, answer?_completed]
    split_ifs
    · exact congrArg some (strip_strip _)
    · rfl

/-- **A client gets an answer iff the run ended, and up to space around it always the same one**: from a completion, from a
stream and from a background task. Without a text of the user in the request no agent is asked. -/
theorem answer_chatCompletions (request : Request) (s : σ) :
    (chatCompletions T u agents completionId created request s).1.answer?.map strip =
        ((callOf T u request).bind fun call =>
          if (agents s call).1.error = none then some (strip (agents s call).1.text) else none) ∧
      (chatCompletions T u agents completionId created request s).2 =
        (callOf T u request).elim s fun call => (agents s call).2 := by
  cases hcall : callOf T u request with
  | some call =>
    refine ⟨answer_of_call T u agents completionId created hcall s, ?_⟩
    rw [chatCompletions_of_call T u agents completionId created hcall]
    rfl
  | none =>
    rw [chatCompletions_of_none T u agents completionId created hcall]
    exact ⟨rfl, rfl⟩

/-- the text by which a request is routed is the one that its call shows in the log -/
theorem lastText_callOf {request : Request} {call : Call} (h : callOf T u request = some call) :
    lastText call.opening.messages = lastUserText T request.messages ∧
      (call.runner = .task ↔ isOpenwebuiTask u (lastUserText T request.messages) = true) := by
  rw [callOf] at h
  split_ifs at h with huser
  cases h
  refine ⟨lastText_toAgentMessages T huser, ?_⟩
  cases isOpenwebuiTask u (lastUserText T request.messages) <;> simp

end Route

/-! ## A stream that is cut -/

/-- the parts are messages that read as the events -/
def Streams (parts : List ByteArray) (es : List Event) : Prop :=
  ∃ datas : List Str, (∀ d ∈ datas, Sse.OneLine d) ∧ parts = (datas.map Sse.message).map Sse.encode ∧
    datas.mapM readEvent = some es

theorem mapM_start {α β : Type} {f : α → Option β} {as as' : List α} {bs' : List β} (h : as <+: as')
    (hbs' : as'.mapM f = some bs') : ∃ bs, as.mapM f = some bs ∧ bs <+: bs' := by
  obtain ⟨rest, rfl⟩ := h
  rw [List.mapM_append, Option.bind_eq_bind] at hbs'
  obtain ⟨bs, hbs, hrest⟩ := Option.bind_eq_some_iff.1 hbs'
  obtain ⟨cs, -, hcs⟩ := Option.bind_eq_some_iff.1 hrest
  cases hcs
  exact ⟨bs, hbs, List.prefix_append bs cs⟩

theorem length_of_mapM {α β : Type} {f : α → Option β} {as : List α} {bs : List β} (h : as.mapM f = some bs) :
    bs.length = as.length := by
  induction as generalizing bs with
  | nil =>
    cases h
    rfl
  | cons a as ih =>
    rw [List.mapM_cons] at h
    obtain ⟨b, -, h⟩ := Option.bind_eq_some_iff.1 h
    obtain ⟨bs', hbs', h⟩ := Option.bind_eq_some_iff.1 h
    cases h
    rw [List.length_cons, List.length_cons, ih hbs']

/-- what is seen of a stream that is cut: its first events, and all of them iff nothing is missing -/
theorem Streams.cut {parts : List ByteArray} {events : List Event} (h : Streams parts events) {received missing : ByteArray}
    (hcut : received ++ missing = Sse.joined parts) :
    ∃ es, seen received = some es ∧ es <+: events ∧ (es = events ↔ missing = ByteArray.empty) := by
  obtain ⟨datas, hlines, rfl, hevents⟩ := h
  rw [Sse.joined_encode, ← List.flatMap_def] at hcut
  obtain ⟨ds, hds, hstart, hall⟩ := Sse.decodeSoFar_cut hlines hcut
  obtain ⟨es, hes, hfirst⟩ := mapM_start hstart hevents
  refine ⟨es, by rw [seen, hds]; exact hes, hfirst, ?_⟩
  rw [← hall]
  refine ⟨fun heq => hstart.eq_of_length ?_, fun heq => hfirst.eq_of_length ?_⟩
  · rw [← length_of_mapM hes, ← length_of_mapM hevents, heq]
  · rw [length_of_mapM hes, length_of_mapM hevents, heq]

theorem answer_start {es es' : List Event} (h : es <+: es') : answer es <+: answer es' := by
  obtain ⟨rest, rfl⟩ := h
  rw [answer, answer, List.filterMap_append, List.flatten_append]
  exact List.prefix_append _ _

/-- [DONE] is the last event -/
theorem eq_of_isDone {objects : List Json} {es : List Event} (h : es <+: objects.map .frame ++ [.done])
    (hdone : es.any isDone = true) : es = objects.map .frame ++ [.done] := by
  rcases List.prefix_concat_iff.1 h with heq | hfewer
  · exact heq
  · obtain ⟨rest, hrest⟩ := hfewer
    have hnone := any_isDone_frames objects
    rw [← hrest, List.any_append, hdone, Bool.true_or] at hnone
    exact absurd hnone (by decide)

section Cut

variable (completionId model : Str) (created : ℤ)

theorem streams_sseFromStream (pieces : List Str) :
    Streams (sseFromStream pieces completionId model created) (events completionId model created pieces) :=
  ⟨datas completionId model created pieces, oneLine_datas completionId model created pieces,
    sseFromStream_eq completionId model created pieces, mapM_readEvent (readEvent_frames completionId model created pieces)⟩

theorem streams_sseUntil (pieces : List Str) :
    Streams (sseUntil pieces completionId model created) ((framesUntil completionId model created pieces).map .frame) := by
  refine ⟨(framesUntil completionId model created pieces).map Json.dumps, fun d hd => ?_,
    sseUntil_eq completionId model created pieces, mapM_frames (readEvent_framesUntil completionId model created pieces)⟩
  obtain ⟨v, -, rfl⟩ := List.mem_map.1 hd
  exact oneLine_dumps v

/-- the frames before an exception are the first frames of the stream of the same pieces -/
theorem framesUntil_start (pieces : List Str) :
    (framesUntil completionId model created pieces).map Event.frame <+: events completionId model created pieces := by
  have hframes : frames completionId model created pieces = framesUntil completionId model created pieces ++
      [frame (base completionId model created) [] (some "stop".toList)] := rfl
  rw [events, hframes, List.map_append, List.append_assoc]
  exact List.prefix_append _ _

variable {completionId model created}

/-- what a client sees of the stream of some pieces that is cut -/
theorem cut_sseFromStream {pieces : List Str} {received missing : ByteArray}
    (hcut : received ++ missing = Sse.joined (sseFromStream pieces completionId model created)) :
    ∃ es, seen received = some es ∧ answer es <+: pieces.flatten ∧ (es.any isDone = true ↔ missing = ByteArray.empty) := by
  obtain ⟨es, hes, hstart, hall⟩ := (streams_sseFromStream completionId model created pieces).cut hcut
  refine ⟨es, hes, ?_, ?_⟩
  · rw [← answer_events completionId model created pieces]
    exact answer_start hstart
  · rw [← hall]
    refine ⟨fun hdone => eq_of_isDone hstart hdone, fun heq => ?_⟩
    rw [heq]
    exact any_isDone_events completionId model created pieces

theorem cut_sseUntil {pieces : List Str} {received missing : ByteArray}
    (hcut : received ++ missing = Sse.joined (sseUntil pieces completionId model created)) :
    ∃ es, seen received = some es ∧ answer es <+: pieces.flatten ∧ es.any isDone = false := by
  obtain ⟨es, hes, hstart, -⟩ := (streams_sseUntil completionId model created pieces).cut hcut
  refine ⟨es, hes, ?_, ?_⟩
  · rw [← answer_events completionId model created pieces]
    exact answer_start (hstart.trans (framesUntil_start completionId model created pieces))
  · obtain ⟨rest, hrest⟩ := hstart
    have hnone := any_isDone_frames (framesUntil completionId model created pieces)
    rw [← hrest, List.any_append, Bool.or_eq_false_iff] at hnone
    exact hnone.1

end Cut

/-- what the runner of a call gives out of a run: `complete_task` strips it, a stream does not -/
def Call.shown (call : Call) (run : Run) : Str := if call.streaming then run.text else strip run.text

/-- **A stream that is cut at any byte, also inside a character, shows a start of the answer**, and [DONE] iff the run ended and
nothing is missing. -/
theorem stream_cut {T : Tables} {u : Unicode} {σ : Type} {agents : σ → Call → Run × σ} {completionId : Str} {created : ℤ}
    {request : Request} {s : σ} {parts : List ByteArray} {cut : Bool} {received missing : ByteArray}
    (h : (chatCompletions T u agents completionId created request s).1 = .stream parts cut)
    (hcut : received ++ missing = Sse.joined parts) :
    ∃ call es, callOf T u request = some call ∧ seen received = some es ∧ answer es <+: call.shown (agents s call).1 ∧
      (es.any isDone = true ↔ missing = ByteArray.empty ∧ (agents s call).1.error = none) := by
  cases hcall : callOf T u request with
  | none =>
    rw [chatCompletions_of_none T u agents completionId created hcall] at h
    cases h
  | some call =>
    rw [chatCompletions_of_call T u agents completionId created hcall] at h
    refine ⟨call, ?_⟩
    simp only [true_and]
    generalize (agents s call).1 = run at h ⊢
    unfold Call.shown
    cases hstreaming : call.streaming with
    | true =>
      simp only [hstreaming, if_true, streamed] at h ⊢
      have hpieces : (streamReply run).flatten = run.text := List.flatten_filter_ne_nil
      rw [← hpieces]
      cases herror : run.error with
      | none =>
        rw [herror] at h
        cases h
        obtain ⟨es, hes, hanswer, hdone⟩ := cut_sseFromStream hcut
        exact ⟨es, hes, hanswer, by rw [hdone]; exact (and_iff_left rfl).symm⟩
      | some e =>
        rw [herror] at h
        cases h
        obtain ⟨es, hes, hanswer, hnone⟩ := cut_sseUntil hcut
        exact ⟨es, hes, hanswer, by rw [hnone]; simp⟩
    | false =>
      simp only [hstreaming, Bool.false_eq_true, if_false, completed, completeReply] at h ⊢
      cases herror : run.error with
      | some e =>
        rw [herror] at h
        cases h
      | none =>
        rw [herror] at h
        simp only [Option.elim_none] at h
        split_ifs at h
        cases h
        obtain ⟨es, hes, hanswer, hdone⟩ := cut_sseFromStream hcut
        rw [List.flatten_singleton] at hanswer
        exact ⟨es, hes, hanswer, by rw [hdone]; exact (and_iff_left rfl).symm⟩

/-- a request for a stream -/
def sampleRequest : Request := ⟨"agentpick".toList, [⟨user, .str "a model\nfor speech".toList⟩], true⟩

/-- an agent with a letter of two bytes in its answer -/
def cafeAgents (n : ℕ) (_ : Call) : Run × ℕ := (⟨["café".toList, "/b".toList], none⟩, n + 1)

/-- its stream as a text, and what of it comes before the letter and after it -/
def cafeText : Str := (datas "c".toList sampleRequest.model 0 ["café".toList, "/b".toList]).flatMap Sse.message

def beforeCut : Str := cafeText.takeWhile (· ≠ 'é')

def afterCut : Str := (cafeText.dropWhile (· ≠ 'é')).tail

theorem cafeText_eq : cafeText = beforeCut ++ 'é' :: afterCut := by
  have hletter : (cafeText.dropWhile (· ≠ 'é')).head? = some 'é' := by decide +kernel
  obtain ⟨rest, hrest⟩ := List.head?_eq_some_iff.1 hletter
  rw [beforeCut, afterCut, hrest, List.tail_cons, ← hrest, List.takeWhile_append_dropWhile]

/-- the cut is between the two bytes of the letter -/
theorem stream_cut_inside : ∃ call es, callOf .ascii .ascii sampleRequest = some call ∧
    seen (Sse.encode beforeCut ++ ⟨#[0xc3]⟩) = some es ∧ answer es <+: call.shown (cafeAgents 0 call).1 ∧
    (es.any isDone = true ↔
      ⟨#[0xa9]⟩ ++ Sse.encode afterCut = ByteArray.empty ∧ (cafeAgents 0 call).1.error = none) := by
  have hcall : callOf .ascii .ascii sampleRequest = some ⟨.agent, toAgentMessages .ascii sampleRequest.messages, true⟩ := by
    have huser : lastUserText .ascii sampleRequest.messages ≠ [] := by decide
    have htask : isOpenwebuiTask .ascii (lastUserText .ascii sampleRequest.messages) = false := by decide
    simp only [callOf, if_neg huser, htask]
    rfl
  have hresponse : (chatCompletions .ascii .ascii cafeAgents "c".toList 0 sampleRequest 0).1 =
      .stream (sseFromStream ["café".toList, "/b".toList] "c".toList sampleRequest.model 0) false := by
    rw [chatCompletions_of_call _ _ _ _ _ hcall]
    rfl
  have hletter : Sse.encode ['é'] = ⟨#[0xc3]⟩ ++ ⟨#[0xa9]⟩ := by decide
  have hcut : (Sse.encode beforeCut ++ ⟨#[0xc3]⟩) ++ (⟨#[0xa9]⟩ ++ Sse.encode afterCut) =
      Sse.joined (sseFromStream ["café".toList, "/b".toList] "c".toList sampleRequest.model 0) := by
    calc (Sse.encode beforeCut ++ ⟨#[0xc3]⟩) ++ (⟨#[0xa9]⟩ ++ Sse.encode afterCut)
        = Sse.encode beforeCut ++ (Sse.encode ['é'] ++ Sse.encode afterCut) := by
          rw [hletter, ByteArray.append_assoc, ByteArray.append_assoc]
      _ = Sse.encode cafeText := by rw [cafeText_eq, ← Sse.encode_append, ← Sse.encode_append]; rfl
      _ = _ := by rw [sseFromStream_eq, Sse.joined_encode, ← List.flatMap_def]; rfl
  exact stream_cut hresponse hcut

/-! ## Dialogues -/

section Dialogue

variable (T : Tables) (u : Unicode) {σ : Type} (agents : σ → Call → Run × σ) (completionId model : Str) (created : ℤ)

/-- the rest of a dialogue over the route: the client sends all that was said with every turn, streamed or not, and stops where
it gets no answer -/
def converse (history : List ChatMessage) (answers : List Str) : List (Str × Bool) → σ → Option (List Str) × σ
  | [], s => (some answers, s)
  | (turn, stream) :: rest, s =>
    let said := history ++ [⟨user, .str turn⟩]
    let (response, s') := chatCompletions T u agents completionId created ⟨model, said, stream⟩ s
    match response.answer? with
    | none => (none, s')
    | some answer => converse (said ++ [⟨assistant, .str answer⟩]) (answers ++ [answer]) rest s'

/-- `_to_agent_messages` -/
def ofDialogue (m : Rescore.Message) : Message :=
  match m.role with
  | .user => ⟨user, m.content⟩
  | .assistant => ⟨assistant, m.content⟩

/-- `run_agent` -/
def runAgent (chatModel : Str) (now : σ → ℚ) : Rescore.System σ where
  name := "agent".toList
  chatModel := chatModel
  call s messages :=
    let (run, s') := agents s ⟨.agent, messages.map ofDialogue, false⟩
    (completeReply run, s')
  now := now

/-- no answer in the rest of a dialogue of a system is empty -/
def Speaks (sys : Rescore.System σ) (messages : List Rescore.Message) : List Str → σ → Prop
  | [], _ => True
  | turn :: rest, s => ∀ answer s', sys.call s (messages ++ [⟨.user, turn⟩]) = (.ok answer, s') →
      answer ≠ [] ∧ Speaks sys (messages ++ [⟨.user, turn⟩] ++ [⟨.assistant, answer⟩]) rest s'

/-- a turn that is sent as it is said: not empty, no space around it, and no background task -/
def PlainTurn (turn : Str) : Prop := turn ≠ [] ∧ strip turn = turn ∧ isOpenwebuiTask u turn = false

variable {T u agents completionId model created}

theorem toAgentMessages_append (history : List ChatMessage) (m : ChatMessage) :
    toAgentMessages T (history ++ [m]) = toAgentMessages T history ++ (agentMessage T m).toList := by
  rw [toAgentMessages, toAgentMessages, List.filterMap_append]
  cases h : agentMessage T m with
  | none => rw [List.filterMap_cons_none h, List.filterMap_nil, Option.toList_none]
  | some out => rw [List.filterMap_cons_some h, List.filterMap_nil, Option.toList_some]

/-- what goes to the agent of a turn that has text -/
theorem agentMessage_str {role s t : Str} (hrole : role = user ∨ role = assistant) (hs : strip s = t) (ht : t ≠ []) :
    agentMessage T ⟨role, .str s⟩ = some ⟨role, t⟩ :=
  (agentMessage_eq_some T).2 ⟨hrole, by rwa [text, hs], by rw [text, hs]⟩

/-- the call for a plain turn -/
theorem callOf_turn {history : List ChatMessage} {turn : Str} (h : PlainTurn u turn) (stream : Bool) :
    callOf T u ⟨model, history ++ [⟨user, .str turn⟩], stream⟩ =
      some ⟨.agent, toAgentMessages T history ++ [⟨user, turn⟩], stream⟩ := by
  obtain ⟨hne, hstrip, htask⟩ := h
  have hlast : lastUserText T (history ++ [⟨user, .str turn⟩]) = turn := by
    rw [lastUserText, List.reverse_append, List.reverse_singleton, List.singleton_append, List.find?_cons_of_pos (by simp)]
    exact hstrip
  have hmessage := agentMessage_str (T := T) (Or.inl rfl) hstrip hne
  simp only [callOf, hlast, if_neg hne, htask, toAgentMessages_append, hmessage, Option.toList_some, Bool.not_false,
    Bool.and_true, Bool.false_eq_true, if_false]

theorem converse_cons (history : List ChatMessage) (answers : List Str) (turn : Str) (stream : Bool) (rest : List (Str × Bool))
    (s : σ) {response : Response} {s' : σ}
    (h : chatCompletions T u agents completionId created ⟨model, history ++ [⟨user, .str turn⟩], stream⟩ s = (response, s')) :
    converse T u agents completionId model created history answers ((turn, stream) :: rest) s =
      response.answer?.elim (none, s') fun answer => converse T u agents completionId model created
        (history ++ [⟨user, .str turn⟩] ++ [⟨assistant, .str answer⟩]) (answers ++ [answer]) rest s' := by
  rw [converse]
  simp only [h]
  cases response.answer? with
  | none => rfl
  | some answer => rfl

/-- the answer to a plain turn is what `complete_reply` gives -/
theorem answer_of_turn (hstream : ∀ s messages, agents s ⟨.agent, messages, true⟩ = agents s ⟨.agent, messages, false⟩)
    {history : List ChatMessage} {turn : Str} (h : PlainTurn u turn) (stream : Bool) {s s' : σ} {run : Run}
    (hrun : agents s ⟨.agent, toAgentMessages T history ++ [⟨user, turn⟩], false⟩ = (run, s')) :
    ∃ response, chatCompletions T u agents completionId created ⟨model, history ++ [⟨user, .str turn⟩], stream⟩ s =
        (response, s') ∧ response.answer?.map strip = (completeReply run).toOption := by
  have hcall : callOf T u ⟨model, history ++ [⟨user, .str turn⟩], stream⟩ = _ := callOf_turn h stream
  have hasked : agents s ⟨.agent, toAgentMessages T history ++ [⟨user, turn⟩], stream⟩ = (run, s') := by
    cases stream with
    | true => rw [hstream, hrun]
    | false => exact hrun
  have hanswer := answer_of_call T u agents completionId created hcall s
  rw [chatCompletions_of_call T u agents completionId created hcall, hasked] at hanswer ⊢
  refine ⟨_, rfl, ?_⟩
  rw [hanswer, completeReply]
  cases run.error with
  | none => rfl
  | some e => rfl

/-- **The rest of a dialogue over the route is the rest of the one that the evaluation holds**, when the agent saw the same
messages so far. -/
theorem converse_eq_runTurns {chatModel : Str} {now : σ → ℚ}
    (hstream : ∀ s messages, agents s ⟨.agent, messages, true⟩ = agents s ⟨.agent, messages, false⟩)
    {turns : List (Str × Bool)} (hturns : ∀ t ∈ turns, PlainTurn u t.1) {history : List ChatMessage}
    {messages : List Rescore.Message} (hsaid : toAgentMessages T history = messages.map ofDialogue) (answers : List Str) {s : σ}
    (hspeaks : Speaks (runAgent agents chatModel now) messages (turns.map Prod.fst) s) :
    (converse T u agents completionId model created history answers turns s).1.map (List.map strip) =
        (Rescore.runTurns (runAgent agents chatModel now) messages (answers.map strip) (turns.map Prod.fst) s).1.toOption ∧
      (converse T u agents completionId model created history answers turns s).2 =
        (Rescore.runTurns (runAgent agents chatModel now) messages (answers.map strip) (turns.map Prod.fst) s).2 := by
  induction turns generalizing history messages answers s with
  | nil => exact ⟨rfl, rfl⟩
  | cons t rest ih =>
    obtain ⟨turn, stream⟩ := t
    obtain ⟨hturn, hrest⟩ := List.forall_mem_cons.1 hturns
    -- both ask the agent for the same messages
    have hsame : (messages ++ [(⟨.user, turn⟩ : Rescore.Message)]).map ofDialogue =
        toAgentMessages T history ++ [⟨user, turn⟩] := by
      rw [hsaid, List.map_append]
      rfl
    rcases hrun : agents s ⟨.agent, toAgentMessages T history ++ [⟨user, turn⟩], false⟩ with ⟨run, s'⟩
    obtain ⟨response, hresponse, hanswer⟩ : ∃ response,
        chatCompletions T u agents completionId created ⟨model, history ++ [⟨user, .str turn⟩], stream⟩ s = (response, s') ∧
          response.answer?.map strip = (completeReply run).toOption := answer_of_turn hstream hturn stream hrun
    have hcalled : (runAgent agents chatModel now).call s (messages ++ [⟨.user, turn⟩]) = (completeReply run, s') := by
      simp only [runAgent, hsame, hrun]
    rw [converse_cons _ _ _ _ _ _ hresponse, List.map_cons, Rescore.runTurns, hcalled]
    rw [List.map_cons, Speaks, hcalled] at hspeaks
    obtain ⟨hne, hstrip, -⟩ := hturn
    cases hreply : completeReply run with
    | error e =>
      rw [hreply] at hanswer
      rw [Option.map_eq_none_iff.1 hanswer]
      exact ⟨rfl, rfl⟩
    | ok reply =>
      rw [hreply] at hanswer
      obtain ⟨answer, hanswer, hstripped⟩ := Option.map_eq_some_iff.1 hanswer
      obtain ⟨hspoken, hspeaks⟩ := hspeaks reply s' (by rw [hreply])
      rw [hanswer, Option.elim_some]
      -- the answer comes back as the evaluation keeps it
      have hback := agentMessage_str (T := T) (Or.inr rfl) hstripped hspoken
      have hmessage := agentMessage_str (T := T) (Or.inl rfl) hstrip hne
      have hsaid' : toAgentMessages T (history ++ [⟨user, .str turn⟩] ++ [⟨assistant, .str answer⟩]) =
          (messages ++ [(⟨.user, turn⟩ : Rescore.Message)] ++ [(⟨.assistant, reply⟩ : Rescore.Message)]).map ofDialogue := by
        rw [toAgentMessages_append, toAgentMessages_append, hmessage, hback, hsaid, List.map_append, List.map_append]
        rfl
      have hnext := ih hrest hsaid' (answers ++ [answer]) hspeaks
      rw [List.map_append, List.map_singleton, hstripped] at hnext
      exact hnext

/-- **A dialogue over the route is the one that the evaluation holds with the agent**: the same answers up to space around them,
whichever turns are streamed, and none at all where a run raises. -/
theorem converse_eq {chatModel : Str} {now : σ → ℚ}
    (hstream : ∀ s messages, agents s ⟨.agent, messages, true⟩ = agents s ⟨.agent, messages, false⟩)
    {turns : List (Str × Bool)} (hturns : ∀ t ∈ turns, PlainTurn u t.1) {s : σ}
    (hspeaks : Speaks (runAgent agents chatModel now) [] (turns.map Prod.fst) s) :
    (converse T u agents completionId model created [] [] turns s).1.map (List.map strip) =
        (Rescore.runDialogue (runAgent agents chatModel now) (turns.map Prod.fst) s).1.toOption ∧
      (converse T u agents completionId model created [] [] turns s).2 =
        (Rescore.runDialogue (runAgent agents chatModel now) (turns.map Prod.fst) s).2 :=
  converse_eq_runTurns hstream hturns rfl [] hspeaks

/-- an agent that always answers the same in two updates, and counts -/
def sampleAgents (n : ℕ) (_ : Call) : Run × ℕ := (⟨["try ".toList, "a/b".toList], none⟩, n + 1)

/-- a turn that is streamed, and one that is not -/
def sampleTurns : List (Str × Bool) := [("a chat model".toList, true), ("a smaller one".toList, false)]

theorem converse_eq_sample :
    (converse .ascii .ascii sampleAgents "c".toList "agentpick".toList 0 [] [] sampleTurns 0).1.map (List.map strip) =
        (Rescore.runDialogue (runAgent sampleAgents "gpt".toList fun _ => 0) (sampleTurns.map Prod.fst) 0).1.toOption ∧
      (converse .ascii .ascii sampleAgents "c".toList "agentpick".toList 0 [] [] sampleTurns 0).2 =
        (Rescore.runDialogue (runAgent sampleAgents "gpt".toList fun _ => 0) (sampleTurns.map Prod.fst) 0).2 := by
  have hanswer : ∀ s messages answer s', (runAgent sampleAgents "gpt".toList fun _ => 0).call s messages = (.ok answer, s') →
      answer ≠ [] := by
    intro s messages answer s' h
    have hreply : strip ("try ".toList ++ ("a/b".toList ++ [])) ≠ [] := by decide
    cases h
    exact hreply
  refine converse_eq (fun _ _ => rfl) ?_ ?_
  · simp only [sampleTurns, List.forall_mem_cons]
    exact ⟨⟨by decide, by decide, by decide⟩, ⟨by decide, by decide, by decide⟩,
      fun t ht => absurd ht List.not_mem_nil⟩
  · exact fun answer s' h => ⟨hanswer _ _ _ _ h, fun answer s' h => ⟨hanswer _ _ _ _ h, trivial⟩⟩

end Dialogue

end AgentPick.Chat
